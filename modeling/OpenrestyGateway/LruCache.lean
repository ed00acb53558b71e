import OpenrestyGateway.Library.Ring
import OpenrestyGateway.Library.Recency
import Mathlib.Algebra.Order.Field.Rat
import Mathlib.Data.Rat.Floor

/-!
resty/lrucache.lua: a cache of fixed size in two circular queues of nodes.

The free queue holds the nodes without a key, the cache queue those with one, the most
recently used first. The tables lead from keys to values and nodes, and back.
-/
namespace OpenrestyGateway
namespace LruCache
open Ring

/-- The nodes of the array of the free queue, whose first is its head, and the head of the
cache queue. -/
inductive Node where
  | free (i : Nat)
  | cache
  deriving DecidableEq

def freeQueue : Node := .free 0

def cacheQueue : Node := .cache

/-! ### The queues -/

def queueInit (m : Links Node) (h : Node) (nodes : List Node) : Links Node := m.row h h nodes

def queueInsertTail (m : Links Node) (h x : Node) : Option (Links Node) := m.pushBack h x

def queueInsertHead (m : Links Node) (h x : Node) : Option (Links Node) := m.pushFront h x

def queueRemove (m : Links Node) (x : Node) : Option (Links Node) := m.unlink x

def queueIsEmpty (m : Links Node) (h : Node) : Bool := m.prev h == some h

def queueLast (m : Links Node) (h : Node) : Option Node := m.prev h

def queueHead (m : Links Node) (h : Node) : Option Node := m.next h

/-! ### The cache -/

/-- `links`, `expire` and `userFlags` are the fields of the nodes. -/
structure Cache (κ α : Type) where
  hasht : κ → Option α
  links : Links Node
  expire : Node → ℚ
  userFlags : Node → Nat
  key2node : κ → Option Node
  node2key : Node → Option κ
  numItems : Int
  maxItems : Nat

/-- The results of get: the value, or the value that has expired, and the flags. -/
structure Got (α : Type) where
  value : Option α
  stale : Option α
  flags : Option Nat
  deriving DecidableEq

def slots (size : Nat) : List Node := (List.range size).map (fun i => .free (i + 1))

variable {κ α : Type}

def new (size : Nat) : Option (Cache κ α) :=
  if size < 1 then none
  else some {
    hasht := fun _ => none
    links := queueInit (queueInit Links.empty freeQueue (slots size)) cacheQueue []
    expire := fun _ => 0
    userFlags := fun _ => 0
    key2node := fun _ => none
    node2key := fun _ => none
    numItems := 0
    maxItems := size }

section Operations
variable [DecidableEq κ] (self : Cache κ α)

def count : Int := self.numItems

def capacity : Nat := self.maxItems

/-- Nothing for a read through a NULL pointer or of a node that is nil. -/
def get (key : κ) (now : ℚ) : Option (Got α × Cache κ α) :=
  match self.hasht key with
  | none => some (⟨none, none, none⟩, self)
  | some val => do
      let node ← self.key2node key
      let links ← queueRemove self.links node
      let links ← queueInsertHead links cacheQueue node
      let self := { self with links := links }
      if 0 ≤ self.expire node ∧ self.expire node < now then
        return (⟨none, some val, some (self.userFlags node)⟩, self)
      else return (⟨some val, none, some (self.userFlags node)⟩, self)

def delete (key : κ) : Option (Bool × Cache κ α) :=
  let self := { self with hasht := Function.update self.hasht key none }
  match self.key2node key with
  | none => some (false, self)
  | some node => do
      let links ← queueRemove self.links node
      let links ← queueInsertTail links freeQueue node
      return (true, { self with
        key2node := Function.update self.key2node key none
        node2key := Function.update self.node2key node none
        links := links
        numItems := self.numItems - 1 })

/-- The node of a new key: the least recently used one where no node is free. Its old key
is forgotten. -/
def newNode (self : Cache κ α) : Option (Node × Cache κ α) :=
  if queueIsEmpty self.links freeQueue then do
    let node ← queueLast self.links cacheQueue
    match self.node2key node with
    | none => return (node, self)
    | some oldkey => return (node, { self with
        hasht := Function.update self.hasht oldkey none
        key2node := Function.update self.key2node oldkey none })
  else do
    let node ← queueHead self.links freeQueue
    return (node, { self with numItems := self.numItems + 1 })

def nodeFor (self : Cache κ α) (key : κ) : Option (Node × Cache κ α) :=
  match self.key2node key with
  | some node => some (node, self)
  | none => do
      let (node, self) ← newNode self
      return (node, { self with
        node2key := Function.update self.node2key node (some key)
        key2node := Function.update self.key2node key (some node) })

def expiry (ttl : Option ℚ) (now : ℚ) : ℚ := ttl.elim (-1) (fun ttl => now + ttl)

/-- Flags are stored as a number of 32 bits. -/
def storedFlags (flags : Option ℚ) : Nat :=
  flags.elim 0 (fun q => if 0 ≤ q then ⌊q⌋.toNat % 2 ^ 32 else 0)

/-- `flags` is nothing where the argument is no number. -/
def set (key : κ) (value : Option α) (ttl flags : Option ℚ) (now : ℚ) :
    Option (Cache κ α) := do
  let self := { self with hasht := Function.update self.hasht key value }
  let (node, self) ← nodeFor self key
  let links ← queueRemove self.links node
  let links ← queueInsertHead links cacheQueue node
  return { self with
    links := links
    expire := Function.update self.expire node (expiry ttl now)
    userFlags := Function.update self.userFlags node (storedFlags flags) }

/-- The walk of get_keys from a node on, for at most so many nodes. -/
def walk (self : Cache κ α) : Nat → Node → Option (List (Option κ))
  | 0, _ => some []
  | n + 1, node =>
      if node = cacheQueue then some []
      else do
        let next ← self.links.next node
        let rest ← walk self n next
        return self.node2key node :: rest

def getKeys (maxCount : Option Nat) : Option (List (Option κ)) := do
  let n := match maxCount with
    | none | some 0 => self.numItems.toNat
    | some (m + 1) => m + 1
  let node ← queueHead self.links cacheQueue
  walk self n node

def flushAll : Option (Cache κ α) := do
  let self := { self with
    hasht := fun _ => none
    node2key := fun _ => none
    key2node := fun _ => none
    numItems := 0 }
  if queueIsEmpty self.links cacheQueue then return self
  else
    let links ← self.links.splice freeQueue cacheQueue
    return { self with links := links }

end Operations

/-! ### Runs -/

inductive Op (κ α : Type) where
  | get (key : κ) (now : ℚ)
  | set (key : κ) (value : Option α) (ttl flags : Option ℚ) (now : ℚ)
  | delete (key : κ)
  | getKeys (maxCount : Option Nat)
  | flushAll
  | count
  | capacity

inductive Answer (κ α : Type) where
  | got (r : Got α)
  | done
  | deleted (found : Bool)
  | keys (ks : List (Option κ))
  | number (n : Int)
  deriving DecidableEq

section Runs
variable [DecidableEq κ]

def step (self : Cache κ α) : Op κ α → Option (Answer κ α × Cache κ α)
  | .get key now => (get self key now).map (fun r => (.got r.1, r.2))
  | .set key value ttl flags now => (set self key value ttl flags now).map (fun s => (.done, s))
  | .delete key => (delete self key).map (fun r => (.deleted r.1, r.2))
  | .getKeys maxCount => (getKeys self maxCount).map (fun ks => (.keys ks, self))
  | .flushAll => (flushAll self).map (fun s => (.done, s))
  | .count => some (.number (count self), self)
  | .capacity => some (.number (capacity self), self)

def run (self : Cache κ α) : List (Op κ α) → Option (List (Answer κ α) × Cache κ α)
  | [] => some ([], self)
  | op :: ops => do
      let (answer, self) ← step self op
      let (answers, self) ← run self ops
      return (answer :: answers, self)

end Runs

/-! ### What the cache is for -/

/-- What is kept of a key. -/
structure Cell (α : Type) where
  value : Option α
  expire : ℚ
  flags : Nat

/-- A table of at most `size` keys in the order of their last use. -/
structure Table (κ α : Type) where
  size : Nat
  entries : List (κ × Cell α)

namespace Table

def hit (c : Cell α) (now : ℚ) (v : α) : Got α :=
  if 0 ≤ c.expire ∧ c.expire < now then ⟨none, some v, some c.flags⟩
  else ⟨some v, none, some c.flags⟩

section Steps
variable [DecidableEq κ]

def get (t : Table κ α) (key : κ) (now : ℚ) : Got α × Table κ α :=
  match t.entries.lookup key with
  | none => (⟨none, none, none⟩, t)
  | some c =>
      match c.value with
      | none => (⟨none, none, none⟩, t)
      | some v => (hit c now v, { t with entries := Recency.touch key t.entries })

def set (t : Table κ α) (key : κ) (c : Cell α) : Table κ α :=
  { t with entries := Recency.put t.size key c t.entries }

def delete (t : Table κ α) (key : κ) : Bool × Table κ α :=
  ((t.entries.lookup key).isSome, { t with entries := Recency.erase key t.entries })

def firstKeys (t : Table κ α) (maxCount : Option Nat) : List (Option κ) :=
  let n := match maxCount with
    | none | some 0 => t.entries.length
    | some (m + 1) => m + 1
  (t.entries.take n).map (fun e => some e.1)

def step (t : Table κ α) : Op κ α → Answer κ α × Table κ α
  | .get key now => (.got (t.get key now).1, (t.get key now).2)
  | .set key value ttl flags now =>
      (.done, t.set key ⟨value, expiry ttl now, storedFlags flags⟩)
  | .delete key => (.deleted (t.delete key).1, (t.delete key).2)
  | .getKeys maxCount => (.keys (t.firstKeys maxCount), t)
  | .flushAll => (.done, { t with entries := [] })
  | .count => (.number t.entries.length, t)
  | .capacity => (.number t.size, t)

def run (t : Table κ α) : List (Op κ α) → List (Answer κ α) × Table κ α
  | [] => ([], t)
  | op :: ops => ((t.step op).1 :: (run (t.step op).2 ops).1, (run (t.step op).2 ops).2)

end Steps
end Table
end LruCache
end OpenrestyGateway
