import OpenrestyGateway.LruCache
import Mathlib.Data.List.Perm.Basic

/-!
The queues of resty/lrucache.lua against the table they stand for: every run of its
functions returns what the table returns, and no link is read that is not set.
-/
namespace OpenrestyGateway
namespace LruCache
open Ring Recency
variable {κ α : Type}

/-- A node of the cache queue with its key and what the fields hold for them. -/
abbrev Item (κ α : Type) := Node × κ × Cell α

def nodes (items : List (Item κ α)) : List Node := items.map Prod.fst

def entries (items : List (Item κ α)) : List (κ × Cell α) := items.map Prod.snd

structure Holds (s : Cache κ α) (item : Item κ α) : Prop where
  key2node : s.key2node item.2.1 = some item.1
  node2key : s.node2key item.1 = some item.2.1
  value : s.hasht item.2.1 = item.2.2.value
  expire : s.expire item.1 = item.2.2.expire
  flags : s.userFlags item.1 = item.2.2.flags

/-- `items` are in the cache queue and `frees` in the free queue. -/
structure Good (items : List (Item κ α)) (frees : List Node) (s : Cache κ α) : Prop where
  cache : s.links.IsRing cacheQueue (nodes items)
  free : s.links.IsRing freeQueue frees
  apart : ∀ a ∈ freeQueue :: frees, a ∉ cacheQueue :: nodes items
  total : items.length + frees.length = s.maxItems
  pos : 0 < s.maxItems
  count : s.numItems = items.length
  nodup : (keys (entries items)).Nodup
  holds : ∀ item ∈ items, Holds s item
  absent : ∀ key ∉ keys (entries items), s.hasht key = none ∧ s.key2node key = none

/-- The cache stands for a table. -/
def Refines (self : Cache κ α) (t : Table κ α) : Prop :=
  ∃ items frees, Good items frees self ∧ t = ⟨self.maxItems, entries items⟩

/-! ### Finding an item -/

theorem nodes_append (xs ys : List (Item κ α)) : nodes (xs ++ ys) = nodes xs ++ nodes ys :=
  List.map_append

theorem nodes_split (front back : List (Item κ α)) (item : Item κ α) :
    nodes (front ++ item :: back) = nodes front ++ item.1 :: nodes back := nodes_append _ _

theorem entries_append (xs ys : List (Item κ α)) :
    entries (xs ++ ys) = entries xs ++ entries ys := List.map_append

section Find
variable {items front back : List (Item κ α)} {frees : List Node} {self : Cache κ α} {key : κ}
  {node : Node} {cell : Cell α}

theorem exists_item (h : key ∈ keys (entries items)) :
    ∃ front node cell back, items = front ++ (node, key, cell) :: back := by
  obtain ⟨e, he, rfl⟩ := List.mem_map.mp h
  obtain ⟨item, hitem, rfl⟩ := List.mem_map.mp he
  obtain ⟨front, back, hsplit⟩ := List.append_of_mem hitem
  exact ⟨front, item.1, item.2.2, back, hsplit⟩

/-- The key of one item is no key of the others. -/
theorem Good.split (h : Good (front ++ (node, key, cell) :: back) frees self) :
    key ∉ keys (entries (front ++ back)) ∧ node ∉ nodes (front ++ back) := by
  have hkeys := h.nodup
  have hnodes := h.cache.nodup_tail
  rw [entries_append, keys_append] at hkeys
  rw [nodes_append] at hnodes
  rw [entries_append, keys_append, nodes_append]
  exact ⟨(List.nodup_cons.mp (List.nodup_middle.mp hkeys)).1,
    (List.nodup_cons.mp (List.nodup_middle.mp hnodes)).1⟩

theorem Good.holds_item (h : Good (front ++ (node, key, cell) :: back) frees self) :
    Holds self (node, key, cell) := h.holds _ (List.mem_append_right _ (.head _))

theorem Holds.frame {self' : Cache κ α} {item : Item κ α} (h : Holds self item)
    (hkey2node : self'.key2node item.2.1 = self.key2node item.2.1)
    (hnode2key : self'.node2key item.1 = self.node2key item.1)
    (hvalue : self'.hasht item.2.1 = self.hasht item.2.1)
    (hexpire : self'.expire item.1 = self.expire item.1)
    (hflags : self'.userFlags item.1 = self.userFlags item.1) : Holds self' item where
  key2node := hkey2node.trans h.key2node
  node2key := hnode2key.trans h.node2key
  value := hvalue.trans h.value
  expire := hexpire.trans h.expire
  flags := hflags.trans h.flags

variable [DecidableEq κ]

theorem Good.lookup (h : Good (front ++ (node, key, cell) :: back) frees self) :
    (entries (front ++ (node, key, cell) :: back)).lookup key = some cell := by
  have hkey := h.split.1
  rw [entries_append, keys_append, List.mem_append, not_or] at hkey
  rw [entries_append]
  exact lookup_split hkey.1

theorem Good.erase (h : Good (front ++ (node, key, cell) :: back) frees self) :
    Recency.erase key (entries (front ++ (node, key, cell) :: back)) =
      entries (front ++ back) := by
  have hkey := h.split.1
  rw [entries_append, keys_append, List.mem_append, not_or] at hkey
  rw [entries_append, entries_append]
  exact erase_split hkey.1 hkey.2

end Find

/-! ### The queues -/

section Queues
variable {m : Links Node} {h : Node} {xs : List Node}

theorem queueIsEmpty_eq (hm : m.IsRing h xs) : queueIsEmpty m h = xs.isEmpty := by
  rw [queueIsEmpty, hm.prev_head]
  cases xs using List.reverseRecOn with
  | nil => exact beq_self_eq_true _
  | append_singleton xs x _ =>
      have hne : x ≠ h := fun heq => hm.head_notMem (heq ▸ List.mem_concat_self)
      rw [List.getLast?_concat]
      have hhead : (some x == some h) = false := beq_eq_false_iff_ne.mpr (fun heq =>
        hne (Option.some.inj heq))
      change (some x == some h) = _
      rw [hhead]
      simp

end Queues

section Get
variable {self : Cache κ α} {t : Table κ α}

theorem get_of_links {key : κ} {now : ℚ} {v : α} {node : Node} {links : Links Node}
    {cell : Cell α} (hv : self.hasht key = some v) (hholds : Holds self (node, key, cell))
    (hl : (self.links.unlink node).bind (fun m => m.pushFront cacheQueue node) = some links) :
    get self key now = some (Table.hit cell now v, { self with links := links }) := by
  obtain ⟨m, hm, hpush⟩ := Option.bind_eq_some_iff.mp hl
  simp only [get, hv, hholds.key2node, queueRemove, queueInsertHead, hm, hpush,
    Option.bind_eq_bind, Option.bind_some, Table.hit, hholds.expire, hholds.flags]
  split <;> rfl

theorem get_refines [DecidableEq κ] (h : Refines self t) (key : κ) (now : ℚ) :
    ∃ self', get self key now = some ((t.get key now).1, self') ∧
      Refines self' (t.get key now).2 := by
  obtain ⟨items, frees, hgood, rfl⟩ := h
  by_cases hkey : key ∈ keys (entries items)
  · obtain ⟨front, node, cell, back, rfl⟩ := exists_item hkey
    have hholds := hgood.holds_item
    have hvalue : self.hasht key = cell.value := hholds.value
    simp only [Table.get, hgood.lookup]
    cases hv : cell.value with
    | none =>
        rw [hv] at hvalue
        exact ⟨self, by simp only [get, hvalue], _, frees, hgood, rfl⟩
    | some v =>
        rw [hv] at hvalue
        have hcache := hgood.cache
        have hapart := hgood.apart
        rw [nodes_split] at hcache hapart
        obtain ⟨links, hl, hcache', hfree'⟩ := Links.isRing_moveFront hcache hgood.free hapart
        rw [← nodes_append] at hcache'
        have hperm : ((node, key, cell) :: (front ++ back)).Perm
            (front ++ (node, key, cell) :: back) := List.perm_middle.symm
        refine ⟨_, get_of_links hvalue hholds hl, (node, key, cell) :: (front ++ back), frees,
          ?_, ?_⟩
        · exact {
            cache := hcache'
            free := hfree'
            apart := fun a ha hmem => hgood.apart a ha
              (((hperm.map Prod.fst).cons cacheQueue).mem_iff.mp hmem)
            total := by rw [hperm.length_eq]; exact hgood.total
            pos := hgood.pos
            count := by rw [hperm.length_eq]; exact hgood.count
            nodup := ((hperm.map Prod.snd).map Prod.fst).nodup_iff.mpr hgood.nodup
            holds := fun item hitem => (hgood.holds item (hperm.mem_iff.mp hitem)).frame
              rfl rfl rfl rfl rfl
            absent := fun k hk => hgood.absent k (fun hmem =>
              hk (((hperm.map Prod.snd).map Prod.fst).mem_iff.mpr hmem)) }
        · rw [touch, hgood.lookup, hgood.erase]
          rfl
  · have hlookup := lookup_eq_none.mpr hkey
    refine ⟨self, ?_, items, frees, hgood, ?_⟩
    · simp only [get, (hgood.absent key hkey).1, Table.get, hlookup]
    · simp only [Table.get, hlookup]

end Get

theorem length_entries (items : List (Item κ α)) : (entries items).length = items.length :=
  List.length_map _

theorem ne_key_of_mem {items : List (Item κ α)} {key : κ} (hkey : key ∉ keys (entries items))
    {item : Item κ α} (hitem : item ∈ items) : item.2.1 ≠ key := by
  intro heq
  exact hkey (heq ▸ List.mem_map_of_mem (List.mem_map_of_mem hitem))

theorem ne_node_of_mem {items : List (Item κ α)} {node : Node} (hnode : node ∉ nodes items)
    {item : Item κ α} (hitem : item ∈ items) : item.1 ≠ node := by
  intro heq
  exact hnode (heq ▸ List.mem_map_of_mem hitem)

/-- What is left to do for set once the new entry has its node. -/
def stored (self : Cache κ α) (node : Node) (links : Links Node) (cell : Cell α) : Cache κ α :=
  { self with
    links := links
    expire := Function.update self.expire node cell.expire
    userFlags := Function.update self.userFlags node cell.flags }

/-- The new entry comes to the front of the others. -/
theorem good_stored {self : Cache κ α} {rest : List (Item κ α)} {frees : List Node} {node : Node}
    {key : κ} {cell : Cell α} {links : Links Node} (hcache : links.IsRing cacheQueue (node :: nodes rest))
    (hfree : links.IsRing freeQueue frees)
    (hapart : ∀ a ∈ freeQueue :: frees, a ∉ cacheQueue :: node :: nodes rest)
    (htotal : rest.length + 1 + frees.length = self.maxItems)
    (hcount : self.numItems = rest.length + 1) (hkey : key ∉ keys (entries rest))
    (hnodup : (keys (entries rest)).Nodup) (hholds : ∀ item ∈ rest, Holds self item)
    (hkey2node : self.key2node key = some node) (hnode2key : self.node2key node = some key)
    (hvalue : self.hasht key = cell.value)
    (habsent : ∀ k, k ≠ key → k ∉ keys (entries rest) →
      self.hasht k = none ∧ self.key2node k = none) :
    Good ((node, key, cell) :: rest) frees (stored self node links cell) where
  cache := hcache
  free := hfree
  apart := hapart
  total := htotal
  pos := by
    change 0 < self.maxItems
    omega
  count := by
    rw [List.length_cons]
    push_cast
    exact hcount
  nodup := List.nodup_cons.mpr ⟨hkey, hnodup⟩
  holds := by
    intro item hitem
    obtain heq | hitem := List.mem_cons.mp hitem
    · rw [heq]
      exact ⟨hkey2node, hnode2key, hvalue, Function.update_self .., Function.update_self ..⟩
    · have hne := ne_node_of_mem (List.nodup_cons.mp hcache.nodup_tail).1 hitem
      exact (hholds item hitem).frame rfl rfl rfl (Function.update_of_ne hne _ _)
        (Function.update_of_ne hne _ _)
  absent := by
    intro k hk
    exact habsent k (fun heq => hk (heq ▸ .head _)) (fun hmem => hk (.tail _ hmem))

section Updates
variable [DecidableEq κ] {self : Cache κ α} {t : Table κ α}

theorem delete_refines (h : Refines self t) (key : κ) :
    ∃ self', delete self key = some ((t.delete key).1, self') ∧ Refines self' (t.delete key).2 := by
  obtain ⟨items, frees, hgood, rfl⟩ := h
  by_cases hkey : key ∈ keys (entries items)
  · obtain ⟨front, node, cell, back, rfl⟩ := exists_item hkey
    obtain ⟨hkey', hnode'⟩ := hgood.split
    have hcache := hgood.cache
    have hapart := hgood.apart
    rw [nodes_split] at hcache hapart
    obtain ⟨links, hl, hcache', hfree'⟩ :=
      Links.isRing_transferBack hcache hgood.free hapart
    rw [← nodes_append] at hcache'
    obtain ⟨m, hm, hpush⟩ := Option.bind_eq_some_iff.mp hl
    refine ⟨{ self with
        hasht := Function.update self.hasht key none
        key2node := Function.update self.key2node key none
        node2key := Function.update self.node2key node none
        links := links
        numItems := self.numItems - 1 }, ?_, front ++ back, frees ++ [node], ?_, ?_⟩
    · simp only [delete, hgood.holds_item.key2node, queueRemove, queueInsertTail, hm, hpush,
        Option.bind_eq_bind, Option.bind_some, Table.delete, hgood.lookup]
      rfl
    · have htotal := hgood.total
      have hcount := hgood.count
      simp only [List.length_append, List.length_cons] at htotal hcount
      refine {
        cache := hcache'
        free := hfree'
        apart := fun a ha hmem => ?_
        total := ?_
        pos := hgood.pos
        count := ?_
        nodup := ?_
        holds := fun item hitem => ?_
        absent := fun k hk => ?_ }
      · rw [List.mem_cons, List.mem_append, List.mem_singleton, ← or_assoc,
          ← List.mem_cons] at ha
        rw [nodes_append] at hmem hnode'
        obtain ha | ha := ha
        · exact hapart a ha (by grind)
        · rw [ha] at hmem
          obtain heq | hmem := List.mem_cons.mp hmem
          · exact hcache.head_notMem (heq ▸ List.mem_append_right _ (.head _))
          · exact hnode' hmem
      · simp only [List.length_append, List.length_singleton]
        omega
      · simp only [List.length_append, hcount]
        push_cast
        omega
      · have hsub := hgood.nodup
        rw [entries_append] at hsub ⊢
        exact ((List.Sublist.append_left (List.sublist_cons_self _ _) _).map Prod.fst).nodup hsub
      · have hmem : item ∈ front ++ (node, key, cell) :: back := by
          rw [List.mem_append, List.mem_cons]
          exact (List.mem_append.mp hitem).imp_right .inr
        exact (hgood.holds item hmem).frame
          (Function.update_of_ne (ne_key_of_mem hkey' hitem) _ _)
          (Function.update_of_ne (ne_node_of_mem hnode' hitem) _ _)
          (Function.update_of_ne (ne_key_of_mem hkey' hitem) _ _) rfl rfl
      · by_cases heq : k = key
        · rw [heq]
          exact ⟨Function.update_self .., Function.update_self ..⟩
        · have habsent := hgood.absent k (fun hmem => hk (by
            rw [entries_append, keys_append, List.mem_append] at hmem ⊢
            exact hmem.imp_right (fun hb => (List.mem_cons.mp hb).resolve_left heq)))
          exact ⟨(Function.update_of_ne heq _ _).trans habsent.1,
            (Function.update_of_ne heq _ _).trans habsent.2⟩
    · rw [Table.delete, hgood.erase]
  · have habsent := hgood.absent key hkey
    refine ⟨{ self with hasht := Function.update self.hasht key none }, ?_, items, frees, ?_, ?_⟩
    · simp only [delete, habsent.2, Table.delete, lookup_eq_none.mpr hkey]
      rfl
    · rw [← habsent.1, Function.update_eq_self]
      exact hgood
    · rw [Table.delete, erase_of_notMem hkey]

theorem set_of_nodeFor {self₁ : Cache κ α} {key : κ} {value : Option α} {ttl flags : Option ℚ}
    {now : ℚ} {node : Node} {links : Links Node}
    (hnode : nodeFor { self with hasht := Function.update self.hasht key value } key =
      some (node, self₁))
    (hl : (self₁.links.unlink node).bind (fun m => m.pushFront cacheQueue node) = some links) :
    set self key value ttl flags now =
      some (stored self₁ node links ⟨value, expiry ttl now, storedFlags flags⟩) := by
  obtain ⟨m, hm, hpush⟩ := Option.bind_eq_some_iff.mp hl
  simp only [set, hnode, queueRemove, queueInsertHead, hm, hpush, Option.bind_eq_bind,
    Option.bind_some]
  rfl

section Set
variable {key : κ} {value : Option α} {ttl flags : Option ℚ} {now : ℚ} {items : List (Item κ α)}
  {frees : List Node}

theorem set_present (hgood : Good items frees self) (hkey : key ∈ keys (entries items)) :
    ∃ self', set self key value ttl flags now = some self' ∧
      Refines self' (Table.set ⟨self.maxItems, entries items⟩ key
        ⟨value, expiry ttl now, storedFlags flags⟩) := by
  obtain ⟨front, node, cell, back, rfl⟩ := exists_item hkey
  obtain ⟨hkey', hnode'⟩ := hgood.split
  have hcache := hgood.cache
  have hapart := hgood.apart
  rw [nodes_split] at hcache hapart
  obtain ⟨links, hl, hcache', hfree'⟩ := Links.isRing_moveFront hcache hgood.free hapart
  rw [← nodes_append] at hcache'
  have hnode : nodeFor { self with hasht := Function.update self.hasht key value } key =
      some (node, { self with hasht := Function.update self.hasht key value }) := by
    simp only [nodeFor, hgood.holds_item.key2node]
  refine ⟨_, set_of_nodeFor hnode hl, (node, key, ⟨value, expiry ttl now, storedFlags flags⟩) ::
    (front ++ back), frees, good_stored hcache' hfree' ?_ ?_ ?_ hkey' ?_ ?_ ?_ ?_ ?_ ?_, ?_⟩
  · intro a ha hmem
    refine hapart a ha ?_
    rw [nodes_append] at hmem
    grind
  · have htotal := hgood.total
    simp only [List.length_append, List.length_cons] at htotal ⊢
    omega
  · have hcount := hgood.count
    simp only [List.length_append, List.length_cons] at hcount ⊢
    push_cast at hcount ⊢
    omega
  · have hsub := hgood.nodup
    rw [entries_append] at hsub ⊢
    exact ((List.Sublist.append_left (List.sublist_cons_self _ _) _).map Prod.fst).nodup hsub
  · intro item hitem
    have hmem : item ∈ front ++ (node, key, cell) :: back := by
      rw [List.mem_append, List.mem_cons]
      exact (List.mem_append.mp hitem).imp_right .inr
    exact (hgood.holds item hmem).frame rfl rfl
      (Function.update_of_ne (ne_key_of_mem hkey' hitem) _ _) rfl rfl
  · exact hgood.holds_item.key2node
  · exact hgood.holds_item.node2key
  · exact Function.update_self ..
  · intro k hne hk
    have habsent := hgood.absent k (fun hmem => hk (by
      rw [entries_append, keys_append, List.mem_append] at hmem ⊢
      exact hmem.imp_right (fun hb => (List.mem_cons.mp hb).resolve_left hne)))
    exact ⟨(Function.update_of_ne hne _ _).trans habsent.1, habsent.2⟩
  · rw [Table.set, Recency.put, hgood.lookup, hgood.erase]
    rfl

theorem set_free {node : Node} (hgood : Good items (node :: frees) self)
    (hkey : key ∉ keys (entries items)) :
    ∃ self', set self key value ttl flags now = some self' ∧
      Refines self' (Table.set ⟨self.maxItems, entries items⟩ key
        ⟨value, expiry ttl now, storedFlags flags⟩) := by
  have habsent := hgood.absent key hkey
  have hfree : self.links.IsRing freeQueue ([] ++ node :: frees) := hgood.free
  have hapart : ∀ a ∈ cacheQueue :: nodes items, a ∉ freeQueue :: ([] ++ node :: frees) :=
    fun a ha hmem => hgood.apart a hmem ha
  obtain ⟨links, hl, hfree', hcache'⟩ := Links.isRing_transferFront hfree hgood.cache hapart
  have hnode' : node ∉ nodes items := fun hmem =>
    hgood.apart node (.tail _ (.head frees)) (.tail _ hmem)
  have hnode : nodeFor { self with hasht := Function.update self.hasht key value } key =
      some (node, { self with
        hasht := Function.update self.hasht key value
        numItems := self.numItems + 1
        node2key := Function.update self.node2key node (some key)
        key2node := Function.update self.key2node key (some node) }) := by
    have hempty : queueIsEmpty self.links freeQueue = false := queueIsEmpty_eq hgood.free
    have hhead : self.links.next freeQueue = some node := hgood.free.next_head
    simp only [nodeFor, habsent.2, newNode, hempty, Bool.false_eq_true, if_false, queueHead,
      hhead, Option.bind_eq_bind, Option.bind_some]
    rfl
  have htotal := hgood.total
  have hcount := hgood.count
  simp only [List.length_cons] at htotal
  refine ⟨_, set_of_nodeFor hnode hl, (node, key, ⟨value, expiry ttl now, storedFlags flags⟩) ::
    items, frees, good_stored hcache' hfree' ?_ ?_ ?_ hkey hgood.nodup ?_ ?_ ?_ ?_ ?_, ?_⟩
  · intro a ha hmem
    have hnodup := hgood.free.nodup
    have hother := hgood.apart a (by grind)
    grind
  · change items.length + 1 + frees.length = self.maxItems
    omega
  · change self.numItems + 1 = items.length + 1
    rw [hcount]
  · intro item hitem
    exact (hgood.holds item hitem).frame
      (Function.update_of_ne (ne_key_of_mem hkey hitem) _ _)
      (Function.update_of_ne (ne_node_of_mem hnode' hitem) _ _)
      (Function.update_of_ne (ne_key_of_mem hkey hitem) _ _) rfl rfl
  · exact Function.update_self ..
  · exact Function.update_self ..
  · exact Function.update_self ..
  · intro k hne hk
    have h := hgood.absent k hk
    exact ⟨(Function.update_of_ne hne _ _).trans h.1, (Function.update_of_ne hne _ _).trans h.2⟩
  · have hroom : (entries items).length < self.maxItems := by
      rw [entries, List.length_map]
      omega
    rw [Table.set, Recency.put, lookup_eq_none.mpr hkey]
    simp only [hroom, if_true]
    rfl

/-- The last item makes room for the new key. -/
theorem set_evict (hgood : Good items [] self) (hkey : key ∉ keys (entries items)) :
    ∃ self', set self key value ttl flags now = some self' ∧
      Refines self' (Table.set ⟨self.maxItems, entries items⟩ key
        ⟨value, expiry ttl now, storedFlags flags⟩) := by
  have htotal := hgood.total
  have hpos := hgood.pos
  simp only [List.length_nil, Nat.add_zero] at htotal
  obtain hnil | ⟨front, ⟨node, old, cell⟩, rfl⟩ := List.eq_nil_or_concat' items
  · rw [hnil, List.length_nil] at htotal
    omega
  have habsent := hgood.absent key hkey
  obtain ⟨hold, hnode'⟩ := hgood.split
  rw [List.append_nil] at hold hnode'
  have hholds := hgood.holds_item
  have hcache := hgood.cache
  have hapart := hgood.apart
  rw [nodes_split] at hcache hapart
  obtain ⟨links, hl, hcache', hfree'⟩ := Links.isRing_moveFront hcache hgood.free hapart
  have hkeyold : key ≠ old := by
    intro heq
    exact hkey (heq ▸ List.mem_map_of_mem (List.mem_map_of_mem List.mem_concat_self))
  have hkey' : key ∉ keys (entries front) := by
    intro hmem
    rw [entries_append, keys_append] at hkey
    exact hkey (List.mem_append_left _ hmem)
  have hnode : nodeFor { self with hasht := Function.update self.hasht key value } key =
      some (node, { self with
        hasht := Function.update (Function.update self.hasht key value) old none
        node2key := Function.update self.node2key node (some key)
        key2node := Function.update (Function.update self.key2node old none) key
          (some node) }) := by
    have hempty : queueIsEmpty self.links freeQueue = true := queueIsEmpty_eq hgood.free
    have hlast : self.links.prev cacheQueue = some node := by
      have hprev := hgood.cache.prev_head
      rw [nodes_append, nodes, nodes, List.map_singleton, List.getLast?_concat] at hprev
      exact hprev
    have hkey2 : self.node2key node = some old := hholds.node2key
    simp only [nodeFor, habsent.2, newNode, hempty, if_true, queueLast, hlast, hkey2,
      Option.bind_eq_bind, Option.bind_some]
    rfl
  rw [List.length_append, List.length_singleton] at htotal
  have hcount := hgood.count
  rw [List.length_append, List.length_singleton] at hcount
  refine ⟨_, set_of_nodeFor hnode hl, (node, key, ⟨value, expiry ttl now, storedFlags flags⟩) ::
    front, [], good_stored ?_ hfree' ?_ ?_ ?_ hkey' ?_ ?_ ?_ ?_ ?_ ?_, ?_⟩
  · rwa [show nodes [] = [] from rfl, List.append_nil] at hcache'
  · intro a ha hmem
    refine hapart a ha ?_
    rw [show nodes [] = [] from rfl]
    grind
  · exact htotal
  · change self.numItems = front.length + 1
    rw [hcount]
    push_cast
    rfl
  · have hsub := hgood.nodup
    rw [entries_append] at hsub
    exact ((List.sublist_append_left _ _).map Prod.fst).nodup hsub
  · intro item hitem
    have hne := ne_key_of_mem hkey' hitem
    have hneold := ne_key_of_mem hold hitem
    refine (hgood.holds item (List.mem_append_left _ hitem)).frame ?_
      (Function.update_of_ne (ne_node_of_mem hnode' hitem) _ _) ?_ rfl rfl
    · exact (Function.update_of_ne hne _ _).trans (Function.update_of_ne hneold _ _)
    · exact (Function.update_of_ne hneold _ _).trans (Function.update_of_ne hne _ _)
  · exact Function.update_self ..
  · exact Function.update_self ..
  · exact (Function.update_of_ne hkeyold _ _).trans (Function.update_self ..)
  · intro k hne hk
    by_cases heq : k = old
    · rw [heq]
      exact ⟨Function.update_self ..,
        (Function.update_of_ne hkeyold.symm _ _).trans (Function.update_self ..)⟩
    · have h := hgood.absent k (fun hmem => by
        rw [entries_append, keys_append, List.mem_append] at hmem
        exact hmem.elim hk (fun hb => heq (List.mem_singleton.mp hb)))
      exact ⟨((Function.update_of_ne heq _ _).trans (Function.update_of_ne hne _ _)).trans h.1,
        ((Function.update_of_ne hne _ _).trans (Function.update_of_ne heq _ _)).trans h.2⟩
  · have hfull : ¬ (entries (front ++ [(node, old, cell)])).length < self.maxItems := by
      rw [entries, List.length_map, List.length_append, List.length_singleton]
      omega
    rw [Table.set, Recency.put, lookup_eq_none.mpr hkey]
    simp only [hfull, if_false]
    rw [entries_append, entries, entries, List.map_singleton, List.dropLast_concat]
    rfl

theorem set_refines (h : Refines self t) (key : κ) (value : Option α) (ttl flags : Option ℚ)
    (now : ℚ) : ∃ self', set self key value ttl flags now = some self' ∧
      Refines self' (t.set key ⟨value, expiry ttl now, storedFlags flags⟩) := by
  obtain ⟨items, frees, hgood, rfl⟩ := h
  by_cases hkey : key ∈ keys (entries items)
  · exact set_present hgood hkey
  · cases frees with
    | nil => exact set_evict hgood hkey
    | cons node frees => exact set_free hgood hkey

end Set

end Updates

section Whole
variable {self : Cache κ α} {t : Table κ α}

def cleared (self : Cache κ α) (links : Links Node) : Cache κ α :=
  { self with
    hasht := fun _ => none, node2key := fun _ => none, key2node := fun _ => none
    numItems := 0, links := links }

theorem flushAll_refines (h : Refines self t) :
    ∃ self', flushAll self = some self' ∧ Refines self' { t with entries := [] } := by
  obtain ⟨items, frees, hgood, rfl⟩ := h
  have hempty := queueIsEmpty_eq hgood.cache
  have htotal := hgood.total
  cases items with
  | nil =>
      have hflush : flushAll self = some (cleared self self.links) := by
        simp only [flushAll, hempty]
        rfl
      refine ⟨_, hflush, [], frees, ?_, rfl⟩
      exact {
        cache := hgood.cache, free := hgood.free, apart := hgood.apart, total := htotal
        pos := hgood.pos, count := rfl, nodup := .nil
        holds := fun item hitem => absurd hitem List.not_mem_nil
        absent := fun k _ => ⟨rfl, rfl⟩ }
  | cons item items =>
      obtain ⟨links, hl, hfree', hcache'⟩ := Links.isRing_splice hgood.free hgood.cache
        (List.cons_ne_nil _ _) hgood.apart
      have hflush : flushAll self = some (cleared self links) := by
        simp only [flushAll, hempty, hl]
        rfl
      refine ⟨_, hflush, [], frees ++ nodes (item :: items), ?_, rfl⟩
      refine {
        cache := hcache', free := hfree', apart := fun a ha hmem => ?_, total := ?_
        pos := hgood.pos, count := rfl, nodup := .nil
        holds := fun item hitem => absurd hitem List.not_mem_nil
        absent := fun k _ => ⟨rfl, rfl⟩ }
      · rw [List.mem_singleton.mp hmem, List.mem_cons, List.mem_append, ← or_assoc,
          ← List.mem_cons] at ha
        obtain hmem | hmem := ha
        · exact hgood.apart _ hmem (.head _)
        · exact hgood.cache.head_notMem hmem
      · rw [List.length_append, nodes, List.length_map, List.length_nil]
        change _ = self.maxItems
        omega

theorem walk_items {items front back : List (Item κ α)} {frees : List Node} (n : Nat)
    (hgood : Good items frees self) (hsplit : items = front ++ back) :
    walk self n ((nodes back).head?.getD cacheQueue) =
      some (((entries back).take n).map (fun e => some e.1)) := by
  induction n generalizing front back with
  | zero => rfl
  | succ n ih =>
      cases back with
      | nil =>
          change walk self (n + 1) cacheQueue = _
          rw [walk, if_pos rfl]
          rfl
      | cons item back =>
          have hcache := hgood.cache
          rw [hsplit, nodes_split] at hcache
          have hnext := hcache.next_mem
          have hne : item.1 ≠ cacheQueue := fun heq =>
            hcache.head_notMem (heq ▸ List.mem_append_right _ (.head _))
          have hholds := hgood.holds item (hsplit ▸ List.mem_append_right _ (.head _))
          have hrest := @ih (front ++ [item]) back (by rw [hsplit]; simp)
          change walk self (n + 1) item.1 = _
          rw [walk, if_neg hne]
          simp only [hnext, hrest, hholds.node2key, Option.bind_eq_bind, Option.bind_some]
          rfl

theorem getKeys_refines (h : Refines self t) (maxCount : Option Nat) :
    getKeys self maxCount = some (t.firstKeys maxCount) := by
  obtain ⟨items, frees, hgood, rfl⟩ := h
  have hhead := hgood.cache.next_head
  have hwalk := fun n => walk_items n hgood (List.nil_append items).symm
  have hlength : self.numItems.toNat = (entries items).length := by
    rw [hgood.count, length_entries]
    rfl
  cases maxCount with
  | none =>
      simp only [getKeys, queueHead, hhead, Option.bind_eq_bind, Option.bind_some, hwalk,
        Table.firstKeys, hlength]
  | some m =>
      cases m with
      | zero =>
          simp only [getKeys, queueHead, hhead, Option.bind_eq_bind, Option.bind_some, hwalk,
            Table.firstKeys, hlength]
      | succ m =>
          simp only [getKeys, queueHead, hhead, Option.bind_eq_bind, Option.bind_some, hwalk,
            Table.firstKeys]

theorem mem_slots {size : Nat} {node : Node} (h : node ∈ slots size) :
    node ≠ freeQueue ∧ node ≠ cacheQueue := by
  obtain ⟨i, -, rfl⟩ := List.mem_map.mp h
  exact ⟨fun heq => Nat.succ_ne_zero i (Node.free.inj heq), fun heq => by cases heq⟩

theorem nodup_slots (size : Nat) : (freeQueue :: slots size).Nodup := by
  refine List.nodup_cons.mpr ⟨fun h => (mem_slots h).1 rfl, ?_⟩
  refine (List.nodup_map_iff_inj_on List.nodup_range).mpr (fun i _ j _ heq => ?_)
  exact Nat.succ.inj (Node.free.inj heq)

theorem new_refines (size : Nat) :
    ∃ self : Cache κ α, new (size + 1) = some self ∧ Refines self ⟨size + 1, []⟩ := by
  have hfree := Links.isRing_row (m := Links.empty) (nodup_slots (size + 1))
  have hcache := Links.isRing_row (m := queueInit Links.empty freeQueue (slots (size + 1)))
    (List.nodup_singleton cacheQueue)
  have hapart : ∀ a ∈ freeQueue :: slots (size + 1), a ∉ [cacheQueue] := by
    intro a ha hmem
    rw [List.mem_singleton.mp hmem] at ha
    obtain heq | hmem := List.mem_cons.mp ha
    · cases heq
    · exact (mem_slots hmem).2 rfl
  obtain ⟨hnext, hprev⟩ := Links.row_frame [] (queueInit Links.empty freeQueue
    (slots (size + 1))) cacheQueue cacheQueue
  refine ⟨_, by simp [new]; rfl, [], slots (size + 1), ?_, rfl⟩
  exact {
    cache := hcache
    free := hfree.frame (fun a ha => hnext a (hapart a ha)) (fun a ha => hprev a (hapart a ha))
    apart := hapart
    total := by rw [slots, List.length_map, List.length_range, List.length_nil, Nat.zero_add]
    pos := Nat.succ_pos size
    count := rfl
    nodup := .nil
    holds := fun item hitem => absurd hitem List.not_mem_nil
    absent := fun k _ => ⟨rfl, rfl⟩ }

end Whole

/-! ### Runs -/

section Runs
variable [DecidableEq κ] {self : Cache κ α} {t : Table κ α}

theorem step_refines (h : Refines self t) (op : Op κ α) :
    ∃ self', step self op = some ((t.step op).1, self') ∧ Refines self' (t.step op).2 := by
  cases op with
  | get key now =>
      obtain ⟨self', hget, h'⟩ := get_refines h key now
      exact ⟨self', by rw [step, hget]; rfl, h'⟩
  | set key value ttl flags now =>
      obtain ⟨self', hset, h'⟩ := set_refines h key value ttl flags now
      exact ⟨self', by rw [step, hset]; rfl, h'⟩
  | delete key =>
      obtain ⟨self', hdelete, h'⟩ := delete_refines h key
      exact ⟨self', by rw [step, hdelete]; rfl, h'⟩
  | getKeys maxCount => exact ⟨self, by rw [step, getKeys_refines h]; rfl, h⟩
  | flushAll =>
      obtain ⟨self', hflush, h'⟩ := flushAll_refines h
      exact ⟨self', by rw [step, hflush]; rfl, h'⟩
  | count =>
      refine ⟨self, ?_, h⟩
      obtain ⟨items, frees, hgood, rfl⟩ := h
      simp only [step, count, hgood.count, Table.step, length_entries]
  | capacity =>
      refine ⟨self, ?_, h⟩
      obtain ⟨items, frees, hgood, rfl⟩ := h
      rfl

theorem run_refines (ops : List (Op κ α)) (h : Refines self t) :
    ∃ self', run self ops = some ((t.run ops).1, self') ∧ Refines self' (t.run ops).2 := by
  induction ops generalizing self t with
  | nil => exact ⟨self, rfl, h⟩
  | cons op ops ih =>
      obtain ⟨self', hstep, h'⟩ := step_refines h op
      obtain ⟨self'', hrun, h''⟩ := ih h'
      refine ⟨self'', ?_, h''⟩
      simp only [run, hstep, hrun, Option.bind_eq_bind, Option.bind_some]
      rfl

/-- Every run of a cache returns what a table of that size returns which drops the key
that was used longest ago. -/
theorem lrucache_refines_table (size : Nat) (ops : List (Op κ α)) :
    ∃ self self' : Cache κ α, new (size + 1) = some self ∧
      run self ops = some ((Table.run ⟨size + 1, []⟩ ops).1, self') := by
  obtain ⟨self, hnew, h⟩ := new_refines (κ := κ) (α := α) size
  obtain ⟨self', hrun, -⟩ := run_refines ops h
  exact ⟨self, self', hnew, hrun⟩

end Runs
end LruCache
end OpenrestyGateway
