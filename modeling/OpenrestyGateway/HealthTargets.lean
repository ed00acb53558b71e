import OpenrestyGateway.Healthcheck
import Mathlib.Data.List.AList

/-!
resty/healthcheck.lua: the targets that a worker knows, and the events that change them.

self.targets is a list of records and, in the same table, a table by ip, port and hostname
whose inner tables are dropped when they are empty.
-/
namespace OpenrestyGateway
namespace HealthTargets

open Healthcheck (Health)

structure Name where
  ip : String
  port : Nat
  hostname : String
  deriving DecidableEq

structure Record where
  name : Name
  internalHealth : Option Health

abbrev Hosts := AList (fun _ : String => Nat)

abbrev Ports := AList (fun _ : Nat => Hosts)

/-- A reference is a place in the heap. -/
structure Targets where
  heap : List Record
  list : List Nat
  hash : AList (fun _ : String => Ports)

/-- The data of an event, where a hostname may be missing. -/
structure Data where
  ip : String
  port : Nat
  hostname : Option String
  deriving DecidableEq

inductive Event where
  | status (health : Health) (data : Data)
  | remove (data : Data)
  | clear

/-- `hostname or ip` -/
def Data.name (d : Data) : Name := ⟨d.ip, d.port, d.hostname.getD d.ip⟩

def Name.data (name : Name) : Data := ⟨name.ip, name.port, some name.hostname⟩

/-- How the list part is searched. -/
def Record.isOf (d : Data) (r : Record) : Bool :=
  r.name.ip = d.ip ∧ r.name.port = d.port ∧ some r.name.hostname = d.hostname

namespace Targets

def empty : Targets := ⟨[], [], ∅⟩

def getTarget (t : Targets) (name : Name) : Option Nat :=
  (t.hash.lookup name.ip).bind (fun ports =>
    (ports.lookup name.port).bind (fun hosts => hosts.lookup name.hostname))

/-- The inner tables of a name; a missing one is made. -/
def ports (t : Targets) (ip : String) : Ports := (t.hash.lookup ip).getD ∅

def hosts (t : Targets) (ip : String) (port : Nat) : Hosts := ((t.ports ip).lookup port).getD ∅

def link (t : Targets) (name : Name) (ref : Nat) : Targets :=
  { t with
    hash := t.hash.insert name.ip ((t.ports name.ip).insert name.port
      ((t.hosts name.ip name.port).insert name.hostname ref)) }

/-- An inner table that is empty is removed from the outer one. -/
def unlink (t : Targets) (name : Name) : Targets :=
  let hosts := (t.hosts name.ip name.port).erase name.hostname
  let ports := if hosts.entries.isEmpty then (t.ports name.ip).erase name.port
    else (t.ports name.ip).insert name.port hosts
  { t with
    hash := if ports.entries.isEmpty then t.hash.erase name.ip
      else t.hash.insert name.ip ports }

def delist (t : Targets) (d : Data) : Targets :=
  { t with list := t.list.eraseP (fun ref => (t.heap[ref]?).any (Record.isOf d)) }

def remove (t : Targets) (d : Data) : Targets :=
  match (t.getTarget d.name).bind (fun ref => t.heap[ref]?) with
  | none => t
  | some r => (t.unlink r.name).delist d

def add (t : Targets) (name : Name) (health : Option Health) : Targets :=
  let ref := t.heap.length
  { t.link name ref with
    heap := t.heap ++ [⟨name, health⟩]
    list := t.list ++ [ref] }

def setHealth (t : Targets) (ref : Nat) (health : Health) : Targets :=
  { t with heap := t.heap.modify ref (fun r => { r with internalHealth := some health }) }

def status (t : Targets) (health : Health) (d : Data) : Targets :=
  match t.getTarget d.name with
  | none => t.add d.name (some health)
  | some ref => t.setHealth ref health

/-- The records stay where they are: clearing makes new tables. -/
def eventHandler (t : Targets) : Event → Targets
  | .status health d => t.status health d
  | .remove d => t.remove d
  | .clear => { t with list := [], hash := ∅ }

/-- The targets of the dict, with their states there. -/
def load (names : List Name) (state : Name → Option Health) : Targets :=
  names.foldl (fun t name => t.add name (state name)) empty

/-- What is known of a name: its state, where there is one. -/
def find (t : Targets) (name : Name) : Option (Option Health) :=
  (t.getTarget name).map (fun ref => (t.heap[ref]?).bind Record.internalHealth)

end Targets

/-! ### Lookup -/

section Lookup
variable (t : Targets)

theorem ports_lookup (ip : String) (port : Nat) :
    (t.ports ip).lookup port = (t.hash.lookup ip).bind (fun ports => ports.lookup port) := by
  simp only [Targets.ports]
  cases t.hash.lookup ip with
  | none => exact AList.lookup_empty port
  | some ports => rfl

theorem hosts_lookup (name : Name) :
    (t.hosts name.ip name.port).lookup name.hostname = t.getTarget name := by
  simp only [Targets.hosts, ports_lookup, Targets.getTarget]
  cases t.hash.lookup name.ip with
  | none => exact AList.lookup_empty _
  | some ports =>
      simp only [Option.bind_some]
      cases ports.lookup name.port with
      | none => exact AList.lookup_empty _
      | some hosts => rfl

theorem eq_empty_of_isEmpty {α : Type} {β : α → Type} {l : AList β}
    (h : l.entries.isEmpty = true) : l = ∅ :=
  AList.ext (List.isEmpty_iff.mp h)

/-- Whether tables are found for a name, from those for its ip and port. -/
theorem getTarget_update {t t' : Targets} {name : Name} {value : Option Nat} {hosts : Hosts}
    (hhosts : ∀ ip port, t'.hosts ip port =
      if ip = name.ip ∧ port = name.port then hosts else t.hosts ip port)
    (hself : hosts.lookup name.hostname = value)
    (hother : ∀ hostname, hostname ≠ name.hostname →
      hosts.lookup hostname = (t.hosts name.ip name.port).lookup hostname) (other : Name) :
    t'.getTarget other = if other = name then value else t.getTarget other := by
  rw [← hosts_lookup, hhosts]
  by_cases hname : other = name
  · rw [hname, if_pos ⟨rfl, rfl⟩, if_pos rfl, hself]
  · rw [if_neg hname]
    split
    · rename_i heq
      have hhostname : other.hostname ≠ name.hostname := by
        intro hhostname
        apply hname
        cases other
        cases name
        simp_all
      rw [hother _ hhostname, ← heq.1, ← heq.2, hosts_lookup]
    · exact hosts_lookup t other

theorem getTarget_link (name : Name) (ref : Nat) (other : Name) :
    (t.link name ref).getTarget other = if other = name then some ref else t.getTarget other := by
  refine getTarget_update (fun ip port => ?_) (AList.lookup_insert _)
    (fun hostname hne => AList.lookup_insert_ne hne) other
  by_cases hip : ip = name.ip
  · subst hip
    by_cases hport : port = name.port
    · subst hport
      simp [Targets.link, Targets.hosts, Targets.ports]
    · simp [Targets.link, Targets.hosts, Targets.ports, hport]
  · simp [Targets.link, Targets.hosts, Targets.ports, hip]

/-- The table by port that is left. -/
def Targets.portsLeft (name : Name) : Ports :=
  let hosts := (t.hosts name.ip name.port).erase name.hostname
  if hosts.entries.isEmpty then (t.ports name.ip).erase name.port
  else (t.ports name.ip).insert name.port hosts

theorem portsLeft_lookup (name : Name) (port : Nat) :
    ((t.portsLeft name).lookup port).getD ∅ =
      if port = name.port then (t.hosts name.ip name.port).erase name.hostname
      else t.hosts name.ip port := by
  simp only [Targets.portsLeft]
  split
  · rename_i hempty
    by_cases hport : port = name.port
    · rw [if_pos hport, hport, AList.lookup_erase, eq_empty_of_isEmpty hempty]
      rfl
    · rw [if_neg hport, AList.lookup_erase_ne hport, Targets.hosts]
  · by_cases hport : port = name.port
    · rw [if_pos hport, hport, AList.lookup_insert]
      rfl
    · rw [if_neg hport, AList.lookup_insert_ne hport, Targets.hosts]

theorem ports_unlink (name : Name) (ip : String) :
    (t.unlink name).ports ip = if ip = name.ip then t.portsLeft name else t.ports ip := by
  have hunlink : (t.unlink name).hash = if (t.portsLeft name).entries.isEmpty
      then t.hash.erase name.ip else t.hash.insert name.ip (t.portsLeft name) := rfl
  rw [Targets.ports, hunlink]
  split
  · rename_i hempty
    by_cases hip : ip = name.ip
    · rw [if_pos hip, hip, AList.lookup_erase, eq_empty_of_isEmpty hempty]
      rfl
    · rw [if_neg hip, AList.lookup_erase_ne hip, Targets.ports]
  · by_cases hip : ip = name.ip
    · rw [if_pos hip, hip, AList.lookup_insert]
      rfl
    · rw [if_neg hip, AList.lookup_insert_ne hip, Targets.ports]

theorem getTarget_unlink (name other : Name) :
    (t.unlink name).getTarget other = if other = name then none else t.getTarget other := by
  refine getTarget_update (fun ip port => ?_) (AList.lookup_erase name.hostname _)
    (fun hostname hne => AList.lookup_erase_ne hne) other
  rw [Targets.hosts, ports_unlink]
  by_cases hip : ip = name.ip
  · rw [if_pos hip, portsLeft_lookup, hip]
    simp only [true_and]
  · rw [if_neg hip, if_neg (fun h => hip h.1), Targets.hosts]

end Lookup

/-! ### No empty tables -/

structure Tidy (t : Targets) : Prop where
  ports : ∀ ip ports, t.hash.lookup ip = some ports → ports ≠ ∅
  hosts : ∀ ip ports port hosts, t.hash.lookup ip = some ports →
    ports.lookup port = some hosts → hosts ≠ ∅

theorem insert_ne_empty {α β : Type} [DecidableEq α] (l : AList (fun _ : α => β)) (a : α)
    (b : β) : l.insert a b ≠ ∅ := by
  intro h
  have hlookup := AList.lookup_insert (a := a) (b := b) l
  rw [h, AList.lookup_empty] at hlookup
  cases hlookup

section Tidy
variable {t : Targets}

/-- The table of one ip is replaced by one that is in order. -/
theorem Tidy.update (h : Tidy t) {t' : Targets} (ip : String) (table : Ports)
    (hself : ∀ ports, t'.hash.lookup ip = some ports → ports = table ∧ table ≠ ∅)
    (hother : ∀ ip', ip' ≠ ip → t'.hash.lookup ip' = t.hash.lookup ip')
    (htable : ∀ port hosts, table.lookup port = some hosts → hosts ≠ ∅) : Tidy t' := by
  refine ⟨fun ip' ports hports => ?_, fun ip' ports port hosts hports hhosts => ?_⟩
  · by_cases hip : ip' = ip
    · obtain ⟨rfl, hne⟩ := hself ports (hip ▸ hports)
      exact hne
    · exact h.ports ip' ports ((hother ip' hip).symm.trans hports)
  · by_cases hip : ip' = ip
    · obtain ⟨rfl, hne⟩ := hself ports (hip ▸ hports)
      exact htable port hosts hhosts
    · exact h.hosts ip' ports port hosts ((hother ip' hip).symm.trans hports) hhosts

theorem Tidy.inner (h : Tidy t) {ip : String} {port : Nat} {hosts : Hosts}
    (hhosts : (t.ports ip).lookup port = some hosts) : hosts ≠ ∅ := by
  rw [ports_lookup] at hhosts
  obtain ⟨ports, hports, hlookup⟩ := Option.bind_eq_some_iff.mp hhosts
  exact h.hosts ip ports port hosts hports hlookup

theorem Tidy.link (h : Tidy t) (name : Name) (ref : Nat) : Tidy (t.link name ref) := by
  let table := (t.ports name.ip).insert name.port
    ((t.hosts name.ip name.port).insert name.hostname ref)
  refine h.update name.ip table (fun ports hports => ?_)
    (fun ip' hne => AList.lookup_insert_ne hne) (fun port hosts hhosts => ?_)
  · have hlookup := (AList.lookup_insert (a := name.ip) t.hash).symm.trans hports
    exact ⟨(Option.some.inj hlookup).symm, insert_ne_empty _ _ _⟩
  · by_cases hport : port = name.port
    · rw [hport, AList.lookup_insert] at hhosts
      exact Option.some.inj hhosts ▸ insert_ne_empty _ _ _
    · rw [AList.lookup_insert_ne hport] at hhosts
      exact h.inner hhosts

theorem Tidy.unlink (h : Tidy t) (name : Name) : Tidy (t.unlink name) := by
  have hunlink : (t.unlink name).hash = if (t.portsLeft name).entries.isEmpty
      then t.hash.erase name.ip else t.hash.insert name.ip (t.portsLeft name) := rfl
  refine h.update name.ip (t.portsLeft name) (fun ports hports => ?_) (fun ip' hne => ?_)
    (fun port hosts hhosts => ?_)
  · rw [hunlink] at hports
    split at hports
    · rw [AList.lookup_erase] at hports
      cases hports
    · rename_i hfull
      rw [AList.lookup_insert] at hports
      exact ⟨(Option.some.inj hports).symm, fun hempty => hfull (by rw [hempty]; rfl)⟩
  · rw [hunlink]
    split
    · exact AList.lookup_erase_ne hne
    · exact AList.lookup_insert_ne hne
  · simp only [Targets.portsLeft] at hhosts
    split at hhosts
    · by_cases hport : port = name.port
      · rw [hport, AList.lookup_erase] at hhosts
        cases hhosts
      · rw [AList.lookup_erase_ne hport] at hhosts
        exact h.inner hhosts
    · rename_i hfull
      by_cases hport : port = name.port
      · rw [hport, AList.lookup_insert] at hhosts
        exact Option.some.inj hhosts ▸ fun hempty => hfull (by rw [hempty]; rfl)
      · rw [AList.lookup_insert_ne hport] at hhosts
        exact h.inner hhosts

end Tidy

/-! ### The list part and the hash part -/

/-- Both parts hold the same targets, each of them once, and no inner table is empty. -/
structure Consistent (t : Targets) : Prop where
  nodup : t.list.Nodup
  known : ∀ ref ∈ t.list, ref < t.heap.length
  refs : ∀ name ref, t.getTarget name = some ref ↔
    ref ∈ t.list ∧ (t.heap[ref]?).map Record.name = some name
  tidy : Tidy t

/-- An event of a removal has a hostname. -/
def Event.Full : Event → Prop
  | .remove d => d.hostname.isSome
  | .status _ _ | .clear => True

/-- What an event means for the targets as a map. -/
def Event.apply (f : Name → Option (Option Health)) : Event → Name → Option (Option Health)
  | .status health d => Function.update f d.name (some (some health))
  | .remove d => Function.update f d.name none
  | .clear => fun _ => none

theorem mem_eraseP_unique {α : Type} {p : α → Bool} {l : List α} (hnodup : l.Nodup)
    (hunique : ∀ x ∈ l, ∀ y ∈ l, p x → p y → x = y) {x : α} :
    x ∈ l.eraseP p ↔ x ∈ l ∧ ¬p x := by
  induction l with
  | nil => simp
  | cons a l ih =>
      obtain ⟨ha, hl⟩ := List.nodup_cons.mp hnodup
      have hrest := ih hl (fun x hx y hy =>
        hunique x (List.mem_cons_of_mem _ hx) y (List.mem_cons_of_mem _ hy))
      by_cases hpa : p a
      · rw [List.eraseP_cons_of_pos hpa, List.mem_cons]
        constructor
        · intro hx
          refine ⟨.inr hx, fun hpx => ha ?_⟩
          exact hunique x (List.mem_cons_of_mem _ hx) a (List.mem_cons_self ..) hpx hpa ▸ hx
        · intro hx
          exact hx.1.resolve_left (fun heq => hx.2 (heq ▸ hpa))
      · rw [List.eraseP_cons_of_neg hpa, List.mem_cons, List.mem_cons, hrest]
        constructor
        · intro hx
          cases hx with
          | inl heq => exact ⟨.inl heq, heq ▸ hpa⟩
          | inr hmem => exact ⟨.inr hmem.1, hmem.2⟩
        · intro hx
          exact hx.1.imp_right (fun hmem => ⟨hmem, hx.2⟩)

section Consistent
variable {t : Targets}

theorem consistent_empty (heap : List Record) : Consistent ⟨heap, [], ∅⟩ where
  nodup := List.nodup_nil
  known ref href := absurd href (List.not_mem_nil)
  refs name ref := by
    simp [Targets.getTarget]
  tidy :=
    { ports := fun ip ports h => by cases h
      hosts := fun ip ports port hosts h => by cases h }

theorem Consistent.record (h : Consistent t) {ref : Nat} {name : Name}
    (href : t.getTarget name = some ref) : ∃ r, t.heap[ref]? = some r ∧ r.name = name :=
  Option.map_eq_some_iff.mp ((h.refs name ref).mp href).2

theorem getTarget_add (t : Targets) (name : Name) (health : Option Health) (other : Name) :
    (t.add name health).getTarget other =
      if other = name then some t.heap.length else t.getTarget other :=
  getTarget_link t name t.heap.length other

theorem Consistent.add (h : Consistent t) {name : Name} (hnew : t.getTarget name = none)
    (health : Option Health) : Consistent (t.add name health) := by
  refine ⟨?_, fun ref href => ?_, fun other ref => ?_, ?_⟩
  · refine List.nodup_append.mpr ⟨h.nodup, List.nodup_singleton _, fun a ha b hb => ?_⟩
    have hlt := h.known a ha
    rw [List.mem_singleton.mp hb]
    omega
  · simp only [Targets.add, List.length_append, List.length_singleton]
    cases List.mem_append.mp href with
    | inl hold =>
        have hlt := h.known ref hold
        omega
    | inr hnew =>
        rw [List.mem_singleton.mp hnew]
        omega
  · rw [getTarget_add]
    simp only [Targets.add, List.mem_append, List.mem_singleton]
    by_cases href : ref = t.heap.length
    · subst href
      have hout : t.heap.length ∉ t.list := fun hmem => lt_irrefl _ (h.known _ hmem)
      by_cases hname : other = name
      · simp [hname]
      · have hne : t.getTarget other ≠ some t.heap.length :=
          fun heq => hout ((h.refs _ _).mp heq).1
        simp [hname, hne, Ne.symm hname]
    · by_cases hname : other = name
      · subst hname
        have hnot := (h.refs other ref).not.mp (by rw [hnew]; exact Option.some_ne_none ref |>.symm)
        rw [if_pos rfl]
        constructor
        · intro heq
          exact absurd (Option.some.inj heq).symm href
        · intro hmem
          have hold := hmem.1.resolve_right href
          rw [List.getElem?_append_left (h.known ref hold)] at hmem
          exact absurd ⟨hold, hmem.2⟩ hnot
      · rw [if_neg hname, h.refs]
        constructor
        · intro hmem
          rw [List.getElem?_append_left (h.known ref hmem.1)]
          exact ⟨.inl hmem.1, hmem.2⟩
        · intro hmem
          have hold := hmem.1.resolve_right href
          rw [List.getElem?_append_left (h.known ref hold)] at hmem
          exact ⟨hold, hmem.2⟩
  · exact ⟨(h.tidy.link name t.heap.length).ports, (h.tidy.link name t.heap.length).hosts⟩

theorem Consistent.setHealth (h : Consistent t) (ref : Nat) (health : Health) :
    Consistent (t.setHealth ref health) := by
  refine ⟨h.nodup, fun ref' href => ?_, fun name ref' => ?_, ⟨h.tidy.ports, h.tidy.hosts⟩⟩
  · simpa [Targets.setHealth] using h.known ref' href
  · have hnames : ((t.setHealth ref health).heap[ref']?).map Record.name =
        (t.heap[ref']?).map Record.name := by
      simp only [Targets.setHealth, List.getElem?_modify]
      cases t.heap[ref']? with
      | none => rfl
      | some r =>
          simp only [Option.map_eq_map, Option.map_some]
          split <;> rfl
    rw [hnames]
    exact h.refs name ref'

theorem Consistent.remove (h : Consistent t) {d : Data} (hfull : d.hostname.isSome) {ref : Nat}
    (href : t.getTarget d.name = some ref) :
    t.remove d = (t.unlink d.name).delist d ∧ Consistent (t.remove d) := by
  obtain ⟨r, hr, hname⟩ := h.record href
  obtain ⟨hostname, hhostname⟩ := Option.isSome_iff_exists.mp hfull
  have hremove : t.remove d = (t.unlink d.name).delist d := by
    simp only [Targets.remove, href, Option.bind_some, hr, hname]
  refine ⟨hremove, ?_⟩
  rw [hremove]
  have hmatch : ∀ ref' : Nat, (t.heap[ref']?).any (Record.isOf d) = true ↔
      (t.heap[ref']?).map Record.name = some d.name := by
    intro ref'
    cases t.heap[ref']? with
    | none => simp
    | some r' =>
        obtain ⟨⟨ip, port, host⟩, health⟩ := r'
        simp [Record.isOf, Data.name, hhostname]
  have hmem : ∀ ref' : Nat, ref' ∈ ((t.unlink d.name).delist d).list ↔
      ref' ∈ t.list ∧ ¬(t.heap[ref']?).map Record.name = some d.name := by
    intro ref'
    refine (mem_eraseP_unique h.nodup (fun x hx y hy hpx hpy => ?_)).trans
      (and_congr_right fun _ => (hmatch ref').not)
    have hx' := (h.refs d.name x).mpr ⟨hx, (hmatch x).mp hpx⟩
    have hy' := (h.refs d.name y).mpr ⟨hy, (hmatch y).mp hpy⟩
    exact Option.some.inj (hx'.symm.trans hy')
  refine ⟨h.nodup.sublist List.eraseP_sublist, fun ref' href' => ?_, fun name ref' => ?_, ?_⟩
  · exact h.known ref' ((hmem ref').mp href').1
  · have hget : ((t.unlink d.name).delist d).getTarget name =
        if name = d.name then none else t.getTarget name := getTarget_unlink t d.name name
    rw [hget, hmem]
    by_cases hother : name = d.name
    · rw [if_pos hother, hother]
      constructor
      · intro heq
        cases heq
      · intro hboth
        exact absurd hboth.2 hboth.1.2
    · rw [if_neg hother, h.refs]
      constructor
      · intro hboth
        refine ⟨⟨hboth.1, fun heq => hother ?_⟩, hboth.2⟩
        exact Option.some.inj (hboth.2.symm.trans heq)
      · intro hboth
        exact ⟨hboth.1.1, hboth.2⟩
  · exact ⟨(h.tidy.unlink d.name).ports, (h.tidy.unlink d.name).hosts⟩

theorem Consistent.event (h : Consistent t) {e : Event} (hfull : e.Full) :
    Consistent (t.eventHandler e) := by
  cases e with
  | status health d =>
      simp only [Targets.eventHandler, Targets.status]
      split
      · rename_i hnone
        exact h.add hnone _
      · exact h.setHealth _ _
  | remove d =>
      cases href : t.getTarget d.name with
      | none =>
          simp only [Targets.eventHandler, Targets.remove, href, Option.bind_none]
          exact h
      | some ref => exact (h.remove hfull href).2
  | clear => exact consistent_empty t.heap

/-! ### The targets as a map -/

theorem find_add (h : Consistent t) (name : Name) (health : Option Health) :
    (t.add name health).find = Function.update t.find name (some health) := by
  funext other
  simp only [Targets.find, getTarget_add]
  by_cases hname : other = name
  · subst hname
    simp [Targets.add]
  · rw [if_neg hname, Function.update_of_ne hname]
    cases href : t.getTarget other with
    | none => simp [Targets.find, href]
    | some ref =>
        have hlt := h.known ref ((h.refs other ref).mp href).1
        simp [Targets.find, href, Targets.add, List.getElem?_append_left hlt]

theorem find_event (h : Consistent t) {e : Event} (hfull : e.Full) :
    (t.eventHandler e).find = e.apply t.find := by
  cases e with
  | status health d =>
      simp only [Targets.eventHandler, Targets.status, Event.apply]
      split
      · exact find_add h d.name (some health)
      · rename_i ref href
        funext other
        have hget : (t.setHealth ref health).getTarget other = t.getTarget other := rfl
        by_cases hname : other = d.name
        · obtain ⟨r, hr, -⟩ := h.record href
          rw [hname, Function.update_self, Targets.find]
          simp only [hname] at hget
          rw [hget, href]
          simp [Targets.setHealth, hr]
        · rw [Function.update_of_ne hname, Targets.find, Targets.find, hget]
          cases href' : t.getTarget other with
          | none => rfl
          | some ref' =>
              have hne : ref ≠ ref' := by
                intro heq
                obtain ⟨r, hr, hrname⟩ := h.record href
                obtain ⟨r', hr', hrname'⟩ := h.record href'
                rw [heq, hr'] at hr
                exact hname (hrname'.symm.trans ((congrArg Record.name
                  (Option.some.inj hr)).trans hrname))
              simp [Targets.setHealth, hne]
  | remove d =>
      cases href : t.getTarget d.name with
      | none =>
          simp only [Targets.eventHandler, Targets.remove, href, Option.bind_none, Event.apply]
          rw [Function.update_eq_self_iff.mpr]
          rw [Targets.find, href, Option.map_none]
      | some ref =>
          have hget : ∀ other, ((t.unlink d.name).delist d).getTarget other =
              if other = d.name then none else t.getTarget other := getTarget_unlink t d.name
          funext other
          simp only [Targets.eventHandler, (h.remove hfull href).1, Event.apply, Targets.find, hget]
          by_cases hname : other = d.name
          · rw [if_pos hname, hname, Function.update_self, Option.map_none]
          · rw [if_neg hname, Function.update_of_ne hname]
            rfl
  | clear =>
      funext name
      simp [Targets.eventHandler, Targets.find, Targets.getTarget, Event.apply]

theorem find_none (t : Targets) (name : Name) :
    t.find name = none ↔ t.getTarget name = none := Option.map_eq_none_iff

/-- The targets of the dict, each of them once. -/
theorem load_spec {names : List Name} (hnodup : names.Nodup) (state : Name → Option Health) :
    Consistent (Targets.load names state) ∧ ∀ name, (Targets.load names state).find name =
      if name ∈ names then some (state name) else none := by
  induction names using List.reverseRecOn with
  | nil =>
      refine ⟨consistent_empty [], fun name => ?_⟩
      simp [Targets.load, Targets.find, Targets.getTarget, Targets.empty]
  | append_singleton names name ih =>
      obtain ⟨hbefore, hsingle, hdisjoint⟩ := List.nodup_append.mp hnodup
      obtain ⟨hconsistent, hfind⟩ := ih hbefore
      have hload : Targets.load (names ++ [name]) state =
          (Targets.load names state).add name (state name) := by
        simp only [Targets.load, List.foldl_append, List.foldl_cons, List.foldl_nil]
      have hnew : name ∉ names :=
        fun hmem => hdisjoint name hmem name (List.mem_singleton_self _) rfl
      have hnone : (Targets.load names state).getTarget name = none := by
        rw [← find_none, hfind, if_neg hnew]
      rw [hload]
      refine ⟨hconsistent.add hnone _, fun other => ?_⟩
      rw [find_add hconsistent]
      by_cases hother : other = name
      · rw [hother, Function.update_self]
        simp
      · rw [Function.update_of_ne hother, hfind]
        simp [hother]

theorem events_spec {events : List Event} (hfull : ∀ e ∈ events, e.Full) (h : Consistent t) :
    Consistent (events.foldl Targets.eventHandler t) ∧
      (events.foldl Targets.eventHandler t).find = events.foldl Event.apply t.find := by
  induction events generalizing t with
  | nil => exact ⟨h, rfl⟩
  | cons e events ih =>
      have he := hfull e (List.mem_cons_self ..)
      simp only [List.foldl_cons, ← find_event h he]
      exact ih (fun e' he' => hfull e' (List.mem_cons_of_mem _ he')) (h.event he)

/-- The targets that a worker has loaded and kept up to date: whatever the events, both parts
of the table hold the same targets, and it is the map that the events describe. -/
theorem targets_refine (names : List Name) (state : Name → Option Health) (events : List Event)
    (hnodup : names.Nodup) (hfull : ∀ e ∈ events, e.Full) :
    Consistent (events.foldl Targets.eventHandler (.load names state)) ∧
      (events.foldl Targets.eventHandler (.load names state)).find =
        events.foldl Event.apply
          (fun name => if name ∈ names then some (state name) else none) := by
  obtain ⟨hconsistent, hfind⟩ := load_spec hnodup state
  obtain ⟨hafter, hevents⟩ := events_spec hfull hconsistent
  rw [funext hfind] at hevents
  exact ⟨hafter, hevents⟩

theorem targets_refine_two :
    Consistent ([Event.status .unhealthy ⟨"10.0.0.1", 80, none⟩,
      .remove ⟨"10.0.0.2", 80, some "a"⟩].foldl Targets.eventHandler
        (.load [⟨"10.0.0.1", 80, "10.0.0.1"⟩, ⟨"10.0.0.2", 80, "a"⟩]
          (fun _ => some .healthy))) := by
  refine (targets_refine _ _ _ (by decide) (fun e he => ?_)).1
  simp only [List.mem_cons, List.not_mem_nil, or_false] at he
  obtain rfl | rfl := he
  · trivial
  · rfl

end Consistent

end HealthTargets
end OpenrestyGateway
