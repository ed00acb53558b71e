import Mathlib.Data.List.Nodup
import Mathlib.Data.List.Perm.Basic
import Mathlib.Tactic.Common

/-!
A table whose free places are a list through the table itself.

Place 0 holds the first free place and each free place the next one. Where there is none,
the table grows by the place behind its end.
-/
namespace FreeList
universe u

inductive Slot (α : Type u) where
  | obj (value : α)
  | link (ref : Nat)

abbrev Table (α : Type u) := Nat → Option (Slot α)

variable {α : Type u}

def Table.set (m : Table α) (i : Nat) (slot : Option (Slot α)) : Table α :=
  fun j => if j = i then slot else m j

/-- Place 0 aside, the table may end at `n`. -/
def Table.Border (m : Table α) (n : Nat) : Prop :=
  (n = 0 ∨ (m n).isSome) ∧ (m (n + 1)).isNone

instance (m : Table α) (n : Nat) : Decidable (m.Border n) :=
  inferInstanceAs (Decidable (_ ∧ _))

@[simp] theorem set_self (m : Table α) (i : Nat) (slot : Option (Slot α)) :
    m.set i slot i = slot := if_pos rfl

@[simp] theorem set_ne (m : Table α) {i j : Nat} (slot : Option (Slot α)) (h : j ≠ i) :
    m.set i slot j = m j := if_neg h

/-- The free places from `i` on. -/
def Chain (m : Table α) : Nat → List Nat → Prop
  | i, [] => m i = none
  | i, r :: rs => m i = some (.link r) ∧ Chain m r rs

theorem chain_frame {m m' : Table α} {i : Nat} {rs : List Nat} (h : Chain m i rs)
    (hsame : ∀ j ∈ i :: rs, m' j = m j) : Chain m' i rs := by
  induction rs generalizing i with
  | nil => exact (hsame i (List.mem_cons_self ..)).trans h
  | cons r rs ih =>
      refine ⟨(hsame i (List.mem_cons_self ..)).trans h.1, ih h.2 (fun j hj => ?_)⟩
      exact hsame j (List.mem_cons_of_mem _ hj)

/-- A table of `n` places, of which those in `ps` are taken. -/
structure Holds (m : Table α) (n : Nat) (ps : List (Nat × α)) (free : List Nat) : Prop where
  chain : Chain m 0 free
  nodup : (free ++ ps.map Prod.fst).Nodup
  places : ∀ i, i ∈ free ++ ps.map Prod.fst ↔ 0 < i ∧ i ≤ n
  values : ∀ p ∈ ps, m p.1 = some (.obj p.2)
  past : ∀ i, n < i → m i = none

theorem holds_empty : Holds (fun _ => none : Table α) 0 [] [] where
  chain := rfl
  nodup := List.nodup_nil
  places i := by
    simp only [List.map_nil, List.append_nil, List.not_mem_nil, false_iff]
    omega
  values p hp := absurd hp (List.not_mem_nil)
  past _ _ := rfl

section Laws
variable {m : Table α} {n : Nat} {ps : List (Nat × α)} {free : List Nat}

theorem Holds.perm {qs : List (Nat × α)} (h : Holds m n ps free) (hperm : ps.Perm qs) :
    Holds m n qs free where
  chain := h.chain
  nodup := ((hperm.map _).append_left free).nodup_iff.mp h.nodup
  places i := ((hperm.map _).append_left free).mem_iff.symm.trans (h.places i)
  values p hp := h.values p (hperm.mem_iff.mpr hp)
  past := h.past

theorem Holds.length (h : Holds m n ps free) : n = free.length + ps.length := by
  have hperm : (free ++ ps.map Prod.fst).Perm (List.range' 1 n) := by
    refine (List.perm_ext_iff_of_nodup h.nodup List.nodup_range').mpr (fun i => ?_)
    rw [h.places, List.mem_range'_1]
    omega
  have hlength := hperm.length_eq
  rw [List.length_append, List.length_map, List.length_range'] at hlength
  exact hlength.symm

theorem Holds.pos (h : Holds m n ps free) {p : Nat × α} (hp : p ∈ ps) : 0 < p.1 :=
  ((h.places p.1).mp (List.mem_append_right _ (List.mem_map_of_mem hp))).1

theorem Holds.unique (h : Holds m n ps free) : (ps.map Prod.fst).Nodup :=
  (List.nodup_append.mp h.nodup).2.1

/-- Without free places the end of the table is known. -/
theorem Holds.border (h : Holds m n ps []) {len : Nat} (hlen : m.Border len) : len = n := by
  have htaken : ∀ i, 0 < i → i ≤ n → (m i).isSome := by
    intro i hpos hle
    have hmem := (h.places i).mpr ⟨hpos, hle⟩
    rw [List.nil_append] at hmem
    obtain ⟨p, hp, rfl⟩ := List.mem_map.mp hmem
    rw [h.values p hp]
    rfl
  obtain ⟨hin, hout⟩ := hlen
  by_contra hne
  by_cases hlt : len < n
  · have hsome := htaken (len + 1) (by omega) (by omega)
    rw [Option.isNone_iff_eq_none.mp hout] at hsome
    cases hsome
  · cases hin with
    | inl hzero => omega
    | inr hsome =>
        rw [h.past len (by omega)] at hsome
        cases hsome

/-- The first free place is taken. -/
theorem Holds.take {r : Nat} (h : Holds m n ps (r :: free)) (v : α) :
    Holds ((m.set 0 (m r)).set r (some (.obj v))) n ((r, v) :: ps) free := by
  have hr : 0 < r := ((h.places r).mp (List.mem_cons_self ..)).1
  have hfresh := (List.nodup_cons.mp h.nodup).1
  have hzero : 0 ∉ free ++ ps.map Prod.fst := by
    intro hmem
    have hpos := (h.places 0).mp (List.mem_cons_of_mem _ hmem)
    omega
  have hsame : ∀ j, j ∈ free ++ ps.map Prod.fst →
      ((m.set 0 (m r)).set r (some (.obj v))) j = m j := by
    intro j hj
    have hne : j ≠ r := fun heq => hfresh (heq ▸ hj)
    have hne' : j ≠ 0 := fun heq => hzero (heq ▸ hj)
    rw [set_ne _ _ hne, set_ne _ _ hne']
  have hperm : (free ++ ((r, v) :: ps).map Prod.fst).Perm (r :: (free ++ ps.map Prod.fst)) :=
    List.perm_middle
  refine ⟨?_, hperm.nodup_iff.mpr h.nodup, fun i => hperm.mem_iff.trans (h.places i), ?_, ?_⟩
  · have hchain := h.chain.2
    cases free with
    | nil =>
        rw [Chain, set_ne _ _ (Nat.ne_of_lt hr), set_self]
        exact hchain
    | cons r' rs =>
        refine ⟨?_, chain_frame hchain.2 (fun j hj => hsame j (List.mem_append_left _ hj))⟩
        rw [set_ne _ _ (Nat.ne_of_lt hr), set_self]
        exact hchain.1
  · intro p hp
    cases List.mem_cons.mp hp with
    | inl heq =>
        rw [heq]
        exact set_self _ _ _
    | inr hmem =>
        rw [hsame _ (List.mem_append_right _ (List.mem_map_of_mem hmem))]
        exact h.values p hmem
  · intro i hi
    have hle := ((h.places r).mp (List.mem_cons_self ..)).2
    rw [set_ne _ _ (by omega), set_ne _ _ (by omega)]
    exact h.past i hi

/-- The table grows. -/
theorem Holds.grow (h : Holds m n ps []) (v : α) :
    Holds (m.set (n + 1) (some (.obj v))) (n + 1) ((n + 1, v) :: ps) [] := by
  have hin : ∀ i, i ∈ ps.map Prod.fst ↔ 0 < i ∧ i ≤ n := h.places
  refine ⟨?_, ?_, fun i => ?_, fun p hp => ?_, fun i hi => ?_⟩
  · rw [Chain, set_ne _ _ (by omega)]
    exact h.chain
  · refine List.nodup_cons.mpr ⟨fun hmem => ?_, h.unique⟩
    have hle := ((hin _).mp hmem).2
    omega
  · rw [List.nil_append, List.map_cons, List.mem_cons, hin]
    omega
  · cases List.mem_cons.mp hp with
    | inl heq =>
        rw [heq]
        exact set_self _ _ _
    | inr hmem =>
        have hle := ((hin p.1).mp (List.mem_map_of_mem hmem)).2
        rw [set_ne _ _ (by omega)]
        exact h.values p hmem
  · rw [set_ne _ _ (by omega)]
    exact h.past i (by omega)

/-- A place is given back. -/
theorem Holds.give {r : Nat} {v : α} (h : Holds m n ((r, v) :: ps) free) :
    Holds ((m.set r (m 0)).set 0 (some (.link r))) n ps (r :: free) := by
  have hr : 0 < r := h.pos (List.mem_cons_self ..)
  have hperm : (free ++ ((r, v) :: ps).map Prod.fst).Perm (r :: (free ++ ps.map Prod.fst)) :=
    List.perm_middle
  have hnodup := hperm.nodup_iff.mp h.nodup
  have hfresh := (List.nodup_cons.mp hnodup).1
  have hplaces : ∀ i, i ∈ r :: (free ++ ps.map Prod.fst) ↔ 0 < i ∧ i ≤ n :=
    fun i => hperm.mem_iff.symm.trans (h.places i)
  have hsame : ∀ j, j ∈ free ++ ps.map Prod.fst →
      ((m.set r (m 0)).set 0 (some (.link r))) j = m j := by
    intro j hj
    have hpos := ((hplaces j).mp (List.mem_cons_of_mem _ hj)).1
    have hne : j ≠ r := fun heq => hfresh (heq ▸ hj)
    rw [set_ne _ _ (Nat.ne_of_gt hpos), set_ne _ _ hne]
  refine ⟨⟨set_self _ _ _, ?_⟩, hnodup, hplaces, fun p hp => ?_, fun i hi => ?_⟩
  · cases hfree : free with
    | nil =>
        have hchain := h.chain
        rw [hfree, Chain] at hchain
        rw [Chain, set_ne _ _ (Nat.ne_of_gt hr), set_self]
        exact hchain
    | cons r' rs =>
        have hchain := h.chain
        rw [hfree] at hchain
        refine ⟨?_, chain_frame hchain.2 (fun j hj => hsame j ?_)⟩
        · rw [set_ne _ _ (Nat.ne_of_gt hr), set_self]
          exact hchain.1
        · exact List.mem_append_left _ (hfree ▸ hj)
  · rw [hsame _ (List.mem_append_right _ (List.mem_map_of_mem hp))]
    exact h.values p (List.mem_cons_of_mem _ hp)
  · have hle := ((hplaces r).mp (List.mem_cons_self ..)).2
    rw [set_ne _ _ (by omega), set_ne _ _ (by omega)]
    exact h.past i hi

end Laws
end FreeList
