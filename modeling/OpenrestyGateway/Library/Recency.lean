import Mathlib.Data.Finset.Card
import Mathlib.Data.List.Basic
import Mathlib.Tactic.Common

/-!
Bounded tables that keep their most recently used keys.

The entries stand in the order of their last use, the most recent first. Where there is
no room for a new key, the last entry goes.
-/
namespace Recency
universe u v
variable {κ : Type u} {β : Type v}

def keys (es : List (κ × β)) : List κ := es.map Prod.fst

theorem keys_append (es es' : List (κ × β)) : keys (es ++ es') = keys es ++ keys es' :=
  List.map_append

variable [DecidableEq κ]

/-- A table without its entry for a key. -/
def erase (k : κ) (es : List (κ × β)) : List (κ × β) := es.filter (fun e => !decide (e.1 = k))

/-- Use a key: its entry comes to the front. -/
def touch (k : κ) (es : List (κ × β)) : List (κ × β) :=
  match es.lookup k with
  | none => es
  | some b => (k, b) :: erase k es

/-- Store an entry in a table that has room for `n`. -/
def put (n : Nat) (k : κ) (b : β) (es : List (κ × β)) : List (κ × β) :=
  (k, b) :: match es.lookup k with
    | some _ => erase k es
    | none => if es.length < n then es else es.dropLast

section Keys
variable {k : κ} {b : β} {es front back : List (κ × β)}

theorem lookup_eq_none : es.lookup k = none ↔ k ∉ keys es := by
  induction es with
  | nil => simp [keys]
  | cons e es ih =>
      obtain ⟨j, c⟩ := e
      by_cases h : k = j
      · subst h
        simp [keys]
      · have hj : (k == j) = false := beq_eq_false_iff_ne.mpr h
        simp only [List.lookup_cons, hj, keys, List.map_cons, List.mem_cons, h, false_or]
        exact ih

theorem lookup_split (hk : k ∉ keys front) :
    (front ++ (k, b) :: back).lookup k = some b := by
  induction front with
  | nil => simp
  | cons e front ih =>
      obtain ⟨j, c⟩ := e
      have hne : (k == j) = false := beq_eq_false_iff_ne.mpr (fun h => hk (h ▸ .head _))
      rw [List.cons_append, List.lookup_cons, hne]
      exact ih (fun h => hk (.tail j h))

theorem exists_split (h : es.lookup k = some b) :
    ∃ front back, es = front ++ (k, b) :: back ∧ k ∉ keys front := by
  induction es with
  | nil => cases h
  | cons e es ih =>
      obtain ⟨j, c⟩ := e
      by_cases hj : k = j
      · subst hj
        simp only [List.lookup_cons, beq_self_eq_true, Option.some.injEq] at h
        exact ⟨[], es, by rw [h]; rfl, List.not_mem_nil⟩
      · have hne : (k == j) = false := beq_eq_false_iff_ne.mpr hj
        simp only [List.lookup_cons, hne] at h
        obtain ⟨front, back, rfl, hk⟩ := ih h
        refine ⟨(j, c) :: front, back, rfl, fun hmem => ?_⟩
        obtain heq | hmem := List.mem_cons.mp hmem
        · exact hj heq
        · exact hk hmem

theorem erase_of_notMem (h : k ∉ keys es) : erase k es = es := by
  refine List.filter_eq_self.mpr (fun e he => ?_)
  have hne : e.1 ≠ k := fun heq => h (heq ▸ List.mem_map_of_mem he)
  simp [hne]

theorem erase_split (hfront : k ∉ keys front) (hback : k ∉ keys back) :
    erase k (front ++ (k, b) :: back) = front ++ back := by
  have hf := erase_of_notMem hfront
  have hb := erase_of_notMem hback
  rw [erase] at hf hb ⊢
  rw [List.filter_append, hf, List.filter_cons, hb]
  simp

theorem mem_keys_erase {j : κ} : j ∈ keys (erase k es) ↔ j ∈ keys es ∧ j ≠ k := by
  simp only [keys, erase, List.mem_map, List.mem_filter, Bool.not_eq_true',
    decide_eq_false_iff_not]
  constructor
  · intro h
    obtain ⟨e, ⟨he, hne⟩, rfl⟩ := h
    exact ⟨⟨e, he, rfl⟩, hne⟩
  · intro h
    obtain ⟨⟨e, he, rfl⟩, hne⟩ := h
    exact ⟨e, ⟨he, hne⟩, rfl⟩

theorem nodup_erase (h : (keys es).Nodup) : (keys (erase k es)).Nodup :=
  (List.filter_sublist.map Prod.fst).nodup h

theorem nodup_cons_erase (h : (keys es).Nodup) : (keys ((k, b) :: erase k es)).Nodup :=
  List.nodup_cons.mpr ⟨fun hmem => (mem_keys_erase.mp hmem).2 rfl, nodup_erase h⟩

theorem nodup_put {n : Nat} (h : (keys es).Nodup) : (keys (put n k b es)).Nodup := by
  rw [put]
  cases hlookup : es.lookup k with
  | some c => exact nodup_cons_erase h
  | none =>
      have hk := lookup_eq_none.mp hlookup
      have hsub : (keys es.dropLast).Sublist (keys es) := (List.dropLast_sublist es).map Prod.fst
      simp only
      split
      · exact List.nodup_cons.mpr ⟨hk, h⟩
      · exact List.nodup_cons.mpr ⟨fun hmem => hk (hsub.subset hmem), hsub.nodup h⟩

end Keys

/-! ### What a table keeps -/

/-- The entry of a key, and in front of it only keys from a set. -/
structure Within (used : Finset κ) (k : κ) (b : β) (es : List (κ × β)) : Prop where
  split : ∃ front back, es = front ++ (k, b) :: back ∧ ∀ j ∈ keys front, j ∈ used
  nodup : (keys es).Nodup

namespace Within
variable {used : Finset κ} {k j : κ} {b c : β} {es : List (κ × β)} {n : Nat}

theorem lookup (h : Within used k b es) : es.lookup k = some b := by
  obtain ⟨front, back, rfl, -⟩ := h.split
  refine lookup_split (fun hmem => ?_)
  have hnodup := h.nodup
  rw [keys_append] at hnodup
  exact (List.nodup_append.mp hnodup).2.2 k hmem k (.head _) rfl

theorem erase (h : Within used k b es) (hj : j ≠ k) : Within used k b (erase j es) := by
  obtain ⟨front, back, rfl, hfront⟩ := h.split
  refine ⟨⟨Recency.erase j front, Recency.erase j back, ?_, fun i hi => ?_⟩, nodup_erase h.nodup⟩
  · simp [Recency.erase, List.filter_append, Ne.symm hj]
  · exact hfront i (mem_keys_erase.mp hi).1

omit [DecidableEq κ] in
theorem cons (h : Within used k b es) (hj : j ∉ keys es) (hused : j ∈ used) (c : β) :
    Within used k b ((j, c) :: es) := by
  obtain ⟨front, back, rfl, hfront⟩ := h.split
  refine ⟨⟨(j, c) :: front, back, rfl, fun i hi => ?_⟩, List.nodup_cons.mpr ⟨hj, h.nodup⟩⟩
  obtain heq | hmem := List.mem_cons.mp hi
  · exact heq ▸ hused
  · exact hfront i hmem

theorem put_self (h : (keys es).Nodup) : Within used k b (Recency.put n k b es) :=
  ⟨⟨[], _, rfl, fun _ hj => absurd hj List.not_mem_nil⟩, nodup_put h⟩

theorem touch_self (h : Within used k b es) : Within used k b (Recency.touch k es) := by
  rw [Recency.touch, h.lookup]
  exact ⟨⟨[], _, rfl, fun _ hj => absurd hj List.not_mem_nil⟩, nodup_cons_erase h.nodup⟩

theorem touch (h : Within used k b es) (hj : j ≠ k) (hused : j ∈ used) :
    Within used k b (touch j es) := by
  rw [Recency.touch]
  cases hlookup : es.lookup j with
  | none => exact h
  | some c => exact (h.erase hj).cons (fun hmem => (mem_keys_erase.mp hmem).2 rfl) hused c

/-- Where the last entry goes, it is not the key's: less than `n` keys stand before it. -/
theorem dropLast (h : Within used k b es) (hj : j ∉ keys es) (hused : j ∈ used)
    (hcard : used.card < n) (hfull : n ≤ es.length) : Within used k b es.dropLast := by
  have hnodup := h.nodup
  obtain ⟨front, back, rfl, hfront⟩ := h.split
  have hne : back ≠ [] := by
    intro hnil
    rw [keys_append] at hnodup hj
    have hsub : (j :: keys front).toFinset ⊆ used := by
      intro i hi
      obtain heq | hmem := List.mem_cons.mp (List.mem_toFinset.mp hi)
      · exact heq ▸ hused
      · exact hfront i hmem
    have hnodup' : (j :: keys front).Nodup :=
      List.nodup_cons.mpr ⟨fun hmem => hj (List.mem_append_left _ hmem),
        (List.nodup_append.mp hnodup).1⟩
    have hle := Finset.card_le_card hsub
    rw [List.toFinset_card_of_nodup hnodup', List.length_cons, keys, List.length_map] at hle
    rw [hnil, List.length_append, List.length_singleton] at hfull
    omega
  refine ⟨⟨front, back.dropLast, ?_, hfront⟩, ?_⟩
  · rw [List.dropLast_append_of_ne_nil (List.cons_ne_nil _ _),
      List.dropLast_cons_of_ne_nil hne]
  · exact ((List.dropLast_sublist _).map Prod.fst).nodup hnodup

theorem put (h : Within used k b es) (hj : j ≠ k) (hused : j ∈ used) (hcard : used.card < n)
    (c : β) : Within used k b (put n j c es) := by
  rw [Recency.put]
  cases hlookup : es.lookup j with
  | some d =>
      exact (h.erase hj).cons (fun hmem => (mem_keys_erase.mp hmem).2 rfl) hused c
  | none =>
      have hnot := lookup_eq_none.mp hlookup
      simp only
      by_cases hroom : es.length < n
      · rw [if_pos hroom]
        exact h.cons hnot hused c
      · rw [if_neg hroom]
        refine (h.dropLast hnot hused hcard (not_lt.mp hroom)).cons (fun hmem => hnot ?_) hused c
        exact ((List.dropLast_sublist _).map Prod.fst).subset hmem

end Within
end Recency
