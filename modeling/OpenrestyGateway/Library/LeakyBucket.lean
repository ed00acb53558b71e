import Mathlib.Algebra.Order.Field.Basic
import Mathlib.Order.Bounds.Basic
import Mathlib.Tactic.Linarith
import Mathlib.Tactic.LinearCombination
import Mathlib.Tactic.Ring
import Mathlib.Tactic.Positivity

/-!
Leaky buckets over an arbitrary ordered field.

Every admission adds `cost` and the bucket leaks at `rate`. The level is a
function of the admission times alone (newest first); the first admission into
an empty bucket is free. A bucket that never overflows `burst` admits at most
`1 + (burst + rate * length) / cost` times in any window.
-/
namespace LeakyBucket

variable {K : Type*} [Field K] [LinearOrder K] [IsStrictOrderedRing K]

def level (rate cost : K) : List K → K
  | [] | [_] => 0
  | a :: b :: rest => max 0 (level rate cost (b :: rest) - rate * (a - b) + cost)

variable {rate cost : K}

omit [IsStrictOrderedRing K] in
theorem level_nonneg (l : List K) : 0 ≤ level rate cost l := by
  match l with
  | [] | [_] => exact le_refl 0
  | _ :: _ :: _ => exact le_max_left _ _

/-- The level is the largest debt that any earlier admission still explains. -/
theorem level_le_iff (a : K) (rest : List K) {c : K} (hc : 0 ≤ c) :
    level rate cost (a :: rest) ≤ c ↔
      ∀ (i : Nat) t, rest[i]? = some t → cost * (i + 1) - rate * (a - t) ≤ c := by
  induction rest generalizing a c with
  | nil => simp [level, hc]
  | cons b rest ih =>
      simp only [level, max_le_iff, hc, true_and]
      constructor
      · intro h i t ht
        have hpos := (level_nonneg (b :: rest) : 0 ≤ level rate cost (b :: rest))
        cases i with
        | zero =>
            cases ht
            push_cast
            linarith
        | succ i =>
            have hle : level rate cost (b :: rest) ≤ c + rate * (a - b) - cost := by linarith
            have hdebt := (ih b (le_trans hpos hle)).mp hle i t ht
            push_cast
            linear_combination hdebt
      · intro h
        have h0 := h 0 b rfl
        push_cast at h0
        have hc' : 0 ≤ c + rate * (a - b) - cost := by linarith
        have hle : level rate cost (b :: rest) ≤ c + rate * (a - b) - cost := by
          refine (ih b hc').mpr ?_
          intro i t ht
          have hdebt := h (i + 1) t ht
          push_cast at hdebt
          linear_combination hdebt
        linarith

/-- What the admissions cost from each one on, less what has leaked since. -/
def debts (rate cost a : K) (l : List K) : Set K :=
  {x | ∃ (i : Nat) (t : K), l[i]? = some t ∧ x = cost * i - rate * (a - t)}

omit [IsStrictOrderedRing K] in
theorem level_mem_debts (a : K) (rest : List K) :
    level rate cost (a :: rest) ∈ debts rate cost a (a :: rest) := by
  induction rest generalizing a with
  | nil => exact ⟨0, a, rfl, by simp [level]⟩
  | cons b rest ih =>
      simp only [level]
      rcases max_choice 0 (level rate cost (b :: rest) - rate * (a - b) + cost) with h | h
      · rw [h]
        exact ⟨0, a, rfl, by simp⟩
      · obtain ⟨i, t, hi, hdebt⟩ := ih b
        rw [h, hdebt]
        refine ⟨i + 1, t, hi, ?_⟩
        push_cast
        ring

/-- The level is the largest of the debts. -/
theorem level_isGreatest (a : K) (rest : List K) :
    IsGreatest (debts rate cost a (a :: rest)) (level rate cost (a :: rest)) := by
  refine ⟨level_mem_debts a rest, ?_⟩
  rintro x ⟨i, t, hi, rfl⟩
  have hpos : 0 ≤ level rate cost (a :: rest) := level_nonneg (a :: rest)
  cases i with
  | zero =>
      cases hi
      simpa using hpos
  | succ i =>
      have hdebt := (level_le_iff a rest hpos).mp (le_refl _) i t hi
      push_cast
      exact hdebt

/-- While nothing is admitted the level a new admission would reach only sinks. -/
theorem level_cons_later (u t : K) (l : List K) :
    level rate cost (t :: l) ≤ max 0 (level rate cost (u :: l) - rate * (t - u)) := by
  cases l with
  | nil => exact le_max_left _ _
  | cons b rest =>
      simp only [level]
      refine max_le (le_max_left _ _) (le_trans ?_ (le_max_right _ _))
      have h := le_max_right 0 (level rate cost (b :: rest) - rate * (u - b) + cost)
      linear_combination h

theorem exists_late_selected {α : Type*} (p : α → Bool) (l : List α) (n : Nat)
    (h : n < (l.filter p).length) : ∃ i t, n ≤ i ∧ l[i]? = some t ∧ p t = true := by
  induction l generalizing n with
  | nil => simp at h
  | cons a l ih =>
      by_cases ha : p a = true
      · simp only [List.filter_cons, ha, if_true, List.length_cons] at h
        cases n with
        | zero => exact ⟨0, a, le_refl 0, rfl, ha⟩
        | succ n =>
            obtain ⟨i, t, hi, ht, hp⟩ := ih n (by omega)
            exact ⟨i + 1, t, by omega, ht, hp⟩
      · simp only [List.filter_cons, ha] at h
        obtain ⟨i, t, hi, ht, hp⟩ := ih n h
        exact ⟨i + 1, t, by omega, ht, hp⟩

def inWindow (s t : K) (a : K) : Bool := decide (s ≤ a) && decide (a ≤ t)

/-- The window bound: if no admission lifts the level above `burst`, the
admissions in a window cost at most one more than `burst` and what leaks. -/
theorem window_count (hr : 0 ≤ rate) (hk : 0 ≤ cost) {burst : K} (hb : 0 ≤ burst)
    (adm : List K) (h : ∀ l, l <:+ adm → level rate cost l ≤ burst) {s t : K} (hst : s ≤ t) :
    cost * ((adm.filter (inWindow s t)).length : K) ≤ cost + burst + rate * (t - s) := by
  have hleak : 0 ≤ rate * (t - s) := mul_nonneg hr (sub_nonneg.mpr hst)
  induction adm with
  | nil =>
      simp only [List.filter_nil, List.length_nil, Nat.cast_zero, mul_zero]
      linarith
  | cons a rest ih =>
      by_cases ha : inWindow s t a = true
      · simp only [List.filter_cons, ha, if_true, List.length_cons]
        have hat : a ≤ t := by
          simp only [inWindow, Bool.and_eq_true, decide_eq_true_eq] at ha
          exact ha.2
        cases hn : (rest.filter (inWindow s t)).length with
        | zero =>
            push_cast
            linarith
        | succ n =>
            obtain ⟨i, u, hi, hu, hw⟩ :=
              exists_late_selected (inWindow s t) rest n (by omega)
            have hsu : s ≤ u := by
              simp only [inWindow, Bool.and_eq_true, decide_eq_true_eq] at hw
              exact hw.1
            have hdebt := (level_le_iff a rest hb).mp (h _ (List.suffix_refl _)) i u hu
            have hni : cost * ((n : K) + 1) ≤ cost * ((i : K) + 1) := by
              have : (n : K) ≤ i := by exact_mod_cast hi
              exact mul_le_mul_of_nonneg_left (by linarith) hk
            have hau : rate * (a - u) ≤ rate * (t - s) :=
              mul_le_mul_of_nonneg_left (by linarith) hr
            push_cast
            linarith
      · simp only [List.filter_cons, ha]
        exact ih (fun l hl => h l (hl.trans (List.suffix_cons a rest)))

end LeakyBucket
