import Mathlib.Algebra.Order.Ring.Int
import Mathlib.Tactic.Common

/-!
Days of the Gregorian calendar and their numbers, counted from 1970-01-01.

The number of a day is linear in its month's offset and its day, so fields out of
range count on into the months that follow. Dates are the fields in range; they
are in order as their numbers are, and every number is that of one date.
-/
namespace Calendar

def isLeap (year : Int) : Bool :=
  decide (year % 4 = 0 ∧ (year % 100 ≠ 0 ∨ year % 400 = 0))

def monthDays (leap : Bool) : Nat → Nat
  | 2 => if leap then 29 else 28
  | 4 | 6 | 9 | 11 => 30
  | _ => 31

/-- The days of a year before its month of the given number. -/
def daysBefore (leap : Bool) : Nat → Nat
  | 0 | 1 => 0
  | month + 2 => daysBefore leap (month + 1) + monthDays leap (month + 1)

def yearStart (year : Int) : Int :=
  365 * (year - 1970) + ((year - 1) / 4 - (year - 1) / 100 + (year - 1) / 400 - 477)

def yearDays (leap : Bool) : Nat := if leap then 366 else 365

/-- The number of a day by its fields, which need not be in range. -/
def dayNumber (year month day : Int) : Int :=
  yearStart (year + (month - 1) / 12) +
    daysBefore (isLeap (year + (month - 1) / 12)) ((month - 1) % 12 + 1).toNat + (day - 1)

structure Date where
  year : Int
  month : Nat
  day : Nat
  month_pos : 1 ≤ month
  month_le : month ≤ 12
  day_pos : 1 ≤ day
  day_le : day ≤ monthDays (isLeap year) month
  deriving DecidableEq

namespace Date

def number (d : Date) : Int := dayNumber d.year d.month d.day

/-- The order of the calendar. -/
def le (d e : Date) : Prop :=
  d.year < e.year ∨ d.year = e.year ∧ (d.month < e.month ∨ d.month = e.month ∧ d.day ≤ e.day)

instance (d e : Date) : Decidable (d.le e) :=
  inferInstanceAs (Decidable (_ ∨ _ ∧ (_ ∨ _ ∧ _)))

end Date

/-! ### Months and years -/

theorem daysBefore_month (leap : Bool) {month : Nat} (h : 1 ≤ month) :
    daysBefore leap (month + 1) = daysBefore leap month + monthDays leap month := by
  cases month with
  | zero => omega
  | succ month => rfl

theorem daysBefore_mono (leap : Bool) {m n : Nat} (hm : 1 ≤ m) (h : m < n) :
    daysBefore leap m + monthDays leap m ≤ daysBefore leap n := by
  induction n with
  | zero => omega
  | succ n ih =>
      rcases Nat.lt_succ_iff_lt_or_eq.mp h with hlt | rfl
      · have hstep := daysBefore_month leap (show 1 ≤ n by omega)
        have := ih hlt
        omega
      · exact le_of_eq (daysBefore_month leap hm).symm

theorem daysBefore_year (leap : Bool) : daysBefore leap 13 = yearDays leap := by
  cases leap <;> rfl

/-- The last of the first `n` months that has begun by a day of the year. -/
def monthUpTo (leap : Bool) (rest : Nat) : Nat → Nat
  | 0 => 0
  | n + 1 => if daysBefore leap (n + 1) ≤ rest then n + 1 else monthUpTo leap rest n

theorem monthUpTo_bounds (leap : Bool) {rest n : Nat} (h : rest < daysBefore leap (n + 1)) :
    1 ≤ monthUpTo leap rest n ∧ monthUpTo leap rest n ≤ n ∧
      daysBefore leap (monthUpTo leap rest n) ≤ rest ∧
      rest < daysBefore leap (monthUpTo leap rest n) + monthDays leap (monthUpTo leap rest n) := by
  induction n with
  | zero => exact absurd h (Nat.not_lt_zero rest)
  | succ n ih =>
      rw [daysBefore_month leap (Nat.le_add_left 1 n)] at h
      simp only [monthUpTo]
      split
      · rename_i hbegun
        exact ⟨Nat.le_add_left 1 n, le_rfl, hbegun, h⟩
      · rename_i hlater
        obtain ⟨hone, hle, hbounds⟩ := ih (not_le.mp hlater)
        exact ⟨hone, Nat.le_succ_of_le hle, hbounds⟩

def monthOf (leap : Bool) (rest : Nat) : Nat := monthUpTo leap rest 12

theorem monthOf_bounds (leap : Bool) {rest : Nat} (h : rest < yearDays leap) :
    1 ≤ monthOf leap rest ∧ monthOf leap rest ≤ 12 ∧
      daysBefore leap (monthOf leap rest) ≤ rest ∧
      rest < daysBefore leap (monthOf leap rest) + monthDays leap (monthOf leap rest) := by
  rw [← daysBefore_year] at h
  exact monthUpTo_bounds leap h

theorem isLeap_iff (year : Int) :
    isLeap year = true ↔ year % 4 = 0 ∧ (year % 100 ≠ 0 ∨ year % 400 = 0) :=
  decide_eq_true_iff

theorem yearStart_succ (year : Int) :
    yearStart (year + 1) = yearStart year + yearDays (isLeap year) := by
  have hiff := isLeap_iff year
  cases hleap : isLeap year with
  | true =>
      have hrule := hiff.mp hleap
      simp only [yearStart, yearDays, if_true]
      omega
  | false =>
      have hrule : ¬ (year % 4 = 0 ∧ (year % 100 ≠ 0 ∨ year % 400 = 0)) := by
        rw [← hiff, hleap]
        exact Bool.false_ne_true
      simp only [yearStart, yearDays, Bool.false_eq_true, if_false]
      omega

theorem yearStart_mono {y z : Int} (h : y < z) :
    yearStart y + yearDays (isLeap y) ≤ yearStart z := by
  rw [← yearStart_succ]
  simp only [yearStart]
  omega

/-- The part of four that `r` falls into, each `d` long, the last one perhaps longer. -/
def quarter (r d : Int) : Int := if r / d < 3 then r / d else 3

theorem quarter_bounds {r d : Int} (hd : 0 < d) (h0 : 0 ≤ r) (h : r ≤ 4 * d) :
    0 ≤ quarter r d ∧ quarter r d ≤ 3 ∧ 0 ≤ r - d * quarter r d ∧ r - d * quarter r d ≤ d ∧
      (quarter r d < 3 → r - d * quarter r d < d) := by
  have hdiv : r - d * (r / d) = r % d := (Int.emod_def r d).symm
  have hmod0 := Int.emod_nonneg r hd.ne'
  have hmod := Int.emod_lt_of_pos r hd
  have hquot0 : 0 ≤ r / d := Int.ediv_nonneg h0 hd.le
  simp only [quarter]
  split
  · rw [hdiv]
    omega
  · rename_i hlast
    have hle : 3 * d ≤ r := (Int.le_ediv_iff_mul_le hd).mp (by omega)
    omega

/-- The year that a day number falls into, by 400, 100, 4 years and one. -/
def yearOf (n : Int) : Int :=
  let z := n + 719162
  let r := z % 146097
  let c := quarter r 36524
  let r := r - 36524 * c
  let y := quarter (r % 1461) 365
  400 * (z / 146097) + 100 * c + 4 * (r / 1461) + y + 1

/-- Only the last of four years has 366 days, and only the last of four centuries has
them in its last year. -/
theorem yearOf_split (n : Int) : ∃ e c q y r : Int,
    yearOf n = 400 * e + 100 * c + 4 * q + y + 1 ∧
    n + 719162 = 146097 * e + 36524 * c + 1461 * q + 365 * y + r ∧
    0 ≤ c ∧ c ≤ 3 ∧ 0 ≤ q ∧ q ≤ 24 ∧ 0 ≤ y ∧ y ≤ 3 ∧ 0 ≤ r ∧ r ≤ 365 ∧
    (y < 3 → r < 365) ∧ (q = 24 → c < 3 → r < 365) := by
  have hz := Int.emod_add_mul_ediv (n + 719162) 146097
  have hz0 := Int.emod_nonneg (n + 719162) (show (146097 : Int) ≠ 0 by decide)
  have hzlt := Int.emod_lt_of_pos (n + 719162) (show (0 : Int) < 146097 by decide)
  obtain ⟨hc0, hc, hr0, hr, hcentury⟩ := quarter_bounds (show (0 : Int) < 36524 by decide) hz0
    (by omega)
  have hrem := Int.emod_add_mul_ediv ((n + 719162) % 146097 -
    36524 * quarter ((n + 719162) % 146097) 36524) 1461
  have hrem0 := Int.emod_nonneg ((n + 719162) % 146097 -
    36524 * quarter ((n + 719162) % 146097) 36524) (show (1461 : Int) ≠ 0 by decide)
  have hremlt := Int.emod_lt_of_pos ((n + 719162) % 146097 -
    36524 * quarter ((n + 719162) % 146097) 36524) (show (0 : Int) < 1461 by decide)
  obtain ⟨hy0, hy, hd0, hd, hyear⟩ := quarter_bounds (show (0 : Int) < 365 by decide) hrem0
    (by omega)
  refine ⟨_, _, _, _, _, rfl, ?_, hc0, hc, ?_, ?_, hy0, hy, hd0, hd, hyear, ?_⟩
  · omega
  · omega
  · omega
  · intro hq hlast
    have := hcentury hlast
    omega

theorem yearOf_bounds (n : Int) :
    yearStart (yearOf n) ≤ n ∧ n < yearStart (yearOf n) + yearDays (isLeap (yearOf n)) := by
  obtain ⟨e, c, q, y, r, hyear, hn, hc0, hc, hq0, hq, hy0, hy, hr0, hr, hcommon, hcentury⟩ :=
    yearOf_split n
  have hstart : yearStart (yearOf n) = n - r := by
    rw [hyear]
    simp only [yearStart]
    omega
  have hdays : r < yearDays (isLeap (yearOf n)) := by
    have hiff := isLeap_iff (yearOf n)
    rw [hyear] at hiff ⊢
    cases hleap : isLeap (400 * e + 100 * c + 4 * q + y + 1) with
    | true =>
        simp only [yearDays, if_true]
        omega
    | false =>
        have hrule := hiff.not.mp (by rw [hleap]; exact Bool.false_ne_true)
        simp only [yearDays, Bool.false_eq_true, if_false]
        omega
  omega

namespace Date

theorem number_eq (d : Date) :
    d.number = yearStart d.year + daysBefore (isLeap d.year) d.month + (d.day - 1) := by
  have h1 := d.month_pos
  have h12 := d.month_le
  have hyear : d.year + ((d.month : Int) - 1) / 12 = d.year := by omega
  have hmonth : (((d.month : Int) - 1) % 12 + 1).toNat = d.month := by omega
  simp only [number, dayNumber, hyear, hmonth]

theorem number_month (d : Date) :
    yearStart d.year + daysBefore (isLeap d.year) d.month ≤ d.number ∧
      d.number < yearStart d.year + daysBefore (isLeap d.year) d.month +
        monthDays (isLeap d.year) d.month := by
  have heq := d.number_eq
  have h1 := d.day_pos
  have hlast := d.day_le
  omega

theorem number_year (d : Date) :
    yearStart d.year ≤ d.number ∧ d.number < yearStart d.year + yearDays (isLeap d.year) := by
  have hmonth := d.number_month
  have hlast := daysBefore_mono (isLeap d.year) d.month_pos (Nat.lt_succ_of_le d.month_le)
  rw [daysBefore_year] at hlast
  omega

/-- Dates are in order as their numbers are. -/
theorem number_le_iff (d e : Date) : d.number ≤ e.number ↔ d.le e := by
  have hd := d.number_year
  have he := e.number_year
  rcases lt_trichotomy d.year e.year with hy | hy | hy
  · have hstart := yearStart_mono hy
    exact iff_of_true (by omega) (.inl hy)
  · have hdm := d.number_month
    have hem := e.number_month
    rw [hy] at hdm
    rcases lt_trichotomy d.month e.month with hm | hm | hm
    · have hstart := daysBefore_mono (isLeap e.year) d.month_pos hm
      exact iff_of_true (by omega) (.inr ⟨hy, .inl hm⟩)
    · have hdn := d.number_eq
      have hen := e.number_eq
      rw [hy, hm] at hdn
      simp only [le, hy, hm, lt_irrefl, false_or, true_and]
      omega
    · have hstart := daysBefore_mono (isLeap e.year) e.month_pos hm
      refine iff_of_false (by omega) ?_
      simp only [le, hy, lt_irrefl, false_or, true_and]
      omega
  · have hstart := yearStart_mono hy
    refine iff_of_false (by omega) ?_
    simp only [le]
    omega

end Date

section OfNumber
variable (n : Int)

/-- The day of the year, counted from zero. -/
def restOf : Nat := (n - yearStart (yearOf n)).toNat

theorem restOf_eq : yearStart (yearOf n) + restOf n = n := by
  have hyear := yearOf_bounds n
  simp only [restOf]
  omega

theorem restOf_lt : restOf n < yearDays (isLeap (yearOf n)) := by
  have hyear := yearOf_bounds n
  have hrest := restOf_eq n
  omega

/-- The date with a given number. -/
def Date.ofNumber : Date where
  year := yearOf n
  month := monthOf (isLeap (yearOf n)) (restOf n)
  day := restOf n - daysBefore (isLeap (yearOf n)) (monthOf (isLeap (yearOf n)) (restOf n)) + 1
  month_pos := (monthOf_bounds _ (restOf_lt n)).1
  month_le := (monthOf_bounds _ (restOf_lt n)).2.1
  day_pos := Nat.le_add_left _ _
  day_le := Nat.sub_lt_left_of_lt_add (monthOf_bounds _ (restOf_lt n)).2.2.1
    (monthOf_bounds _ (restOf_lt n)).2.2.2

theorem Date.number_ofNumber : (Date.ofNumber n).number = n := by
  have hrest := restOf_eq n
  obtain ⟨-, -, hbefore, -⟩ := monthOf_bounds _ (restOf_lt n)
  rw [Date.number_eq]
  simp only [Date.ofNumber]
  omega

end OfNumber

example : (Date.ofNumber 19782).year = 2024 ∧ (Date.ofNumber 19782).month = 2 ∧
    (Date.ofNumber 19782).day = 29 := by decide +kernel

end Calendar
