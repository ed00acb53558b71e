import Mathlib.Algebra.Order.Monoid.Defs
import Mathlib.Tactic.Common

/-!
Key-value stores whose keys may carry a deadline.

A key whose deadline has passed reads as missing; nothing else removes it, so
the passage of time is a change of the clock alone. Storing afresh drops the
deadline, rewriting in place keeps it.
-/
namespace Ttl

structure Store (κ ν τ : Type) where
  clock : τ
  cell : κ → Option (ν × Option τ)

namespace Store
variable {κ ν τ : Type}

section Reading
variable [LT τ] [DecidableLT τ]

def alive (now : τ) : Option τ → Bool
  | none => true
  | some d => decide (now < d)

def entry (s : Store κ ν τ) (k : κ) : Option (ν × Option τ) :=
  (s.cell k).filter (fun e => alive s.clock e.2)

def lookup (s : Store κ ν τ) (k : κ) : Option ν := (s.entry k).map Prod.fst

def deadline (s : Store κ ν τ) (k : κ) : Option τ := (s.entry k).bind Prod.snd

theorem alive_deadline (s : Store κ ν τ) (k : κ) : alive s.clock (s.deadline k) = true := by
  simp only [deadline]
  cases h : s.entry k with
  | none => rfl
  | some e => exact (Option.filter_eq_some_iff.mp h).2

end Reading

def advance [Add τ] (s : Store κ ν τ) (d : τ) : Store κ ν τ :=
  { s with clock := s.clock + d }

@[simp] theorem clock_advance [Add τ] (s : Store κ ν τ) (d : τ) :
    (s.advance d).clock = s.clock + d := rfl

section Time
variable [AddZeroClass τ] [Preorder τ] [DecidableLT τ] [AddLeftMono τ]

theorem alive_of_advance {now d : τ} (h : 0 ≤ d) {t : Option τ}
    (ht : alive (now + d) t = true) : alive now t = true := by
  cases t with
  | none => rfl
  | some t =>
      have hle : now ≤ now + d := le_add_of_nonneg_right h
      simp only [alive, decide_eq_true_eq] at ht ⊢
      exact lt_of_le_of_lt hle ht

/-- Time only removes entries, and only those with a deadline. -/
theorem entry_advance (s : Store κ ν τ) (k : κ) {d : τ} (h : 0 ≤ d) :
    (s.advance d).entry k = (s.entry k).filter (fun e => alive (s.clock + d) e.2) := by
  simp only [entry, advance, Option.filter_filter]
  congr 1
  funext e
  cases he : alive (s.clock + d) e.2 with
  | false => simp
  | true => simp [alive_of_advance h he]

end Time

variable [DecidableEq κ]

def write (s : Store κ ν τ) (k : κ) (e : ν × Option τ) : Store κ ν τ :=
  { s with cell := fun j => if j = k then some e else s.cell j }

/-- Store afresh: an earlier deadline is dropped. -/
def put (s : Store κ ν τ) (k : κ) (v : ν) : Store κ ν τ := s.write k (v, none)

/-- Rewrite in place: the deadline of the key is kept. -/
def modify [LT τ] [DecidableLT τ] (s : Store κ ν τ) (k : κ) (v : ν) : Store κ ν τ :=
  s.write k (v, s.deadline k)

/-- Give an existing key a deadline. -/
def expire [LT τ] [DecidableLT τ] [Add τ] (s : Store κ ν τ) (k : κ) (d : τ) : Store κ ν τ :=
  match s.entry k with
  | none => s
  | some e => s.write k (e.1, some (s.clock + d))

def remove (s : Store κ ν τ) (k : κ) : Store κ ν τ :=
  { s with cell := fun j => if j = k then none else s.cell j }

@[simp] theorem clock_put (s : Store κ ν τ) (k : κ) (v : ν) :
    (s.put k v).clock = s.clock := rfl

section Lookup
variable [LT τ] [DecidableLT τ]

@[simp] theorem clock_expire [Add τ] (s : Store κ ν τ) (k : κ) (d : τ) :
    (s.expire k d).clock = s.clock := by
  simp only [expire]
  split <;> rfl

theorem entry_write_self (s : Store κ ν τ) (k : κ) (e : ν × Option τ)
    (h : alive s.clock e.2 = true) : (s.write k e).entry k = some e := by
  simp [entry, write, h]

@[simp] theorem entry_write_ne (s : Store κ ν τ) {j k : κ} (e : ν × Option τ) (h : j ≠ k) :
    (s.write k e).entry j = s.entry j := by
  simp [entry, write, h]

@[simp] theorem entry_put_self (s : Store κ ν τ) (k : κ) (v : ν) :
    (s.put k v).entry k = some (v, none) := entry_write_self s k _ rfl

@[simp] theorem entry_put_ne (s : Store κ ν τ) {j k : κ} (v : ν) (h : j ≠ k) :
    (s.put k v).entry j = s.entry j := entry_write_ne s _ h

@[simp] theorem entry_modify_self (s : Store κ ν τ) (k : κ) (v : ν) :
    (s.modify k v).entry k = some (v, s.deadline k) :=
  entry_write_self s k _ (s.alive_deadline k)

@[simp] theorem entry_modify_ne (s : Store κ ν τ) {j k : κ} (v : ν) (h : j ≠ k) :
    (s.modify k v).entry j = s.entry j := entry_write_ne s _ h

theorem entry_expire_none [Add τ] (s : Store κ ν τ) (k : κ) (d : τ) (h : s.entry k = none) :
    s.expire k d = s := by
  simp [expire, h]

theorem entry_expire_self [Add τ] (s : Store κ ν τ) (k : κ) (d : τ) (v : ν) (t : Option τ)
    (h : s.entry k = some (v, t)) (hd : s.clock < s.clock + d) :
    (s.expire k d).entry k = some (v, some (s.clock + d)) := by
  simp only [expire, h]
  exact entry_write_self s k _ (by simpa [alive] using hd)

theorem entry_of_expire [Add τ] {s : Store κ ν τ} {k : κ} {d : τ} {e : ν × Option τ}
    (h : (s.expire k d).entry k = some e) :
    e.2 = some (s.clock + d) ∧ ∃ t, s.entry k = some (e.1, t) := by
  simp only [expire] at h
  split at h
  · rename_i hnone
    cases hnone.symm.trans h
  · rename_i e' hsome
    simp only [entry, write, if_true, Option.filter_some] at h
    split at h
    · cases h
      exact ⟨rfl, e'.2, hsome⟩
    · cases h

@[simp] theorem entry_expire_ne [Add τ] (s : Store κ ν τ) {j k : κ} (d : τ) (h : j ≠ k) :
    (s.expire k d).entry j = s.entry j := by
  simp only [expire]
  split
  · rfl
  · exact entry_write_ne s _ h

@[simp] theorem entry_remove_self (s : Store κ ν τ) (k : κ) : (s.remove k).entry k = none := by
  simp [entry, remove]

@[simp] theorem entry_remove_ne (s : Store κ ν τ) {j k : κ} (h : j ≠ k) :
    (s.remove k).entry j = s.entry j := by
  simp [entry, remove, h]

end Lookup

end Store
end Ttl
