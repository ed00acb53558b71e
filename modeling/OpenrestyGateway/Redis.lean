import OpenrestyGateway.Library.TtlStore
import OpenrestyGateway.LuaValue
import Mathlib.Tactic.Linarith

/-!
The Redis commands the scripts issue, executed atomically by one server.

Keys are strings. A string value is kept as what its bytes say: a decimal
integer (which INCR and DECR accept), a JSON text, or anything else. Replies are
what redis_iresty hands to its callers: `nil` and an error on failure, and a
null reply as `nil`.
-/
namespace OpenrestyGateway

inductive Text where
  | int (n : Int)
  | json (v : Val)
  | raw (s : String)
  deriving DecidableEq

inductive Datum where
  | str (t : Text)
  | set (members : List String)

abbrev RedisStore := Ttl.Store String Datum ℚ

def RedisStore.empty : RedisStore := ⟨0, fun _ => none⟩

inductive Command where
  | get (key : String)
  | set (key : String) (t : Text)
  | expire (key : String) (seconds : ℚ)
  | incr (key : String)
  | decr (key : String)
  | sismember (key member : String)
  deriving DecidableEq

def Command.key : Command → String
  | .get key | .set key _ | .expire key _ | .incr key | .decr key | .sismember key _ => key

inductive Res where
  | nil
  | int (n : Int)
  | str (t : Text)

structure Reply where
  res : Res
  err : Option String := none

namespace Redis

def wrongType : Reply :=
  ⟨.nil, some "WRONGTYPE Operation against a key holding the wrong kind of value"⟩

def notInteger : Reply := ⟨.nil, some "ERR value is not an integer or out of range"⟩

/-- INCR and DECR: a missing key counts as 0, a deadline is kept. -/
def incrBy (s : RedisStore) (key : String) (d : Int) : Reply × RedisStore :=
  match s.lookup key with
  | none => (⟨.int d, none⟩, s.modify key (.str (.int d)))
  | some (.str (.int n)) => (⟨.int (n + d), none⟩, s.modify key (.str (.int (n + d))))
  | some (.str _) => (notInteger, s)
  | some (.set _) => (wrongType, s)

def exec (s : RedisStore) : Command → Reply × RedisStore
  | .get key =>
      match s.lookup key with
      | none => (⟨.nil, none⟩, s)
      | some (.str t) => (⟨.str t, none⟩, s)
      | some (.set _) => (wrongType, s)
  | .set key t => (⟨.str (.raw "OK"), none⟩, s.put key (.str t))
  | .expire key seconds =>
      -- the seconds must be written as an integer
      if seconds.den ≠ 1 then (notInteger, s)
      else
        match s.lookup key with
        | none => (⟨.int 0, none⟩, s)
        | some _ => (⟨.int 1, none⟩, s.expire key seconds)
  | .incr key => incrBy s key 1
  | .decr key => incrBy s key (-1)
  | .sismember key member =>
      match s.lookup key with
      | none => (⟨.int 0, none⟩, s)
      | some (.set ms) => (⟨.int (if member ∈ ms then 1 else 0), none⟩, s)
      | some (.str _) => (wrongType, s)

/-- The value a counter key stands for: a missing key counts as 0, and a key
that holds no integer counts as nothing. -/
def counter (s : RedisStore) (key : String) : Option Int :=
  match s.lookup key with
  | none => some 0
  | some (.str (.int n)) => some n
  | some _ => none

theorem counter_eq_of_entry {s s' : RedisStore} {key : String}
    (h : s'.entry key = s.entry key) : counter s' key = counter s key := by
  simp only [counter, Ttl.Store.lookup, h]

theorem counter_of_entry {s : RedisStore} {key : String} {n : Int} {t : Option ℚ}
    (h : s.entry key = some (.str (.int n), t)) : counter s key = some n := by
  simp [counter, Ttl.Store.lookup, h]

theorem incrBy_counter {s : RedisStore} {key : String} {n : Int} (d : Int)
    (h : counter s key = some n) :
    (incrBy s key d).1 = ⟨.int (n + d), none⟩ ∧
      counter (incrBy s key d).2 key = some (n + d) := by
  simp only [counter] at h
  simp only [incrBy]
  split at h
  · rename_i hl
    cases h
    rw [hl]
    refine ⟨by simp, ?_⟩
    rw [Int.zero_add]
    exact counter_of_entry (Ttl.Store.entry_modify_self s key _)
  · rename_i m hl
    cases h
    rw [hl]
    exact ⟨rfl, counter_of_entry (Ttl.Store.entry_modify_self s key _)⟩
  · cases h

theorem incrBy_other (s : RedisStore) {key other : String} (d : Int) (h : other ≠ key) :
    counter (incrBy s key d).2 other = counter s other := by
  simp only [incrBy]
  split
  · exact counter_eq_of_entry (Ttl.Store.entry_modify_ne s _ h)
  · exact counter_eq_of_entry (Ttl.Store.entry_modify_ne s _ h)
  · rfl
  · rfl

/-- INCR and DECR move their own counter and no other. -/
theorem counter_incrBy {s : RedisStore} {key other : String} {n : Int} (d : Int)
    (h : counter s other = some n) :
    counter (incrBy s key d).2 other = some (n + if other = key then d else 0) := by
  by_cases hkey : other = key
  · subst hkey
    rw [(incrBy_counter d h).2, if_pos rfl]
  · rw [incrBy_other s d hkey, h, if_neg hkey, add_zero]

theorem counter_expire (s : RedisStore) (key other : String) {seconds : ℚ}
    (h : 0 < seconds) : counter (s.expire key seconds) other = counter s other := by
  by_cases hk : other = key
  · subst hk
    cases he : s.entry other with
    | none => rw [Ttl.Store.entry_expire_none s other seconds he]
    | some e =>
        have hnew := Ttl.Store.entry_expire_self s other seconds e.1 e.2 he (by linarith)
        simp only [counter, Ttl.Store.lookup, he, hnew, Option.map_some]
  · exact counter_eq_of_entry (Ttl.Store.entry_expire_ne s seconds hk)

section Congr
variable {s s' : RedisStore} {key : String}

theorem entry_congr (hclock : s.clock = s'.clock) (hcell : s.cell key = s'.cell key) :
    s.entry key = s'.entry key := by
  simp only [Ttl.Store.entry, hclock, hcell]

theorem incrBy_congr (d : Int) (hclock : s.clock = s'.clock)
    (hcell : s.cell key = s'.cell key) :
    (incrBy s key d).1 = (incrBy s' key d).1 ∧
      (incrBy s key d).2.clock = (incrBy s' key d).2.clock ∧
      (incrBy s key d).2.cell key = (incrBy s' key d).2.cell key := by
  have hentry := entry_congr hclock hcell
  simp only [incrBy, Ttl.Store.lookup, hentry]
  split
  all_goals
    simp [Ttl.Store.modify, Ttl.Store.write, Ttl.Store.deadline, hclock, hcell, hentry]

/-- A command looks at one key and changes no other. -/
theorem exec_congr (c : Command) (hclock : s.clock = s'.clock)
    (hcell : s.cell c.key = s'.cell c.key) :
    (exec s c).1 = (exec s' c).1 ∧ (exec s c).2.clock = (exec s' c).2.clock ∧
      (exec s c).2.cell c.key = (exec s' c).2.cell c.key := by
  have hentry := entry_congr hclock hcell
  cases c with
  | get k | sismember k m =>
      simp only [exec, Ttl.Store.lookup, Command.key] at hentry hcell ⊢
      rw [hentry]
      split <;> exact ⟨rfl, hclock, hcell⟩
  | set k t =>
      refine ⟨rfl, hclock, ?_⟩
      simp [exec, Ttl.Store.put, Ttl.Store.write, Command.key]
  | expire k seconds =>
      simp only [exec, Ttl.Store.lookup, Command.key] at hentry hcell ⊢
      rw [hentry]
      split
      · exact ⟨rfl, hclock, hcell⟩
      · cases he : s'.entry k with
        | none => exact ⟨rfl, hclock, hcell⟩
        | some e =>
            simp [Ttl.Store.expire, he, hentry, Ttl.Store.write, hclock]
  | incr k => exact incrBy_congr 1 hclock hcell
  | decr k => exact incrBy_congr (-1) hclock hcell

theorem exec_other (s : RedisStore) (c : Command) {key : String} (h : c.key ≠ key) :
    (exec s c).2.cell key = s.cell key := by
  have hincr : ∀ k d, k ≠ key → (incrBy s k d).2.cell key = s.cell key := by
    intro k d hk
    simp only [incrBy]
    split
    all_goals simp [Ttl.Store.modify, Ttl.Store.write, hk.symm]
  cases c with
  | get k | sismember k m =>
      simp only [exec]
      split <;> rfl
  | set k t =>
      have hk : key ≠ k := Ne.symm h
      simp [exec, Ttl.Store.put, Ttl.Store.write, hk]
  | expire k seconds =>
      have hk : key ≠ k := Ne.symm h
      simp only [exec]
      split
      · rfl
      · split
        · rfl
        · simp only [Ttl.Store.expire]
          split
          · rfl
          · simp [Ttl.Store.write, hk]
  | incr k => exact hincr k 1 h
  | decr k => exact hincr k (-1) h

end Congr

end Redis
end OpenrestyGateway
