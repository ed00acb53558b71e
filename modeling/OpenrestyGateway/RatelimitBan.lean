import OpenrestyGateway.Library.Pool
import OpenrestyGateway.Ratelimit
import Mathlib.Data.NNRat.Defs

/-!
Bans of the request limiter under calls that come between each other.

A ban is written by a SET and given its lifetime by an EXPIRE, and no call
rewrites a ban it reads. So a ban ends only if the EXPIRE that is executed last
gives it a lifetime.
-/
namespace OpenrestyGateway
open Interleaving

abbrev LimitPool := Pool Op Op.Answer (Lua RateLim.Incoming) RedisStore

def callNext : Lua RateLim.Incoming → Option ((o : Op) × (o.Answer → Lua RateLim.Incoming))
  | .call o k => some ⟨o, k⟩
  | .ret _ | .stop _ => none

def limiters : Machine Op Op.Answer (Lua RateLim.Incoming) RedisStore (Option Fault) ℚ≥0 where
  next := callNext
  exec := execOp
  outside := fun s dt => s.advance dt

namespace RateLim

def isBan : Datum → Bool
  | .str t =>
      match decode t >>= fields with
      | .ok (_, _, forbidden) => forbidden.isNum 1
      | .error _ => false
  | .set _ => false

def banned (s : RedisStore) (key : String) : Prop := ∃ d ∈ s.lookup key, isBan d = true

/-- A ban under the key has at most its duration to live, rounded up to a second. -/
def BanShort (lim : RateLim) (key : String) (s : RedisStore) : Prop :=
  banned s key → ∃ u ∈ s.deadline key, u ≤ s.clock + ⌈lim.duration⌉

instance (s : RedisStore) (key : String) : Decidable (banned s key) :=
  inferInstanceAs (Decidable (∃ d ∈ s.lookup key, isBan d = true))

instance (lim : RateLim) (key : String) (s : RedisStore) : Decidable (BanShort lim key s) :=
  inferInstanceAs (Decidable (_ → ∃ u ∈ s.deadline key, u ≤ s.clock + ⌈lim.duration⌉))

/-- The lifetime a call between its SET and its EXPIRE is about to set. -/
def expiring : Lua Incoming → Option ℚ
  | .call (.redis (.expire _ seconds)) _ => some seconds
  | _ => none

def isExpiring (p : Lua Incoming) : Bool := (expiring p).isSome

def Settled (q : LimitPool) : Prop := q.procs.countP isExpiring = 0

/-- The calls on one key: reading, then a SET that is followed by an EXPIRE. -/
inductive WritesInPairs (key : String) : Lua Incoming → Prop where
  | ret (a : Incoming) : WritesInPairs key (.ret a)
  | stop (e : Stop) : WritesInPairs key (.stop e)
  | now (k : ℚ → Lua Incoming) : (∀ t, WritesInPairs key (k t)) →
      WritesInPairs key (.call .now k)
  | get (k : Reply → Lua Incoming) : (∀ r, WritesInPairs key (k r)) →
      WritesInPairs key (.call (.redis (.get key)) k)
  | set (t : Text) (seconds : ℚ) (a : Incoming) :
      WritesInPairs key (.call (.redis (.set key t)) (fun _ =>
        .call (.redis (.expire key seconds)) (fun _ => .ret a)))
  | expire (seconds : ℚ) (a : Incoming) :
      WritesInPairs key (.call (.redis (.expire key seconds)) (fun _ => .ret a))

theorem writesInPairs_incoming (lim : RateLim) (key : String) :
    WritesInPairs (lim.recordKey key) (lim.incoming key) := by
  rw [incoming_eq]
  refine .now _ (fun t => .get _ (fun reply => ?_))
  simp only [afterGet]
  cases weigh lim (t * 1000) (Reply.res reply) with
  | error e => exact .stop _
  | ok v =>
      simp only
      cases v.write lim (t * 1000) with
      | none => exact .ret _
      | some w => exact .set w.1 w.2 _

/-- The EXPIRE of the last write in progress, where it finds a ban, gives the ban
a lifetime within its duration, or does nothing and the ban has one already. -/
def LastExpireEndsBan (lim : RateLim) (key : String) (q : LimitPool) :
    Label (Option Fault) ℚ≥0 → Prop
  | .run i fault => ∀ seconds ∈ (q.procs[i]?).bind expiring,
      q.procs.countP isExpiring = 1 → banned q.store key →
        if fault.isNone ∧ seconds.den = 1 then seconds ≤ ⌈lim.duration⌉
        else BanShort lim key q.store
  | .outside _ => True

instance (lim : RateLim) (key : String) (q : LimitPool) (l : Label (Option Fault) ℚ≥0) :
    Decidable (LastExpireEndsBan lim key q l) :=
  match l with
  | .run i fault => inferInstanceAs (Decidable (∀ seconds ∈ (q.procs[i]?).bind expiring,
      q.procs.countP isExpiring = 1 → banned q.store key →
        if fault.isNone ∧ seconds.den = 1 then seconds ≤ ⌈lim.duration⌉
        else BanShort lim key q.store))
  | .outside _ => .isTrue trivial

section Store
variable {lim : RateLim} {key : String} {s : RedisStore}

theorem banned_iff : banned s key ↔ ∃ e, s.entry key = some e ∧ isBan e.1 = true := by
  simp [banned, Ttl.Store.lookup]

theorem deadline_of_entry {e : Datum × Option ℚ} (h : s.entry key = some e) :
    s.deadline key = e.2 := by
  simp [Ttl.Store.deadline, h]

/-- Time takes bans away and brings none. -/
theorem banShort_advance (h : BanShort lim key s) (dt : ℚ≥0) :
    BanShort lim key (s.advance dt) := by
  intro hban
  obtain ⟨e, he, hflag⟩ := banned_iff.mp hban
  have hold : s.entry key = some e :=
    (Option.filter_eq_some_iff.mp ((Ttl.Store.entry_advance s key dt.2).symm.trans he)).1
  obtain ⟨u, hu, hle⟩ := h (banned_iff.mpr ⟨e, hold, hflag⟩)
  rw [deadline_of_entry hold] at hu
  refine ⟨u, by rwa [deadline_of_entry he], ?_⟩
  have hdt : (0 : ℚ) ≤ dt := dt.2
  rw [Ttl.Store.clock_advance]
  linarith

theorem execOp_expire (s : RedisStore) (key : String) (fault : Option Fault) (seconds : ℚ) :
    (execOp s fault (.redis (.expire key seconds))).2 =
      if fault.isNone ∧ seconds.den = 1 then s.expire key seconds else s := by
  cases fault with
  | some f => simp [execOp]
  | none =>
      simp only [execOp, Redis.exec, Option.isNone_none, true_and]
      by_cases hd : seconds.den = 1
      · simp only [hd, ne_eq, not_true_eq_false, if_false, if_true]
        split
        · rename_i hnone
          have hentry : s.entry key = none := by
            simpa [Ttl.Store.lookup] using hnone
          exact (Ttl.Store.entry_expire_none s key seconds hentry).symm
        · rfl
      · simp only [hd, ne_eq, not_false_eq_true, if_true, if_false]

theorem banned_expire {seconds : ℚ} (h : banned (s.expire key seconds) key) :
    banned s key ∧ (s.expire key seconds).deadline key = some (s.clock + seconds) := by
  obtain ⟨e, he, hflag⟩ := banned_iff.mp h
  obtain ⟨hdeadline, t, hold⟩ := Ttl.Store.entry_of_expire he
  exact ⟨banned_iff.mpr ⟨(e.1, t), hold, hflag⟩, (deadline_of_entry he).trans hdeadline⟩

theorem banShort_expire {fault : Option Fault} {seconds : ℚ}
    (h : banned s key → if fault.isNone ∧ seconds.den = 1 then seconds ≤ ⌈lim.duration⌉
      else BanShort lim key s) :
    BanShort lim key (execOp s fault (.redis (.expire key seconds))).2 := by
  rw [execOp_expire]
  by_cases heffect : fault.isNone ∧ seconds.den = 1
  · simp only [if_pos heffect] at h ⊢
    intro hban
    obtain ⟨hold, hdeadline⟩ := banned_expire hban
    refine ⟨s.clock + seconds, hdeadline, ?_⟩
    rw [Ttl.Store.clock_expire]
    linarith [h hold]
  · simp only [if_neg heffect] at h ⊢
    exact fun hban => h hban hban

end Store

/-- Every call is at a point of its protocol, and where none is between its SET
and its EXPIRE a ban has a lifetime. -/
structure BanInvariant (lim : RateLim) (key : String) (q : LimitPool) : Prop where
  calls : ∀ p ∈ q.procs, WritesInPairs key p
  short : Settled q → BanShort lim key q.store

theorem countP_of_settled {ps : List (Lua Incoming)} {i : Nat} {p p' : Lua Incoming}
    (hp : ps[i]? = some p) (h : (ps.set i p').countP isExpiring = 0) :
    isExpiring p' = false ∧ ps.countP isExpiring = if isExpiring p then 1 else 0 := by
  have hlt : i < ps.length := (List.getElem?_eq_some_iff.mp hp).1
  have hnot : isExpiring p' = false := by
    simpa using List.countP_eq_zero.mp h p' (List.mem_set hlt p')
  have hcount := countP_set_add isExpiring ps i p p' hp
  refine ⟨hnot, ?_⟩
  rw [h, hnot] at hcount
  simpa using hcount.symm

theorem banInvariant_step {lim : RateLim} {key : String} {q q' : LimitPool}
    {l : Label (Option Fault) ℚ≥0} (h : BanInvariant lim key q)
    (hok : LastExpireEndsBan lim key q l) (hstep : limiters.step q l = some q') :
    BanInvariant lim key q' := by
  obtain ⟨i, fault, p, o, k, rfl, hp, hk, rfl⟩ | ⟨dt, rfl, rfl⟩ := limiters.step_cases hstep
  · have hcalls := fun hnext => forall_mem_set (i := i) h.calls
      (hnext : WritesInPairs key (k (limiters.exec q.store fault o).1))
    cases h.calls p (List.mem_of_getElem? hp) with
    | ret _ | stop _ => cases hk
    | now k' hrest =>
        cases hk
        refine ⟨hcalls (hrest _), fun hsettled => h.short ?_⟩
        exact (countP_of_settled hp hsettled).2
    | get k' hrest =>
        cases hk
        refine ⟨hcalls (hrest _), fun hsettled => ?_⟩
        have hsame : (execOp q.store fault (.redis (.get key))).2 = q.store := by
          cases fault with
          | some f => rfl
          | none =>
              simp only [execOp, Redis.exec]
              split <;> rfl
        simp only [limiters, hsame]
        exact h.short (countP_of_settled hp hsettled).2
    | set t seconds a =>
        cases hk
        refine ⟨hcalls (.expire seconds a), fun hsettled => ?_⟩
        cases (countP_of_settled hp hsettled).1
    | expire seconds a =>
        cases hk
        refine ⟨hcalls (.ret a), fun hsettled => banShort_expire (hok seconds ?_ ?_)⟩
        · rw [hp]
          rfl
        · exact (countP_of_settled hp hsettled).2
  · exact ⟨h.calls, fun hsettled => banShort_advance (h.short hsettled) dt⟩

/-- The condition is exact: where it fails at a step, the state after the step is
settled and its ban outlives the duration. -/
theorem ban_outlives {lim : RateLim} {key : String} {q q' : LimitPool}
    (hlim : 0 ≤ lim.duration) (hcalls : ∀ p ∈ q.procs, WritesInPairs key p)
    {l : Label (Option Fault) ℚ≥0} (hbad : ¬ LastExpireEndsBan lim key q l)
    (hstep : limiters.step q l = some q') : Settled q' ∧ ¬ BanShort lim key q'.store := by
  obtain ⟨i, fault, p, o, k, rfl, hp, hk, rfl⟩ | ⟨dt, rfl, rfl⟩ := limiters.step_cases hstep
  · simp only [LastExpireEndsBan, not_forall] at hbad
    obtain ⟨seconds, hseconds, hone, hban, hfails⟩ := hbad
    rw [hp] at hseconds
    cases hcalls p (List.mem_of_getElem? hp) with
    | ret _ | stop _ => cases hk
    | now _ _ | get _ _ | set _ _ _ => cases hseconds
    | expire seconds' a =>
        cases hseconds
        cases hk
        have hcount := countP_set_add isExpiring q.procs i _ (.ret a) hp
        refine ⟨?_, ?_⟩
        · rw [hone] at hcount
          simpa [Settled, isExpiring, expiring] using hcount
        · simp only [limiters, execOp_expire]
          by_cases heffect : fault.isNone ∧ seconds.den = 1
          · simp only [if_pos heffect] at hfails ⊢
            have hceil : (0 : ℚ) ≤ ⌈lim.duration⌉ := by exact_mod_cast Int.ceil_nonneg hlim
            obtain ⟨e, he, hflag⟩ := banned_iff.mp hban
            have hnew := Ttl.Store.entry_expire_self q.store key seconds e.1 e.2 he
              (by linarith)
            intro hshort
            obtain ⟨u, hu, hle⟩ := hshort (banned_iff.mpr ⟨_, hnew, hflag⟩)
            rw [deadline_of_entry hnew] at hu
            cases hu
            rw [Ttl.Store.clock_expire] at hle
            linarith
          · simpa only [if_neg heffect] using hfails
  · exact absurd trivial hbad

end RateLim
end OpenrestyGateway
