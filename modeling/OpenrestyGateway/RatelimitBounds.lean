import OpenrestyGateway.RatelimitSerial

/-!
What calls on one key store and return, whatever comes between their commands.

The clock each call has read is arbitrary, so are the commands that fail and the
record that a call finds. The bounds are those of a single verdict: it is reached
from whatever was read, and what is written and answered depends on it alone.
-/
namespace OpenrestyGateway
open Interleaving

namespace RateLim

/-- The excess of an admission is within the burst, that of a rejection above it. -/
def Verdict.InBounds (lim : RateLim) : Verdict → Prop
  | .forbidden => True
  | .busy x => lim.burst < x
  | .pass x => 0 ≤ x ∧ x ≤ lim.burst

/-- A record is either within the burst, or it is a ban, above the burst, of a limiter
that has bans. -/
def RecordInBounds (lim : RateLim) (t : Text) : Prop :=
  ∃ excess now, (t = record excess now false ∧ 0 ≤ excess ∧ excess ≤ lim.burst) ∨
    (t = record excess now true ∧ lim.burst < excess ∧ 0 < lim.duration)

theorem weigh_inBounds {lim : RateLim} (ha : lim.Accepted) {now : ℚ} {res : Res} {v : Verdict}
    (h : weigh lim now res = .ok v) : v.InBounds lim := by
  cases res with
  | nil | int _ =>
      cases h
      exact ⟨le_rfl, ha.burst_nonneg⟩
  | str t =>
      obtain ⟨d, -, h⟩ := LuaError.bind_eq_ok h
      obtain ⟨⟨excess, last, forbidden⟩, -, h⟩ := LuaError.bind_eq_ok h
      simp only at h
      split at h
      · cases h
        trivial
      · obtain ⟨lastNum, -, h⟩ := LuaError.bind_eq_ok h
        obtain ⟨x, -, h⟩ := LuaError.bind_eq_ok h
        generalize x - lim.rate * |now - lastNum| / 1000 + 1000 = y at h
        have hpos : 0 ≤ if y < 0 then 0 else y := by
          split
          · exact le_rfl
          · exact not_lt.mp ‹_›
        generalize (if y < 0 then 0 else y) = z at h hpos
        split at h
        · cases h
          assumption
        · cases h
          exact ⟨hpos, not_lt.mp ‹_›⟩

theorem weigh_isBan (lim : RateLim) (now : ℚ) {t : Text} (h : isBan (.str t) = true) :
    weigh lim now (.str t) = .ok .forbidden := by
  simp only [isBan] at h
  split at h
  · rename_i excess last forbidden hfields
    obtain ⟨v, hv, hfields⟩ := LuaError.bind_eq_ok hfields
    simp only [weigh, hv, hfields, bind, Except.bind, h, if_true]
    rfl
  · cases h

theorem write_inBounds {lim : RateLim} {now : ℚ} {v : Verdict} {t : Text} {seconds : ℚ}
    (hv : v.InBounds lim) (h : v.write lim now = some (t, seconds)) : RecordInBounds lim t := by
  cases v with
  | forbidden => cases h
  | busy x =>
      simp only [Verdict.write] at h
      split at h
      · rename_i hd
        cases h
        exact ⟨x, now, .inr ⟨rfl, hv, hd⟩⟩
      · cases h
  | pass x =>
      cases h
      exact ⟨x, now, .inl ⟨rfl, hv⟩⟩

/-- The delay of an admission is at most the time in which a full bucket drains. -/
theorem answer_inBounds {lim : RateLim} (hr : 1 ≤ lim.rate) {v : Verdict}
    (hv : v.InBounds lim) {delay : Delay} {excess : ℚ}
    (h : v.answer lim = .granted delay excess) :
    ∃ seconds, delay = .finite seconds ∧ 0 ≤ seconds ∧ seconds ≤ lim.burst / lim.rate := by
  have hpos : 0 < lim.rate := lt_of_lt_of_le one_pos hr
  cases v with
  | forbidden | busy _ => cases h
  | pass x =>
      cases h
      refine ⟨x / lim.rate, if_pos hpos.ne', div_nonneg hv.1 hpos.le, ?_⟩
      exact div_le_div_of_nonneg_right hv.2 hpos.le

/-- Where a call stands that has read the clock at `now`, and what it is up to. -/
inductive Stage (lim : RateLim) (key : String) (now : ℚ) : Lua Incoming → Prop where
  | reading : Stage lim key now
      (.call (.redis (.get key)) (fun reply : Reply => afterGet lim key now reply.res))
  | writing (v : Verdict) (t : Text) (seconds : ℚ) : v.InBounds lim →
      v.write lim now = some (t, seconds) → Stage lim key now
      (.call (.redis (.set key t)) (fun _ =>
        .call (.redis (.expire key seconds)) (fun _ => .ret (v.answer lim))))
  | expiring (v : Verdict) (seconds : ℚ) : v.InBounds lim → Stage lim key now
      (.call (.redis (.expire key seconds)) (fun _ => .ret (v.answer lim)))
  | returned (v : Verdict) : v.InBounds lim → Stage lim key now (.ret (v.answer lim))
  | raised (e : Stop) : Stage lim key now (.stop e)

theorem stage_afterGet {lim : RateLim} (ha : lim.Accepted) (key : String) (now : ℚ) (res : Res) :
    Stage lim key now (afterGet lim key now res) := by
  simp only [afterGet]
  cases hweigh : weigh lim now res with
  | error e => exact .raised _
  | ok v =>
      have hv := weigh_inBounds ha hweigh
      simp only
      cases hw : v.write lim now with
      | none => exact .returned v hv
      | some w => exact .writing v w.1 w.2 hv hw

/-- A call about to read, the first of its commands. -/
def isReading : Lua Incoming → Bool
  | .call (.redis (.get _)) _ => true
  | _ => false

def finished : Lua Incoming → Bool
  | .ret _ => true
  | _ => false

theorem isReading_afterGet (lim : RateLim) (key : String) (now : ℚ) (res : Res) :
    isReading (afterGet lim key now res) = false := by
  simp only [afterGet]
  cases weigh lim now res with
  | error e => rfl
  | ok v =>
      simp only
      cases v.write lim now <;> rfl

/-- A call that reads a ban is at its end. -/
theorem finished_afterGet (lim : RateLim) (key : String) (now : ℚ) {t : Text}
    (h : isBan (.str t) = true) : finished (afterGet lim key now (.str t)) = true := by
  simp only [afterGet, weigh_isBan lim now h]
  rfl

abbrev RedisEvent := Event Op Op.Answer

/-- A call that read a ban. -/
def ReadBan (key : String) (e : RedisEvent) : Prop :=
  ∃ t err, e = ⟨e.who, .redis (.get key), (⟨.str t, err⟩ : Reply)⟩ ∧ isBan (.str t) = true

/-- The calls at their stages and the history of their commands. -/
structure Bounds (lim : RateLim) (key : String) (nows : List ℚ) (q : LimitPool) : Prop where
  stage : ∀ (i : Nat) p, q.procs[i]? = some p → Stage lim key (nows.getD i 0 * 1000) p
  stored : ∀ e ∈ q.log, ∀ k t, e.op = .redis (.set k t) → RecordInBounds lim t
  fresh : ∀ (i : Nat) p, q.procs[i]? = some p → isReading p = true → ∀ e ∈ q.log, e.who ≠ i
  banned : ∀ e ∈ q.log, ReadBan key e → (∃ p, q.procs[e.who]? = some p ∧ finished p = true) ∧
    ∀ e' ∈ q.log, e'.who = e.who → e'.op = .redis (.get key)

section Step
variable {lim : RateLim} {key : String} {nows : List ℚ} {q q' : LimitPool} {i : Nat}
  {p p' : Lua Incoming}

/-- One command of a call: it moves to its next stage and is never about to read again. -/
theorem bounds_command (h : Bounds lim key nows q) (hp : q.procs[i]? = some p)
    (hunfinished : finished p = false) {o : Op} {a : o.Answer} {store : RedisStore}
    (hp' : Stage lim key (nows.getD i 0 * 1000) p') (hread : isReading p' = false)
    (hstored : ∀ k t, o = .redis (.set k t) → RecordInBounds lim t)
    (hban : ReadBan key ⟨i, o, a⟩ → isReading p = true ∧ finished p' = true) :
    Bounds lim key nows ⟨q.procs.set i p', store, q.log ++ [⟨i, o, a⟩]⟩ := by
  have hlt : i < q.procs.length := (List.getElem?_eq_some_iff.mp hp).1
  have hsnoc : ∀ {P : RedisEvent → Prop}, (∀ e ∈ q.log, P e) → P ⟨i, o, a⟩ →
      ∀ e ∈ q.log ++ [⟨i, o, a⟩], P e :=
    fun hold hnew => List.forall_mem_append.mpr ⟨hold, List.forall_mem_singleton.mpr hnew⟩
  refine ⟨?_, hsnoc h.stored hstored, ?_, hsnoc (fun e he hreadBan => ?_) (fun hreadBan => ?_)⟩
  · intro j r hr
    rcases getElem?_set_cases hr with ⟨rfl, rfl⟩ | ⟨-, hr⟩
    · exact hp'
    · exact h.stage j r hr
  · intro j r hr hreading
    rcases getElem?_set_cases hr with ⟨rfl, rfl⟩ | ⟨hj, hr⟩
    · rw [hread] at hreading
      cases hreading
    · exact hsnoc (h.fresh j r hr hreading) hj.symm
  · obtain ⟨⟨r, hr, hfinished⟩, honly⟩ := h.banned e he hreadBan
    have hne : e.who ≠ i := by
      intro heq
      rw [heq, hp] at hr
      cases hr
      rw [hunfinished] at hfinished
      cases hfinished
    refine ⟨⟨r, by rwa [List.getElem?_set_ne hne.symm], hfinished⟩, ?_⟩
    exact hsnoc honly (fun hwho => absurd hwho.symm hne)
  · obtain ⟨hreading, hfinished⟩ := hban hreadBan
    refine ⟨⟨p', List.getElem?_set_self hlt, hfinished⟩, hsnoc ?_ ?_⟩
    · intro e' he' hwho
      exact absurd hwho (h.fresh i p hp hreading e' he')
    · intro _
      obtain ⟨t, err, heq, -⟩ := hreadBan
      cases heq
      rfl

theorem bounds_step (ha : lim.Accepted) (h : Bounds lim (lim.recordKey key) nows q)
    {l : Label (Option Fault) ℚ≥0} (hstep : limiters.step q l = some q') :
    Bounds lim (lim.recordKey key) nows q' := by
  obtain ⟨i, fault, p, o, k, rfl, hp, hk, rfl⟩ | ⟨dt, rfl, rfl⟩ := limiters.step_cases hstep
  · cases h.stage i p hp with
    | returned _ _ | raised _ => cases hk
    | reading =>
        cases hk
        refine bounds_command h hp rfl (stage_afterGet ha _ _ _) (isReading_afterGet _ _ _ _) ?_ ?_
        · intro k t ho
          cases ho
        · rintro ⟨t, err, heq, hban⟩
          refine ⟨rfl, ?_⟩
          rw [eq_of_heq (Event.mk.inj heq).2.2]
          exact finished_afterGet _ _ _ hban
    | writing v t seconds hv hw =>
        cases hk
        refine bounds_command h hp rfl (.expiring v seconds hv) rfl ?_ ?_
        · intro k t' ho
          cases ho
          exact write_inBounds hv hw
        · rintro ⟨t', err, heq, -⟩
          cases heq
    | expiring v seconds hv =>
        cases hk
        refine bounds_command h hp rfl (.returned v hv) rfl ?_ ?_
        · intro k t' ho
          cases ho
        · rintro ⟨t', err, heq, -⟩
          cases heq
  · exact ⟨h.stage, h.stored, h.fresh, h.banned⟩

end Step

/-- What holds of the calls on a key and of the history of their commands. -/
structure WithinBounds (lim : RateLim) (key : String) (q : LimitPool) : Prop where
  stored : ∀ e ∈ q.log, ∀ k t, e.op = .redis (.set k t) → RecordInBounds lim t
  admitted : ∀ p ∈ q.procs, ∀ delay excess, p = .ret (.granted delay excess) →
    ∃ seconds, delay = .finite seconds ∧ 0 ≤ seconds ∧ seconds ≤ lim.burst / lim.rate
  forbidden : ∀ e ∈ q.log, ReadBan (lim.recordKey key) e →
    ∀ e' ∈ q.log, e'.who = e.who → e'.op = .redis (.get (lim.recordKey key))

end RateLim
end OpenrestyGateway
