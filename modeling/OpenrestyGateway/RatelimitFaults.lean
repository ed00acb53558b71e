import OpenrestyGateway.FailOpen
import OpenrestyGateway.RatelimitSerial

/-!
A call of the request limiter whose GET fails.

The wrapper answers a failed command with nil and a second result, which
redis_commit drops: the call goes on as if there were no record.
-/
namespace OpenrestyGateway
open Interleaving

namespace RateLim

/-- The call tells its caller that something failed: neither an admission nor the
rejection of a request. -/
def Reported : Except Stop Incoming → Prop
  | .ok (.granted _ _) => False
  | .ok (.refused err) => err ≠ some "rejected"
  | .error _ => True

/-- If the GET, the first of the call's commands, fails, then the record and its
lifetime are as before and the failure is reported. -/
def ReadSafe (lim : RateLim) (key : String) (faults : Faults) (s : RedisStore) : Prop :=
  (faults 0).isSome = true →
    ((lim.incoming key).runFaulty faults (0, s)).2.2.cell (lim.recordKey key) =
      s.cell (lim.recordKey key) ∧
    Reported ((lim.incoming key).runFaulty faults (0, s)).1

section Faults
variable (lim : RateLim) (key : String) {faults : Faults} (s : RedisStore)

/-- A failed GET is taken for a missing record: the call writes a fresh one, as far as
its SET and EXPIRE do not fail, and admits the request. -/
theorem incoming_failed_read {f : Fault} (h : faults 0 = some f) :
    (lim.incoming key).runFaulty faults (0, s) =
      (.ok (.granted (Delay.divide 0 lim.rate) (0 / 1000)), 3,
        (execOp (execOp s (faults 1) (.redis (.set (lim.recordKey key)
          (record 0 (s.clock * 1000) false)))).2 (faults 2)
            (.redis (.expire (lim.recordKey key) 60))).2) := by
  rw [incoming_eq]
  simp only [Lua.runFaulty, Prog.run_call, execFaulty, execOp, commandCount, h]
  rfl

/-- Whatever the record was, a ban or a full bucket, it is a fresh one afterwards. -/
theorem failed_read_resets {f : Fault} (h : faults 0 = some f) (hset : faults 1 = none) :
    ((lim.incoming key).runFaulty faults (0, s)).2.2.lookup (lim.recordKey key) =
      some (.str (record 0 (s.clock * 1000) false)) := by
  rw [incoming_failed_read lim key s h, hset]
  cases faults 2 with
  | some _ => exact lookup_put s (lim.recordKey key) _
  | none =>
      exact (lookup_expire _ (lim.recordKey key) (by norm_num)).trans
        (lookup_put s (lim.recordKey key) _)

/-- The bucket survives a failed GET exactly in the calls whose GET does not fail. -/
theorem readSafe_iff : ReadSafe lim key faults s ↔ faults 0 = none := by
  constructor
  · intro h
    cases hf : faults 0 with
    | none => rfl
    | some f =>
        obtain ⟨-, hreported⟩ := h (by rw [hf]; rfl)
        rw [incoming_failed_read lim key s hf] at hreported
        exact hreported.elim
  · intro h hsome
    rw [h] at hsome
    cases hsome

end Faults

/-- A banned user whose GET fails. -/
theorem failed_read_lifts_ban : ∃ lim,
    RateLim.new (some "openresty") (.str "2r/s") (.num 0) (.num 2) = .ok lim ∧
    ¬ ReadSafe lim.1 "gitlab:reqlimit:alice:" (timeoutAt 0)
      ((Redis.exec .empty (.set (lim.1.recordKey "gitlab:reqlimit:alice:")
        (record 1000 0 true))).2) ∧
    ((lim.1.incoming "gitlab:reqlimit:alice:").runFaulty (timeoutAt 0)
      (0, (Redis.exec .empty (.set (lim.1.recordKey "gitlab:reqlimit:alice:")
        (record 1000 0 true))).2)).2.2.lookup (lim.1.recordKey "gitlab:reqlimit:alice:") =
      some (.str (record 0 0 false)) := by
  refine ⟨⟨⟨"openresty", 2000, 0, 2⟩, by norm_num, by norm_num, by norm_num⟩,
    by decide +kernel, ?_, ?_⟩
  · intro h
    obtain ⟨-, hreported⟩ := h rfl
    rw [incoming_failed_read _ _ _ (show timeoutAt 0 0 = some _ from rfl)] at hreported
    exact hreported
  · have hreset := failed_read_resets ⟨"openresty", 2000, 0, 2⟩ "gitlab:reqlimit:alice:"
      ((Redis.exec .empty (.set
        (recordKey ⟨"openresty", 2000, 0, 2⟩ "gitlab:reqlimit:alice:")
        (record 1000 0 true))).2)
      (show timeoutAt 0 0 = some _ from rfl) (show timeoutAt 0 1 = none from rfl)
    have hclock : ((Redis.exec .empty (.set
        (recordKey ⟨"openresty", 2000, 0, 2⟩ "gitlab:reqlimit:alice:")
        (record 1000 0 true))).2).clock = 0 := rfl
    rw [hreset, hclock, zero_mul]

end RateLim
end OpenrestyGateway
