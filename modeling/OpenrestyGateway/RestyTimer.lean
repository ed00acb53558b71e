import OpenrestyGateway.Library.TtlStore
import Mathlib.Data.Rat.Defs
import Mathlib.Algebra.Order.Ring.Unbundled.Rat
import Mathlib.Order.Lattice

/-!
resty/timer.lua: recurring, cancellable timers, and timers of which one runs on the node.

The thread of a timer calls back, sleeps and finds its timer again by its number, unless it was
cancelled or collected meanwhile. Numbers are exact; arguments of callbacks are left out.
-/
namespace OpenrestyGateway
namespace RestyTimer

inductive Reason where
  | gc
  | system
  | user
  deriving DecidableEq

/-- What the user's functions are called for. -/
inductive Call where
  | expire
  | cancel (reason : Reason)
  deriving DecidableEq

/-- `cancel` tells whether a callback is given. -/
structure Options where
  interval : ℚ
  recurring : Bool
  immediate : Bool
  detached : Bool
  jitter : Option ℚ
  cancel : Bool
  shmName : Option String
  keyName : Option String
  subInterval : Option ℚ

/-- Where the thread of a timer is: the timer of nginx has yet to run out, it sleeps, it is in
the callback, or it has ended. -/
inductive Thread where
  | pending (at' : ℚ)
  | sleeping (until' : ℚ)
  | calling
  | ended

/-- `registered` where the registry has the timer under its number. -/
structure Timer where
  worker : Nat
  interval : ℚ
  recurring : Bool
  detached : Bool
  jitter : ℚ
  cancel : Bool
  key : Option (String × String)
  subInterval : ℚ
  subJitter : ℚ
  registered : Bool
  cancelFlag : Bool
  prematureReason : Option Reason
  expire : ℚ
  collected : Bool
  thread : Thread

/-! ### new -/

def keyPrefix : String := "[lua-resty-timer]"

def assert (holds : Bool) (message : String) : Except String Unit :=
  if holds then .ok () else .error message

def Options.checkSubInterval (opts : Options) (subInterval : ℚ) : Except String Unit := do
  assert opts.keyName.isSome "'key_name' is required when specifying 'sub_interval'"
  assert opts.immediate "'immediate' is required when specifying 'sub_interval'"
  assert (0 ≤ subInterval) "expected 'sub_interval' to be greater than or equal to 0"
  assert (subInterval ≤ opts.interval)
    "expected 'sub_interval' to be less than or equal to 'interval'"

def Options.checkShm (opts : Options) (shared : List String) : Except String Unit :=
  match opts.shmName with
  | none => .error "'shm_name' is required when specifying 'key_name'"
  | some shmName => assert (shmName ∈ shared) ("shm by name '" ++ shmName ++ "' not found")

/-- The asserts of new. -/
def Options.check (opts : Options) (shared : List String) : Except String Unit := do
  assert (0 ≤ opts.interval) "expected 'interval' to be greater than or equal to 0"
  assert (opts.recurring || !opts.immediate) "the 'immediate' option requires 'recurring'"
  opts.subInterval.elim (.ok ()) opts.checkSubInterval
  assert (opts.jitter.all (fun jitter => 0 ≤ jitter))
    "expected 'jitter' to be greater than or equal to 0"
  if opts.keyName.isSome then opts.checkShm shared else .ok ()

/-- The first interval, before `immediate` is looked at. -/
def Options.first (opts : Options) (random : ℚ) : ℚ :=
  let subInterval := opts.subInterval.getD opts.interval
  subInterval + random * opts.jitter.getD 0 * subInterval / opts.interval

def Options.delay (opts : Options) (random : ℚ) : ℚ :=
  if opts.immediate then 0 else opts.first random

/-- The timer that new makes; `random` is what math.random returns. -/
def Options.timer (opts : Options) (worker : Nat) (random now : ℚ) : Timer where
  worker := worker
  interval := opts.interval
  recurring := opts.recurring
  detached := opts.detached
  jitter := random * opts.jitter.getD 0
  cancel := opts.cancel
  key := opts.keyName.map (fun keyName => (opts.shmName.getD "", keyPrefix ++ keyName))
  subInterval := opts.subInterval.getD opts.interval
  subJitter := random * opts.jitter.getD 0 * opts.subInterval.getD opts.interval / opts.interval
  registered := true
  cancelFlag := false
  prematureReason := none
  expire := now + opts.delay random
  collected := false
  thread := .pending (now + opts.delay random)

/-! ### The handler -/

namespace Timer

/-- cancel, where `reason` is what premature_reason is set to first. -/
def stop (T : Timer) (reason : Reason) : Timer × List Call :=
  if T.cancelFlag then (T, [])
  else
    ({ T with
        registered := false
        cancelFlag := true
        prematureReason := some (T.prematureReason.getD reason) },
      if T.cancel then [.cancel (T.prematureReason.getD reason)] else [])

/-- The loop of the handler, where it is entered with `premature` set. -/
def quit (T : Timer) : Timer × List Call :=
  if T.registered && !T.cancelFlag then
    ({ (T.stop .system).1 with thread := .ended }, (T.stop .system).2)
  else ({ T with thread := .ended }, [])

/-- The end of the loop. -/
def reschedule (T : Timer) (now : ℚ) (exiting : Bool) : Timer × List Call :=
  let nextInterval := max 0 (T.expire + (T.subInterval + T.subJitter) - now)
  let T := { T with expire := now + nextInterval }
  if exiting then T.quit else ({ T with thread := .sleeping (now + nextInterval) }, [])

/-- The callback of a recurring timer is called. -/
def execute (T : Timer) : Timer × List Call :=
  ({ T with jitter := 0, subJitter := 0, thread := .calling }, [.expire])

/-- The key that is added before the callback, with its lifetime. -/
def added (T : Timer) (premature : Bool) : Option ((String × String) × ℚ) :=
  if T.registered && !T.cancelFlag && !premature && T.recurring then
    T.key.map (fun key => (key, T.interval - 1 / 1000))
  else none

/-- The loop of the handler; `answer` is that of shm:add, and a lifetime below 0 raises. -/
def turn (T : Timer) (now : ℚ) (premature : Bool) (answer : Except String Unit) :
    Timer × List Call :=
  if premature then T.quit
  else if T.registered && !T.cancelFlag then
    if !T.recurring then ({ T with registered := false, thread := .calling }, [.expire])
    else if T.key.isSome && T.interval < 1 / 1000 then ({ T with thread := .ended }, [])
    else
      match answer with
      | .ok _ => T.execute
      | .error err => if err = "exists" then T.reschedule now false else T.execute
  else ({ T with thread := .ended }, [])

/-- The callback has returned, or raised. -/
def finish (T : Timer) (now : ℚ) (exiting : Bool) : Timer × List Call :=
  if T.recurring then T.reschedule now exiting else ({ T with thread := .ended }, [])

/-- The finalizer; only a callback needs one. -/
def collect (T : Timer) : Timer × List Call :=
  let T := { T with registered := false, collected := true }
  if T.cancel then T.stop .gc else (T, [])

/-- Whether the thread can go on, where it does not wait for a callback. -/
def due (T : Timer) (now : ℚ) (exiting : Bool) : Bool :=
  match T.thread with
  | .pending at' => at' ≤ now || exiting
  | .sleeping until' => until' ≤ now
  | .calling | .ended => false

def inCall (T : Timer) : Bool :=
  match T.thread with
  | .calling => true
  | .pending _ | .sleeping _ | .ended => false

end Timer

/-! ### The node -/

abbrev Dicts := Ttl.Store (String × String) Unit ℚ

structure Event where
  timer : Nat
  call : Call
  time : ℚ

structure World where
  dicts : Dicts
  timers : List Timer
  exiting : Nat → Bool
  log : List Event

/-- `fault` is an error of shm:add or of ngx.timer.at. -/
inductive Label where
  | new (worker : Nat) (opts : Options) (random : ℚ) (fault : Option String)
  | wake (i : Nat) (fault : Option String)
  | finish (i : Nat)
  | cancel (i : Nat)
  | collect (i : Nat)
  | exit (worker : Nat)
  | pass (d : ℚ)
  | evict (key : String × String)

/-- An expiry of 0 is none. -/
def deadline (now exptime : ℚ) : Option ℚ := if exptime = 0 then none else some (now + exptime)

def add (dicts : Dicts) (key : String × String) (exptime : ℚ) (fault : Option String) :
    Except String Unit × Dicts :=
  match fault with
  | some err => (.error err, dicts)
  | none =>
      if (dicts.entry key).isSome then (.error "exists", dicts)
      else (.ok (), dicts.write key ((), deadline dicts.clock exptime))

namespace World

def now (W : World) : ℚ := W.dicts.clock

/-- A step of timer `i`, with the calls it makes. -/
def put (W : World) (i : Nat) (r : Timer × List Call) : World :=
  { W with
    timers := W.timers.set i r.1
    log := W.log ++ r.2.map (fun call => ⟨i, call, W.now⟩) }

def new (W : World) (worker : Nat) (opts : Options) (random : ℚ) (fault : Option String) : World :=
  if fault.isSome then W
  else { W with timers := W.timers ++ [opts.timer worker random W.now] }

def wake (W : World) (i : Nat) (T : Timer) (fault : Option String) : World :=
  let premature := W.exiting T.worker
  match T.added premature with
  | none => W.put i (T.turn W.now premature (.ok ()))
  | some (key, exptime) =>
      if exptime < 0 then W.put i (T.turn W.now premature (.ok ()))
      else
        let r := add W.dicts key exptime fault
        { W.put i (T.turn W.now premature r.1) with dicts := r.2 }

/-- `shared` are the names of the dicts. -/
def step (shared : List String) (W : World) : Label → Option World
  | .new worker opts random fault =>
      match opts.check shared with
      | .error _ => none
      | .ok _ => if 0 ≤ random ∧ random < 1 then some (W.new worker opts random fault) else none
  | .wake i fault =>
      (W.timers[i]?).bind (fun T =>
        if T.due W.now (W.exiting T.worker) then some (W.wake i T fault) else none)
  | .finish i =>
      (W.timers[i]?).bind (fun T =>
        if T.inCall then some (W.put i (T.finish W.now (W.exiting T.worker))) else none)
  | .cancel i =>
      (W.timers[i]?).bind (fun T => if T.collected then none else some (W.put i (T.stop .user)))
  | .collect i =>
      (W.timers[i]?).bind (fun T =>
        if T.detached || T.collected || T.inCall then none else some (W.put i T.collect))
  | .exit worker => some { W with exiting := fun j => if j = worker then true else W.exiting j }
  | .pass d => if 0 ≤ d then some { W with dicts := W.dicts.advance d } else none
  | .evict key => some { W with dicts := W.dicts.remove key }

def run (shared : List String) (W : World) : List Label → Option World
  | [] => some W
  | l :: ls => (W.step shared l).bind (fun W => W.run shared ls)

def start : World := ⟨⟨0, fun _ => none⟩, [], fun _ => false, []⟩

end World

/-- Runs in which every step meets `ok`. -/
inductive Runs (shared : List String) (ok : World → Label → Prop) (W : World) : World → Prop where
  | refl : Runs shared ok W W
  | step {W₁ W₂ : World} {l : Label} :
      Runs shared ok W W₁ → ok W₁ l → W₁.step shared l = some W₂ → Runs shared ok W W₂

def Reaches (shared : List String) (ok : World → Label → Prop) (W : World) : Prop :=
  Runs shared ok .start W

theorem Runs.mono {shared : List String} {ok ok' : World → Label → Prop} {W W' : World}
    (h : Runs shared ok W W') (hok : ∀ W l, ok W l → ok' W l) : Runs shared ok' W W' := by
  induction h with
  | refl => exact .refl
  | step _ hl hstep ih => exact .step ih (hok _ _ hl) hstep

theorem Runs.run {shared : List String} {ok : World → Label → Prop} {W W₁ W₂ : World}
    (h : Runs shared ok W W₁) {ls : List Label} (hok : ∀ l ∈ ls, ∀ W, ok W l)
    (hrun : W₁.run shared ls = some W₂) : Runs shared ok W W₂ := by
  induction ls generalizing W₁ with
  | nil =>
      cases hrun
      exact h
  | cons l ls ih =>
      obtain ⟨W', hstep, hrest⟩ := Option.bind_eq_some_iff.mp hrun
      refine ih (.step h (hok l (List.mem_cons_self ..) W₁) hstep) (fun l' hl' => ?_) hrest
      exact hok l' (List.mem_cons_of_mem _ hl')

end RestyTimer
end OpenrestyGateway
