import OpenrestyGateway.Library.FreeList
import OpenrestyGateway.Library.TtlStore
import Mathlib.Data.Rat.Defs
import Mathlib.Algebra.Order.Ring.Unbundled.Rat
import Mathlib.Order.Lattice

/-!
resty.lock: locks that are keys of a dict.

The finalizer of a lock has no access to Lua values, so that each worker keeps the dicts and
keys of its locks in the table memo. Numbers are exact.
-/
namespace OpenrestyGateway
namespace RestyLock

open FreeList

/-! ### memo -/

inductive Val where
  | dict (name : String)
  | key (key : String)
  deriving DecidableEq

abbrev Memo := Table Val

/-- `len` is `#memo`. Place 0 never holds an object. -/
def refObj (len : Nat) (memo : Memo) (key : Val) : Nat × Memo :=
  match memo 0 with
  | some (.link ref) =>
      if ref ≠ 0 then (ref, (memo.set 0 (memo ref)).set ref (some (.obj key)))
      else (len + 1, memo.set (len + 1) (some (.obj key)))
  | some (.obj _) => (len + 1, memo.set (len + 1) (some (.obj key)))
  | none => (len + 1, memo.set (len + 1) (some (.obj key)))

def unrefObj (memo : Memo) (ref : Nat) : Memo :=
  (memo.set ref (memo 0)).set 0 (some (.link ref))

/-! ### The options -/

structure Options where
  timeout : Option ℚ
  exptime : Option ℚ
  step : Option ℚ
  ratio : Option ℚ
  maxStep : Option ℚ

structure Settings where
  timeout : ℚ
  exptime : ℚ
  step : ℚ
  ratio : ℚ
  maxStep : ℚ

def Options.settings (opts : Options) : Settings :=
  let exptime := opts.exptime.getD 30
  match opts.timeout with
  | some timeout =>
      let timeout := min timeout exptime
      { timeout, exptime
        step := (opts.step.map (fun step => min step timeout)).getD (1 / 1000)
        ratio := opts.ratio.getD 2
        maxStep := opts.maxStep.getD (1 / 2) }
  | none =>
      { timeout := 5, exptime
        step := opts.step.getD (1 / 1000)
        ratio := opts.ratio.getD 2
        maxStep := opts.maxStep.getD (1 / 2) }

/-! ### Waiting -/

structure Wait where
  timeout : ℚ
  step : ℚ
  elapsed : ℚ

def Settings.wait (s : Settings) : Wait := ⟨s.timeout, s.step, 0⟩

def Wait.slept (w : Wait) : Wait :=
  { w with elapsed := w.elapsed + w.step, timeout := w.timeout - w.step }

/-- Where a try has failed after a sleep: the next sleep, or nothing where the time is up. -/
def Wait.again (s : Settings) (w : Wait) : Option Wait :=
  if w.timeout ≤ 0 then none
  else some { w with step := min (min (max (1 / 1000) (w.step * s.ratio)) w.timeout) s.maxStep }

/-- The sleep before the try at `n`, if it comes to it. -/
def Settings.sleep (s : Settings) : Nat → Option Wait
  | 0 => if 0 < s.timeout then some s.wait else none
  | n + 1 => (s.sleep n).bind (fun w => w.slept.again s)

/-! ### Locks -/

/-- A lock object with its cdata. `untilTime` is when the key that it holds runs out, which the
object does not know. -/
structure Lock where
  worker : Nat
  settings : Settings
  dictName : String
  dictId : Nat
  keyId : Nat
  key : String
  waiting : Option (String × Wait × ℚ)
  collected : Bool
  untilTime : Option ℚ

/-- The dicts, whose keys hold true; here they hold the lock that has added them. -/
abbrev Dicts := Ttl.Store (String × String) Nat ℚ

structure World where
  dicts : Dicts
  memo : Nat → Memo
  locks : List Lock

/-- An expiry of 0 is none. -/
def expiry (now exptime : ℚ) : Option ℚ := if exptime = 0 then none else some (now + exptime)

/-- What the functions return; nothing while they sleep. -/
abbrev Answer := Option (Except String ℚ)

namespace World

def setMemo (W : World) (worker : Nat) (memo : Memo) : World :=
  { W with memo := fun j => if j = worker then memo else W.memo j }

def setLock (W : World) (i : Nat) (o : Lock) : World := { W with locks := W.locks.set i o }

def new (W : World) (worker : Nat) (dictName : String) (opts : Options) (len : Nat) : World :=
  let r := refObj len (W.memo worker) (.dict dictName)
  { W.setMemo worker r.2 with
    locks := W.locks ++ [⟨worker, opts.settings, dictName, r.1, 0, "", none, false, none⟩] }

/-- dict:add has succeeded. -/
def acquired (W : World) (i : Nat) (o : Lock) (key : String) (len : Nat) : World :=
  let r := refObj len (W.memo o.worker) (.key key)
  let deadline := expiry W.dicts.clock o.settings.exptime
  { W.setMemo o.worker r.2 with
    dicts := W.dicts.write (o.dictName, key) (i, deadline)
    locks := W.locks.set i
      { o with keyId := r.1, key, waiting := none, untilTime := deadline } }

/-- A try to add the key: what is returned where it is obtained, and what follows where it
exists. -/
def tryAdd (W : World) (i : Nat) (o : Lock) (key : String) (len : Nat) (fault : Option String)
    (elapsed : ℚ) (next : Option Wait) : World × Answer :=
  match fault with
  | some err => (W.setLock i { o with waiting := none }, some (.error err))
  | none =>
      if (W.dicts.entry (o.dictName, key)).isNone then
        (W.acquired i o key len, some (.ok elapsed))
      else
        match next with
        | none => (W.setLock i { o with waiting := none }, some (.error "timeout"))
        | some w => (W.setLock i { o with waiting := some (key, w, W.dicts.clock + w.step) }, none)

def lock (W : World) (i : Nat) (o : Lock) (key : String) (len : Nat) (fault : Option String) :
    World × Answer :=
  if 0 < o.keyId then (W, some (.error "locked"))
  else W.tryAdd i o key len fault 0 (o.settings.sleep 0)

/-- The loop of lock after a sleep. -/
def retry (W : World) (i : Nat) (o : Lock) (key : String) (w : Wait) (len : Nat)
    (fault : Option String) : World × Answer :=
  W.tryAdd i o key len fault w.slept.elapsed (w.slept.again o.settings)

/-- The key is deleted whosoever has added it. -/
def deleteKey (W : World) (dictName : String) : Option (Slot Val) → World
  | some (.obj (.key key)) => { W with dicts := W.dicts.remove (dictName, key) }
  | some (.obj (.dict _)) => W
  | some (.link _) => W
  | none => W

def unlock (W : World) (i : Nat) (o : Lock) : World × Answer :=
  if o.keyId = 0 then (W, some (.error "unlocked"))
  else
    let key := W.memo o.worker o.keyId
    let W := W.setMemo o.worker (unrefObj (W.memo o.worker) o.keyId)
    ((W.deleteKey o.dictName key).setLock i { o with keyId := 0 }, some (.ok 1))

/-- dict:replace changes the expiry of a key that is there. -/
def expire (W : World) (i : Nat) (o : Lock) (time : Option ℚ) : World × Answer :=
  if o.keyId = 0 then (W, some (.error "unlocked"))
  else
    match W.dicts.entry (o.dictName, o.key) with
    | none => (W, some (.error "not found"))
    | some e =>
        let deadline := expiry W.dicts.clock (time.getD o.settings.exptime)
        ({ W.setLock i { o with untilTime := deadline } with
            dicts := W.dicts.write (o.dictName, o.key) (e.1, deadline) }, some (.ok 1))

/-- gc_lock where the lock holds a key. -/
def gcKey (W : World) (o : Lock) : World :=
  if 0 < o.keyId then
    let key := W.memo o.worker o.keyId
    let W := W.setMemo o.worker (unrefObj (W.memo o.worker) o.keyId)
    match W.memo o.worker o.dictId with
    | some (.obj (.dict name)) => W.deleteKey name key
    | some (.obj (.key _)) => W
    | some (.link _) => W
    | none => W
  else W

def gcLock (W : World) (i : Nat) (o : Lock) : World :=
  let W := W.gcKey o
  (W.setMemo o.worker (unrefObj (W.memo o.worker) o.dictId)).setLock i
    { o with keyId := 0, collected := true }

end World

/-! ### Runs -/

/-- `len` is the length of memo; `fault` an error of dict:add that is not "exists". -/
inductive Label where
  | new (worker : Nat) (dictName : String) (opts : Options) (len : Nat)
  | lock (i : Nat) (key : String) (len : Nat) (fault : Option String)
  | retry (i : Nat) (len : Nat) (fault : Option String)
  | unlock (i : Nat)
  | expire (i : Nat) (time : Option ℚ)
  | collect (i : Nat)
  | pass (d : ℚ)
  | evict (dictName key : String)

namespace World

/-- A lock that its thread may use: it is not waiting in it. -/
def idle (W : World) (i : Nat) : Option Lock :=
  (W.locks[i]?).filter (fun o => !o.collected && o.waiting.isNone)

def step (W : World) : Label → Option (World × Answer)
  | .new worker dictName opts len =>
      if (W.memo worker).Border len then some (W.new worker dictName opts len, none) else none
  | .lock i key len fault =>
      (W.idle i).bind (fun o =>
        if (W.memo o.worker).Border len then some (W.lock i o key len fault) else none)
  | .retry i len fault =>
      (W.locks[i]?).bind (fun o => o.waiting.bind (fun w =>
        if (W.memo o.worker).Border len ∧ w.2.2 ≤ W.dicts.clock then
          some (W.retry i o w.1 w.2.1 len fault)
        else none))
  | .unlock i => (W.idle i).map (fun o => W.unlock i o)
  | .expire i time => (W.idle i).map (fun o => W.expire i o time)
  | .collect i => (W.idle i).map (fun o => (W.gcLock i o, none))
  | .pass d => if 0 ≤ d then some ({ W with dicts := W.dicts.advance d }, none) else none
  | .evict dictName key => some ({ W with dicts := W.dicts.remove (dictName, key) }, none)

def run (W : World) : List Label → Option World
  | [] => some W
  | l :: ls => (W.step l).bind (fun r => r.1.run ls)

def start : World := ⟨⟨0, fun _ => none⟩, fun _ _ => none, []⟩

end World

/-- The worlds reached by runs in which every step meets `ok`. -/
inductive Reaches (ok : World → Label → Prop) : World → Prop where
  | start : Reaches ok .start
  | step {W W' : World} {l : Label} {a : Answer} :
      Reaches ok W → ok W l → W.step l = some (W', a) → Reaches ok W'

theorem Reaches.run {ok : World → Label → Prop} {W W' : World} (h : Reaches ok W)
    {ls : List Label} (hok : ∀ l ∈ ls, ∀ W, ok W l) (hrun : W.run ls = some W') :
    Reaches ok W' := by
  induction ls generalizing W with
  | nil =>
      cases hrun
      exact h
  | cons l ls ih =>
      obtain ⟨r, hstep, hrest⟩ := Option.bind_eq_some_iff.mp hrun
      refine ih (.step h (hok l (List.mem_cons_self ..) W) hstep) (fun l' hl' => ?_) hrest
      exact hok l' (List.mem_cons_of_mem _ hl')

end RestyLock
end OpenrestyGateway
