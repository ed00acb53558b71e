import OpenrestyGateway.Worker

/-!
The request limiter, util/ratelimit.lua: a leaky bucket per key, kept in Redis as
the JSON array of the excess, the time of the last write in milliseconds and the
flag of a ban. A call reads the record with GET and writes it back with SET and
EXPIRE, three commands that other calls can come between.
-/
namespace OpenrestyGateway
open Interleaving

structure RateLim where
  zone : String
  rate : ℚ
  burst : ℚ
  duration : ℚ
  deriving DecidableEq

namespace RateLim

/-- The number in front of a rate's unit, and the unit's length in seconds. -/
def splitRate (rate : String) : String × ℚ :=
  let cs := rate.toList
  let len := cs.length
  if 3 < len ∧ cs.drop (len - 3) = ['r', '/', 's'] then (String.ofList (cs.take (len - 3)), 1)
  else if 3 < len ∧ cs.drop (len - 3) = ['r', '/', 'm'] then
    (String.ofList (cs.take (len - 3)), 60)
  else (rate, 1)

/-- `tonumber(rate)` after the unit is cut off; comparing a nil raises. -/
def rateNumber (rate : Val) : Except LuaError (ℚ × ℚ) :=
  match rate with
  | .str s =>
      match tonumber (splitRate s).1 with
      | some q => .ok (q, (splitRate s).2)
      | none => .error (.compare .nil .number)
  | .arr xs => if 3 < xs.length then .error (.call .nil) else .error (.compare .nil .number)
  | .obj _ => .error (.compare .nil .number)
  | a => .error (.length a.type)

/-- What `new` asserts of its arguments, for the object it builds. -/
structure Accepted (lim : RateLim) : Prop where
  rate_nonneg : 0 ≤ lim.rate
  burst_nonneg : 0 ≤ lim.burst
  duration_nonneg : 0 ≤ lim.duration

def new (zone : Option String) (rate burst duration : Val) :
    Except LuaError { lim : RateLim // lim.Accepted } := do
  let (r, scale) ← rateNumber (rate.or (.str "1r/s"))
  if hr : 0 < r ∧ 0 < scale then
    let b ← (burst.or (.num 0)).toOrdered
    if hb : 0 ≤ b then
      let d ← (duration.or (.num 0)).toOrdered
      if hd : 0 ≤ d then
        return ⟨⟨zone.getD "ratelimit", ⌊r * 1000 / scale⌋, b * 1000, d⟩,
          Int.cast_nonneg (Int.floor_nonneg.mpr
            (div_nonneg (mul_nonneg hr.1.le (by norm_num)) hr.2.le)),
          mul_nonneg hb (by norm_num), hd⟩
      else throw .assertion
    else throw .assertion
  else throw .assertion

def setBurst (lim : RateLim) (burst : ℚ) : Except LuaError RateLim :=
  if 0 ≤ burst then .ok { lim with burst := burst * 1000 } else .error .assertion

/-- `{excess, now, forbidden}` as cjson writes it. -/
def record (excess now : ℚ) (forbidden : Bool) : Text :=
  .json (.arr [.num excess, .num now, .num (if forbidden then 1 else 0)])

def decode : Text → Except LuaError Val
  | .int n => .ok (.num n)
  | .json v => .ok v
  | .raw _ => .error .json

/-- The fields of a decoded record; anything too short counts as a fresh one. -/
def fields (v : Val) : Except LuaError (Val × Val × Val) :=
  if v.truthy then do
    let n ← v.length
    if 2 < n then do
      let excess ← v.at' 1
      let last ← v.at' 2
      let forbidden ← v.at' 3
      return (excess, last, forbidden)
    else return (.num 0, .num 0, .num 0)
  else return (.num 0, .num 0, .num 0)

inductive Verdict where
  | forbidden
  | busy (excess : ℚ)
  | pass (excess : ℚ)
  deriving DecidableEq

/-- The computation between the GET and the first write of redis_commit. -/
def weigh (lim : RateLim) (now : ℚ) : Res → Except LuaError Verdict
  | .str t => do
      let v ← decode t
      let (excess, last, forbidden) ← fields v
      if forbidden.isNum 1 then return .forbidden
      else do
        let last ← last.toNumber
        let ms := |now - last|
        let excess ← excess.toNumber
        let excess := excess - lim.rate * ms / 1000 + 1000
        let excess := if excess < 0 then 0 else excess
        if lim.burst < excess then return .busy excess else return .pass excess
  | _ => return .pass 0

/-- `{state, excess}` or `{err = ..}`. -/
inductive Commit where
  | forbidden
  | busy (excess : ℚ)
  | ok (excess : ℚ)
  | err (e : String)

/-- `type(res) == "table" and res.err`. The wrapper answers a failed command with
nil and a second value, and no reply it returns is a table with a field err. -/
def errField : Res → Option String
  | .nil | .int _ | .str _ => none

def store (key : String) (t : Text) (seconds : ℚ) (result : Commit) : Lua Commit := do
  let res ← Lua.redis (.set key t)
  match errField res.res with
  | some e => return .err e
  | none => do
      let res ← Lua.redis (.expire key seconds)
      match errField res.res with
      | some e => return .err e
      | none => return result

def redisCommit (zone key : String) (lim : RateLim) : Lua Commit := do
  let seconds ← Lua.now
  let now := seconds * 1000
  let key := zone ++ ":" ++ key
  let res ← Lua.redis (.get key)
  match errField res.res with
  | some e => return .err e
  | none => do
      match ← Lua.lift (weigh lim now res.res) with
      | .forbidden => return .forbidden
      | .busy excess =>
          if 0 < lim.duration then
            store key (record excess now true) lim.duration (.busy excess)
          else return .busy excess
      | .pass excess => store key (record excess now false) 60 (.ok excess)

/-- `excess / self.rate`: dividing by zero does not raise. -/
inductive Delay where
  | finite (seconds : ℚ)
  | infinite
  | nan
  deriving DecidableEq

def Delay.divide (excess rate : ℚ) : Delay :=
  if rate ≠ 0 then .finite (excess / rate) else if excess = 0 then .nan else .infinite

/-- The result of `incoming`: a delay and the excess, or nil and an error. -/
inductive Incoming where
  | granted (delay : Delay) (excess : ℚ)
  | refused (err : Option String)

def isGranted : Except Stop Incoming → Bool
  | .ok (.granted _ _) => true
  | _ => false

/-- The argument `redis` of `incoming` is never a connection here, so each call
works through a fresh wrapper object. A commit that ended in `{err = ..}` has no
state and is answered as nil divided by the rate. -/
def incoming (lim : RateLim) (key : String) : Lua Incoming := do
  match ← redisCommit lim.zone key lim with
  | .busy _ | .forbidden => return .refused (some "rejected")
  | .ok excess => return .granted (Delay.divide excess lim.rate) (excess / 1000)
  | .err _ => Lua.raise (.arith .nil)

theorem new_ok {zone : Option String} {rate burst duration : Val}
    {lim : { lim : RateLim // lim.Accepted }} (h : new zone rate burst duration = .ok lim) :
    ∃ r scale b d, rateNumber (rate.or (.str "1r/s")) = .ok (r, scale) ∧ 0 < r ∧ 0 < scale ∧
      (burst.or (.num 0)).toOrdered = .ok b ∧ (duration.or (.num 0)).toOrdered = .ok d ∧
      lim.1 = ⟨zone.getD "ratelimit", ⌊r * 1000 / scale⌋, b * 1000, d⟩ := by
  simp only [new, bind, Except.bind] at h
  split at h
  · cases h
  · rename_i rs hrate
    split at h
    · rename_i hr
      split at h
      · cases h
      · rename_i b hb
        split at h
        · split at h
          · cases h
          · rename_i d hd
            split at h
            · cases h
              exact ⟨rs.1, rs.2, b, d, hrate, hr.1, hr.2, hb, hd, rfl⟩
            · cases h
        · cases h
    · cases h

theorem weigh_record (lim : RateLim) (now e last : ℚ) :
    weigh lim now (.str (record e last false)) =
      if lim.burst < max 0 (e - lim.rate * |now - last| / 1000 + 1000) then
        .ok (.busy (max 0 (e - lim.rate * |now - last| / 1000 + 1000)))
      else .ok (.pass (max 0 (e - lim.rate * |now - last| / 1000 + 1000))) := by
  have hmax : ∀ x : ℚ, (if x < 0 then 0 else x) = max 0 x := by
    intro x
    split
    · exact (max_eq_left (by linarith)).symm
    · exact (max_eq_right (by linarith)).symm
  rw [← hmax]
  rfl

theorem weigh_ban (lim : RateLim) (now e last : ℚ) :
    weigh lim now (.str (record e last true)) = .ok .forbidden := rfl

@[simp] theorem errField_eq_none (r : Res) : errField r = none := by
  cases r <;> rfl

theorem store_eq (key : String) (t : Text) (seconds : ℚ) (result : Commit) :
    store key t seconds result =
      .call (.redis (.set key t)) (fun _ =>
        .call (.redis (.expire key seconds)) (fun _ => .ret result)) := by
  simp only [store, Lua.redis_bind, errField_eq_none, Prog.pure_eq_ret]

def recordKey (lim : RateLim) (key : String) : String := lim.zone ++ ":" ++ key

def Verdict.write (lim : RateLim) (now : ℚ) : Verdict → Option (Text × ℚ)
  | .forbidden => none
  | .busy x => if 0 < lim.duration then some (record x now true, lim.duration) else none
  | .pass x => some (record x now false, 60)

def Verdict.answer (lim : RateLim) : Verdict → Incoming
  | .forbidden | .busy _ => .refused (some "rejected")
  | .pass x => .granted (Delay.divide x lim.rate) (x / 1000)

def writeBack (key : String) (answer : Incoming) : Option (Text × ℚ) → Lua Incoming
  | none => .ret answer
  | some (t, seconds) =>
      .call (.redis (.set key t)) (fun _ =>
        .call (.redis (.expire key seconds)) (fun _ => .ret answer))

def afterGet (lim : RateLim) (key : String) (now : ℚ) (res : Res) : Lua Incoming :=
  match weigh lim now res with
  | .error e => .stop (.error e)
  | .ok v => writeBack key (v.answer lim) (v.write lim now)

/-- A call reads the clock and the record, and writes at most once. -/
theorem incoming_eq (lim : RateLim) (key : String) :
    lim.incoming key =
      .call .now (fun seconds =>
        .call (.redis (.get (lim.recordKey key))) (fun reply : Reply =>
          afterGet lim (lim.recordKey key) (seconds * 1000) reply.res)) := by
  simp only [incoming, redisCommit, Lua.now_bind, Lua.redis_bind, Prog.call_bind,
    errField_eq_none, recordKey]
  congr 1
  funext seconds
  congr 1
  funext reply
  simp only [afterGet]
  cases weigh lim (seconds * 1000) (Reply.res reply) with
  | error e => rfl
  | ok v =>
      cases v with
      | forbidden => rfl
      | busy x =>
          simp only [Lua.lift_ok, Prog.ret_bind, Verdict.write, store_eq]
          split <;> rfl
      | pass x =>
          simp only [Lua.lift_ok, Prog.ret_bind, Verdict.write, store_eq]
          rfl

end RateLim
end OpenrestyGateway
