import OpenrestyGateway.Worker

/-!
The connection limiter, util/connlimit.lua: one INCR on entry, undone at once
when it went over the limit, and one DECR when the connection leaves.
-/
namespace OpenrestyGateway
open Interleaving

namespace ConnLim

structure Accepted (lim : ConnLim) : Prop where
  max_pos : 0 < lim.max
  burst_nonneg : 0 ≤ lim.burst
  unitDelay_pos : 0 < lim.unitDelay

def new (max burst defaultConnDelay : Val) : Except LuaError { lim : ConnLim // lim.Accepted } := do
  let m ← max.toOrdered
  if hm : 0 < m then
    let b ← burst.toOrdered
    if hb : 0 ≤ b then
      let d ← defaultConnDelay.toOrdered
      if hd : 0 < d then return ⟨⟨m, b, d⟩, hm, hb, hd⟩
      else throw .assertion
    else throw .assertion
  else throw .assertion

/-- The result of `incoming`: a delay and the concurrency level with the flag
`committed`, or nil and an error. -/
inductive Incoming where
  | granted (delay conn : ℚ) (committed : Bool)
  | refused (err : Option String)
  deriving DecidableEq

def Over (lim : ConnLim) (conn : ℚ) : Prop := lim.max + lim.burst < conn

instance (lim : ConnLim) (conn : ℚ) : Decidable (lim.Over conn) :=
  inferInstanceAs (Decidable (lim.max + lim.burst < conn))

def delayOf (lim : ConnLim) (conn : ℚ) : ℚ :=
  if lim.max < conn then lim.unitDelay * ⌊(conn - 1) / lim.max⌋ else 0

def intRes : Res → Option Int
  | .int n => some n
  | _ => none

/-- `redis:get(key) or 0`, as an operand of `+`. -/
def storedConn : Res → Except LuaError ℚ
  | .nil => .ok 0
  | .int n => .ok n
  | .str (.int n) => .ok n
  | .str (.raw s) => (Val.str s).toNumber
  | .str (.json _) => .error (.arith .string)

def incoming (lim : ConnLim) (key : String) (commit : Bool) : Lua Incoming :=
  if commit then do
    let reply ← Lua.redis (.incr key)
    match intRes reply.res with
    | none => return .refused reply.err
    | some conn =>
        if lim.Over conn then do
          let undo ← Lua.redis (.decr key)
          match intRes undo.res with
          | none => return .refused undo.err
          | some _ => return .refused (some "rejected")
        else return .granted (lim.delayOf conn) conn true
  else do
    let reply ← Lua.redis (.get key)
    let stored ← Lua.lift (storedConn reply.res)
    let conn := stored + 1
    if lim.Over conn then return .refused (some "rejected")
    else return .granted (lim.delayOf conn) conn false

/-- `leaving` returns the new count or nil and an error, and may adapt the unit
delay to the latency of the request. -/
def leaving (lim : ConnLim) (key : String) (reqLatency : Option ℚ) :
    Lua (Except (Option String) Int × ConnLim) := do
  let reply ← Lua.redis (.decr key)
  match intRes reply.res with
  | none => return (.error reply.err, lim)
  | some conn =>
      let lim := match reqLatency with
        | some latency => { lim with unitDelay := (latency + lim.unitDelay) / 2 }
        | none => lim
      if conn = 0 then do
        let ttl ← Lua.redis (.expire key 60)
        match intRes ttl.res with
        | none => return (.error none, lim)
        | some _ => return (.ok conn, lim)
      else return (.ok conn, lim)

def uncommit (key : String) : Lua Reply := Lua.redis (.incr key)

def setConn (lim : ConnLim) (conn : ℚ) : ConnLim := { lim with max := conn }

def setBurst (lim : ConnLim) (burst : ℚ) : ConnLim := { lim with burst := burst }

end ConnLim
end OpenrestyGateway
