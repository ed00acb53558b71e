import OpenrestyGateway.Library.Isolation
import OpenrestyGateway.AccessMain
import Mathlib.Data.NNRat.Defs

/-!
The life of a request: the access phase, the content phase, and the timer the log
phase starts, log/conn_redis.lua. The connection limiter of an admitted request
travels between the phases in ngx.ctx. However the access phase ends, the log
phase runs; its timer is assumed to be created.
-/
namespace OpenrestyGateway
open Interleaving

namespace ConnRedis

def timerCallback (ctx : Option ConnCtx) : Lua Unit :=
  match ctx with
  | none => return ()
  | some c => do
      let _ ← c.limitConn.leaving c.limitConnKey none
      return ()

theorem timerCallback_some (c : ConnCtx) :
    timerCallback (some c) =
      .call (.redis (.decr c.limitConnKey)) (fun reply : Reply =>
        match ConnLim.intRes reply.res with
        | none => .ret ()
        | some conn =>
            if conn = 0 then
              .call (.redis (.expire c.limitConnKey 60)) (fun _ => .ret ())
            else .ret ()) := by
  simp only [timerCallback, ConnLim.leaving, Lua.redis_bind, Prog.call_bind,
    Prog.pure_eq_ret]
  congr 1
  funext reply
  cases ConnLim.intRes (Reply.res reply) with
  | none => rfl
  | some conn =>
      by_cases h : conn = 0
      · simp only [h, if_true, Prog.call_bind]
        congr 1
        funext ttl
        cases ConnLim.intRes (Reply.res ttl) <;> rfl
      · simp only [h, if_false, Prog.ret_bind]

end ConnRedis

inductive Phase where
  /-- what is left of the access handler -/
  | access (p : Lua Unit)
  | content
  /-- what is left of the log phase's timer callback -/
  | log (p : Lua Unit)

structure Request where
  phase : Phase
  ctx : Option ConnCtx

namespace Request

def arrive (p : Lua Unit) : Request := ⟨.access p, none⟩

/-- Only ngx.ctx.limit_conn and its key are read again. -/
def noteCtx (ctx : Option ConnCtx) : Op → Option ConnCtx
  | .setCtx c => some c
  | _ => ctx

def next (r : Request) : Option ((o : Op) × (o.Answer → Request)) :=
  match r.phase with
  | .access (.call o k) => some ⟨o, fun a => ⟨.access (k a), noteCtx r.ctx o⟩⟩
  | .access (.ret _) | .access (.stop _) => some ⟨.yield, fun _ => ⟨.content, r.ctx⟩⟩
  | .content => some ⟨.yield, fun _ => ⟨.log (ConnRedis.timerCallback r.ctx), r.ctx⟩⟩
  | .log (.call o k) => some ⟨o, fun a => ⟨.log (k a), r.ctx⟩⟩
  | .log (.ret _) | .log (.stop _) => none

def Finished (r : Request) : Prop := r.next = none

/-- What is left of the request, as one script. -/
def life (ctx : Option ConnCtx) : Lua Unit → Lua Unit
  | .ret _ | .stop _ =>
      .call .yield (fun _ => .call .yield (fun _ => ConnRedis.timerCallback ctx))
  | .call o k => .call o (fun a => life (noteCtx ctx o) (k a))

def program (r : Request) : Lua Unit :=
  match r.phase with
  | .access p => life r.ctx p
  | .content => .call .yield (fun _ => ConnRedis.timerCallback r.ctx)
  | .log p => p

/-- The key a request is admitted under: its INCR was within the limit and the
DECR of its leaving has not run. -/
def heldKey (r : Request) : Option String :=
  match r.phase with
  | .access (.call (.setCtx c) _) => some c.limitConnKey
  | .access _ | .content => r.ctx.map ConnCtx.limitConnKey
  | .log (.call (.redis (.decr key)) _) => some key
  | .log _ => none

/-- The key a request has incremented and is about to decrement again because it
went over the limit. -/
def undoingKey (r : Request) : Option String :=
  match r.phase with
  | .access (.call (.redis (.decr key)) _) => some key
  | _ => none

def holds (key : String) (r : Request) : Bool := decide (r.heldKey = some key)

def undoes (key : String) (r : Request) : Bool := decide (r.undoingKey = some key)

end Request

abbrev Server := Pool Op Op.Answer Request RedisStore

abbrev ServerLabel := Label (Option Fault) ℚ≥0

def server : Machine Op Op.Answer Request RedisStore (Option Fault) ℚ≥0 where
  next := Request.next
  exec := execOp
  outside := fun s dt => s.advance dt

theorem server_programs : server.Programs Request.program := by
  rintro ⟨phase, ctx⟩ o k hnext
  cases phase with
  | access p =>
      cases p with
      | ret _ | stop _ | call _ _ =>
          cases hnext
          rfl
  | content =>
      cases hnext
      rfl
  | log p =>
      cases p with
      | ret _ | stop _ => cases hnext
      | call _ _ =>
          cases hnext
          rfl

def Server.start (handlers : List (Lua Unit)) (store : RedisStore) : Server :=
  Pool.start (handlers.map Request.arrive) store

namespace Server

/-- The number of requests admitted under a key and not yet taken off again. -/
def held (s : Server) (key : String) : Nat := s.procs.countP (Request.holds key)

/-- The number of requests about to take their own increment back. -/
def undoing (s : Server) (key : String) : Nat := s.procs.countP (Request.undoes key)

def NoFault : ServerLabel → Prop
  | .run _ fault => fault = none
  | .outside _ => True

end Server
end OpenrestyGateway
