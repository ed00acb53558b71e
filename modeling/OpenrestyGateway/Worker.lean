import OpenrestyGateway.Library.Prog
import OpenrestyGateway.Redis

/-!
What a script running in an nginx worker can do besides computing: issue a Redis
command through redis_iresty, read the clock, sleep, and hand a limiter to the
log phase in ngx.ctx. Between two such operations a script runs undisturbed.
-/
namespace OpenrestyGateway
open Interleaving

structure ConnLim where
  max : ℚ
  burst : ℚ
  unitDelay : ℚ
  deriving DecidableEq

/-- ngx.ctx.limit_conn, limit_conn_key and limit_conn_delay. -/
structure ConnCtx where
  limitConn : ConnLim
  limitConnKey : String
  limitConnDelay : ℚ
  deriving DecidableEq

inductive Op where
  | redis (c : Command)
  | now
  | sleep (seconds : ℚ)
  | setCtx (c : ConnCtx)
  /-- the script is over and nginx goes on with the request -/
  | yield
  deriving DecidableEq

abbrev Op.Answer : Op → Type
  | .redis _ => Reply
  | .now => ℚ
  | .sleep _ | .setCtx _ | .yield => Unit

inductive Stop where
  | error (e : LuaError)
  | exit (status : Nat)
  deriving DecidableEq, Repr

abbrev Lua (α : Type) := Prog Op Op.Answer Stop α

namespace Lua

def lift {α : Type} : Except LuaError α → Lua α
  | .ok a => .ret a
  | .error e => .stop (.error e)

def redis (c : Command) : Lua Reply := .call (.redis c) .ret

def now : Lua ℚ := .call .now .ret

def sleep (seconds : ℚ) : Lua Unit := .call (.sleep seconds) .ret

def setCtx (c : ConnCtx) : Lua Unit := .call (.setCtx c) .ret

def exit {α : Type} (status : Nat) : Lua α := .stop (.exit status)

def raise {α : Type} (e : LuaError) : Lua α := .stop (.error e)

@[simp] theorem lift_ok {α : Type} (a : α) : lift (.ok a) = .ret a := rfl

@[simp] theorem lift_error {α : Type} (e : LuaError) :
    (lift (.error e) : Lua α) = .stop (.error e) := rfl

@[simp] theorem redis_bind {β : Type} (c : Command) (f : Reply → Lua β) :
    (redis c >>= f) = .call (.redis c) f := rfl

@[simp] theorem now_bind {β : Type} (f : ℚ → Lua β) : (now >>= f) = .call .now f := rfl

theorem uses_lift_bind {α β : Type} {allowed : Op → Prop} {x : Except LuaError α}
    {f : α → Lua β} (h : ∀ a, x = .ok a → (f a).Uses allowed) :
    (lift x >>= f).Uses allowed := by
  cases x with
  | ok a => exact h a rfl
  | error e => trivial

end Lua

/-- A failed command: the wrapper returns nil and perhaps an error text. The
texts come from the socket and the server, none of them is connlimit's own. -/
structure Fault where
  err : Option String
  foreign : err ≠ some "rejected"
  deriving DecidableEq

/-- One operation against the server: a faulty command fails without effect. -/
def execOp (s : RedisStore) (fault : Option Fault) : (o : Op) → o.Answer × RedisStore
  | .redis c =>
      match fault with
      | some f => ((⟨.nil, f.err⟩ : Reply), s)
      | none => Redis.exec s c
  | .now => (s.clock, s)
  | .sleep _ | .setCtx _ | .yield => ((), s)

end OpenrestyGateway
