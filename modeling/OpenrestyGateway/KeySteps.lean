import OpenrestyGateway.RequestLife

/-!
The steps of a request on one Redis key. A limiter's part in a request's life is what it
does on its key; the other checks stay off it unless they use the same one.
-/
namespace OpenrestyGateway
open Interleaving

/-- The commands on a key, and the readings of the clock where these belong to it. -/
def watches (key : String) (clock : Bool) : Op → Bool
  | .redis c => c.key == key
  | .now => clock
  | .sleep _ | .setCtx _ | .yield => false

def keyPart (key : String) :
    Part Op Op.Answer RedisStore (Option Fault) ℚ (Option (Datum × Option ℚ)) where
  clock := Ttl.Store.clock
  read := fun s => s.cell key
  exec := fun now cell fault o =>
    ((execOp ⟨now, fun _ => cell⟩ fault o).1, (execOp ⟨now, fun _ => cell⟩ fault o).2.cell key)

theorem keyPart_isolated (key : String) (clock : Nat → Bool) :
    (keyPart key).Isolated server (fun i => watches key (clock i)) := by
  refine ⟨fun s x => rfl, fun s fault i o hvis => ?_, fun s fault i o hvis => ?_⟩
  · cases o with
    | redis c =>
        cases fault with
        | some f => rfl
        | none => exact Redis.exec_other s c (by simpa [watches] using hvis)
    | now | sleep _ | setCtx _ | yield => rfl
  · cases o with
    | redis c =>
        have hkey : c.key = key := by simpa [watches] using hvis
        subst hkey
        cases fault with
        | some f => rfl
        | none =>
            have hclock : s.clock = s.clock := rfl
            obtain ⟨hreply, -, hcell⟩ := Redis.exec_congr (s := ⟨s.clock, fun _ => s.cell c.key⟩)
              c hclock rfl
            exact Prod.ext hreply hcell
    | now | sleep _ | setCtx _ | yield => rfl

/-- An operation that is none of the watched steps and leads to none in the log phase. -/
def Off (key : String) (clock : Bool) : Op → Prop
  | .redis c => c.key ≠ key
  | .now => clock = false
  | .setCtx c => c.limitConnKey ≠ key
  | .sleep _ | .yield => True

theorem Off.hidden {key : String} {clock : Bool} {o : Op} (h : Off key clock o) :
    watches key clock o = false := by
  cases o with
  | redis c =>
      have hkey : c.key ≠ key := h
      simpa [watches] using hkey
  | now => exact h
  | sleep _ | setCtx _ | yield => rfl

section Life
variable {key : String} {clock : Bool} {α β : Type}

theorem timerCallback_off {ctx : Option ConnCtx} (h : ∀ c, ctx = some c → c.limitConnKey ≠ key) :
    (ConnRedis.timerCallback ctx).Uses (Off key clock) := by
  cases ctx with
  | none => trivial
  | some c =>
      rw [ConnRedis.timerCallback_some]
      refine ⟨h c rfl, fun reply => ?_⟩
      dsimp only
      split
      · trivial
      · split
        · exact ⟨h c rfl, fun _ => trivial⟩
        · trivial

theorem noteCtx_off {ctx : Option ConnCtx} {o : Op} (ho : Off key clock o)
    (h : ∀ c, ctx = some c → c.limitConnKey ≠ key) :
    ∀ c, Request.noteCtx ctx o = some c → c.limitConnKey ≠ key := by
  intro c hc
  cases o with
  | setCtx c' =>
      cases hc
      exact ho
  | redis _ | now | sleep _ | yield => exact h c hc

/-- A script off the key makes for a request off the key. -/
theorem life_off {p : Lua Unit} {ctx : Option ConnCtx} (hp : p.Uses (Off key clock))
    (h : ∀ c, ctx = some c → c.limitConnKey ≠ key) :
    (Request.life ctx p).Uses (Off key clock) := by
  induction p generalizing ctx with
  | ret _ | stop _ => exact ⟨trivial, fun _ => ⟨trivial, fun _ => timerCallback_off h⟩⟩
  | call o k ih => exact ⟨hp.1, fun a => ih a (hp.2 a) (noteCtx_off hp.1 h)⟩

theorem life_shows {p : Lua Unit} (hp : p.Uses (Off key clock)) (q : Lua β) :
    (Request.life none p).Shows (watches key clock) q := by
  have hoff : (Request.life none p).Uses (Off key clock) := life_off hp (by simp)
  exact Prog.Uses.shows (hoff.mono (fun _ ho => ho.hidden)) q

/-- No limiter is handed over before the connection limiter's check. -/
def KeepsCtx (o : Op) : Prop := Request.noteCtx none o = none

/-- After the last check, only the log phase is left to show. -/
theorem life_rest_shows {p : Lua Unit} {ctx : Option ConnCtx} {q : Lua β}
    (hp : p.Uses (fun o => watches key clock o = false ∧ Request.noteCtx ctx o = ctx))
    (h : (ConnRedis.timerCallback ctx).Shows (watches key clock) q) :
    (Request.life ctx p).Shows (watches key clock) q := by
  induction p with
  | ret _ | stop _ => exact .inl ⟨rfl, fun _ => .inl ⟨rfl, fun _ => h⟩⟩
  | call o k ih =>
      refine .inl ⟨hp.1.1, fun a => ?_⟩
      rw [hp.1.2]
      exact ih a (hp.2 a)

theorem life_bind_shows {p : Lua α} {f : α → Lua Unit} {q : Lua β}
    (hp : p.Uses (fun o => Off key clock o ∧ KeepsCtx o))
    (hf : ∀ a, (Request.life none (f a)).Shows (watches key clock) q) :
    (Request.life none (p >>= f)).Shows (watches key clock) q := by
  induction p with
  | ret a => exact hf a
  | stop e => exact life_shows (p := .stop e) trivial q
  | call o k ih =>
      refine .inl ⟨hp.1.1.hidden, fun a => ?_⟩
      rw [hp.1.2]
      exact ih a (hp.2 a)

theorem life_shows_bind {p : Lua α} {f : α → Lua Unit} {q : Lua β}
    (hp : p.Shows (watches key clock) q) (hctx : p.Uses KeepsCtx)
    (hf : ∀ a, (f a).Uses (Off key clock)) :
    (Request.life none (p >>= f)).Shows (watches key clock) q := by
  induction p generalizing q with
  | ret a => exact life_shows (hf a) q
  | stop e => exact life_shows (p := .stop e) trivial q
  | call o k ih =>
      cases hvis : watches key clock o with
      | false =>
          refine .inl ⟨hvis, fun a => ?_⟩
          rw [hctx.1]
          exact ih a (hp.hidden hvis a) (hctx.2 a)
      | true =>
          obtain ⟨k', rfl, hk⟩ := hp.visible hvis
          refine Prog.shows_call hvis (fun a => ?_)
          rw [hctx.1]
          exact ih a (hk a) (hctx.2 a)

theorem life_lift_shows {x : Except LuaError α} {f : α → Lua Unit} {q : Lua β}
    (h : ∀ a, x = .ok a → (Request.life none (f a)).Shows (watches key clock) q) :
    (Request.life none (Lua.lift x >>= f)).Shows (watches key clock) q := by
  cases x with
  | ok a => exact h a rfl
  | error e => exact life_shows (p := .stop (.error e)) trivial q

end Life

/-! ### The checks -/

section Checks
variable {key : String} {clock : Bool}

theorem ipRule_off {service : Val} (rq : RequestVars)
    (h : ∀ s, service.text = .ok s → IpDeny.blackList s ≠ key ∧ IpDeny.whiteList s ≠ key) :
    (IpDeny.ipRule service rq).Uses (fun o => Off key clock o ∧ KeepsCtx o) := by
  refine Lua.uses_lift_bind (fun s hs => ?_)
  simp only [Lua.redis_bind]
  refine ⟨⟨(h s hs).1, rfl⟩, fun black => ?_⟩
  dsimp only
  split
  · refine ⟨⟨(h s hs).2, rfl⟩, fun white => ?_⟩
    dsimp only
    split <;> trivial
  · trivial

theorem denyCheck_off {basic : BasicConf} (rq : RequestVars)
    (h : ∀ s, basic.service.text = .ok s →
      IpDeny.blackList s ≠ key ∧ IpDeny.whiteList s ≠ key) :
    (AccessMain.denyCheck basic rq).Uses (fun o => Off key clock o ∧ KeepsCtx o) := by
  simp only [AccessMain.denyCheck]
  split
  · refine Prog.uses_bind (ipRule_off rq h) (fun denied => ?_)
    cases denied <;> trivial
  · trivial

theorem afterGet_off {lim : RateLim} {recordKey : String} (now : ℚ) (res : Res)
    (h : recordKey ≠ key) :
    (RateLim.afterGet lim recordKey now res).Uses (fun o => Off key clock o ∧ KeepsCtx o) := by
  simp only [RateLim.afterGet]
  split
  · trivial
  · rename_i verdict _
    cases verdict.write lim now with
    | none => trivial
    | some w => exact ⟨⟨h, rfl⟩, fun _ => ⟨⟨h, rfl⟩, fun _ => trivial⟩⟩

theorem afterIncoming_off (key : String) (clock : Bool) (dryRun : Val) (answer : RateLim.Incoming) :
    (ReqlimitLogic.afterIncoming dryRun answer).Uses
      (fun o => Off key clock o ∧ KeepsCtx o) := by
  cases answer with
  | refused err => exact refuse_uses err dryRun
  | granted delay excess =>
      cases delay with
      | finite seconds =>
          simp only [ReqlimitLogic.afterIncoming, ReqlimitLogic.delaySleep]
          split
          · exact ⟨⟨trivial, rfl⟩, fun _ => trivial⟩
          · trivial
      | infinite | nan => trivial

theorem limitReq_off {lim : RateLim} {name : String} (dryRun : Val)
    (h : lim.recordKey name ≠ key) :
    (ReqlimitLogic.limitReq lim name dryRun).Uses
      (fun o => Off key false o ∧ KeepsCtx o) := by
  rw [ReqlimitLogic.limitReq_eq]
  refine ⟨⟨rfl, rfl⟩, fun seconds => ⟨⟨h, rfl⟩, fun reply => ?_⟩⟩
  exact Prog.uses_bind (afterGet_off _ _ h) (afterIncoming_off _ _ dryRun)

theorem limitConn_off {lim : ConnLim} {counter : String} (dryRun : Val)
    (h : counter ≠ key) :
    (ConnlimitLogic.limitConn lim counter dryRun).Uses (Off key clock) := by
  rw [ConnlimitLogic.limitConn_eq]
  refine ⟨h, fun reply => ?_⟩
  dsimp only
  split
  · exact refuse_uses _ dryRun
  · split
    · refine ⟨h, fun undo => ?_⟩
      dsimp only
      split
      · exact refuse_uses _ dryRun
      · exact refuse_uses _ dryRun
    · refine ⟨h, fun _ => ?_⟩
      split
      · exact ⟨trivial, fun _ => trivial⟩
      · trivial

theorem reqlimitCheck_off {conf : Dict} {service : Val} {rq : RequestVars}
    (h : ∀ table args name, GetConf.app GetConf.appCheckReqlimit conf rq.host "reqlimit" =
        .ok (some table) → ReqlimitLogic.getConfig table rq = .ok (some args) →
        ReqlimitLogic.recordKey service args = .ok name → "openresty" ++ ":" ++ name ≠ key) :
    (AccessMain.reqlimitCheck conf service rq).Uses
      (fun o => Off key false o ∧ KeepsCtx o) := by
  refine Lua.uses_lift_bind (fun table htable => ?_)
  cases table with
  | none => trivial
  | some table =>
      refine Lua.uses_lift_bind (fun args hargs => ?_)
      cases args with
      | none => trivial
      | some args =>
          refine Lua.uses_lift_bind (fun lim hlim =>
            Lua.uses_lift_bind (fun name hname => limitReq_off _ ?_))
          obtain ⟨r, scale, b, t, -, -, -, -, -, hlim⟩ := RateLim.new_ok hlim
          simp only [RateLim.recordKey, hlim]
          exact h table args name htable hargs hname

theorem connlimitCheck_off {conf : Dict} {service : Val} {rq : RequestVars}
    (h : ∀ table args counter, GetConf.app GetConf.appCheckConnlimit conf rq.host "connlimit" =
        .ok (some table) → ConnlimitLogic.getConfig table rq = .ok (some args) →
        ConnlimitLogic.counterKey service args = .ok counter → counter ≠ key) :
    (AccessMain.connlimitCheck conf service rq).Uses (Off key clock) := by
  refine Lua.uses_lift_bind (fun table htable => ?_)
  cases table with
  | none => trivial
  | some table =>
      refine Lua.uses_lift_bind (fun _ _ => Lua.uses_lift_bind (fun args hargs => ?_))
      cases args with
      | none => trivial
      | some args =>
          refine Lua.uses_lift_bind (fun lim _ =>
            Lua.uses_lift_bind (fun counter hcounter => limitConn_off _ ?_))
          exact h table args counter htable hargs hcounter

end Checks

namespace ConnlimitLogic

/-- The commands of a request on its counter: it enters, and if it is admitted it leaves. -/
def visit (lim : ConnLim) (key : String) : Lua Unit :=
  .call (.redis (.incr key)) (fun reply : Reply =>
    match ConnLim.intRes reply.res with
    | none => .ret ()
    | some conn =>
        if lim.Over conn then .call (.redis (.decr key)) (fun _ => .ret ())
        else ConnRedis.timerCallback (some ⟨lim, key, lim.delayOf conn⟩))

theorem timerCallback_shows (c : ConnCtx) :
    (ConnRedis.timerCallback (some c)).Shows (watches c.limitConnKey false)
      (ConnRedis.timerCallback (some c)) := by
  apply Prog.Uses.shows_self
  rw [ConnRedis.timerCallback_some]
  refine ⟨by simp [watches, Command.key], fun reply => ?_⟩
  dsimp only
  split
  · trivial
  · split
    · exact ⟨by simp [watches, Command.key], fun _ => trivial⟩
    · trivial

theorem limitConn_shows (lim : ConnLim) (key : String) (dryRun : Val) :
    (Request.life none (limitConn lim key dryRun)).Shows (watches key false)
      (visit lim key) := by
  rw [limitConn_eq]
  refine Prog.shows_call (by simp [watches, Command.key]) (fun reply : Reply => ?_)
  dsimp only [Request.noteCtx]
  cases ConnLim.intRes reply.res with
  | none => exact life_shows (refuse_uses _ dryRun) _
  | some conn =>
      by_cases hover : lim.Over conn
      · simp only [hover, if_true]
        refine Prog.shows_call (by simp [watches, Command.key]) (fun undo : Reply => ?_)
        dsimp only [Request.noteCtx]
        cases ConnLim.intRes undo.res with
        | none => exact life_shows (refuse_uses _ dryRun) _
        | some _ => exact life_shows (refuse_uses _ dryRun) _
      · simp only [hover, if_false]
        refine .inl ⟨rfl, fun _ =>
          life_rest_shows ?_ (timerCallback_shows ⟨lim, key, lim.delayOf conn⟩)⟩
        split
        · exact ⟨⟨rfl, rfl⟩, fun _ => trivial⟩
        · trivial

end ConnlimitLogic

namespace ReqlimitLogic

theorem incoming_watched (lim : RateLim) (name : String) :
    (lim.incoming name).Uses
      (fun o => watches (lim.recordKey name) true o = true ∧ KeepsCtx o) := by
  have hkey : ∀ c : Command, c.key = lim.recordKey name →
      watches (lim.recordKey name) true (.redis c) = true ∧ KeepsCtx (.redis c) := by
    intro c hc
    exact ⟨by simp [watches, hc], rfl⟩
  rw [RateLim.incoming_eq]
  refine ⟨⟨rfl, rfl⟩, fun seconds => ⟨hkey (.get _) rfl, fun reply : Reply => ?_⟩⟩
  simp only [RateLim.afterGet]
  split
  · trivial
  · rename_i verdict _
    cases verdict.write lim (seconds * 1000) with
    | none => trivial
    | some w => exact ⟨hkey (.set _ _) rfl, fun _ => ⟨hkey (.expire _ _) rfl, fun _ => trivial⟩⟩

theorem limitReq_keepsCtx (lim : RateLim) (name : String) (dryRun : Val) :
    (limitReq lim name dryRun).Uses KeepsCtx :=
  Prog.uses_bind ((incoming_watched lim name).mono (fun _ ho => ho.2)) (fun answer =>
    (afterIncoming_off (lim.recordKey name) true dryRun answer).mono (fun _ ho => ho.2))

theorem limitReq_shows (lim : RateLim) (name : String) (dryRun : Val) :
    (limitReq lim name dryRun).Shows (watches (lim.recordKey name) true)
      (lim.incoming name >>= fun _ => .ret ()) :=
  Prog.shows_bind_same ((incoming_watched lim name).mono (fun _ ho => ho.1)) (fun answer =>
    ((afterIncoming_off _ _ dryRun answer).mono (fun _ ho => ho.1.hidden)).shows _)

end ReqlimitLogic

end OpenrestyGateway
