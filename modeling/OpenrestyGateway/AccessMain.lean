import OpenrestyGateway.Connlimit
import OpenrestyGateway.GetConf
import OpenrestyGateway.Ratelimit

/-!
The access phase, access/access_main.lua, and the three checks it runs in turn:
the IP lists of ip_deny.lua, the request limiter of reqlimit_logic.lua and the
connection limiter of connlimit_logic.lua.

The shared dict does not change during the access phase of one request. What
ngx.log writes is left out, except the concatenations that build its arguments,
since those can raise.
-/
namespace OpenrestyGateway
open Interleaving

structure RequestVars where
  host : String
  remoteUser : Option String
  remoteAddr : String
  limitLocation : Option String

/-- The first rule of the location whose key is a network of the address or the
address itself. -/
def firstInSubnet {ρ : Type} (key limitLocation : ρ → Val) (userIp location : String) :
    List ρ → Except LuaError (Option ρ)
  | [] => .ok none
  | v :: vs => do
      let ok ← Util.isInSubnetMask userIp (key v)
      if ok && (limitLocation v).isStr location then return some v
      else firstInSubnet key limitLocation userIp location vs

/-- What both limiters do where `incoming` returned nil: a rejection ends the
request with 429 unless it is a dry run, and any other error lets it pass. -/
def refuse (err : Option String) (dryRun : Val) : Lua Unit :=
  if err = some "rejected" then
    if dryRun.isTrue then return ()
    else Lua.exit 429
  else return ()

theorem refuse_uses {allowed : Op → Prop} (err : Option String) (dryRun : Val) :
    (refuse err dryRun).Uses allowed := by
  simp only [refuse]
  split
  · split <;> trivial
  · trivial

namespace ConnlimitLogic

/-- nil where no rule matches. -/
def getUserConfig (connlimitconf : ConnlimitConf) (user limitLocation : String) :
    Except LuaError (Option ConnRule) :=
  match connlimitconf.limitArgs.find?
      (fun v => v.key.isStr user && v.limitLocation.isStr limitLocation) with
  | some v => .ok (some v)
  | none =>
      if user ≠ "none" ∧ connlimitconf.limitCommonOn.truthy then
        match connlimitconf.defaultArgs.find? (fun v => v.limitLocation.isStr limitLocation) with
        | some v => .ok (some { v with key := .str user })
        | none => .ok none
      else
        match connlimitconf.limitArgs.find?
            (fun v => connlimitconf.limitDefaultUser.rawEq v.key &&
              v.limitLocation.isStr limitLocation) with
        | some v => do
            let _ ← Val.concat
              [v.key, .str ";", v.max, .str ";", v.burst, .str ";", v.defaultConnDelay]
            return some v
        | none => .ok none

/-- An empty table where no rule matches. -/
def getIpConfig (connlimitconf : ConnlimitConf) (userIp limitLocation : String) :
    Except LuaError (Option ConnRule) := do
  match ← firstInSubnet ConnRule.key ConnRule.limitLocation userIp limitLocation
      connlimitconf.limitArgs with
  | some v => return some v
  | none =>
      return (connlimitconf.defaultArgs.find?
        (fun v => v.limitLocation.isStr limitLocation)).map
          (fun v => { v with key := .str userIp })

/-- The governing rule, for a request that says nothing about its user or location. -/
def getConfig (connlimitconf : ConnlimitConf) (rq : RequestVars) :
    Except LuaError (Option ConnRule) :=
  if connlimitconf.limitType.isStr "user" then
    getUserConfig connlimitconf (rq.remoteUser.getD "none") (rq.limitLocation.getD "")
  else getIpConfig connlimitconf rq.remoteAddr (rq.limitLocation.getD "")

def counterKey (service : Val) (args : ConnRule) : Except LuaError String :=
  Val.concat
    [.str "openresty:", service, .str ":connlimit:", args.key, .str ":", args.limitLocation]

def limitConn (connLim : ConnLim) (key : String) (dryRun : Val) : Lua Unit := do
  match ← connLim.incoming key true with
  | .refused err => refuse err dryRun
  | .granted delay _ committed => do
      if committed then Lua.setCtx ⟨connLim, key, delay⟩
      if 1 / 1000 ≤ delay then Lua.sleep delay

theorem limitConn_eq (connLim : ConnLim) (key : String) (dryRun : Val) :
    limitConn connLim key dryRun =
      .call (.redis (.incr key)) (fun reply : Reply =>
        match ConnLim.intRes reply.res with
        | none => refuse reply.err dryRun
        | some conn =>
            if connLim.Over conn then
              .call (.redis (.decr key)) (fun undo : Reply =>
                match ConnLim.intRes undo.res with
                | none => refuse undo.err dryRun
                | some _ => refuse (some "rejected") dryRun)
            else
              .call (.setCtx ⟨connLim, key, connLim.delayOf conn⟩) (fun _ =>
                if 1 / 1000 ≤ connLim.delayOf conn then Lua.sleep (connLim.delayOf conn)
                else .ret ())) := by
  simp only [limitConn, ConnLim.incoming, if_true, Lua.redis_bind, Prog.call_bind,
    Prog.pure_eq_ret]
  congr 1
  funext reply
  cases ConnLim.intRes reply.res with
  | none => rfl
  | some conn =>
      by_cases h : connLim.Over conn
      · simp only [h, if_true, Prog.call_bind]
        congr 1
        funext undo
        cases ConnLim.intRes undo.res <;> rfl
      · simp only [h, if_false, Prog.ret_bind, if_true]
        rfl

def connLimitLogic (connlimitconf : ConnlimitConf) (service : Val) (rq : RequestVars) :
    Lua Unit := do
  let _ ← Lua.lift (Val.concat [service, .str " conn limit is start"])
  match ← Lua.lift (getConfig connlimitconf rq) with
  | none => return ()
  | some args => do
      let connLim ← Lua.lift (ConnLim.new args.max args.burst args.defaultConnDelay)
      let key ← Lua.lift (counterKey service args)
      limitConn connLim.1 key args.dryRun

end ConnlimitLogic

namespace ReqlimitLogic

def getUserConfig (reqlimitconf : ReqlimitConf) (user limitLocation : String) :
    Except LuaError (Option ReqRule) :=
  match reqlimitconf.limitArgs.find?
      (fun v => v.key.isStr user && v.limitLocation.isStr limitLocation) with
  | some v => do
      let _ ← Val.concat [v.key, .str ";", v.rate, .str ";", v.burst, .str ";", v.duration]
      return some v
  | none =>
      if user ≠ "none" ∧ reqlimitconf.limitCommonOn.truthy then
        match reqlimitconf.defaultArgs.find? (fun v => v.limitLocation.isStr limitLocation) with
        | some v => .ok (some { v with key := .str user, duration := .nil })
        | none => .ok none
      else
        match reqlimitconf.limitArgs.find?
            (fun v => reqlimitconf.limitDefaultUser.rawEq v.key &&
              v.limitLocation.isStr limitLocation) with
        | some v => do
            let _ ← Val.concat
              [v.key, .str ";", v.rate, .str ";", v.burst, .str ";", v.duration]
            return some v
        | none => .ok none

def getIpConfig (reqlimitconf : ReqlimitConf) (userIp limitLocation : String) :
    Except LuaError (Option ReqRule) := do
  match ← firstInSubnet ReqRule.key ReqRule.limitLocation userIp limitLocation
      reqlimitconf.limitArgs with
  | some v => return some v
  | none =>
      return (reqlimitconf.defaultArgs.find?
        (fun v => v.limitLocation.isStr limitLocation)).map
          (fun v => { v with key := .str userIp, duration := .nil })

/-- The governing rule. A request without a location stands under "default" here. -/
def getConfig (reqlimitconf : ReqlimitConf) (rq : RequestVars) :
    Except LuaError (Option ReqRule) :=
  if reqlimitconf.limitType.isStr "user" then
    getUserConfig reqlimitconf (rq.remoteUser.getD "none") (rq.limitLocation.getD "default")
  else getIpConfig reqlimitconf rq.remoteAddr (rq.limitLocation.getD "default")

def recordKey (service : Val) (args : ReqRule) : Except LuaError String :=
  Val.concat [service, .str ":reqlimit:", args.key, .str ":", args.limitLocation]

/-- `if delay >= 0.001 then ngx.sleep(delay)`: no timer takes an infinite delay. -/
def delaySleep : RateLim.Delay → Lua Unit
  | .finite delay => if 1 / 1000 ≤ delay then Lua.sleep delay else return ()
  | .infinite => Lua.raise (.badArgument "sleep" .number)
  | .nan => return ()

def limitReq (reqLim : RateLim) (key : String) (dryRun : Val) : Lua Unit := do
  match ← reqLim.incoming key with
  | .refused err => refuse err dryRun
  | .granted delay _ => delaySleep delay

/-- What limitReq does with the answer of `incoming`. -/
def afterIncoming (dryRun : Val) : RateLim.Incoming → Lua Unit
  | .refused err => refuse err dryRun
  | .granted delay _ => delaySleep delay

theorem limitReq_eq (lim : RateLim) (key : String) (dryRun : Val) :
    limitReq lim key dryRun =
      .call .now (fun seconds =>
        .call (.redis (.get (lim.recordKey key))) (fun reply : Reply =>
          RateLim.afterGet lim (lim.recordKey key) (seconds * 1000) reply.res >>=
            afterIncoming dryRun)) := by
  rw [limitReq, RateLim.incoming_eq]
  rfl

/-- Without excess there is nothing to wait for, not even at rate 0. -/
theorem afterIncoming_no_excess (dryRun : Val) (rate excess : ℚ) :
    afterIncoming dryRun (.granted (RateLim.Delay.divide 0 rate) excess) = .ret () := by
  simp only [RateLim.Delay.divide]
  split
  · show (if 1 / 1000 ≤ 0 / rate then _ else .ret () : Lua Unit) = _
    rw [zero_div, if_neg (by norm_num)]
  · rfl

def reqLimitLogic (reqlimitconf : ReqlimitConf) (service : Val) (rq : RequestVars) :
    Lua Unit := do
  match ← Lua.lift (getConfig reqlimitconf rq) with
  | none => return ()
  | some args => do
      let reqLim ← Lua.lift (RateLim.new (some "openresty") args.rate args.burst args.duration)
      let key ← Lua.lift (recordKey service args)
      limitReq reqLim.1 key reqlimitconf.dryRun

end ReqlimitLogic

namespace IpDeny

def blackList (service : String) : String := "openresty:" ++ service ++ ":black_list"

def whiteList (service : String) : String := "openresty:" ++ service ++ ":white_list"

/-- `_M.ip_rule`: true where the address is to be denied. -/
def ipRule (service : Val) (rq : RequestVars) : Lua Bool := do
  let name ← Lua.lift service.text
  let isInBlacklist ← Lua.redis (.sismember (blackList name) rq.remoteAddr)
  if ConnLim.intRes isInBlacklist.res = some 1 then do
    let isInWhitelist ← Lua.redis (.sismember (whiteList name) rq.remoteAddr)
    if ConnLim.intRes isInWhitelist.res = some 1 then return false
    else return true
  else return false

end IpDeny

namespace AccessMain
open GetConf

def denyCheck (basic : BasicConf) (rq : RequestVars) : Lua Unit :=
  if basic.ipDeny.isTrue then do
    if ← IpDeny.ipRule basic.service rq then Lua.exit 403 else return ()
  else return ()

/-- `local reqlimitTable = get_conf.app("reqlimit")` and the check under it. -/
def reqlimitCheck (conf : Dict) (service : Val) (rq : RequestVars) : Lua Unit := do
  match ← Lua.lift (app appCheckReqlimit conf rq.host "reqlimit") with
  | some reqlimitTable => ReqlimitLogic.reqLimitLogic reqlimitTable service rq
  | none => return ()

/-- `local connlimitTable = get_conf.app("connlimit")` and the check under it. -/
def connlimitCheck (conf : Dict) (service : Val) (rq : RequestVars) : Lua Unit := do
  match ← Lua.lift (app appCheckConnlimit conf rq.host "connlimit") with
  | some connlimitTable => ConnlimitLogic.connLimitLogic connlimitTable service rq
  | none => return ()

def main (conf : Dict) (rq : RequestVars) : Lua Unit := do
  match ← Lua.lift (getDomainconf conf rq.host) with
  | .nil => return ()
  | _ => do
      match ← Lua.lift (app appCheckBasic conf rq.host "basic") with
      | none => Lua.raise (.index .nil)
      | some basic => do
          denyCheck basic rq
          reqlimitCheck conf basic.service rq
          connlimitCheck conf basic.service rq

/-- The Redis key of the record a request is limited by, if it gets that far. -/
def reqlimitKey (conf : Dict) (rq : RequestVars) : Except LuaError (Option String) := do
  match ← app appCheckBasic conf rq.host "basic" with
  | none => return none
  | some basic =>
      match ← app appCheckReqlimit conf rq.host "reqlimit" with
      | none => return none
      | some reqlimitTable =>
          match ← ReqlimitLogic.getConfig reqlimitTable rq with
          | none => return none
          | some args => do
              let key ← ReqlimitLogic.recordKey basic.service args
              return some ("openresty" ++ ":" ++ key)

/-- The Redis key of the counter a request is counted under, if it gets that far. -/
def connlimitKey (conf : Dict) (rq : RequestVars) : Except LuaError (Option String) := do
  match ← app appCheckBasic conf rq.host "basic" with
  | none => return none
  | some basic =>
      match ← app appCheckConnlimit conf rq.host "connlimit" with
      | none => return none
      | some connlimitTable =>
          match ← ConnlimitLogic.getConfig connlimitTable rq with
          | none => return none
          | some args => do
              let key ← ConnlimitLogic.counterKey basic.service args
              return some key

/-- What access_main does for a host: nothing, an error before any check, or the
three checks. -/
theorem main_cases (conf : Dict) (rq : RequestVars) :
    (main conf rq = .ret () ∧
      ∀ basic, app appCheckBasic conf rq.host "basic" ≠ .ok (some basic)) ∨
    (∃ e, main conf rq = .stop (.error e)) ∨
    ∃ basic, app appCheckBasic conf rq.host "basic" = .ok (some basic) ∧
      main conf rq = (do
        denyCheck basic rq
        reqlimitCheck conf basic.service rq
        connlimitCheck conf basic.service rq) := by
  cases hdomain : getDomainconf conf rq.host with
  | error e => exact .inr (.inl ⟨e, by simp only [main, hdomain, Lua.lift_error, Prog.stop_bind]⟩)
  | ok domain =>
      by_cases hnil : domain = .nil
      · subst hnil
        refine .inl ⟨by simp only [main, hdomain, Lua.lift_ok, Prog.ret_bind]; rfl, ?_⟩
        intro basic happ
        simp only [getDomainconf] at hdomain
        cases hconf : conf rq.host with
        | none => simp [app, getDomainconfLocal, hconf, Val.isStr, bind, Except.bind, pure,
            Except.pure] at happ
        | some v =>
            rw [hconf] at hdomain
            simp only at hdomain
            simp [app, getDomainconfLocal, hconf, hdomain, Val.isStr, Val.index, bind,
              Except.bind] at happ
      · have hmain : main conf rq = (do
            match ← Lua.lift (app appCheckBasic conf rq.host "basic") with
            | none => Lua.raise (.index .nil)
            | some basic => do
                denyCheck basic rq
                reqlimitCheck conf basic.service rq
                connlimitCheck conf basic.service rq) := by
          simp only [main, hdomain, Lua.lift_ok, Prog.ret_bind]
        rw [hmain]
        cases happ : app appCheckBasic conf rq.host "basic" with
        | error e => exact .inr (.inl ⟨e, rfl⟩)
        | ok section' =>
            cases section' with
            | none => exact .inr (.inl ⟨_, rfl⟩)
            | some basic => exact .inr (.inr ⟨basic, rfl, rfl⟩)

end AccessMain
end OpenrestyGateway
