import OpenrestyGateway.Util

/-!
util/get_conf.lua: reading a domain's configuration from the shared dict and
filling in the defaults of its sections.

The dict holds JSON texts, kept here as the values they decode to, and the
boolean resty.lock stores under its key.
-/
namespace OpenrestyGateway

inductive DictVal where
  | json (v : Val)
  | bool (b : Bool)
  deriving DecidableEq

abbrev Dict := String → Option DictVal

structure ConnRule where
  key : Val
  max : Val
  burst : Val
  defaultConnDelay : Val
  limitLocation : Val
  dryRun : Val

structure ConnlimitConf where
  limitType : Val
  limitDefaultUser : Val
  limitCommonOn : Val
  limitArgs : List ConnRule
  defaultArgs : List ConnRule
  dryRun : Val
  connlimitOn : Bool

/-- A rule of the normalised reqlimit section. The rules of limit_args carry no
delay and no dry run, those of default_args no key and no duration. -/
structure ReqRule where
  key : Val
  rate : Val
  burst : Val
  duration : Val
  defaultConnDelay : Val
  limitLocation : Val
  dryRun : Val

structure ReqlimitConf where
  limitType : Val
  limitDefaultUser : Val
  limitArgs : List ReqRule
  defaultArgs : List ReqRule
  dryRun : Val
  limitCommonOn : Val
  reqlimitOn : Bool

structure BasicConf where
  service : Val
  ipDeny : Val

namespace GetConf

def decode : DictVal → Except LuaError Val
  | .json v => .ok v
  | .bool _ => .error (.badArgument "decode" .boolean)

def getDomainconf (conf : Dict) (domain : String) : Except LuaError Val :=
  match conf domain with
  | none => .ok .nil
  | some v => decode v

/-- The local get_domainconf answers a missing domain with an empty string. -/
def getDomainconfLocal (conf : Dict) (domain : String) : Except LuaError Val :=
  match conf domain with
  | none => .ok (.str "")
  | some v => decode v

/-- The rules of a list that may be absent. -/
def optionalRules (rules : Val) : Except LuaError (List Val) := do
  let n ← Util.tableLength rules
  if n ≠ 0 then rules.ipairs else return []

def connRule (defaultDryRun key v : Val) : Except LuaError ConnRule := do
  let max ← v.index "max"
  let burst ← v.index "burst"
  let defaultConnDelay ← v.index "default_conn_delay"
  let limitLocation ← v.index "limit_location"
  let dryRun ← v.index "dry_run"
  return {
    key := key
    max := max.or (.num 1000)
    burst := burst.or (.num 0)
    defaultConnDelay := defaultConnDelay.or (.num (1 / 2))
    limitLocation := limitLocation.or (.str "")
    dryRun := dryRun.or defaultDryRun }

def appCheckConnlimit (sharedData : Val) : Except LuaError ConnlimitConf := do
  -- `shared_data.connlimit_on = false` on a section that is not there
  if !sharedData.truthy then throw (.index sharedData.type)
  else
    let dryRun ← sharedData.index "dry_run"
    let defaultDryRun := dryRun.or (.bool false)
    let limitArgs ← (← sharedData.index "limit_args").ipairs
    let tmpArgs ← limitArgs.mapM (fun v => do connRule defaultDryRun (← v.index "key") v)
    let defaultList ← optionalRules (← sharedData.index "default_args")
    let defaultArgs ← defaultList.mapM (connRule defaultDryRun .nil)
    let limitType ← sharedData.index "limit_type"
    let limitDefaultUser ← sharedData.index "limit_default_user"
    let limitCommonOn ← sharedData.index "limit_common_on"
    return {
      limitType := limitType.or (.str "ip")
      limitDefaultUser := limitDefaultUser.or (.str "anonymous")
      limitCommonOn := limitCommonOn.or (.bool false)
      limitArgs := tmpArgs
      defaultArgs := defaultArgs
      dryRun := dryRun.or (.bool false)
      connlimitOn := true }

def reqLimitRule (v : Val) : Except LuaError ReqRule := do
  let key ← v.index "key"
  let rate ← v.index "rate"
  let burst ← v.index "burst"
  let duration ← v.index "duration"
  let limitLocation ← v.index "limit_location"
  return {
    key := key
    rate := rate.or (.str "1000r/s")
    burst := burst.or (.num 0)
    duration := duration.or (.num 2)
    defaultConnDelay := .nil
    limitLocation := limitLocation.or (.str "")
    dryRun := .nil }

def reqDefaultRule (v : Val) : Except LuaError ReqRule := do
  let rate ← v.index "rate"
  let burst ← v.index "burst"
  let defaultConnDelay ← v.index "default_conn_delay"
  let limitLocation ← v.index "limit_location"
  let dryRun ← v.index "dry_run"
  return {
    key := .nil
    rate := rate.or (.str "1000r/s")
    burst := burst.or (.num 0)
    duration := .nil
    defaultConnDelay := defaultConnDelay.or (.num (1 / 2))
    limitLocation := limitLocation.or (.str "")
    dryRun := dryRun.or (.bool false) }

def appCheckReqlimit (sharedData : Val) : Except LuaError ReqlimitConf := do
  -- `shared_data.reqlimit_on = false` on a section that is not there
  if !sharedData.truthy then throw (.index sharedData.type)
  else
    let limitArgs ← (← sharedData.index "limit_args").ipairs
    let tmpArgs ← limitArgs.mapM reqLimitRule
    let defaultList ← optionalRules (← sharedData.index "default_args")
    let defaultArgs ← defaultList.mapM reqDefaultRule
    let limitType ← sharedData.index "limit_type"
    let limitDefaultUser ← sharedData.index "limit_default_user"
    let dryRun ← sharedData.index "dry_run"
    let limitCommonOn ← sharedData.index "limit_common_on"
    return {
      limitType := limitType.or (.str "ip")
      limitDefaultUser := limitDefaultUser.or (.str "anonymous")
      limitArgs := tmpArgs
      defaultArgs := defaultArgs
      dryRun := dryRun.or (.bool false)
      limitCommonOn := limitCommonOn.or (.bool false)
      reqlimitOn := true }

def appCheckBasic (sharedData : Val) : Except LuaError BasicConf := do
  let service ← sharedData.index "service"
  let ipDeny ← sharedData.index "ip_deny"
  return { service := service.or (.str "default"), ipDeny := ipDeny.or (.bool false) }

/-- `_M.app`: the normalised section of the requested host, or nil for a host
without configuration. -/
def app {α : Type} (appCheck : Val → Except LuaError α) (conf : Dict) (host name : String) :
    Except LuaError (Option α) := do
  let domainTable ← getDomainconfLocal conf host
  if domainTable.isStr "" then return none
  else
    let sharedData ← domainTable.index name
    let section' ← appCheck sharedData
    return some section'

end GetConf
end OpenrestyGateway
