import OpenrestyGateway.Iputils
import OpenrestyGateway.Util
import Mathlib.Logic.Function.Basic

/-!
The access lists of a domain, access/ip_rule.lua and access/zone_rule.lua, run one
after the other as in access/access_main.lua.bak.

Each rule builds the list of the addresses it checks from the request. The first
looks them up in lists of networks, the second compares their locations with a
list of conditions. libcidr, the geo database and the cache of locations are
parameters.
-/
namespace OpenrestyGateway
namespace Acl

structure ZoneCondition where
  country : Val
  province : Val
  city : Val

structure DenyConf where
  aclType : Val
  checkIp : List Val
  ipv4List : List String
  ipv6List : List String
  zone : List ZoneCondition

/-- The variables remote_addr, http_x_real_ip and http_x_forwarded_for. -/
structure Request where
  remoteAddr : Option String
  realIp : Option String
  forwardedFor : Option String

structure Place where
  names : Option (List (String × String))

structure GeoInfo where
  country : Option Place
  subdivisions : Option (List Place)
  city : Option Place

structure Env where
  /-- the addresses that the first text names lie within those of the second -/
  lies : String → String → Bool
  initted : Bool
  lookup : String → Option GeoInfo

abbrev GeoCache := String → Option GeoInfo

/-- `cidr.contains(cidr.from_str(big), cidr.from_str(little))` -/
def Env.contains (env : Env) (big little : String) : Bool := env.lies little big

inductive Rule where
  | allow
  | deny
  | pending
  deriving DecidableEq

/-- `^%s*(.-)%s*$` -/
def trim (cs : List Char) : List Char :=
  ((cs.dropWhile isSpace).reverse.dropWhile isSpace).reverse

/-- The list `ip_list` that both rules build. Appending nil appends nothing. -/
def ipList (conf : DenyConf) (req : Request) : List String :=
  conf.checkIp.flatMap (fun ipType =>
    if ipType.isStr "remote_addr" then req.remoteAddr.toList
    else if ipType.isStr "real_ip" then req.realIp.toList
    else if ipType.isStr "http_x_forwarder_for" then
      match req.forwardedFor with
      | some forwardedFor =>
          if forwardedFor = "" then []
          else
            (Util.runs (fun c => c != ',') [] forwardedFor.toList).map
              (fun ip => String.ofList (trim ip))
      | none => []
    else [])

namespace IpRule

def isIpv6 (ip : String) : Bool := ip.toList.any (fun c => c == ':')

def anyAllowed (env : Env) (conf : DenyConf) : List String → Except LuaError Bool
  | [] => .ok false
  | ip :: ips => do
      let pList ← Iputils.parseCidrs conf.ipv4List
      if !isIpv6 ip then
        if Iputils.ipInCidrs ip pList then return true else anyAllowed env conf ips
      else if conf.ipv6List.any (fun ipcidr => env.contains ip ipcidr) then return true
      else anyAllowed env conf ips

def isIpAllowed (env : Env) (ips : List String) (conf : DenyConf) : Except LuaError Bool :=
  if ips.length = 0 then .ok false else anyAllowed env conf ips

def ipLogic (env : Env) (conf : DenyConf) (req : Request) :
    Except LuaError (Rule × List String) := do
  let ips := ipList conf req
  if ← isIpAllowed env ips conf then
    return (if conf.aclType.isStr "deny" then .deny else .allow, ips)
  else return (.pending, ips)

end IpRule

namespace ZoneRule

/-- `names["zh-CN"]` of a place, nil where any of it is missing. -/
def zhName (place : Option Place) : Val :=
  match (place.bind Place.names).bind (fun names => names.lookup "zh-CN") with
  | some name => .str name
  | none => .nil

def dropLastChar (c : Char) (name : List Char) : List Char :=
  if name.getLast? = some c then name.dropLast else name

def provinceName (name : String) : String :=
  String.ofList (dropLastChar '市' (dropLastChar '省' name.toList))

def provinceMatches (place : Option Place) (province : Val) : Bool :=
  match zhName place with
  | .str name => (Val.str (provinceName name)).rawEq province
  | _ => false

/-- A failed lookup is the string none, whose fields are nil. -/
def isMatchingCondition (ipInfo : Option GeoInfo) (condition : ZoneCondition) : Bool :=
  if condition.country.truthy &&
      !(zhName (ipInfo.bind GeoInfo.country)).rawEq condition.country then false
  else if condition.province.truthy &&
      !provinceMatches ((ipInfo.bind GeoInfo.subdivisions).bind List.head?)
        condition.province then false
  else if condition.city.truthy &&
      !(zhName (ipInfo.bind GeoInfo.city)).rawEq condition.city then false
  else true

/-- Where the database is not open, `util.defaultConf.mmdb` is read, and there is no
`util.defaultConf`. -/
def queryIp (env : Env) (cache : GeoCache) (ip : String) :
    Except LuaError (Option GeoInfo × GeoCache) :=
  match cache ip with
  | some info => .ok (some info, cache)
  | none =>
      if !env.initted then .error (.index .nil)
      else
        match env.lookup ip with
        | none => .ok (none, cache)
        | some info => .ok (some info, Function.update cache ip (some info))

inductive Zone where
  | none
  | hit
  | miss
  deriving DecidableEq

def anyZone (env : Env) (conf : DenyConf) :
    GeoCache → List String → Except LuaError (Zone × GeoCache)
  | cache, [] => .ok (.miss, cache)
  | cache, ip :: ips => do
      let (res, cache) ← queryIp env cache ip
      if conf.zone.any (isMatchingCondition res) then return (.hit, cache)
      else anyZone env conf cache ips

/-- false where there is no address, else hit or miss. -/
def isZoneAllowed (env : Env) (cache : GeoCache) (ips : List String) (conf : DenyConf) :
    Except LuaError (Zone × GeoCache) :=
  if ips.length = 0 then .ok (.none, cache) else anyZone env conf cache ips

def zoneLogic (env : Env) (cache : GeoCache) (conf : DenyConf) (req : Request) :
    Except LuaError (Rule × List String) := do
  let ips := ipList conf req
  let (res, _) ← isZoneAllowed env cache ips conf
  if res = .hit ∧ conf.aclType.isStr "deny" then return (.deny, ips)
  else if res = .miss ∧ conf.aclType.isStr "allow" then return (.deny, ips)
  else return (.allow, ips)

end ZoneRule

/-- The decision of both rules for a request. -/
def decision (env : Env) (cache : GeoCache) (conf : DenyConf) (req : Request) :
    Except LuaError Rule := do
  let (ipres, _) ← IpRule.ipLogic env conf req
  if ipres = .pending then do
    let (zoneres, _) ← ZoneRule.zoneLogic env cache conf req
    return zoneres
  else return ipres

/-! ### What the lists mean -/

/-- An IPv6 address lies in a network of its list, any other in one of the IPv4 list. -/
def Listed (env : Env) (conf : DenyConf) (ip : String) : Prop :=
  if IpRule.isIpv6 ip then ∃ cidr ∈ conf.ipv6List, env.lies ip cidr = true
  else ∃ cidr ∈ conf.ipv4List, Iputils.InNetwork ip cidr

/-- Every field that the condition names agrees with the location. -/
structure Satisfies (ipInfo : Option GeoInfo) (condition : ZoneCondition) : Prop where
  country : condition.country.truthy = true →
    ZoneRule.zhName (ipInfo.bind GeoInfo.country) = condition.country
  province : condition.province.truthy = true →
    ∃ name, ZoneRule.zhName ((ipInfo.bind GeoInfo.subdivisions).bind List.head?) = .str name ∧
      Val.str (ZoneRule.provinceName name) = condition.province
  city : condition.city.truthy = true →
    ZoneRule.zhName (ipInfo.bind GeoInfo.city) = condition.city

def Located (env : Env) (conf : DenyConf) (ip : String) : Prop :=
  ∃ condition ∈ conf.zone, Satisfies (env.lookup ip) condition

/-- The cache repeats what the database says. -/
def CacheSound (env : Env) (cache : GeoCache) : Prop :=
  ∀ ip info, cache ip = some info → env.lookup ip = some info

/-- Some checked address is listed or located as the configuration says. -/
def Matched (env : Env) (conf : DenyConf) (req : Request) : Prop :=
  ∃ ip ∈ ipList conf req, Listed env conf ip ∨ Located env conf ip

end Acl
end OpenrestyGateway
