import OpenrestyGateway.ConfReload
import OpenrestyGateway.RedisIresty

/-!
The init phase, init/init_conf.lua: the settings of default.conf are put into the
shared dict, where the workers and the Redis wrapper find them, the rule file is
read for health checks, and the geo database is opened.

The dict has room for both records, and the cache of locations is created.
-/
namespace OpenrestyGateway
open Interleaving

namespace GetConf

def getDefaultConf (conf : Dict) (app : String) : Except LuaError Val :=
  match conf app with
  | none => .ok .nil
  | some v => decode v

end GetConf

namespace InitConf

def filePath : String := "/usr/local/openresty/nginx/conf/default.conf"

def luaConfPath : String := "/usr/local/openresty/nginx/conf/lua.conf"

def mmdbPath : String := "/usr/local/openresty/nginx/GeoLite2-City.mmdb"

/-- `util.readfile`; io.open takes a string or a number. -/
def readfile (files : String → Option FileText) : Val → Except LuaError (Option FileText)
  | .str path => .ok (files path)
  | .num q => .ok (files (numberText q))
  | v => .error (.badArgument "open" v.type)

def soloRedis : Val :=
  .obj [("type", .str "solo"),
    ("host", .obj [("host", .str "127.0.0.1"), ("port", .num 6379)])]

def initDefault (conf : Dict) (defaultTable : Val) : Except LuaError Dict := do
  let redis ← defaultTable.index "redis"
  let redisConf := if !redis.truthy then soloRedis else redis
  let ruleConfPath ← defaultTable.index "rule_conf_path"
  let mmdb ← defaultTable.index "mmdb"
  return Function.update conf "default" (some (.json (defaultConf
    (ruleConfPath.or (.str luaConfPath)) (mmdb.or (.str mmdbPath)) redisConf)))

/-- One domain of the rule file. There is no function `init_health`. -/
def checkDomain (domainConf : Val) : Except LuaError Unit := do
  let _ ← domainConf.index "domain"
  let healthcheckconf ← domainConf.index "healthcheck"
  if healthcheckconf.truthy then throw (.call .nil) else return ()

def checkDomains : List Val → Except LuaError Unit
  | [] => .ok ()
  | v :: vs => do
      checkDomain v
      checkDomains vs

/-- The message about a missing file is put together with a variable `luapth`, which
does not exist. -/
def initHealthcheck (files : String → Option FileText) (conf : Dict) (luapath : Val) :
    Except LuaError Dict := do
  match ← readfile files luapath with
  | none => throw (.concat .nil)
  | some .malformed => throw .json
  | some (.json jsonContent) =>
      if !jsonContent.truthy then return conf
      else do
        let domains ← jsonContent.pairs
        checkDomains domains
        return Function.update conf "healthcheck" (some (.json (healthcheckstr [])))

/-- What the phase opens besides default.conf. -/
structure Opened where
  ruleFile : Val
  mmdb : Val

/-- The main chunk: the dict, and what is opened if default.conf can be read. -/
def mainChunk (files : String → Option FileText) (conf : Dict) :
    Except LuaError (Dict × Option Opened) :=
  match files filePath with
  | none => .ok (conf, none)
  | some .malformed => .error .json
  | some (.json defaultconfTable) =>
      if !defaultconfTable.truthy then .ok (conf, none)
      else do
        let conf ← initDefault conf defaultconfTable
        let luapath ← defaultconfTable.index "rule_conf_path"
        let conf ← initHealthcheck files conf luapath
        let mmdb ← defaultconfTable.index "mmdb"
        return (conf, some ⟨luapath, mmdb⟩)

end InitConf

namespace RedisIresty

/-- An entry of hosts; one that is no table raises where it is connected to. -/
def hostConf (entry : Val) : HostConf :=
  ⟨(entry.index "host").toOption.getD .nil, (entry.index "port").toOption.getD .nil⟩

/-- The variable redisconf of the module, as connect_mod reads it. -/
def redisConf (redisconf : Val) : Except LuaError RedisConf := do
  let type ← redisconf.index "type"
  let hosts ← redisconf.index "hosts"
  let hosts ← hosts.ipairs
  let sentinelName ← redisconf.index "sentinel_name"
  let password ← redisconf.index "password"
  return ⟨type, hosts.map hostConf, sentinelName, password⟩

def connectStored (redisconf : Val) : Net (Bool × Option String) := do
  let conf ← Net.lift (redisConf redisconf)
  connectMod conf

/-- A connection is made to a host of the setting. -/
def ConnectsTo (redisconf : Val) (servers : Servers) (host : String) (port : Option ℚ) : Prop :=
  ∃ conf client n, redisConf redisconf = .ok conf ∧
    (∃ entry ∈ conf.hosts, RestyRedis.address entry.host entry.port = some (host, port)) ∧
    NetOp.connect client n host port ∈
      (Prog.run (execNet servers) [] (connectStored redisconf)).2

/-- The first host of the setting has an address. -/
def HasHost (redisconf : Val) : Prop :=
  ∃ conf entry rest host port, redisConf redisconf = .ok conf ∧ conf.hosts = entry :: rest ∧
    RestyRedis.address entry.host entry.port = some (host, port)

theorem truthy_of_hasHost {redisconf : Val} (h : HasHost redisconf) :
    redisconf.truthy = true := by
  obtain ⟨conf, entry, rest, host, port, hconf, -⟩ := h
  cases redisconf with
  | nil | bool _ => cases hconf
  | _ => rfl

theorem mem_calls (servers : Servers) {α : Type} (p : Net α) {calls : List NetOp} {o : NetOp}
    (h : o ∈ calls) : o ∈ (Prog.run (execNet servers) calls p).2 := by
  induction p generalizing calls with
  | ret _ | stop _ => exact h
  | call o' k ih => exact ih _ (List.mem_append_left _ h)

theorem mem_first_connect (servers : Servers) {α : Type} {calls : List NetOp} {client : Client}
    {n : Nat} {host port : Val} {h : String} {p : Option ℚ}
    (haddress : RestyRedis.address host port = some (h, p)) (f : Option String → Net α) :
    NetOp.connect client n h p ∈
      (Prog.run (execNet servers) calls (RestyRedis.connect client n host port >>= f)).2 := by
  simp only [RestyRedis.connect, haddress]
  exact mem_calls servers (f (servers (.connect client n h p)))
    (List.mem_append_right calls (.head _))

/-- connect_mod starts with the first host, a sentinel or the server itself. -/
theorem connects_iff {redisconf : Val} {servers : Servers}
    (hnew : servers (.new .sentinel) = none) :
    (∃ host port, ConnectsTo redisconf servers host port) ↔ HasHost redisconf := by
  constructor
  · rintro ⟨host, port, conf, client, n, hconf, hentry, hcall⟩
    simp only [connectStored, hconf, Net.lift, Prog.ret_bind, connectMod, Net.new,
      Prog.call_bind, Prog.run_call, execNet, hnew] at hcall
    cases hhosts : conf.hosts with
    | nil =>
        rw [hhosts] at hentry
        obtain ⟨_, hmem, _⟩ := hentry
        cases hmem
    | cons entry rest =>
        cases haddress : RestyRedis.address entry.host entry.port with
        | some a => exact ⟨conf, entry, rest, a.1, a.2, hconf, hhosts, haddress⟩
        | none =>
            rw [hhosts] at hcall
            cases hs : conf.type.isStr "sentinel" <;>
              simp [hs, askSentinels, RestyRedis.connect, haddress] at hcall
  · rintro ⟨conf, entry, rest, host, port, hconf, hhosts, haddress⟩
    have hmem : entry ∈ conf.hosts := hhosts ▸ .head rest
    refine ⟨host, port, conf, if conf.type.isStr "sentinel" then .sentinel else .redis, 0, hconf,
      ⟨entry, hmem, haddress⟩, ?_⟩
    simp only [connectStored, hconf, Net.lift, Prog.ret_bind, connectMod, Net.new,
      Prog.call_bind, Prog.run_call, execNet, hnew, hhosts]
    cases conf.type.isStr "sentinel" with
    | true => exact mem_first_connect servers haddress _
    | false => exact mem_first_connect servers haddress _

end RedisIresty

/-- A server about to start: its files, with default.conf a JSON object and the rule file
that it names, or the default one, an array of domains. -/
structure StartFiles where
  files : String → Option FileText
  settings : List (String × Val)
  default_conf : files InitConf.filePath = some (.json (.obj settings))
  ruleConfPath : Option String
  rule_conf_path : settings.lookup "rule_conf_path" = ruleConfPath.map Val.str
  mmdbPath : Option String
  mmdb : settings.lookup "mmdb" = mmdbPath.map Val.str
  domains : List (List (String × Val))
  lua_conf : files (ruleConfPath.getD InitConf.luaConfPath) =
    some (.json (.arr (domains.map Val.obj)))

namespace StartFiles
variable (w : StartFiles)

def ruleFile : String := w.ruleConfPath.getD InitConf.luaConfPath

def mmdbFile : String := w.mmdbPath.getD InitConf.mmdbPath

/-- The redis setting, if there is one. -/
def redis : Option Val := w.settings.lookup "redis"

/-- The init phase ends without an error, the settings found afterwards are the
configured ones or the defaults, what was opened are those files, and the Redis
wrapper connects to a host of the setting, the local one if there is none. -/
def StartsWell (servers : RedisIresty.Servers) : Prop :=
  ∃ conf opened default redisconf host port,
    InitConf.mainChunk w.files (fun _ => none) = .ok (conf, some opened) ∧
    GetConf.getDefaultConf conf "default" = .ok default ∧
    default.index "rule_conf_path" = .ok (.str w.ruleFile) ∧ opened.ruleFile = .str w.ruleFile ∧
    default.index "mmdb" = .ok (.str w.mmdbFile) ∧ opened.mmdb = .str w.mmdbFile ∧
    default.index "redis" = .ok redisconf ∧ (∀ r, w.redis = some r → redisconf = r) ∧
    RedisIresty.ConnectsTo redisconf servers host port ∧
    (w.redis = none → host = "127.0.0.1" ∧ port = some 6379)

/-- Nothing is left to its default, no domain asks for health checks, and the first
Redis host has an address. -/
structure Complete : Prop where
  ruleConfPath : w.ruleConfPath.isSome
  mmdbPath : w.mmdbPath.isSome
  noHealthcheck : ∀ d ∈ w.domains, ((d.lookup "healthcheck").getD .nil).truthy = false
  redis : ∃ r, w.redis = some r ∧ RedisIresty.HasHost r

end StartFiles

namespace InitConf

/-- The default of init_default has a field host where hosts is read. -/
theorem soloRedis_hostless : ¬ RedisIresty.HasHost soloRedis := by
  rintro ⟨conf, entry, rest, host, port, hconf, -⟩
  cases hconf

theorem checkDomain_obj (d : List (String × Val)) :
    checkDomain (.obj d) =
      if ((d.lookup "healthcheck").getD .nil).truthy then .error (.call .nil) else .ok () := rfl

theorem checkDomains_cases (ds : List (List (String × Val))) :
    (checkDomains (ds.map Val.obj) = .ok () ∧
        ∀ d ∈ ds, ((d.lookup "healthcheck").getD .nil).truthy = false) ∨
      (checkDomains (ds.map Val.obj) = .error (.call .nil) ∧
        ∃ d ∈ ds, ((d.lookup "healthcheck").getD .nil).truthy = true) := by
  induction ds with
  | nil => exact .inl ⟨rfl, fun d hd => by cases hd⟩
  | cons d ds ih =>
      have hstep : checkDomains ((d :: ds).map Val.obj) =
          checkDomain (.obj d) >>= fun _ => checkDomains (ds.map Val.obj) := rfl
      rw [hstep, checkDomain_obj]
      cases hd : ((d.lookup "healthcheck").getD .nil).truthy with
      | true => exact .inr ⟨rfl, d, .head _, hd⟩
      | false =>
          rcases ih with ⟨hok, hall⟩ | ⟨herror, d', hmem, hd'⟩
          · exact .inl ⟨hok, List.forall_mem_cons.mpr ⟨hd, hall⟩⟩
          · exact .inr ⟨herror, d', .tail _ hmem, hd'⟩

end InitConf

namespace StartFiles
variable (w : StartFiles)

def storedRedis : Val :=
  if !((w.redis).getD .nil).truthy then InitConf.soloRedis else w.redis.getD .nil

def conf : Dict :=
  InitConf.initPhase (fun _ => none) (.str w.ruleFile) (.str w.mmdbFile) w.storedRedis []

theorem mainChunk_eq : InitConf.mainChunk w.files (fun _ => none) =
    match w.ruleConfPath with
    | none => .error (.badArgument "open" .nil)
    | some path => do
        InitConf.checkDomains (w.domains.map Val.obj)
        return (w.conf, some ⟨.str path, (w.mmdbPath.map Val.str).getD .nil⟩) := by
  have hdefault : InitConf.initDefault (fun _ => none) (.obj w.settings) =
      .ok (Function.update (fun _ => none) "default" (some (.json (InitConf.defaultConf
        (.str w.ruleFile) (.str w.mmdbFile) w.storedRedis)))) := by
    simp only [InitConf.initDefault, Val.index, w.rule_conf_path, w.mmdb, bind, Except.bind,
      ruleFile, mmdbFile]
    cases w.ruleConfPath <;> cases w.mmdbPath <;> rfl
  have hpath : (Val.obj w.settings).index "rule_conf_path" =
      .ok ((w.ruleConfPath.map Val.str).getD .nil) := by
    simp only [Val.index, w.rule_conf_path]
  have hmmdb : (Val.obj w.settings).index "mmdb" =
      .ok ((w.mmdbPath.map Val.str).getD .nil) := by
    simp only [Val.index, w.mmdb]
  have hfile := w.lua_conf
  simp only [InitConf.mainChunk, w.default_conf, hdefault, hpath, hmmdb]
  cases hrule : w.ruleConfPath with
  | none => rfl
  | some path =>
      rw [hrule] at hfile
      have hread : InitConf.readfile w.files (.str path) =
          .ok (some (.json (.arr (w.domains.map Val.obj)))) := congrArg Except.ok hfile
      have hhealth : ∀ conf, InitConf.initHealthcheck w.files conf (.str path) = do
          InitConf.checkDomains (w.domains.map Val.obj)
          return Function.update conf "healthcheck"
            (some (.json (InitConf.healthcheckstr []))) := by
        intro conf
        simp only [InitConf.initHealthcheck, hread]
        rfl
      simp only [Option.map_some, Option.getD_some, bind, Except.bind, hhealth]
      cases InitConf.checkDomains (w.domains.map Val.obj) <;> rfl

theorem getDefaultConf_eq : GetConf.getDefaultConf w.conf "default" =
    .ok (InitConf.defaultConf (.str w.ruleFile) (.str w.mmdbFile) w.storedRedis) := by
  have hne : "default" ≠ "healthcheck" := by decide
  simp only [GetConf.getDefaultConf, conf, InitConf.initPhase, Function.update_of_ne hne,
    Function.update_self]
  rfl

/-- The init phase ends without an error exactly if default.conf names the rule file and
no domain asks for health checks. -/
theorem mainChunk_ok_iff {conf : Dict} {opened : InitConf.Opened} :
    InitConf.mainChunk w.files (fun _ => none) = .ok (conf, some opened) ↔
      ∃ path, w.ruleConfPath = some path ∧
        (∀ d ∈ w.domains, ((d.lookup "healthcheck").getD .nil).truthy = false) ∧
        w.conf = conf ∧ ⟨.str path, (w.mmdbPath.map Val.str).getD .nil⟩ = opened := by
  rw [mainChunk_eq]
  cases w.ruleConfPath with
  | none => simp
  | some path =>
      rcases InitConf.checkDomains_cases w.domains with ⟨hok, hall⟩ | ⟨herror, d, hd, hbad⟩
      · simp only [hok, bind, Except.bind, pure, Except.pure, Except.ok.injEq, Prod.mk.injEq,
          Option.some.injEq]
        constructor
        · intro h
          exact ⟨path, rfl, hall, h⟩
        · intro ⟨_, hpath, _, h⟩
          cases hpath
          exact h
      · simp only [herror, bind, Except.bind]
        constructor
        · intro h
          cases h
        · intro ⟨_, _, hall, _⟩
          cases (hall d hd).symm.trans hbad

theorem storedRedis_eq {r : Val} (hr : w.redis = some r) (h : RedisIresty.HasHost r) :
    w.storedRedis = r := by
  simp only [storedRedis, hr, Option.getD_some, RedisIresty.truthy_of_hasHost h]
  rfl

theorem storedRedis_hasHost_iff : RedisIresty.HasHost w.storedRedis ↔
    ∃ r, w.redis = some r ∧ RedisIresty.HasHost r := by
  constructor
  · intro h
    cases hr : w.redis with
    | none =>
        have hsolo : w.storedRedis = InitConf.soloRedis := by
          simp only [storedRedis, hr]
          rfl
        exact absurd (hsolo ▸ h) InitConf.soloRedis_hostless
    | some r =>
        refine ⟨r, rfl, ?_⟩
        simp only [storedRedis, hr, Option.getD_some] at h
        split at h
        · exact absurd h InitConf.soloRedis_hostless
        · exact h
  · intro ⟨r, hr, hhost⟩
    exact (w.storedRedis_eq hr hhost).symm ▸ hhost

end StartFiles

end OpenrestyGateway
