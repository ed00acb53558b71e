import OpenrestyGateway.Library.Pool
import OpenrestyGateway.GetConf
import Mathlib.Logic.Function.Basic

/-!
init/init_worker_phase_entrance.lua: worker 0 loads the rule file into the shared
dict, once when it starts and then every minute from a timer, under a lock of
resty.lock that lives in the same dict.

The dict has room for every record, and the first timer is created. A table's
text is its address, which is left out.
-/
namespace OpenrestyGateway
open Interleaving

inductive FileText where
  | json (v : Val)
  | malformed
  deriving DecidableEq

structure RuleFile where
  modification : Nat
  /-- nothing for a file that cannot be opened -/
  content : Option FileText

inductive ConfOp where
  | attributes
  | readFile
  | get (key : String)
  | set (key : String) (v : DictVal)
  | addLock
  | deleteLock
  | timerAt
  /-- the timer's callback starts -/
  | tick

abbrev ConfOp.Answer : ConfOp → Type
  | .attributes => Option Nat
  | .readFile => Option FileText
  | .get _ => Option DictVal
  | .set _ _ | .deleteLock | .tick => Unit
  | .addLock | .timerAt => Bool

abbrev Conf (α : Type) := Prog ConfOp ConfOp.Answer LuaError α

namespace InitWorker

def confKey : String := "share_dict_conf"

def lastmod : String := "conf:last:modified"

def lift {α : Type} : Except LuaError α → Conf α
  | .ok a => .ret a
  | .error e => .stop e

/-- The key of the dict a value stands for: it is converted to a string, which must
be neither empty nor too long. -/
def dictKey (key : Val) : Option String :=
  let text := match key with
    | .nil => none
    | .null => some "userdata: NULL"
    | .bool b => some (if b then "true" else "false")
    | .num q => some (numberText q)
    | .str s => some s
    -- the address of a fresh table, which no reader asks for
    | .arr _ | .obj _ => none
  text.filter (fun k => decide (0 < k.utf8ByteSize ∧ k.utf8ByteSize ≤ 65535))

def get (key : Val) : Conf (Option DictVal) :=
  match dictKey key with
  | some k => .call (.get k) .ret
  | none => return none

def set (key : Val) (v : DictVal) : Conf Unit :=
  match dictKey key with
  | some k => .call (.set k v) .ret
  | none => return ()

/-- `lock:lock(conf_key)` with a timeout of 0: true if the lock was obtained. `keyId`
tells whether this lock object holds the key already. -/
def lock (keyId : Bool) : Conf Bool :=
  if keyId then return false else .call .addLock .ret

def freelock (elapsed : Bool) : Conf Unit :=
  if elapsed then .call .deleteLock .ret else return ()

def isconfread (luaconf : String) : Conf Bool := do
  match ← .call .attributes .ret with
  | none => return false
  | some modification => do
      let timekey := .str (lastmod ++ luaconf)
      match ← get timekey with
      | none => do
          set timekey (.json (.num modification))
          return true
      | some cacheTime =>
          if cacheTime = .json (.num modification) then return false
          else do
            set timekey (.json (.num modification))
            return true

def loadEntry (v : Val) : Conf Unit := do
  let domain ← lift (v.index "domain")
  let stored ← get domain
  if stored = some (.json v) then return ()
  else do
    set domain (.json v)
    let _ ← lift (Val.concat [.str "Load: ", domain, .str ":conf : "])
    return ()

def loadEntries : List Val → Conf Unit
  | [] => return ()
  | v :: vs => do
      loadEntry v
      loadEntries vs

def readConfFile (luaconf : String) (keyId : Bool) : Conf Unit := do
  let elapsed ← lock keyId
  let lcf ← isconfread luaconf
  if !lcf then freelock elapsed
  else
    match ← .call .readFile .ret with
    | none => freelock elapsed
    | some .malformed => .stop .json
    | some (.json .nil) => freelock elapsed
    | some (.json domainconfTable) => do
        let entries ← lift domainconfTable.pairs
        loadEntries entries
        freelock elapsed

/-- The timer's callback arms the next timer at its end. -/
def handler (luaconf : String) (keyId : Bool) : Conf Unit := do
  readConfFile luaconf keyId
  let _ ← (.call .timerAt .ret : Conf Bool)
  return ()

end InitWorker

/-- A worker process of index 0: whether its lock object holds the key, whether a
timer is pending, and what is left of the code it runs. -/
structure WorkerZero where
  keyId : Bool
  armed : Bool
  body : Conf Unit

namespace WorkerZero

def noteLock (keyId : Bool) (o : ConfOp) : o.Answer → Bool :=
  match o with
  | .addLock => fun added => keyId || added
  | .deleteLock => fun _ => false
  | _ => fun _ => keyId

def noteTimer (armed : Bool) (o : ConfOp) : o.Answer → Bool :=
  match o with
  | .timerAt => fun created => armed || created
  | _ => fun _ => armed

def start (luaconf : String) : WorkerZero :=
  ⟨false, true, InitWorker.readConfFile luaconf false⟩

def next (luaconf : String) (w : WorkerZero) :
    Option ((o : ConfOp) × (o.Answer → WorkerZero)) :=
  match w.body with
  | .call o k => some ⟨o, fun a => ⟨noteLock w.keyId o a, noteTimer w.armed o a, k a⟩⟩
  | .ret _ | .stop _ =>
      if w.armed then
        some ⟨.tick, fun _ => ⟨w.keyId, false, InitWorker.handler luaconf w.keyId⟩⟩
      else none

/-- Its code has come to its end. -/
def Ended (w : WorkerZero) : Prop := ∀ o k, w.body ≠ .call o k

theorem next_cases {luaconf : String} {w : WorkerZero} {o : ConfOp} {k : o.Answer → WorkerZero}
    (h : w.next luaconf = some ⟨o, k⟩) :
    (∃ k', w.body = .call o k' ∧
      ∀ a, k a = ⟨noteLock w.keyId o a, noteTimer w.armed o a, k' a⟩) ∨
    (o = .tick ∧ w.Ended ∧ w.armed = true ∧
      ∀ a, k a = ⟨w.keyId, false, InitWorker.handler luaconf w.keyId⟩) := by
  obtain ⟨keyId, armed, body⟩ := w
  cases body with
  | call o' k' =>
      cases h
      exact .inl ⟨k', rfl, fun _ => rfl⟩
  | ret _ | stop _ =>
      cases armed with
      | false => cases h
      | true =>
          cases h
          exact .inr ⟨rfl, fun _ _ hcall => (by cases hcall), rfl, fun _ => rfl⟩

end WorkerZero

structure ConfStore where
  dict : Dict
  file : Option RuleFile

/-- What happens to the dict and the file from outside: the file is edited or
removed, the lock runs out, nginx runs the init phase (again). -/
inductive ConfChange where
  | edit (file : Option RuleFile)
  | lockExpires
  | initPhase (ruleConfPath mmdb redis : Val) (healthchecktable : List Val)

namespace InitConf

/-- `init_default` -/
def defaultConf (ruleConfPath mmdb redis : Val) : Val :=
  .obj [("rule_conf_path", ruleConfPath), ("mmdb", mmdb), ("redis", redis)]

/-- An empty table is encoded as an object. -/
def healthcheckstr (healthchecktable : List Val) : Val :=
  if healthchecktable.isEmpty then .obj [] else .arr healthchecktable

def initPhase (dict : Dict) (ruleConfPath mmdb redis : Val) (healthchecktable : List Val) :
    Dict :=
  Function.update
    (Function.update dict "default" (some (.json (defaultConf ruleConfPath mmdb redis))))
    "healthcheck" (some (.json (healthcheckstr healthchecktable)))

end InitConf

namespace ConfStore

/-- One call; `refused` tells that nginx has no timer left. -/
def exec (s : ConfStore) (refused : Bool) : (o : ConfOp) → o.Answer × ConfStore
  | .attributes => (s.file.map RuleFile.modification, s)
  | .readFile => (s.file.bind RuleFile.content, s)
  | .get key => (s.dict key, s)
  | .set key v => ((), { s with dict := Function.update s.dict key (some v) })
  | .addLock =>
      match s.dict InitWorker.confKey with
      | none =>
          (true, { s with dict := Function.update s.dict InitWorker.confKey (some (.bool true)) })
      | some _ => (false, s)
  | .deleteLock => ((), { s with dict := Function.update s.dict InitWorker.confKey none })
  | .timerAt => (!refused, s)
  | .tick => ((), s)

def change (s : ConfStore) : ConfChange → ConfStore
  | .edit file => { s with file := file }
  | .lockExpires =>
      match s.dict InitWorker.confKey with
      | some (.bool _) => { s with dict := Function.update s.dict InitWorker.confKey none }
      | _ => s
  | .initPhase ruleConfPath mmdb redis healthchecktable =>
      { s with dict := InitConf.initPhase s.dict ruleConfPath mmdb redis healthchecktable }

end ConfStore

abbrev Reload := Pool ConfOp ConfOp.Answer WorkerZero ConfStore

abbrev ReloadLabel := Label Bool ConfChange

def reload (luaconf : String) :
    Machine ConfOp ConfOp.Answer WorkerZero ConfStore Bool ConfChange where
  next := WorkerZero.next luaconf
  exec := ConfStore.exec
  outside := ConfStore.change

def Reload.start (luaconf : String) (n : Nat) (ruleConfPath mmdb redis : Val)
    (healthchecktable : List Val) (file : Option RuleFile) : Reload :=
  Pool.start (List.replicate n (WorkerZero.start luaconf))
    ⟨InitConf.initPhase (fun _ => none) ruleConfPath mmdb redis healthchecktable, file⟩

end OpenrestyGateway
