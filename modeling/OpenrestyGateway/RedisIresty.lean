import OpenrestyGateway.Library.Prog
import OpenrestyGateway.LuaValue

/-!
The Redis wrapper, util/redis_iresty.lua: finding a server, authenticating, and
sending one command.

The operations are the calls on the sockets of resty.redis; what the servers
answer to each of them is arbitrary. The time limits of the connections are left out.
-/
namespace OpenrestyGateway
open Interleaving

structure HostConf where
  host : Val
  port : Val

structure RedisConf where
  type : Val
  hosts : List HostConf
  sentinelName : Val
  password : Val

/-- The two results of a command: a null reply is `null`, and a failure is nil or
false with an error. -/
structure Answer where
  res : Val
  err : Option String
  documented : res.truthy = err.isNone

/-- A client object of resty.redis: do_command's own, and the one connect_mod asks
the sentinels with. -/
inductive Client where
  | redis
  | sentinel
  deriving DecidableEq

/-- Calls on a client. Its `n`-th connection is the one to the `n`-th host. -/
inductive NetOp where
  | new (client : Client)
  | connect (client : Client) (n : Nat) (host : String) (port : Option ℚ)
  | command (client : Client) (n : Nat) (name : String) (args : List Val)
  | setKeepalive (client : Client)

/-- `new` and `connect` answer with an error, if any. -/
abbrev NetOp.Answer : NetOp → Type
  | .new _ | .connect _ _ _ _ => Option String
  | .command _ _ _ _ => OpenrestyGateway.Answer
  | .setKeepalive _ => Unit

abbrev Net (α : Type) := Prog NetOp NetOp.Answer LuaError α

namespace Net

def new (client : Client) : Net (Option String) := .call (.new client) .ret

def lift {α : Type} : Except LuaError α → Net α
  | .ok a => .ret a
  | .error e => .stop e

end Net

namespace RestyRedis

def portNumber : Val → Option ℚ
  | .num q => some q
  | .str s => tonumber s
  | _ => none

/-- What `connect` makes of its arguments; it raises where it makes nothing of them. -/
def address (host port : Val) : Option (String × Option ℚ) :=
  match host with
  | .str h =>
      if h.toList.take 5 = ['u', 'n', 'i', 'x', ':'] then
        match port with
        | .nil | .arr _ | .obj _ => some (h, none)
        | _ => none
      else (portNumber port).map (fun p => (h, some p))
  | _ => none

def connect (client : Client) (n : Nat) (host port : Val) : Net (Option String) :=
  match address host port with
  | some (h, p) => .call (.connect client n h p) .ret
  | none => .stop (.badArgument "connect" (if host.type = .string then port.type else host.type))

/-- `hmset` with one argument after the key takes it for a table. -/
def arguments (name : String) (args : List Val) : Except LuaError (List Val) :=
  match args with
  | [key, t] =>
      if name = "hmset" then
        match t with
        | .arr xs => .ok (key :: (xs.zipIdx 1).flatMap (fun x => [.num x.2, x.1]))
        | .obj fs => .ok (key :: fs.flatMap (fun f => [.str f.1, f.2]))
        | _ => .error (.badArgument "pairs" t.type)
      else .ok args
  | _ => .ok args

def command (client : Client) (n : Nat) (name : String) (args : List Val) : Net Answer := do
  let args ← Net.lift (arguments name args)
  .call (.command client n name args) .ret

end RestyRedis

namespace RedisIresty

def isRedisNull : Val → Bool
  | .arr xs => xs.all (fun v => v matches .null)
  | .obj fs => fs.all (fun f => f.2 matches .null)
  | .null | .nil => true
  | _ => false

/-- The loop over the sentinels, from the `n`-th on. `created` tells whether there
is a client to ask them with. -/
def askSentinels (conf : RedisConf) (created : Bool) :
    Nat → List HostConf → Net (Bool × Option String)
  | _, [] => return (false, none)
  | n, sentinel :: rest => do
      if !created then .stop (.index .nil)
      else
        match ← RestyRedis.connect .sentinel n sentinel.host sentinel.port with
        | some _ => askSentinels conf created (n + 1) rest
        | none => do
            let reply ← RestyRedis.command .sentinel n "sentinel"
              [.str "get-master-addr-by-name", conf.sentinelName]
            if reply.res.truthy then do
              let host ← Net.lift (reply.res.at' 1)
              let port ← Net.lift (reply.res.at' 2)
              let err ← RestyRedis.connect .redis 0 host port
              return (err.isNone, err)
            else askSentinels conf created (n + 1) rest

def connectMod (conf : RedisConf) : Net (Bool × Option String) := do
  let failed ← Net.new .sentinel
  if conf.type.isStr "sentinel" then askSentinels conf failed.isNone 0 conf.hosts
  else
    match conf.hosts with
    | [] => return (false, none)
    | host :: _ => do
        let err ← RestyRedis.connect .redis 0 host.host host.port
        return (err.isNone, err)

def doCommand (conf : RedisConf) (cmd : String) (args : List Val) :
    Net (Val × Option String) := do
  match ← Net.new .redis with
  | some err => return (.nil, some err)
  | none => do
      let (ok, err) ← connectMod conf
      if !ok || err.isSome then return (.nil, err)
      else if conf.password.truthy then
        -- `red:auth(passwd)`: there is no variable `red`
        .stop (.index .nil)
      else do
        let result ← RestyRedis.command .redis 0 cmd args
        if !result.res.truthy || result.err.isSome then return (.nil, result.err)
        else do
          .call (.setKeepalive .redis) .ret
          return (if isRedisNull result.res then .nil else result.res, result.err)

/-! ### The servers -/

/-- What the servers answer. No call is made twice in one do_command. -/
abbrev Servers := (o : NetOp) → o.Answer

/-- Run against the servers, with the list of calls made so far. -/
def execNet (servers : Servers) (calls : List NetOp) (o : NetOp) : o.Answer × List NetOp :=
  (servers o, calls ++ [o])

section Reference
variable (conf : RedisConf) (servers : Servers)

/-- The answer of the `n`-th sentinel, if it takes the connection and has one. -/
def sentinelSays (n : Nat) (sentinel : HostConf) : Option Val :=
  match RestyRedis.address sentinel.host sentinel.port with
  | none => none
  | some (host, port) =>
      if (servers (.connect .sentinel n host port)).isSome then none
      else
        let reply := servers (.command .sentinel n "sentinel"
          [.str "get-master-addr-by-name", conf.sentinelName])
        if reply.res.truthy then some reply.res else none

def firstAnswer : Nat → List HostConf → Option Val
  | _, [] => none
  | n, sentinel :: rest =>
      match sentinelSays conf servers n sentinel with
      | some v => some v
      | none => firstAnswer (n + 1) rest

def masterIn (v : Val) : Option (String × Option ℚ) :=
  match v.at' 1, v.at' 2 with
  | .ok host, .ok port => RestyRedis.address host port
  | _, _ => none

/-- The address of the first sentinel that has one. -/
def firstMaster : Nat → List HostConf → Option (String × Option ℚ)
  | _, [] => none
  | n, sentinel :: rest =>
      match (sentinelSays conf servers n sentinel).bind masterIn with
      | some a => some a
      | none => firstMaster (n + 1) rest

theorem firstMaster_of_firstAnswer {hosts : List HostConf} {n : Nat}
    {a : String × Option ℚ} (h : (firstAnswer conf servers n hosts).bind masterIn = some a) :
    firstMaster conf servers n hosts = some a := by
  induction hosts generalizing n with
  | nil => cases h
  | cons sentinel rest ih =>
      simp only [firstAnswer, firstMaster] at h ⊢
      cases hanswer : sentinelSays conf servers n sentinel with
      | none =>
          rw [hanswer] at h
          exact ih h
      | some v =>
          rw [hanswer] at h
          have hv : masterIn v = some a := h
          simp [hv]

/-- Where the code connects to. -/
def serverAddress : Option (String × Option ℚ) :=
  if conf.type.isStr "sentinel" then (firstAnswer conf servers 0 conf.hosts).bind masterIn
  else conf.hosts.head?.bind (fun h => RestyRedis.address h.host h.port)

/-- The sentinels up to the first that answers have proper addresses, and its
answer holds one. -/
def SentinelsOk : Nat → List HostConf → Prop
  | _, [] => True
  | n, sentinel :: rest =>
      (RestyRedis.address sentinel.host sentinel.port).isSome ∧
        match sentinelSays conf servers n sentinel with
        | some v => (masterIn v).isSome
        | none => SentinelsOk (n + 1) rest

/-- Every address that is connected to is a proper one, and the sentinels, if there
are any, can be asked. -/
def AddressesOk : Prop :=
  if conf.type.isStr "sentinel" then
    (conf.hosts ≠ [] → servers (.new .sentinel) = none) ∧ SentinelsOk conf servers 0 conf.hosts
  else ∀ h ∈ conf.hosts.head?, (RestyRedis.address h.host h.port).isSome

def Connected : Prop :=
  ∃ a, serverAddress conf servers = some a ∧ servers (.connect .redis 0 a.1 a.2) = none

def connectResult (a : Option (String × Option ℚ)) : Bool × Option String :=
  match a with
  | some a => ((servers (.connect .redis 0 a.1 a.2)).isNone,
      servers (.connect .redis 0 a.1 a.2))
  | none => (false, none)

end Reference

section Run
variable {conf : RedisConf} {servers : Servers}

def CallOk (conf : RedisConf) (servers : Servers) : NetOp → Prop
  | .connect .redis _ host port => serverAddress conf servers = some (host, port)
  | .command .redis _ _ _ => conf.password.truthy = false
  | _ => True

def CallsOk (conf : RedisConf) (servers : Servers) (calls : List NetOp) : Prop :=
  ∀ o ∈ calls, CallOk conf servers o

theorem callsOk_append {calls : List NetOp} {o : NetOp} (h : CallsOk conf servers calls)
    (ho : CallOk conf servers o) : CallsOk conf servers (calls ++ [o]) := by
  intro o' ho'
  rcases List.mem_append.mp ho' with hold | hnew
  · exact h o' hold
  · exact List.mem_singleton.mp hnew ▸ ho

theorem run_connect (calls : List NetOp) (client : Client) (n : Nat) {host port : Val}
    {a : String × Option ℚ} (h : RestyRedis.address host port = some a) :
    Prog.run (execNet servers) calls (RestyRedis.connect client n host port) =
      (.ok (servers (.connect client n a.1 a.2)), calls ++ [.connect client n a.1 a.2]) := by
  simp only [RestyRedis.connect, h]
  rfl

theorem run_connect_none (servers : Servers) (calls : List NetOp) (client : Client) (n : Nat)
    {host port : Val}
    (h : RestyRedis.address host port = none) :
    ∃ e, Prog.run (execNet servers) calls (RestyRedis.connect client n host port) =
      (.error e, calls) := by
  simp only [RestyRedis.connect, h]
  exact ⟨_, rfl⟩

/-- The outcome of a run of the wrapper that raises exactly if `ok` fails. -/
def Ends {α : Type} (conf : RedisConf) (servers : Servers) (ok : Prop) (result : α)
    (r : Except LuaError α × List NetOp) : Prop :=
  CallsOk conf servers r.2 ∧ (ok → r.1 = .ok result) ∧ (¬ ok → ∃ e, r.1 = .error e)

def connectIn (v : Val) : Net (Bool × Option String) := do
  let host ← Net.lift (v.at' 1)
  let port ← Net.lift (v.at' 2)
  let err ← RestyRedis.connect .redis 0 host port
  return (err.isNone, err)

theorem run_connectIn (v : Val) (calls : List NetOp) (hcalls : CallsOk conf servers calls)
    (hserver : ∀ a, masterIn v = some a → serverAddress conf servers = some a) :
    Ends conf servers (masterIn v).isSome (connectResult servers (masterIn v))
      (Prog.run (execNet servers) calls (connectIn v)) := by
  unfold connectIn masterIn at *
  cases hhost : v.at' 1 with
  | error e => exact ⟨hcalls, fun h => by simp at h, fun _ => ⟨e, rfl⟩⟩
  | ok host =>
      cases hport : v.at' 2 with
      | error e => exact ⟨hcalls, fun h => by simp at h, fun _ => ⟨e, rfl⟩⟩
      | ok port =>
          simp only [hhost, hport] at hserver
          simp only [Net.lift, Prog.ret_bind, Prog.run_bind]
          cases haddr : RestyRedis.address host port with
          | none =>
              obtain ⟨e, he⟩ := run_connect_none servers calls .redis 0 haddr
              rw [he]
              exact ⟨hcalls, fun h => by simp at h, fun _ => ⟨e, rfl⟩⟩
          | some a =>
              rw [run_connect calls .redis 0 haddr]
              exact ⟨callsOk_append hcalls (hserver a haddr), fun _ => rfl,
                fun h => absurd rfl h⟩

theorem askSentinels_cons (created : Bool) (n : Nat) (sentinel : HostConf)
    (rest : List HostConf) :
    askSentinels conf created n (sentinel :: rest) =
      if !created then .stop (.index .nil)
      else RestyRedis.connect .sentinel n sentinel.host sentinel.port >>= fun e =>
        match e with
        | some _ => askSentinels conf created (n + 1) rest
        | none => .call (.command .sentinel n "sentinel"
            [.str "get-master-addr-by-name", conf.sentinelName]) (fun reply =>
              if reply.res.truthy then connectIn reply.res
              else askSentinels conf created (n + 1) rest) := by
  conv_lhs => unfold askSentinels
  rfl

theorem run_askSentinels (hosts : List HostConf) (n : Nat) (calls : List NetOp)
    (hcalls : CallsOk conf servers calls)
    (hserver : ∀ a, (firstAnswer conf servers n hosts).bind masterIn = some a →
      serverAddress conf servers = some a) :
    Ends conf servers (SentinelsOk conf servers n hosts)
      (connectResult servers ((firstAnswer conf servers n hosts).bind masterIn))
      (Prog.run (execNet servers) calls (askSentinels conf true n hosts)) := by
  induction hosts generalizing n calls with
  | nil => exact ⟨hcalls, fun _ => rfl, fun h => absurd trivial h⟩
  | cons sentinel rest ih =>
      rw [askSentinels_cons]
      simp only [Bool.not_true, Bool.false_eq_true, if_false, Prog.run_bind]
      simp only [firstAnswer, SentinelsOk] at hserver ⊢
      cases haddr : RestyRedis.address sentinel.host sentinel.port with
      | none =>
          obtain ⟨e, he⟩ := run_connect_none servers calls .sentinel n haddr
          rw [he]
          exact ⟨hcalls, fun h => by simp at h, fun _ => ⟨e, rfl⟩⟩
      | some a =>
          have hcalls' := callsOk_append (o := .connect .sentinel n a.1 a.2) hcalls trivial
          rw [run_connect calls .sentinel n haddr]
          simp only [Option.isSome_some, true_and]
          cases hc : servers (.connect .sentinel n a.1 a.2) with
          | some err =>
              have hsilent : sentinelSays conf servers n sentinel = none := by
                simp [sentinelSays, haddr, hc]
              simp only [hsilent] at hserver ⊢
              exact ih (n + 1) _ hcalls' hserver
          | none =>
              have hcalls'' := callsOk_append (o := .command .sentinel n "sentinel"
                [.str "get-master-addr-by-name", conf.sentinelName]) hcalls' trivial
              simp only [Prog.run_call, execNet]
              by_cases htruthy : (servers (.command .sentinel n "sentinel"
                  [.str "get-master-addr-by-name", conf.sentinelName])).res.truthy = true
              · have hanswer : sentinelSays conf servers n sentinel =
                    some (servers (.command .sentinel n "sentinel"
                      [.str "get-master-addr-by-name", conf.sentinelName])).res := by
                  simp [sentinelSays, haddr, hc, htruthy]
                simp only [hanswer, Option.bind_some] at hserver ⊢
                simp only [htruthy, if_true]
                exact run_connectIn _ _ hcalls'' hserver
              · have hsilent : sentinelSays conf servers n sentinel = none := by
                  simp [sentinelSays, haddr, hc, htruthy]
                simp only [hsilent] at hserver ⊢
                simp only [htruthy]
                exact ih (n + 1) _ hcalls'' hserver

def connectFirst : List HostConf → Net (Bool × Option String)
  | [] => return (false, none)
  | host :: _ => do
      let err ← RestyRedis.connect .redis 0 host.host host.port
      return (err.isNone, err)

theorem connectMod_eq (conf : RedisConf) :
    connectMod conf = .call (.new .sentinel) (fun failed =>
      if conf.type.isStr "sentinel" then askSentinels conf failed.isNone 0 conf.hosts
      else connectFirst conf.hosts) := by
  simp only [connectMod, Net.new, Prog.call_bind, Prog.ret_bind]
  cases conf.hosts with
  | nil => rfl
  | cons host rest => rfl

theorem run_connectFirst (hosts : List HostConf) (calls : List NetOp)
    (hcalls : CallsOk conf servers calls)
    (hserver : serverAddress conf servers =
      hosts.head?.bind (fun h => RestyRedis.address h.host h.port)) :
    Ends conf servers (∀ h ∈ hosts.head?, (RestyRedis.address h.host h.port).isSome)
      (connectResult servers (serverAddress conf servers))
      (Prog.run (execNet servers) calls (connectFirst hosts)) := by
  cases hosts with
  | nil =>
      rw [hserver]
      exact ⟨hcalls, fun _ => rfl, fun h => absurd (by simp) h⟩
  | cons host rest =>
      simp only [List.head?_cons, Option.bind_some] at hserver ⊢
      cases haddr : RestyRedis.address host.host host.port with
      | none =>
          obtain ⟨e, he⟩ := run_connect_none servers calls .redis 0 haddr
          simp only [connectFirst, Prog.run_bind, he]
          exact ⟨hcalls, fun h => by simp [haddr] at h, fun _ => ⟨e, rfl⟩⟩
      | some a =>
          have ha : serverAddress conf servers = some a := hserver.trans haddr
          simp only [connectFirst, Prog.run_bind, run_connect _ .redis 0 haddr, ha]
          exact ⟨callsOk_append hcalls ha, fun _ => rfl, fun h => absurd (by simp [haddr]) h⟩

/-- Without a client to ask them with, the sentinels must not be asked. -/
theorem run_sentinels (created : Bool) (calls : List NetOp) (hcalls : CallsOk conf servers calls)
    (hserver : serverAddress conf servers =
      (firstAnswer conf servers 0 conf.hosts).bind masterIn) :
    Ends conf servers ((conf.hosts ≠ [] → created = true) ∧ SentinelsOk conf servers 0 conf.hosts)
      (connectResult servers (serverAddress conf servers))
      (Prog.run (execNet servers) calls (askSentinels conf created 0 conf.hosts)) := by
  rw [hserver]
  cases created with
  | true =>
      obtain ⟨htrace, hgood, hbad⟩ := run_askSentinels conf.hosts 0 calls hcalls
        (fun a ha => hserver.trans ha)
      exact ⟨htrace, fun h => hgood h.2, fun h => hbad (fun h' => h ⟨fun _ => rfl, h'⟩)⟩
  | false =>
      cases conf.hosts with
      | nil =>
          refine ⟨hcalls, fun _ => rfl, fun h => absurd ?_ h⟩
          exact ⟨fun h => absurd rfl h, trivial⟩
      | cons sentinel rest =>
          rw [askSentinels_cons]
          refine ⟨hcalls, fun h => ?_, fun _ => ⟨_, rfl⟩⟩
          cases h.1 (List.cons_ne_nil _ _)

theorem run_connectMod (calls : List NetOp) (hcalls : CallsOk conf servers calls) :
    Ends conf servers (AddressesOk conf servers)
      (connectResult servers (serverAddress conf servers))
      (Prog.run (execNet servers) calls (connectMod conf)) := by
  have hcalls' := callsOk_append (o := .new .sentinel) hcalls trivial
  rw [connectMod_eq, Prog.run_call]
  by_cases htype : conf.type.isStr "sentinel" = true
  · have hserver : serverAddress conf servers =
        (firstAnswer conf servers 0 conf.hosts).bind masterIn := by
      simp [serverAddress, htype]
    have hok : AddressesOk conf servers =
        ((conf.hosts ≠ [] → (servers (.new .sentinel)).isNone = true) ∧
          SentinelsOk conf servers 0 conf.hosts) := by
      simp [AddressesOk, htype]
    rw [if_pos htype, hok]
    exact run_sentinels _ _ hcalls' hserver
  · have hserver : serverAddress conf servers =
        conf.hosts.head?.bind (fun h => RestyRedis.address h.host h.port) := by
      simp [serverAddress, htype]
    have hok : AddressesOk conf servers =
        ∀ h ∈ conf.hosts.head?, (RestyRedis.address h.host h.port).isSome := by
      simp [AddressesOk, htype]
    rw [if_neg htype, hok]
    exact run_connectFirst conf.hosts _ hcalls' hserver

end Run

/-- The reply to the command, null mapped to nil, or nil and perhaps an error. -/
def Returns (cmd : String) (args : List Val) (servers : Servers)
    (r : Except LuaError (Val × Option String)) : Prop :=
  (∃ sent, RestyRedis.arguments cmd args = .ok sent ∧
    r = .ok (if isRedisNull (servers (.command .redis 0 cmd sent)).res then .nil
      else (servers (.command .redis 0 cmd sent)).res, none)) ∨
  ∃ err, r = .ok (.nil, err)

/-- What do_command is to do: return; send the command only after a successful AUTH
on its connection, if there is a password; and send it to the master the first
sentinel that has one names, if there are sentinels. -/
structure Meets (conf : RedisConf) (cmd : String) (args : List Val) (servers : Servers) :
    Prop where
  returns : Returns cmd args servers
    (Prog.run (execNet servers) [] (doCommand conf cmd args)).1
  authenticated : conf.password.truthy = true → ∀ before n name sent after, name ≠ "auth" →
    (Prog.run (execNet servers) [] (doCommand conf cmd args)).2 =
      before ++ .command .redis n name sent :: after →
    .command .redis n "auth" [conf.password] ∈ before ∧
      (servers (.command .redis n "auth" [conf.password])).res.truthy = true
  master : conf.type.isStr "sentinel" = true → ∀ n host port,
    .connect .redis n host port ∈ (Prog.run (execNet servers) [] (doCommand conf cmd args)).2 →
    firstMaster conf servers 0 conf.hosts = some (host, port)

/-- Where the server takes the connection, there is no password and the arguments
suit the command. -/
def CommandOk (conf : RedisConf) (cmd : String) (args : List Val) (servers : Servers) :
    Prop :=
  Connected conf servers →
    conf.password.truthy = false ∧ ∃ sent, RestyRedis.arguments cmd args = .ok sent

section Command
variable {conf : RedisConf} {servers : Servers}

def sendCommand (conf : RedisConf) (cmd : String) (args : List Val)
    (connected : Bool × Option String) : Net (Val × Option String) :=
  if !connected.1 || connected.2.isSome then .ret (.nil, connected.2)
  else if conf.password.truthy then .stop (.index .nil)
  else do
    let result ← RestyRedis.command .redis 0 cmd args
    if !result.res.truthy || result.err.isSome then return (.nil, result.err)
    else do
      .call (.setKeepalive .redis) .ret
      return (if isRedisNull result.res then .nil else result.res, result.err)

theorem doCommand_eq (conf : RedisConf) (cmd : String) (args : List Val) :
    doCommand conf cmd args = .call (.new .redis) (fun failed =>
      match failed with
      | some err => .ret (.nil, some err)
      | none => connectMod conf >>= sendCommand conf cmd args) := by
  unfold doCommand sendCommand
  rfl

theorem connectResult_refused :
    (!(connectResult servers (serverAddress conf servers)).1 ||
      (connectResult servers (serverAddress conf servers)).2.isSome) = true ↔
        ¬ Connected conf servers := by
  simp only [Connected]
  cases serverAddress conf servers with
  | none => simp [connectResult]
  | some a =>
      simp only [connectResult, Option.some.injEq, exists_eq_left']
      cases servers (.connect .redis 0 a.1 a.2) with
      | none => simp
      | some err => simp

theorem returns_reply {cmd : String} {args sent : List Val}
    (hsent : RestyRedis.arguments cmd args = .ok sent) (a : Answer)
    (ha : servers (.command .redis 0 cmd sent) = a) (calls : List NetOp) :
    Returns cmd args servers (Prog.run (execNet servers) calls
      (if !a.res.truthy || a.err.isSome then .ret (.nil, a.err)
        else .call (.setKeepalive .redis) (fun _ =>
          .ret (if isRedisNull a.res then .nil else a.res, a.err)))).1 := by
  by_cases hfailed : (!a.res.truthy || a.err.isSome) = true
  · rw [if_pos hfailed]
    exact Or.inr ⟨a.err, rfl⟩
  · have hnone : a.err = none := by
      simpa using (Bool.or_eq_false_iff.mp (Bool.eq_false_of_not_eq_true hfailed)).2
    rw [if_neg hfailed, hnone]
    refine Or.inl ⟨sent, hsent, ?_⟩
    rw [ha]
    rfl

theorem run_sendCommand (cmd : String) (args : List Val) (calls : List NetOp)
    (hcalls : CallsOk conf servers calls) :
    let r := Prog.run (execNet servers) calls
      (sendCommand conf cmd args (connectResult servers (serverAddress conf servers)))
    CallsOk conf servers r.2 ∧
      (CommandOk conf cmd args servers → Returns cmd args servers r.1) ∧
      (¬ CommandOk conf cmd args servers → ∃ e, r.1 = .error e) := by
  simp only [sendCommand]
  by_cases hconn : Connected conf servers
  · rw [if_neg (fun h => connectResult_refused.mp h hconn)]
    cases hpass : conf.password.truthy with
    | true =>
        refine ⟨hcalls, fun h => ?_, fun _ => ⟨_, rfl⟩⟩
        have := (h hconn).1
        rw [hpass] at this
        cases this
    | false =>
        cases hargs : RestyRedis.arguments cmd args with
        | error e =>
            simp only [RestyRedis.command, hargs]
            refine ⟨hcalls, fun h => ?_, fun _ => ⟨e, rfl⟩⟩
            obtain ⟨sent, hsent⟩ := (h hconn).2
            rw [hargs] at hsent
            cases hsent
        | ok sent =>
            have hcalls' := callsOk_append (o := .command .redis 0 cmd sent) hcalls hpass
            simp only [RestyRedis.command, hargs]
            refine ⟨?_, fun _ => returns_reply hargs _ rfl _,
              fun h => absurd (fun _ => ⟨hpass, sent, hargs⟩) h⟩
            show CallsOk conf servers (Prog.run (execNet servers)
              (calls ++ [.command .redis 0 cmd sent]) (if _ then _ else _)).2
            split
            · exact hcalls'
            · exact callsOk_append hcalls' trivial
  · rw [if_pos (connectResult_refused.mpr hconn)]
    exact ⟨hcalls, fun _ => Or.inr ⟨_, rfl⟩, fun h => absurd (fun h' => absurd h' hconn) h⟩

end Command

/-- If there is a client at all: the addresses are proper, and where the server
takes the connection there is no password and the arguments suit the command. -/
def Usable (conf : RedisConf) (cmd : String) (args : List Val) (servers : Servers) :
    Prop :=
  servers (.new .redis) = none →
    AddressesOk conf servers ∧ CommandOk conf cmd args servers

theorem run_doCommand (conf : RedisConf) (cmd : String) (args : List Val)
    (servers : Servers) :
    let r := Prog.run (execNet servers) [] (doCommand conf cmd args)
    CallsOk conf servers r.2 ∧
      (Usable conf cmd args servers → Returns cmd args servers r.1) ∧
      (¬ Usable conf cmd args servers → ∃ e, r.1 = .error e) := by
  have hcalls : CallsOk conf servers [.new .redis] :=
    callsOk_append (fun _ h => absurd h List.not_mem_nil)
      (show CallOk conf servers (.new .redis) from trivial)
  rw [doCommand_eq, Prog.run_call]
  cases hnew : (execNet servers [] (.new .redis)).1 with
  | some err =>
      refine ⟨hcalls, fun _ => Or.inr ⟨_, rfl⟩, fun h => absurd (fun hnone => ?_) h⟩
      cases hnew.symm.trans hnone
  | none =>
      have husable : Usable conf cmd args servers ↔
          AddressesOk conf servers ∧ CommandOk conf cmd args servers :=
        ⟨fun h => h hnew, fun h _ => h⟩
      rw [husable, Prog.run_bind,
        show (execNet servers [] (.new .redis)).2 = [.new .redis] from rfl]
      obtain ⟨htrace, hgood, hbad⟩ := run_connectMod [.new .redis] hcalls
      by_cases haddresses : AddressesOk conf servers
      · have hresult := hgood haddresses
        generalize Prog.run (execNet servers) [.new .redis] (connectMod conf) = r at *
        obtain ⟨result, calls⟩ := r
        cases hresult
        obtain ⟨htrace', hsent, hraised⟩ := run_sendCommand cmd args calls htrace
        exact ⟨htrace', fun h => hsent h.2, fun h => hraised (fun h' => h ⟨haddresses, h'⟩)⟩
      · obtain ⟨e, he⟩ := hbad haddresses
        generalize Prog.run (execNet servers) [.new .redis] (connectMod conf) = r at *
        obtain ⟨result, calls⟩ := r
        cases he
        exact ⟨htrace, fun h => absurd h.1 haddresses, fun _ => ⟨e, rfl⟩⟩

def soloWithPassword : RedisConf where
  type := .str "solo"
  hosts := [⟨.str "127.0.0.1", .num 6379⟩]
  sentinelName := .nil
  password := .str "secret"

def willing : Servers
  | .new _ | .connect _ _ _ _ => none
  | .command _ _ _ _ => ⟨.str "OK", none, rfl⟩
  | .setKeepalive _ => ()

end RedisIresty
end OpenrestyGateway
