import OpenrestyGateway.RedisIresty

/-!
Pipelines of the Redis wrapper, util/redis_iresty.lua, down to what resty.redis sends
and reads.

Between init_pipeline and commit_pipeline a command is only queued in the object, and
all of them go out together. A message of a subscribed channel is no answer, and none
arrives before the answers to its subscription.
-/
namespace OpenrestyGateway
open Interleaving

namespace RedisPipeline
open RedisIresty

/-- A command as it is sent, with its arguments. -/
structure Wired where
  name : String
  args : List Val

/-- What leaves the wrapper and resty.redis: calls on clients other than commands of the
wrapper's own, and on its own connection requests and reads. -/
inductive Outside where
  | net (o : NetOp)
  | send (reqs : List Wired)
  | readReply

abbrev Outside.Answer : Outside → Type
  | .net o => o.Answer
  | .send _ => Option String
  | .readReply => OpenrestyGateway.Answer

/-- `self._reqs`: every entry is the table `{cmd, ...}`. -/
abbrev Reqs := Option (List (List Val))

inductive Op where
  | readReqs
  | writeReqs (reqs : Reqs)
  | outside (o : Outside)

abbrev Op.Answer : Op → Type
  | .readReqs => Reqs
  | .writeReqs _ => Unit
  | .outside o => o.Answer

abbrev Script (α : Type) := Prog Op Op.Answer LuaError α

namespace Script

def readReqs : Script Reqs := .call .readReqs .ret

def writeReqs (reqs : Reqs) : Script Unit := .call (.writeReqs reqs) .ret

def net (o : NetOp) : Script o.Answer := .call (.outside (.net o)) .ret

def send (reqs : List Wired) : Script (Option String) := .call (.outside (.send reqs)) .ret

def readReply : Script Answer := .call (.outside .readReply) .ret

def lift {α : Type} : Except LuaError α → Script α
  | .ok a => .ret a
  | .error e => .stop e

end Script
open Script

/-! ### resty.redis -/

namespace RestyRedis

def subCommands : List String := ["subscribe", "psubscribe"]

/-- `_do_cmd` outside of a pipeline. -/
def doCmd (req : Wired) : Script Answer := do
  match ← send [req] with
  | some err => return ⟨.nil, some err, rfl⟩
  | none => readReply

/-- The loop of handle_subscribe_result, with the number of replies that are left. -/
def moreReplies (results : List Val) : Nat → Script Answer
  | 0 => return ⟨.arr results, none, rfl⟩
  | n + 1 => do
      let a ← readReply
      if h : a.res.truthy = true then moreReplies (results ++ [a.res]) n
      else return ⟨.nil, a.err, (Bool.eq_false_of_not_eq_true h).symm.trans a.documented⟩

/-- A command on a client without a pipeline. -/
def command (req : Wired) : Script Answer := do
  let a ← doCmd req
  if subCommands.contains req.name then
    if h : a.res.truthy = true then
      if req.args.length ≤ 1 then return a
      else moreReplies [a.res] (req.args.length - 1)
    else return ⟨.nil, a.err, (Bool.eq_false_of_not_eq_true h).symm.trans a.documented⟩
  else return a

def errorText (err : Option String) : Val := err.elim .nil .str

/-- The loop of commit_pipeline over the requests that are left. -/
def readReplies (vals : List Val) : Nat → Script (Option (List Val) × Option String)
  | 0 => return (some vals, none)
  | n + 1 => do
      let a ← readReply
      if a.res.truthy then readReplies (vals ++ [a.res]) n
      else
        match a.res with
        | .nil => return (none, a.err)
        | _ => readReplies (vals ++ [.arr [.bool false, errorText a.err]]) n

def commitPipeline (reqs : List Wired) : Script (Option (List Val) × Option String) := do
  match ← send reqs with
  | some err => return (none, some err)
  | none => readReplies [] reqs.length

end RestyRedis

/-- The calls of the wrapper on its clients. The commands on its own client are carried
out on the connection. -/
def onWire : (o : NetOp) → Script o.Answer
  | .new client => net (.new client)
  | .connect client n host port => net (.connect client n host port)
  | .command .redis _ name args => RestyRedis.command ⟨name, args⟩
  | .command .sentinel n name args => net (.command .sentinel n name args)
  | .setKeepalive client => net (.setKeepalive client)

/-! ### The wrapper -/

def initPipeline : Script Unit := writeReqs (some [])

def doCommand (conf : RedisConf) (cmd : String) (args : List Val) :
    Script (Val × Option String) := do
  match ← readReqs with
  | some reqs => do
      writeReqs (some (reqs ++ [.str cmd :: args]))
      return (.nil, none)
  | none => Prog.handle onWire (RedisIresty.doCommand conf cmd args)

/-- `fun(redis, unpack(vals))` on a client with a pipeline: the request is appended to
those of the client. The first entry is the name of the command and is removed before. -/
def queueCommand (reqs : List Wired) : List Val → Except LuaError (List Wired)
  | .str cmd :: vals => do
      let args ← OpenrestyGateway.RestyRedis.arguments cmd vals
      return reqs ++ [⟨cmd, args⟩]
  | _ => .error (.call .nil)

def queueAll (reqs : List Wired) : List (List Val) → Except LuaError (List Wired)
  | [] => .ok reqs
  | vals :: rest => do
      let reqs ← queueCommand reqs vals
      queueAll reqs rest

/-- The loop that removes the null results, from the index `i` on; `n` bounds its steps.
ipairs reads an entry when it gets there, and stops at nil. -/
def removeNulls (results : List Val) (i : Nat) : Nat → List Val
  | 0 => results
  | n + 1 =>
      match results[i]? with
      | none | some .nil => results
      | some value =>
          removeNulls (if isRedisNull value then results.set i .nil else results) (i + 1) n

/-- A table of results is a list in which nil is a missing entry. -/
def commitPipeline (conf : RedisConf) : Script (Option (List Val) × Option String) := do
  match ← readReqs with
  | none | some [] => return (some [], some "no pipeline")
  | some reqs => do
      writeReqs none
      match ← net (.new .redis) with
      | some err => return (none, some err)
      | none => do
          let (ok, err) ← Prog.handle onWire (connectMod conf)
          if !ok then return (some [], err)
          else if conf.password.truthy then
            -- `red:auth(passwd)`: there is no variable `red`
            .stop (.index .nil)
          else do
            let queued ← Script.lift (queueAll [] reqs)
            let (results, err) ← RestyRedis.commitPipeline queued
            match results, err with
            | none, err => return (some [], err)
            | some _, some err => return (some [], some err)
            | some results, none => do
                let results := if isRedisNull (.arr results) then [] else results
                net (.setKeepalive .redis)
                return (some (removeNulls results 0 results.length), none)

/-- The names that are methods of the wrapper. -/
def commands : List String := [
  "append", "auth", "bgrewriteaof", "bgsave", "bitcount", "bitop", "blpop", "brpop",
  "brpoplpush", "client", "config", "dbsize", "debug", "decr", "decrby", "del", "discard",
  "dump", "echo", "eval", "exec", "exists", "expire", "expireat", "flushall", "flushdb",
  "get", "getbit", "getrange", "getset", "hdel", "hexists", "hget", "hgetall", "hincrby",
  "hincrbyfloat", "hkeys", "hlen", "hmget", "hmset", "hscan", "hset", "hsetnx", "hvals",
  "incr", "incrby", "incrbyfloat", "info", "keys", "lastsave", "lindex", "linsert", "llen",
  "lpop", "lpush", "lpushx", "lrange", "lrem", "lset", "ltrim", "mget", "migrate",
  "monitor", "move", "mset", "msetnx", "multi", "object", "persist", "pexpire",
  "pexpireat", "ping", "psetex", "psubscribe", "pttl", "publish", "pubsub", "quit",
  "randomkey", "rename", "renamenx", "restore", "rpop", "rpoplpush", "rpush", "rpushx",
  "sadd", "save", "scan", "scard", "script", "sdiff", "sdiffstore", "select", "set",
  "setbit", "setex", "setnx", "setrange", "shutdown", "sinter", "sinterstore",
  "sismember", "slaveof", "slowlog", "smembers", "smove", "sort", "spop", "srandmember",
  "srem", "sscan", "strlen", "sunion", "sunionstore", "sync", "time", "ttl", "type",
  "unwatch", "watch", "zadd", "zcard", "zcount", "zincrby", "zinterstore", "zrange",
  "zrangebyscore", "zrank", "zrem", "zremrangebyrank", "zremrangebyscore", "zrevrange",
  "zrevrangebyscore", "zrevrank", "zscan", "zscore", "zunionstore", "evalsha"]

/-- A command of a caller. -/
structure Command where
  name : String
  args : List Val
  known : name ∈ commands
  notNil : ∀ v ∈ args, v ≠ .nil

/-- The commands one after the other, with the first result of each. -/
def issueAll (conf : RedisConf) : List Command → Script (List Val)
  | [] => return []
  | c :: cs => do
      let (value, _) ← doCommand conf c.name c.args
      let values ← issueAll conf cs
      return value :: values

def pipelined (conf : RedisConf) (cs : List Command) :
    Script (Option (List Val) × Option String) := do
  initPipeline
  let _ ← issueAll conf cs
  commitPipeline conf

/-! ### Runs -/

/-- The object, and a world that answers whatever leaves it. -/
def exec {S : Type} (world : S → (o : Outside) → o.Answer × S) (s : Reqs × S) :
    (o : Op) → o.Answer × (Reqs × S)
  | .readReqs => (s.1, s)
  | .writeReqs reqs => ((), (reqs, s.2))
  | .outside o => ((world s.2 o).1, (s.1, (world s.2 o).2))

/-- A reply that is not an error. -/
structure Reply where
  val : Val
  nonError : val.truthy = true

def Reply.answer (r : Reply) : Answer := ⟨r.val, none, r.nonError⟩

/-- A subscription is answered once for every pattern. -/
def replyCount (req : Wired) : Nat :=
  if RestyRedis.subCommands.contains req.name then max 1 req.args.length else 1

/-- A server that answers each command, after those it has been sent before, without an
error. -/
structure Server where
  replies : List Wired → Wired → List Reply
  count : ∀ before req, (replies before req).length = replyCount req

/-- The calls on clients, answered after the calls made before. -/
def ask (answers : List NetOp → Servers) (calls : List NetOp) (o : NetOp) :
    o.Answer × List NetOp :=
  (answers calls o, calls ++ [o])

/-- Where the wrapper always gets a connection, without a password. -/
structure Access (conf : RedisConf) where
  answers : List NetOp → Servers
  created : ∀ calls, answers calls (.new .redis) = none
  connected : ∀ calls, (Prog.run (ask answers) calls (connectMod conf)).1 = .ok (true, none)
  noPassword : conf.password.truthy = false

theorem run_execNet_calls {α : Type} (servers : Servers) (p : Net α) (calls calls' : List NetOp) :
    (Prog.run (execNet servers) calls p).1 = (Prog.run (execNet servers) calls' p).1 := by
  induction p generalizing calls calls' with
  | ret a => rfl
  | stop e => rfl
  | call o k ih => exact ih (servers o) (calls ++ [o]) (calls' ++ [o])

theorem connected_of_servers {conf : RedisConf} {servers : Servers}
    (haddresses : AddressesOk conf servers) (hconnected : Connected conf servers)
    (calls : List NetOp) :
    (Prog.run (ask fun _ => servers) calls (connectMod conf)).1 = .ok (true, none) := by
  have hcalls : CallsOk conf servers [] := List.forall_mem_nil _
  obtain ⟨-, hrun, -⟩ := RedisIresty.run_connectMod [] hcalls
  have hresult : connectResult servers (serverAddress conf servers) = (true, none) := by
    obtain ⟨a, ha, hnone⟩ := hconnected
    simp only [connectResult, ha, hnone, Option.isNone_none]
  rw [← hresult, ← hrun haddresses]
  exact run_execNet_calls servers (connectMod conf) calls []

/-- Servers that take the connection that connect_mod makes. -/
def Access.ofServers {conf : RedisConf} {servers : Servers}
    (hnew : servers (.new .redis) = none) (haddresses : AddressesOk conf servers)
    (hconnected : Connected conf servers) (hpassword : conf.password.truthy = false) :
    Access conf where
  answers _ := servers
  created _ := hnew
  connected := connected_of_servers haddresses hconnected
  noPassword := hpassword

/-- The calls on clients, the commands the server has been sent, and its replies that
have not been read from the connection. -/
structure Session where
  calls : List NetOp
  sent : List Wired
  unread : List Reply

def Server.answerAll (server : Server) (before : List Wired) : List Wired → List Reply
  | [] => []
  | req :: reqs => server.replies before req ++ server.answerAll (before ++ [req]) reqs

/-- A new client has a connection of its own. -/
def unreadAfter (unread : List Reply) : NetOp → List Reply
  | .new .redis => []
  | _ => unread

def serve {conf : RedisConf} (access : Access conf) (server : Server) (s : Session) :
    (o : Outside) → o.Answer × Session
  | .net o => (access.answers s.calls o,
      { s with calls := s.calls ++ [o], unread := unreadAfter s.unread o })
  | .send reqs => (none, { s with
      sent := s.sent ++ reqs, unread := s.unread ++ server.answerAll s.sent reqs })
  | .readReply =>
      match s.unread with
      | [] => (⟨.nil, some "timeout", rfl⟩, s)
      | r :: rest => (r.answer, { s with unread := rest })

/-- The commands are sent as they are one by one, and have the same results. -/
def Agrees {conf : RedisConf} (access : Access conf) (server : Server) (cs : List Command)
    (s : Session) : Prop :=
  ∃ values results err s₁ s₂,
    Prog.run (exec (serve access server)) (none, s) (issueAll conf cs) =
      (.ok values, (none, s₁)) ∧
    Prog.run (exec (serve access server)) (none, s) (pipelined conf cs) =
      (.ok (some results, err), s₂) ∧
    s₂.2.sent = s₁.sent ∧ values.length = cs.length ∧
    ∀ i, results.getD i .nil = values.getD i .nil

/-- Whatever happens outside, the object is out of pipeline mode after commit_pipeline. -/
def Leaves (conf : RedisConf) (cs : List Command) : Prop :=
  ∀ (S : Type) (world : S → (o : Outside) → o.Answer × S) (reqs : Reqs) (s : S),
    (Prog.run (exec world) (reqs, s) (pipelined conf cs)).2.1 = none

/-- resty.redis makes something of the arguments and waits for one reply. -/
structure Single (c : Command) : Prop where
  arguments : ∃ args, OpenrestyGateway.RestyRedis.arguments c.name c.args = .ok args
  patterns : c.name = "psubscribe" → c.args.length ≤ 1

/-! ### One server -/

def solo : RedisConf := { soloWithPassword with password := .nil }

theorem solo_addressesOk : AddressesOk solo willing := by
  intro h hmem
  cases hmem
  rfl

theorem solo_connected : Connected solo willing := ⟨("127.0.0.1", some 6379), rfl, rfl⟩

def soloAccess : Access solo := .ofServers rfl solo_addressesOk solo_connected rfl

end RedisPipeline
end OpenrestyGateway
