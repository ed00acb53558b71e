import OpenrestyGateway.RedisPipeline
import Mathlib.Data.List.GetD

/-!
A pipeline against its commands one by one.

Both ways send the same commands. The results agree where each command has one reply,
as commit_pipeline of resty.redis reads one for each.
-/
namespace OpenrestyGateway
open Interleaving

namespace RedisPipeline
open RedisIresty

/-! ### The loop that removes the null results -/

def nullToNil (v : Val) : Val := if isRedisNull v then .nil else v

theorem removeNulls_append (before after : List Val) (h : ∀ v ∈ after, v ≠ .nil) :
    removeNulls (before ++ after) before.length after.length = before ++ after.map nullToNil := by
  induction after generalizing before with
  | nil => simp [removeNulls]
  | cons v after ih =>
      obtain ⟨hv, hrest⟩ := List.forall_mem_cons.mp h
      have hget : (before ++ v :: after)[before.length]? = some v := by simp
      have hset : (if isRedisNull v then (before ++ v :: after).set before.length .nil
          else before ++ v :: after) = (before ++ [nullToNil v]) ++ after := by
        cases hnull : isRedisNull v with
        | true => simp [nullToNil, hnull]
        | false => simp [nullToNil, hnull]
      have hlength : before.length + 1 = (before ++ [nullToNil v]).length := by simp
      have hstep : removeNulls (before ++ v :: after) before.length (v :: after).length =
          removeNulls ((before ++ [nullToNil v]) ++ after) (before ++ [nullToNil v]).length
            after.length := by
        rw [← hset, ← hlength, List.length_cons, removeNulls, hget]
        cases v with
        | nil => exact absurd rfl hv
        | _ => rfl
      rw [hstep, ih _ hrest, List.append_assoc]
      rfl

/-- What is in the table that commit_pipeline returns. -/
theorem getD_removeNulls {results : List Val} (h : ∀ v ∈ results, v ≠ .nil) (i : Nat) :
    (removeNulls (if isRedisNull (.arr results) then [] else results) 0
      (if isRedisNull (.arr results) then [] else results).length).getD i .nil =
      (results.map nullToNil).getD i .nil := by
  -- where everything is null, the loop runs over an empty table
  cases hall : isRedisNull (.arr results) with
  | false =>
      have hmap := removeNulls_append [] results h
      simp only [List.nil_append, List.length_nil] at hmap
      simp only [Bool.false_eq_true, if_false, hmap]
  | true =>
      have hnull : ∀ v ∈ results, nullToNil v = .nil := by
        intro v hv
        have hv' := List.all_eq_true.mp hall v hv
        cases v with
        | null => rfl
        | _ => cases hv'
      simp only [if_true, removeNulls, List.length_nil, List.getD_nil]
      cases hget : results[i]? with
      | none => simp [List.getD, hget]
      | some v => simp [List.getD, hget, hnull v (List.mem_of_getElem? hget)]

/-! ### On the connection -/

/-- What a command returns for its replies. -/
def replyValue : List Reply → Val
  | [r] => r.val
  | rs => .arr (rs.map Reply.val)

section Connection
variable {conf : RedisConf} (access : Access conf) (server : Server)

theorem run_moreReplies (results : List Val) (rest : List Reply) (reqs : Reqs) (s : Session)
    (hs : s.unread = rest) :
    ∃ a : Answer, Prog.run (exec (serve access server)) (reqs, s)
        (RestyRedis.moreReplies results rest.length) =
          (.ok a, (reqs, { s with unread := [] })) ∧
      a.res = .arr (results ++ rest.map Reply.val) ∧ a.err = none := by
  induction rest generalizing results s with
  | nil =>
      refine ⟨⟨.arr results, none, rfl⟩, ?_, by simp, rfl⟩
      have hsame : { s with unread := [] } = s := by rw [← hs]
      rw [hsame]
      rfl
  | cons r rest ih =>
      obtain ⟨a, hrun, hres, herr⟩ := ih (results ++ [r.val]) { s with unread := rest } rfl
      refine ⟨a, ?_, by simpa using hres, herr⟩
      rw [← hrun]
      have hread : serve access server s .readReply = (r.answer, { s with unread := rest }) := by
        simp only [serve, hs]
      have htruthy : r.answer.res.truthy = true := r.nonError
      simp only [List.length_cons, RestyRedis.moreReplies, Script.readReply, Prog.call_bind,
        Prog.ret_bind, Prog.run_call, exec, hread, dif_pos htruthy]
      rfl

theorem replyCount_pos (req : Wired) : 0 < replyCount req := by
  simp only [replyCount]
  cases RestyRedis.subCommands.contains req.name with
  | true => simp
  | false => simp

theorem run_command (req : Wired) (reqs : Reqs) (s : Session) (hs : s.unread = []) :
    ∃ a : Answer, Prog.run (exec (serve access server)) (reqs, s) (RestyRedis.command req) =
        (.ok a, (reqs, { s with sent := s.sent ++ [req], unread := [] })) ∧
      a.res = replyValue (server.replies s.sent req) ∧ a.err = none := by
  have hcount := server.count s.sent req
  obtain ⟨r, rest, hreplies⟩ := List.exists_cons_of_length_pos (hcount ▸ replyCount_pos req)
  have hsend : serve access server s (.send [req]) = (none, { s with
      sent := s.sent ++ [req], unread := r :: rest }) := by
    simp [serve, hs, Server.answerAll, hreplies]
  have hread : serve access server
      { s with sent := s.sent ++ [req], unread := r :: rest } .readReply =
        (r.answer, { s with sent := s.sent ++ [req], unread := rest }) := rfl
  have htruthy : r.answer.res.truthy = true := r.nonError
  rw [hreplies, List.length_cons, replyCount] at hcount
  rw [hreplies]
  simp only [RestyRedis.command, RestyRedis.doCmd, Script.send, Script.readReply,
    Prog.call_bind, Prog.ret_bind, Prog.run_call, exec, hsend, hread, dif_pos htruthy]
  have hone : rest = [] → replyValue (r :: rest) = r.val := by
    intro hrest
    rw [hrest]
    rfl
  cases hsub : RestyRedis.subCommands.contains req.name with
  | false =>
      rw [hsub] at hcount
      have hrest : rest = [] := List.length_eq_zero_iff.mp (by simpa using hcount)
      exact ⟨r.answer, by rw [hrest]; rfl, (hone hrest).symm, rfl⟩
  | true =>
      rw [hsub, if_pos rfl] at hcount
      by_cases hargs : req.args.length ≤ 1
      · have hrest : rest = [] := List.length_eq_zero_iff.mp (by omega)
        simp only [if_true, if_pos hargs]
        exact ⟨r.answer, by rw [hrest]; rfl, (hone hrest).symm, rfl⟩
      · have hlength : req.args.length - 1 = rest.length := by omega
        obtain ⟨a, hrun, hres, herr⟩ := run_moreReplies access server [r.val] rest reqs
          { s with sent := s.sent ++ [req], unread := rest } rfl
        simp only [if_true, if_neg hargs, hlength]
        refine ⟨a, hrun, hres.trans ?_, herr⟩
        cases rest with
        | nil => simp at hlength; omega
        | cons r' rest => rfl

/-- The operations of connect_mod. -/
def Asks : NetOp → Prop
  | .new .sentinel | .connect _ _ _ _ | .command .sentinel _ _ _ => True
  | _ => False

theorem connect_asks (client : Client) (n : Nat) (host port : Val) :
    (OpenrestyGateway.RestyRedis.connect client n host port).Uses Asks := by
  simp only [OpenrestyGateway.RestyRedis.connect]
  cases OpenrestyGateway.RestyRedis.address host port with
  | none => trivial
  | some a => exact ⟨trivial, fun _ => trivial⟩

theorem lift_asks {α : Type} (x : Except LuaError α) : (Net.lift x).Uses Asks := by
  cases x <;> trivial

theorem connectIn_asks (v : Val) : (connectIn v).Uses Asks :=
  Prog.uses_bind (lift_asks _) (fun host => Prog.uses_bind (lift_asks _) (fun port =>
    Prog.uses_bind (connect_asks .redis 0 host port) (fun _ => trivial)))

theorem askSentinels_asks (conf : RedisConf) (created : Bool) (n : Nat) (hosts : List HostConf) :
    (askSentinels conf created n hosts).Uses Asks := by
  induction hosts generalizing n with
  | nil => trivial
  | cons sentinel rest ih =>
      rw [askSentinels_cons]
      cases created with
      | false => trivial
      | true =>
          refine Prog.uses_bind (connect_asks .sentinel n sentinel.host sentinel.port) ?_
          intro err
          cases err with
          | some _ => exact ih (n + 1)
          | none =>
              refine ⟨trivial, fun reply => ?_⟩
              change Prog.Uses Asks (if reply.res.truthy then connectIn reply.res
                else askSentinels conf true (n + 1) rest)
              cases reply.res.truthy with
              | true => exact connectIn_asks reply.res
              | false => exact ih (n + 1)

theorem connectFirst_asks (hosts : List HostConf) : (connectFirst hosts).Uses Asks := by
  cases hosts with
  | nil => trivial
  | cons host rest =>
      exact Prog.uses_bind (connect_asks .redis 0 host.host host.port) (fun _ => trivial)

theorem connectMod_asks (conf : RedisConf) : (connectMod conf).Uses Asks := by
  rw [connectMod_eq]
  refine ⟨trivial, fun failed => ?_⟩
  cases conf.type.isStr "sentinel" with
  | true => exact askSentinels_asks conf failed.isNone 0 conf.hosts
  | false => exact connectFirst_asks conf.hosts

/-- Such a call is made as it is, and does not touch the object or the connection. -/
theorem run_onWire {reqs : Reqs} {s : Session} (calls : List NetOp) (t : Reqs × Session)
    (o : NetOp) (ho : Asks o) (ht : t = (reqs, { s with calls := calls })) :
    ∃ t', Prog.run (exec (serve access server)) t (onWire o) =
        (.ok (ask access.answers calls o).1, t') ∧
      t' = (reqs, { s with calls := (ask access.answers calls o).2 }) := by
  subst ht
  cases o with
  | new client =>
      cases client with
      | redis => exact ho.elim
      | sentinel => exact ⟨_, rfl, rfl⟩
  | connect client n host port => exact ⟨_, rfl, rfl⟩
  | command client n name args =>
      cases client with
      | redis => exact ho.elim
      | sentinel => exact ⟨_, rfl, rfl⟩
  | setKeepalive client => exact ho.elim

theorem run_connectMod (reqs : Reqs) (s : Session) :
    ∃ calls, Prog.run (exec (serve access server)) (reqs, s)
      (Prog.handle onWire (connectMod conf)) =
        (.ok (true, none), (reqs, { s with calls := calls })) := by
  obtain ⟨t, hrun, ht⟩ := Prog.run_handle (connectMod_asks conf) (run_onWire access server)
    (show (reqs, s) = (reqs, { s with calls := s.calls }) from rfl)
  rw [access.connected] at hrun
  exact ⟨_, ht ▸ hrun⟩

/-- What do_command does on its connection. -/
theorem sendCommand_eq (cmd : String) (args : List Val) (h : conf.password.truthy = false) :
    sendCommand conf cmd args (true, none) =
      Net.lift (OpenrestyGateway.RestyRedis.arguments cmd args) >>= fun sent =>
        .call (.command .redis 0 cmd sent) (fun result =>
          if !result.res.truthy || result.err.isSome then .ret (.nil, result.err)
          else .call (.setKeepalive .redis) (fun _ =>
            .ret (nullToNil result.res, result.err))) := by
  simp only [sendCommand, h]
  cases hargs : OpenrestyGateway.RestyRedis.arguments cmd args with
  | error e =>
      simp only [OpenrestyGateway.RestyRedis.command, hargs]
      rfl
  | ok sent =>
      simp only [OpenrestyGateway.RestyRedis.command, hargs]
      rfl

theorem run_doCommand (c : Command) (s : Session) :
    ∃ s', Prog.run (exec (serve access server)) (none, s) (doCommand conf c.name c.args) =
        (match OpenrestyGateway.RestyRedis.arguments c.name c.args with
        | .ok sent =>
            .ok (nullToNil (replyValue (server.replies s.sent ⟨c.name, sent⟩)), none)
        | .error e => .error e, (none, s')) ∧
      ∀ sent, OpenrestyGateway.RestyRedis.arguments c.name c.args = .ok sent →
        s'.sent = s.sent ++ [⟨c.name, sent⟩] := by
  obtain ⟨calls, hconnect⟩ := run_connectMod access server none
    { s with calls := s.calls ++ [.new .redis], unread := [] }
  have hstart : Prog.run (exec (serve access server)) (none, s) (doCommand conf c.name c.args) =
      Prog.run (exec (serve access server)) (none, { s with calls := calls, unread := [] })
        (Prog.handle onWire (sendCommand conf c.name c.args (true, none))) := by
    simp only [doCommand, Script.readReqs, Prog.call_bind, Prog.ret_bind, Prog.run_call, exec,
      doCommand_eq, Prog.handle_call, onWire, Script.net, serve, access.created, unreadAfter,
      Prog.handle_bind, Prog.run_bind, hconnect]
  rw [hstart, sendCommand_eq _ _ access.noPassword]
  cases hargs : OpenrestyGateway.RestyRedis.arguments c.name c.args with
  | error e => exact ⟨_, rfl, fun sent h => by cases h⟩
  | ok sent =>
      obtain ⟨a, hrun, hres, herr⟩ := run_command access server
        ⟨c.name, sent⟩ none { s with calls := calls, unread := [] } rfl
      have htruthy : (replyValue (server.replies s.sent ⟨c.name, sent⟩)).truthy = true := by
        rw [← hres, a.documented, herr]
        rfl
      simp only [Net.lift, Prog.ret_bind, Prog.handle_call, onWire, Prog.run_bind, hrun, herr,
        hres, htruthy]
      refine ⟨_, rfl, fun sent' h => ?_⟩
      cases h
      rfl

end Connection

/-! ### One by one -/

/-- What is sent for a command. -/
structure Sends (c : Command) (req : Wired) : Prop where
  name : req.name = c.name
  args : OpenrestyGateway.RestyRedis.arguments c.name c.args = .ok req.args

/-- The results of the commands one by one. -/
def plainValues (server : Server) (before : List Wired) : List Wired → List Val
  | [] => []
  | req :: reqs => nullToNil (replyValue (server.replies before req)) ::
      plainValues server (before ++ [req]) reqs

theorem length_plainValues (server : Server) (before reqs : List Wired) :
    (plainValues server before reqs).length = reqs.length := by
  induction reqs generalizing before with
  | nil => rfl
  | cons req reqs ih => simp [plainValues, ih]

section Plain
variable {conf : RedisConf} (access : Access conf) (server : Server)

theorem issueAll_cons (c : Command) (cs : List Command) :
    issueAll conf (c :: cs) = doCommand conf c.name c.args >>= fun result =>
      issueAll conf cs >>= fun values => .ret (result.1 :: values) := rfl

theorem run_issueAll {cs : List Command} {reqs : List Wired} (h : List.Forall₂ Sends cs reqs)
    (s : Session) :
    ∃ s', Prog.run (exec (serve access server)) (none, s) (issueAll conf cs) =
        (.ok (plainValues server s.sent reqs), (none, s')) ∧ s'.sent = s.sent ++ reqs := by
  induction h generalizing s with
  | nil => exact ⟨s, rfl, (List.append_nil _).symm⟩
  | @cons c req cs reqs hreq _ ih =>
      obtain ⟨s', hrun, hsent⟩ := run_doCommand access server c s
      have hwired : (⟨c.name, req.args⟩ : Wired) = req := by rw [← hreq.name]
      rw [hreq.args] at hrun
      have hsent' := hsent _ hreq.args
      rw [hwired] at hsent'
      obtain ⟨s'', hrest, hsent''⟩ := ih s'
      refine ⟨s'', ?_, ?_⟩
      · rw [issueAll_cons, Prog.run_bind, hrun]
        simp only [Prog.run_bind, hrest, hwired, hsent', plainValues]
        rfl
      · rw [hsent'', hsent', List.append_assoc]
        rfl

/-- Where all commands return, resty.redis has made something of their arguments. -/
theorem sends_of_run {cs : List Command} {s : Session} {values : List Val} {t : Reqs × Session}
    (h : Prog.run (exec (serve access server)) (none, s) (issueAll conf cs) = (.ok values, t)) :
    ∃ reqs, List.Forall₂ Sends cs reqs := by
  induction cs generalizing s values t with
  | nil => exact ⟨[], .nil⟩
  | cons c cs ih =>
      obtain ⟨s', hrun, -⟩ := run_doCommand access server c s
      rw [issueAll_cons, Prog.run_bind, hrun] at h
      cases hargs : OpenrestyGateway.RestyRedis.arguments c.name c.args with
      | error e =>
          rw [hargs] at h
          cases h
      | ok sent =>
          rw [hargs] at h
          simp only [Prog.run_bind] at h
          cases hrest : Prog.run (exec (serve access server)) (none, s') (issueAll conf cs) with
          | mk result t' =>
              cases result with
              | error e =>
                  rw [hrest] at h
                  cases h
              | ok values' =>
                  obtain ⟨reqs, hreqs⟩ := ih hrest
                  exact ⟨⟨c.name, sent⟩ :: reqs, .cons ⟨rfl, hargs⟩ hreqs⟩

end Plain

theorem sends_of_arguments {cs : List Command} (h : ∀ c ∈ cs, Single c) :
    ∃ reqs, List.Forall₂ Sends cs reqs := by
  induction cs with
  | nil => exact ⟨[], .nil⟩
  | cons c cs ih =>
      obtain ⟨hc, hcs⟩ := List.forall_mem_cons.mp h
      obtain ⟨sent, hargs⟩ := hc.arguments
      obtain ⟨reqs, hreqs⟩ := ih hcs
      exact ⟨⟨c.name, sent⟩ :: reqs, .cons ⟨rfl, hargs⟩ hreqs⟩

/-! ### Queued -/

def entry (c : Command) : List Val := .str c.name :: c.args

section Queued
variable {conf : RedisConf} {S : Type} (world : S → (o : Outside) → o.Answer × S)

theorem run_queued (cs : List Command) (reqs : List (List Val)) (s : S) :
    ∃ values, Prog.run (exec world) (some reqs, s) (issueAll conf cs) =
      (.ok values, (some (reqs ++ cs.map entry), s)) := by
  induction cs generalizing reqs with
  | nil => exact ⟨[], by rw [List.map_nil, List.append_nil]; rfl⟩
  | cons c cs ih =>
      have hstep : Prog.run (exec world) (some reqs, s) (doCommand conf c.name c.args) =
          (.ok (.nil, none), (some (reqs ++ [entry c]), s)) := rfl
      obtain ⟨values, hrest⟩ := ih (reqs ++ [entry c])
      rw [List.append_assoc] at hrest
      refine ⟨.nil :: values, ?_⟩
      rw [issueAll_cons, Prog.run_bind, hstep]
      simp only [Prog.run_bind, hrest]
      rfl

theorem run_pipelined (cs : List Command) (reqs : Reqs) (s : S) :
    Prog.run (exec world) (reqs, s) (pipelined conf cs) =
      Prog.run (exec world) (some (cs.map entry), s) (commitPipeline conf) := by
  obtain ⟨values, hrun⟩ := @run_queued conf S world cs [] s
  have hstart : Prog.run (exec world) (reqs, s) (pipelined conf cs) =
      Prog.run (exec world) (some [], s) (issueAll conf cs >>= fun _ => commitPipeline conf) := rfl
  rw [hstart, Prog.run_bind, hrun]
  rfl

/-- The part of commit_pipeline after the queue has been taken out of the object. -/
def commitQueued (conf : RedisConf) (reqs : List (List Val)) :
    Script (Option (List Val) × Option String) := do
  match ← Script.net (.new .redis) with
  | some err => return (none, some err)
  | none => do
      let (ok, err) ← Prog.handle onWire (connectMod conf)
      if !ok then return (some [], err)
      else if conf.password.truthy then .stop (.index .nil)
      else do
        let queued ← Script.lift (queueAll [] reqs)
        let (results, err) ← RestyRedis.commitPipeline queued
        match results, err with
        | none, err => return (some [], err)
        | some _, some err => return (some [], some err)
        | some results, none => do
            let results := if isRedisNull (.arr results) then [] else results
            Script.net (.setKeepalive .redis)
            return (some (removeNulls results 0 results.length), none)

theorem run_commitPipeline {reqs : List (List Val)} (hne : reqs ≠ []) (s : S) :
    Prog.run (exec world) (some reqs, s) (commitPipeline conf) =
      Prog.run (exec world) (none, s) (commitQueued conf reqs) := by
  cases reqs with
  | nil => exact absurd rfl hne
  | cons vals rest => rfl

/-- Nothing in the object is written. -/
def Leaving : Op → Prop
  | .writeReqs _ => False
  | _ => True

theorem outside_leaving (o : Outside) :
    (.call (.outside o) .ret : Script o.Answer).Uses Leaving := ⟨trivial, fun _ => trivial⟩

theorem lift_leaving {α : Type} (x : Except LuaError α) : (Script.lift x).Uses Leaving := by
  cases x with
  | ok a => trivial
  | error e => trivial

theorem moreReplies_leaving (results : List Val) (n : Nat) :
    (RestyRedis.moreReplies results n).Uses Leaving := by
  induction n generalizing results with
  | zero => trivial
  | succ n ih =>
      refine Prog.uses_bind (outside_leaving .readReply) (fun a => ?_)
      by_cases h : a.res.truthy = true
      · rw [dif_pos h]
        exact ih _
      · rw [dif_neg h]
        trivial

theorem command_leaving (req : Wired) : (RestyRedis.command req).Uses Leaving := by
  have hcmd : (RestyRedis.doCmd req).Uses Leaving := by
    refine Prog.uses_bind (outside_leaving (.send [req])) (fun failed => ?_)
    cases failed with
    | some err => trivial
    | none => exact outside_leaving .readReply
  refine Prog.uses_bind hcmd (fun a => ?_)
  cases RestyRedis.subCommands.contains req.name with
  | false => trivial
  | true =>
      rw [if_pos rfl]
      by_cases h : a.res.truthy = true
      · rw [dif_pos h]
        by_cases hargs : req.args.length ≤ 1
        · rw [if_pos hargs]
          trivial
        · rw [if_neg hargs]
          exact moreReplies_leaving _ _
      · rw [dif_neg h]
        trivial

theorem onWire_leaving (o : NetOp) : (onWire o).Uses Leaving := by
  cases o with
  | new _ | connect _ _ _ _ | setKeepalive _ => exact outside_leaving _
  | command client n name args =>
      cases client with
      | redis => exact command_leaving _
      | sentinel => exact outside_leaving _

theorem readReplies_leaving (vals : List Val) (n : Nat) :
    (RestyRedis.readReplies vals n).Uses Leaving := by
  induction n generalizing vals with
  | zero => trivial
  | succ n ih =>
      refine Prog.uses_bind (outside_leaving .readReply) (fun a => ?_)
      cases a.res.truthy with
      | true => exact ih _
      | false =>
          rw [if_neg Bool.false_ne_true]
          cases a.res with
          | nil => trivial
          | _ => exact ih _

theorem commitPipeline_leaving (reqs : List Wired) :
    (RestyRedis.commitPipeline reqs).Uses Leaving := by
  refine Prog.uses_bind (outside_leaving (.send reqs)) (fun failed => ?_)
  cases failed with
  | some err => trivial
  | none => exact readReplies_leaving [] _

theorem commitQueued_leaving (conf : RedisConf) (reqs : List (List Val)) :
    (commitQueued conf reqs).Uses Leaving := by
  refine Prog.uses_bind (outside_leaving (.net (.new .redis))) (fun failed => ?_)
  cases failed with
  | some err => trivial
  | none =>
      refine Prog.uses_bind (Prog.uses_handle (connectMod_asks conf) (fun o _ => onWire_leaving o))
        (fun connected => ?_)
      obtain ⟨ok, err⟩ := connected
      cases ok with
      | false => trivial
      | true =>
          change Prog.Uses Leaving (if conf.password.truthy then _ else _)
          cases conf.password.truthy with
          | true => trivial
          | false =>
              refine Prog.uses_bind (lift_leaving (queueAll [] reqs)) (fun queued => ?_)
              refine Prog.uses_bind (commitPipeline_leaving queued) (fun answer => ?_)
              obtain ⟨results, err⟩ := answer
              cases results with
              | none => trivial
              | some results =>
                  cases err with
                  | some _ => trivial
                  | none => exact Prog.uses_bind (outside_leaving _) (fun _ => trivial)

def willingWorld : Unit → (o : Outside) → o.Answer × Unit
  | _, .net o => (willing o, ())
  | _, .send _ => (none, ())
  | _, .readReply => (willing (.command .redis 0 "ping" []), ())

/-- The object is out of pipeline mode exactly if something was queued. -/
theorem leaves_iff (conf : RedisConf) (cs : List Command) : Leaves conf cs ↔ cs ≠ [] := by
  constructor
  · intro h hnil
    subst hnil
    have hstart := h Unit willingWorld none ()
    cases hstart
  · intro hne T world reqs s
    rw [run_pipelined, run_commitPipeline world (fun h => hne (List.map_eq_nil_iff.mp h))]
    refine Prog.run_frame (exec world) (I := fun t => t.1 = none)
      (commitQueued_leaving conf _) ?_ rfl
    intro t o ho ht
    cases o with
    | readReqs => exact ht
    | writeReqs _ => exact ho.elim
    | outside o => exact ht

end Queued

/-! ### Sent together -/

theorem queueAll_sends {cs : List Command} {reqs : List Wired} (h : List.Forall₂ Sends cs reqs)
    (before : List Wired) : queueAll before (cs.map entry) = .ok (before ++ reqs) := by
  induction h generalizing before with
  | nil => rw [List.append_nil]; rfl
  | @cons c req cs reqs hreq _ ih =>
      have hwired : (⟨c.name, req.args⟩ : Wired) = req := by rw [← hreq.name]
      have hrest := ih (before ++ [req])
      rw [List.append_assoc] at hrest
      simp only [List.map_cons, queueAll, entry, queueCommand, hreq.args, bind, Except.bind, pure,
        Except.pure, hwired]
      exact hrest

theorem length_answerAll (server : Server) (before reqs : List Wired) :
    reqs.length ≤ (server.answerAll before reqs).length := by
  induction reqs generalizing before with
  | nil => exact Nat.zero_le _
  | cons req reqs ih =>
      have hpos := replyCount_pos req
      have hrest := ih (before ++ [req])
      rw [Server.answerAll, List.length_append, server.count, List.length_cons]
      omega

/-- The replies that are read for the commands of a pipeline, one for each. -/
def pipeReplies (server : Server) (before reqs : List Wired) : List Val :=
  ((server.answerAll before reqs).take reqs.length).map Reply.val

theorem length_pipeReplies (server : Server) (before reqs : List Wired) :
    (pipeReplies server before reqs).length = reqs.length := by
  rw [pipeReplies, List.length_map]
  exact List.length_take_of_le (length_answerAll server before reqs)

theorem pipeReplies_ne_nil {server : Server} {before reqs : List Wired} :
    ∀ v ∈ pipeReplies server before reqs, v ≠ .nil := by
  intro v hv hnil
  obtain ⟨r, -, hr⟩ := List.mem_map.mp hv
  have htruthy := r.nonError
  rw [hr, hnil] at htruthy
  cases htruthy

section Together
variable {conf : RedisConf} (access : Access conf) (server : Server)

theorem run_readReplies (vals : List Val) (front back : List Reply) (s : Session)
    (hs : s.unread = front ++ back) :
    Prog.run (exec (serve access server)) (none, s)
        (RestyRedis.readReplies vals front.length) =
      (.ok (some (vals ++ front.map Reply.val), none), (none, { s with unread := back })) := by
  induction front generalizing vals s with
  | nil =>
      have hsame : { s with unread := back } = s := by
        rw [← List.nil_append back, ← hs]
      rw [hsame, List.map_nil, List.append_nil]
      rfl
  | cons r front ih =>
      have hread : serve access server s .readReply =
          (r.answer, { s with unread := front ++ back }) := by
        simp only [serve, hs, List.cons_append]
      have htruthy : r.answer.res.truthy = true := r.nonError
      have hrest := ih (vals ++ [r.val]) { s with unread := front ++ back } rfl
      rw [List.append_assoc] at hrest
      simp only [List.length_cons, RestyRedis.readReplies, Script.readReply, Prog.call_bind,
        Prog.ret_bind, Prog.run_call, exec, hread, if_pos htruthy]
      exact hrest

theorem run_commitRequests (reqs : List Wired) (s : Session) (hs : s.unread = []) :
    ∃ unread, Prog.run (exec (serve access server)) (none, s) (RestyRedis.commitPipeline reqs) =
      (.ok (some (pipeReplies server s.sent reqs), none),
        (none, { s with sent := s.sent ++ reqs, unread := unread })) := by
  have hsend : serve access server s (.send reqs) = (none, { s with
      sent := s.sent ++ reqs, unread := server.answerAll s.sent reqs }) := by
    simp [serve, hs]
  have hlength : ((server.answerAll s.sent reqs).take reqs.length).length = reqs.length :=
    List.length_take_of_le (length_answerAll server s.sent reqs)
  have hrun := run_readReplies access server [] ((server.answerAll s.sent reqs).take reqs.length)
    ((server.answerAll s.sent reqs).drop reqs.length)
    { s with sent := s.sent ++ reqs, unread := server.answerAll s.sent reqs }
    (List.take_append_drop _ _).symm
  rw [hlength] at hrun
  refine ⟨(server.answerAll s.sent reqs).drop reqs.length, ?_⟩
  simp only [RestyRedis.commitPipeline, Script.send, Prog.call_bind, Prog.ret_bind,
    Prog.run_call, exec, hsend]
  exact hrun

theorem run_commitQueued {cs : List Command} {reqs : List Wired}
    (h : List.Forall₂ Sends cs reqs) (s : Session) :
    ∃ results s', Prog.run (exec (serve access server)) (none, s)
        (commitQueued conf (cs.map entry)) = (.ok (some results, none), (none, s')) ∧
      s'.sent = s.sent ++ reqs ∧
      ∀ i, results.getD i .nil = ((pipeReplies server s.sent reqs).map nullToNil).getD i .nil := by
  obtain ⟨calls, hconnect⟩ := run_connectMod access server none
    { s with calls := s.calls ++ [.new .redis], unread := [] }
  obtain ⟨unread, hcommit⟩ := run_commitRequests access server reqs
    { s with calls := calls, unread := [] } rfl
  have hqueued := queueAll_sends h []
  rw [List.nil_append] at hqueued
  refine ⟨_, { s with
    calls := calls ++ [.setKeepalive .redis], sent := s.sent ++ reqs, unread := unread }, ?_, rfl,
    getD_removeNulls pipeReplies_ne_nil⟩
  simp only [commitQueued, Script.net, Prog.call_bind, Prog.ret_bind, Prog.run_call, exec, serve,
    access.created, unreadAfter, Prog.run_bind, hconnect, access.noPassword, hqueued, Script.lift,
    Bool.not_true, Bool.false_eq_true, if_false, Prog.ret_bind, hcommit]
  rfl

end Together

/-! ### Commands with one reply -/

theorem arguments_of_ne {name : String} (h : name ≠ "hmset") (args : List Val) :
    OpenrestyGateway.RestyRedis.arguments name args = .ok args := by
  cases args with
  | nil => rfl
  | cons key rest =>
      cases rest with
      | nil => rfl
      | cons t rest =>
          cases rest with
          | nil => exact if_neg h
          | cons _ _ => rfl

theorem subscription {c : Command} (h : RestyRedis.subCommands.contains c.name = true) :
    c.name = "psubscribe" := by
  have hsubscribe : "subscribe" ∉ commands := by decide +kernel
  have hmem : c.name = "subscribe" ∨ c.name = "psubscribe" := by
    simpa [RestyRedis.subCommands] using h
  obtain hname | hname := hmem
  · exact absurd (hname ▸ c.known) hsubscribe
  · exact hname

/-- Only a subscription to several patterns has several replies. -/
theorem replyCount_eq_one {c : Command} {req : Wired} (h : Sends c req) :
    replyCount req = 1 ↔ (c.name = "psubscribe" → c.args.length ≤ 1) := by
  rw [replyCount, h.name]
  cases hsub : RestyRedis.subCommands.contains c.name with
  | false =>
      refine iff_of_true rfl (fun hname => ?_)
      rw [hname] at hsub
      exact absurd hsub (by decide)
  | true =>
      have hname := subscription hsub
      have hargs : c.args = req.args := by
        have hne : c.name ≠ "hmset" := by
          rw [hname]
          decide
        exact Except.ok.inj ((arguments_of_ne hne c.args).symm.trans h.args)
      rw [if_pos rfl, ← hargs]
      constructor
      · intro hcount _
        omega
      · intro hpatterns
        have hle := hpatterns hname
        omega

theorem pipeReplies_single (server : Server) {reqs : List Wired}
    (h : ∀ req ∈ reqs, replyCount req = 1) (before : List Wired) :
    (pipeReplies server before reqs).map nullToNil = plainValues server before reqs := by
  induction reqs generalizing before with
  | nil => rfl
  | cons req reqs ih =>
      obtain ⟨hreq, hreqs⟩ := List.forall_mem_cons.mp h
      obtain ⟨r, hreplies⟩ := List.length_eq_one_iff.mp ((server.count before req).trans hreq)
      have hrest := ih hreqs (before ++ [req])
      rw [plainValues, ← hrest, hreplies]
      simp only [pipeReplies, Server.answerAll, hreplies, List.length_cons, List.singleton_append,
        List.take_succ_cons, List.map_cons]
      rfl

theorem arguments_of_sends {cs : List Command} {reqs : List Wired}
    (h : List.Forall₂ Sends cs reqs) :
    ∀ c ∈ cs, ∃ args, OpenrestyGateway.RestyRedis.arguments c.name c.args = .ok args := by
  induction h with
  | nil => exact List.forall_mem_nil _
  | cons hreq _ ih => exact List.forall_mem_cons.mpr ⟨⟨_, hreq.args⟩, ih⟩

theorem sends_single {cs : List Command} {reqs : List Wired} (h : List.Forall₂ Sends cs reqs) :
    (∀ req ∈ reqs, replyCount req = 1) ↔
      ∀ c ∈ cs, c.name = "psubscribe" → c.args.length ≤ 1 := by
  induction h with
  | nil => exact iff_of_true (List.forall_mem_nil _) (List.forall_mem_nil _)
  | cons hreq _ ih => rw [List.forall_mem_cons, List.forall_mem_cons, ih, replyCount_eq_one hreq]

section Agreement
variable {conf : RedisConf} (access : Access conf) (server : Server)

theorem agrees_of_single {cs : List Command} (h : ∀ c ∈ cs, Single c) (s : Session) :
    Agrees access server cs s := by
  obtain ⟨reqs, hreqs⟩ := sends_of_arguments h
  obtain ⟨s₁, hplain, hsent⟩ := run_issueAll access server hreqs s
  have hlength : (plainValues server s.sent reqs).length = cs.length := by
    rw [length_plainValues, hreqs.length_eq]
  by_cases hnil : cs = []
  · subst hnil
    cases hreqs
    refine ⟨[], [], some "no pipeline", s₁, (some [], s), hplain, rfl, ?_, rfl, fun i => rfl⟩
    rw [hsent]
    exact (List.append_nil _).symm
  · obtain ⟨results, s₂, hcommit, hsent₂, hresults⟩ := run_commitQueued access server hreqs s
    have hentries : cs.map entry ≠ [] := fun h => hnil (List.map_eq_nil_iff.mp h)
    refine ⟨_, results, none, s₁, (none, s₂), hplain, ?_, hsent₂.trans hsent.symm, hlength, ?_⟩
    · rw [run_pipelined, run_commitPipeline _ hentries, hcommit]
    · have hsingle := (sends_single hreqs).mpr (fun c hc => (h c hc).patterns)
      rw [← pipeReplies_single server hsingle]
      exact hresults

end Agreement

theorem ok_nonError : (Val.str "OK").truthy = true := rfl

/-- Every reply is the status OK. -/
def okServer : Server where
  replies _ req := List.replicate (replyCount req) ⟨.str "OK", ok_nonError⟩
  count _ _ := List.length_replicate

theorem pipeReplies_ok (before reqs : List Wired) :
    ∀ v ∈ pipeReplies okServer before reqs, v = .str "OK" := by
  have hall : ∀ r ∈ okServer.answerAll before reqs, r.val = .str "OK" := by
    induction reqs generalizing before with
    | nil => exact List.forall_mem_nil _
    | cons req reqs ih =>
        intro r hr
        obtain hr | hr := List.mem_append.mp hr
        · rw [List.eq_of_mem_replicate hr]
        · exact ih _ r hr
  intro v hv
  obtain ⟨r, hr, rfl⟩ := List.mem_map.mp hv
  exact hall r (List.mem_of_mem_take hr)

/-- One by one, several replies make a list. -/
theorem single_of_ok {before reqs : List Wired}
    (h : ∀ v ∈ plainValues okServer before reqs, v = .str "OK") :
    ∀ req ∈ reqs, replyCount req = 1 := by
  induction reqs generalizing before with
  | nil => exact List.forall_mem_nil _
  | cons req reqs ih =>
      obtain ⟨hreq, hreqs⟩ := List.forall_mem_cons.mp h
      refine List.forall_mem_cons.mpr ⟨?_, ih hreqs⟩
      change nullToNil (replyValue (List.replicate (replyCount req) ⟨.str "OK", ok_nonError⟩)) = _
        at hreq
      have hpos := replyCount_pos req
      generalize replyCount req = n at hreq hpos
      cases n with
      | zero => omega
      | succ n =>
          cases n with
          | zero => rfl
          | succ n =>
              -- two replies or more: a list, not the text OK
              cases hreq

theorem single_of_agrees {conf : RedisConf} (access : Access conf) {cs : List Command}
    {s : Session} (h : Agrees access okServer cs s) (hne : cs ≠ []) : ∀ c ∈ cs, Single c := by
  obtain ⟨values, results, err, s₁, s₂, hplain, hpipe, -, -, hsame⟩ := h
  obtain ⟨reqs, hreqs⟩ := sends_of_run access okServer hplain
  obtain ⟨s₁', hplain', -⟩ := run_issueAll access okServer hreqs s
  obtain ⟨results', s₂', hcommit, -, hresults⟩ := run_commitQueued access okServer hreqs s
  rw [run_pipelined, run_commitPipeline _ (fun h => hne (List.map_eq_nil_iff.mp h)), hcommit]
    at hpipe
  cases hpipe
  cases hplain.symm.trans hplain'
  have hok : ∀ v ∈ plainValues okServer s.sent reqs, v = .str "OK" := by
    intro v hv
    obtain ⟨i, hi, hget⟩ := List.getElem_of_mem hv
    have hi' : i < (pipeReplies okServer s.sent reqs).length := by
      rw [length_pipeReplies, ← length_plainValues okServer s.sent reqs]
      exact hi
    have hentry := (hsame i).symm.trans (hresults i)
    rw [List.getD_eq_getElem _ _ hi, hget, List.getD_eq_getElem _ _ (by simpa using hi'),
      List.getElem_map, pipeReplies_ok s.sent reqs _ (List.getElem_mem hi')] at hentry
    exact hentry
  have hpatterns := (sends_single hreqs).mp (single_of_ok hok)
  exact fun c hc => ⟨arguments_of_sends hreqs c hc, hpatterns c hc⟩

end RedisPipeline
end OpenrestyGateway
