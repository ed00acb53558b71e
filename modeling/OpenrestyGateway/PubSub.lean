import OpenrestyGateway.RespStream

/-!
Subscriptions: resty.redis keeps the messages that come in between a command and its
answer, and util/redis_iresty.lua waits for one message of a channel.

The peer takes every request. What it answers arrives behind what it has sent before.
-/
namespace OpenrestyGateway
namespace PubSub
open Resp

/-- The fields of a client. `_buffered_msg` is nil when there are no messages in it. -/
structure Client where
  sock : Sock
  subscribed : Bool
  bufferedMsg : List Resp.Reply
  /-- `_n_channel.unsubscribe` -/
  channels : Int
  /-- `_n_channel.punsubscribe` -/
  patterns : Int

abbrev Call := Except LuaError (Outcome × Client)

/-- `res[i]`, counting from 1. -/
def field (res : Resp.Reply) (i : Nat) : Option Resp.Reply :=
  match res with
  | .arr xs => xs[i - 1]?
  | .null | .str _ | .num _ | .error _ => none

def text (s : String) : Bytes := ascii s.toList

/-- `type(res) == "table" and res[1] == name`. -/
def isKind (res : Resp.Reply) (name : String) : Bool :=
  match field res 1 with
  | some (.str b) => b == text name
  | some .null | some (.num _) | some (.arr _) | some (.error _) | none => false

/-- `a == b`. Two tables are different objects. -/
def sameReply : Resp.Reply → Resp.Reply → Bool
  | .null, .null => true
  | .str a, .str b => a == b
  | .num p, .num q => decide (p = q)
  | _, _ => false

/-- `a == b` for fields that may be nil. -/
def rawEq (a b : Option Resp.Reply) : Bool :=
  match a with
  | none => b.isNone
  | some a => b.any (sameReply a)

/-- `_check_msg` on a client that is subscribed. -/
def isMsg (res : Resp.Reply) : Bool := isKind res "message" || isKind res "pmessage"

def Client.read (c : Client) : Call :=
  match readReply c.subscribed c.sock with
  | .error e => .error e
  | .ok (o, s) => .ok (o, { c with sock := s })

/-- The loop of `_do_cmd` behind the request. Every reply takes a byte at least, so the
bytes that are there bound its rounds. -/
def awaitReply : Nat → Client → Call
  | 0, c => .ok (.failed none, c)
  | fuel + 1, c =>
      match c.read with
      | .error e => .error e
      | .ok (.failed err, c) => .ok (.failed err, c)
      | .ok (.reply r, c) =>
          if c.subscribed && isMsg r then
            awaitReply fuel { c with bufferedMsg := c.bufferedMsg ++ [r] }
          else .ok (.reply r, c)

/-- `_do_cmd`, with the bytes the peer answers to the request. -/
def doCmd (c : Client) (answer : Bytes) : Call :=
  let c := { c with sock := { c.sock with incoming := c.sock.incoming ++ answer } }
  awaitReply (c.sock.incoming.length + 1) c

/-- The messages that are kept when a channel or a pattern is left. -/
def keptMsgs (res : Resp.Reply) (msgs : List Resp.Reply) : List Resp.Reply :=
  let msgType := if isKind res "punsubscribe" then "pmessage" else "message"
  msgs.filter (fun msg => isKind msg msgType && !rawEq (field msg 2) (field res 2))

def checkUnsubscribed (res : Resp.Reply) (c : Client) : Client :=
  if isKind res "unsubscribe" || isKind res "punsubscribe" then
    { c with
      channels := if isKind res "unsubscribe" then c.channels - 1 else c.channels
      patterns := if isKind res "punsubscribe" then c.patterns - 1 else c.patterns
      bufferedMsg := keptMsgs res c.bufferedMsg
      subscribed := c.subscribed && !rawEq (field res 3) (some (.num 0)) }
  else c

def checkSubscribed (res : Resp.Reply) (c : Client) : Client :=
  if isKind res "subscribe" then { c with channels := c.channels + 1 }
  else if isKind res "psubscribe" then { c with patterns := c.patterns + 1 }
  else c

/-- `read_reply` -/
def readMsg (c : Client) : Call :=
  if !c.subscribed then .ok (.failed (some "not subscribed"), c)
  else
    match c.bufferedMsg with
    | msg :: rest => .ok (.reply msg, { c with bufferedMsg := rest })
    | [] =>
        match c.read with
        | .error e => .error e
        | .ok (.failed err, c) => .ok (.failed err, c)
        | .ok (.reply r, c) => .ok (.reply r, checkUnsubscribed r c)

/-- `nil, err` for a reply that is no result: the error reply is `false, err`. -/
def notFalse : Outcome → Outcome
  | .reply (.error text) => .failed (some (String.ofList (chars text)))
  | .reply .null => .reply .null
  | .reply (.str b) => .reply (.str b)
  | .reply (.num q) => .reply (.num q)
  | .reply (.arr xs) => .reply (.arr xs)
  | .failed err => .failed err

/-- `subscribe` with one channel. -/
def subscribe (c : Client) (answer : Bytes) : Call :=
  match doCmd { c with subscribed := true } answer with
  | .error e => .error e
  | .ok (o, c) =>
      match notFalse o with
      | .failed err => .ok (.failed err, c)
      | .reply r => .ok (.reply r, checkSubscribed r c)

/-- `unsubscribe` with one channel. -/
def unsubscribe (c : Client) (answer : Bytes) : Call :=
  if !c.subscribed then .ok (.failed (some "not subscribed"), c)
  else
    match doCmd c answer with
    | .error e => .error e
    | .ok (o, c) =>
        match notFalse o with
        | .failed err => .ok (.failed err, c)
        | .reply r => .ok (.reply r, checkUnsubscribed r c)

/-- `set_keepalive`: whether the connection goes back to the pool. -/
def setKeepalive (c : Client) : Bool := !c.subscribed

/-- `subscribe` of util/redis_iresty.lua on a client that is connected, without a
password: the result, the client, and whether the connection goes back to the pool. The
peer answers the two requests. -/
def waitForMessage (c : Client) (subscribed unsubscribed : Bytes) :
    Except LuaError (Outcome × Client × Bool) :=
  match subscribe c subscribed with
  | .error e => .error e
  | .ok (.failed err, c) => .ok (.failed err, c, false)
  | .ok (.reply _, c) =>
      match readMsg c with
      | .error e => .error e
      | .ok (o, c) =>
          match notFalse o with
          | .failed err => .ok (.failed err, c, false)
          | .reply res =>
              match unsubscribe c unsubscribed with
              | .error e => .error e
              | .ok (_, c) => .ok (.reply res, c, setKeepalive c)

/-! ### What the server sends -/

inductive Push where
  | message (channel payload : Bytes)
  | pmessage (pattern channel payload : Bytes)

def Push.wire : Push → Message
  | .message channel payload =>
      .array [.bulk (text "message"), .bulk channel, .bulk payload]
  | .pmessage pattern channel payload =>
      .array [.bulk (text "pmessage"), .bulk pattern, .bulk channel, .bulk payload]

def pushes (ps : List Push) : Bytes := encodeAll (ps.map Push.wire)

/-- An answer to a command; it is no message. -/
structure Answer where
  message : Message
  notMsg : isMsg message.value = false

def confirmation (kind : String) (channel : Bytes) (left : Int) : Message :=
  .array [.bulk (text kind), .bulk channel, .integer left]

/-! ### Runs of a subscribed client -/

/-- The server publishes, the client runs a command, or asks for a message. -/
inductive Step where
  | publish (p : Push)
  | command (a : Answer)
  | readMsg

def Step.published : Step → Option Push
  | .publish p => some p
  | .command _ | .readMsg => none

def Step.answer : Step → Option Answer
  | .command a => some a
  | .publish _ | .readMsg => none

/-- The client, the results of read_reply other than failures, and the results of the
commands. -/
structure State where
  client : Client
  delivered : List Resp.Reply
  results : List Outcome

namespace State

def start (c : Client) : State := ⟨c, [], []⟩

def noteRead (s : State) : Outcome × Client → State
  | (.reply r, c) => { s with client := c, delivered := s.delivered ++ [r] }
  | (.failed _, c) => { s with client := c }

def noteCommand (s : State) (r : Outcome × Client) : State :=
  { s with client := r.2, results := s.results ++ [r.1] }

def step (s : State) : Step → Except LuaError State
  | .publish p => .ok { s with client := { s.client with
      sock := { s.client.sock with incoming := s.client.sock.incoming ++ encode p.wire } } }
  | .command a => (doCmd s.client (encode a.message)).map s.noteCommand
  | .readMsg => (PubSub.readMsg s.client).map s.noteRead

def run (s : State) : List Step → Except LuaError State
  | [] => .ok s
  | l :: ls =>
      match s.step l with
      | .error e => .error e
      | .ok t => run t ls

end State

/-- A client that is subscribed and has nothing to read. -/
def listening (channels patterns : Int) : Client :=
  { sock := arrived [] "timeout", subscribed := true, bufferedMsg := []
    channels := channels, patterns := patterns }

def idle : Client := { listening 0 0 with subscribed := false }

/-- After the steps `done`, with the messages that are not read off the socket yet. -/
structure Good (done : List Step) (unread : List Push) (s : State) : Prop where
  subscribed : s.client.subscribed = true
  sock : s.client.sock = arrived (pushes unread) "timeout"
  complete : s.delivered ++ s.client.bufferedMsg ++ unread.map (fun p => p.wire.value) =
    (done.filterMap Step.published).map (fun p => p.wire.value)
  answered : s.results = (done.filterMap Step.answer).map (fun a => .reply a.message.value)

/-! ### Reading messages -/

theorem pushes_cons (p : Push) (ps : List Push) : pushes (p :: ps) = encode p.wire ++ pushes ps :=
  rfl

theorem encodeAll_append (ms ms' : List Message) :
    encodeAll (ms ++ ms') = encodeAll ms ++ encodeAll ms' := by
  induction ms with
  | nil => rfl
  | cons m ms ih => rw [List.cons_append, encodeAll, encodeAll, ih, List.append_assoc]

theorem pushes_append (ps qs : List Push) : pushes (ps ++ qs) = pushes ps ++ pushes qs := by
  rw [pushes, List.map_append, encodeAll_append]
  rfl

theorem isMsg_push (p : Push) : isMsg p.wire.value = true := by
  cases p with
  | message channel payload => rfl
  | pmessage pattern channel payload => rfl

theorem checkUnsubscribed_push (p : Push) (c : Client) : checkUnsubscribed p.wire.value c = c := by
  cases p with
  | message channel payload => rfl
  | pmessage pattern channel payload => rfl

theorem read_encode {c : Client} {m : Message} {rest : Bytes} {failure : String}
    (h : c.sock = arrived (encode m ++ rest) failure) :
    c.read = .ok (.reply m.value, { c with sock := arrived rest failure }) := by
  rw [Client.read, h, readReply_encode]

/-- The messages in front of the answer are put aside in their order. -/
theorem awaitReply_pushes {a : Answer} {failure : String} {rest : Bytes} (ps : List Push)
    (fuel : Nat) (c : Client) (hc : c.subscribed = true)
    (hsock : c.sock = arrived (pushes ps ++ (encode a.message ++ rest)) failure)
    (hfuel : (pushes ps ++ (encode a.message ++ rest)).length < fuel) :
    awaitReply fuel c = .ok (.reply a.message.value, { c with
      sock := arrived rest failure
      bufferedMsg := c.bufferedMsg ++ ps.map (fun p => p.wire.value) }) := by
  induction ps generalizing fuel c with
  | nil =>
      cases fuel with
      | zero => exact absurd hfuel (Nat.not_lt_zero _)
      | succ fuel =>
          simp only [awaitReply, read_encode hsock, a.notMsg, Bool.and_false,
            Bool.false_eq_true, if_false, List.map_nil, List.append_nil]
  | cons p ps ih =>
      cases fuel with
      | zero => exact absurd hfuel (Nat.not_lt_zero _)
      | succ fuel =>
          rw [pushes_cons, List.append_assoc] at hsock hfuel
          have hlen : (pushes ps ++ (encode a.message ++ rest)).length < fuel := by
            have hpos := List.length_pos_iff.mpr (encode_ne_nil p.wire)
            rw [List.length_append] at hfuel
            omega
          have hnext := ih fuel { c with
            sock := arrived (pushes ps ++ (encode a.message ++ rest)) failure
            bufferedMsg := c.bufferedMsg ++ [p.wire.value] } hc rfl hlen
          simp only [hc] at hnext
          simp only [awaitReply, read_encode hsock, hc, isMsg_push, Bool.and_true, if_true,
            hnext, List.map_cons, List.append_assoc, List.singleton_append]

theorem doCmd_pushes {a : Answer} {failure : String} (ps qs : List Push) (rest : Bytes)
    (c : Client) (hc : c.subscribed = true) (hsock : c.sock = arrived (pushes ps) failure) :
    doCmd c (pushes qs ++ (encode a.message ++ rest)) = .ok (.reply a.message.value, { c with
      sock := arrived rest failure
      bufferedMsg := c.bufferedMsg ++ (ps ++ qs).map (fun p => p.wire.value) }) := by
  have hbytes : pushes ps ++ (pushes qs ++ (encode a.message ++ rest)) =
      pushes (ps ++ qs) ++ (encode a.message ++ rest) := by
    rw [pushes_append, List.append_assoc]
  rw [doCmd, hsock]
  exact awaitReply_pushes (ps ++ qs) _ _ hc (congrArg (arrived · failure) hbytes)
    (by rw [← hbytes]; exact Nat.lt_succ_self _)

theorem readMsg_empty {c : Client} (hc : c.subscribed = true) (hbuffer : c.bufferedMsg = [])
    (hsock : c.sock = arrived [] "timeout") :
    readMsg c = .ok (.failed (some "timeout"), c) := by
  obtain ⟨sock, subscribed, bufferedMsg, channels, patterns⟩ := c
  cases hc
  cases hbuffer
  cases hsock
  rfl

theorem readMsg_unread {c : Client} {p : Push} {rest : Bytes} {failure : String}
    (hc : c.subscribed = true) (hbuffer : c.bufferedMsg = [])
    (hsock : c.sock = arrived (encode p.wire ++ rest) failure) :
    readMsg c = .ok (.reply p.wire.value, { c with sock := arrived rest failure }) := by
  simp only [readMsg, hc, hbuffer, Bool.not_true, Bool.false_eq_true, if_false,
    read_encode hsock, checkUnsubscribed_push]

/-! ### Runs -/

/-- One step loses no message, doubles none and keeps their order. -/
theorem step_good {done : List Step} {unread : List Push} {s : State} (h : Good done unread s)
    (l : Step) : ∃ t unread', s.step l = .ok t ∧ Good (done ++ [l]) unread' t := by
  cases l with
  | publish p =>
      refine ⟨_, unread ++ [p], rfl, ?_⟩
      refine { subscribed := h.subscribed, sock := ?_, complete := ?_, answered := ?_ }
      · rw [pushes_append]
        simp only [h.sock, arrived, pushes, List.map_cons, List.map_nil, encodeAll,
          List.append_nil]
      · rw [List.filterMap_append, List.map_append, List.map_append, ← h.complete]
        simp [Step.published]
      · rw [h.answered, List.filterMap_append]
        simp [Step.answer]
  | command a =>
      have hcmd := doCmd_pushes (a := a) unread [] [] s.client h.subscribed h.sock
      rw [List.append_nil, List.append_nil] at hcmd
      have hstep : s.step (.command a) = _ := congrArg (Except.map s.noteCommand) hcmd
      refine ⟨_, [], hstep, ?_⟩
      refine { subscribed := h.subscribed, sock := rfl, complete := ?_, answered := ?_ }
      · rw [List.filterMap_append, List.map_append, ← h.complete]
        simp [Step.published, State.noteCommand]
      · rw [State.noteCommand, h.answered, List.filterMap_append, List.map_append]
        rfl
  | readMsg =>
      have hpublished : (done ++ [Step.readMsg]).filterMap Step.published =
          done.filterMap Step.published := by
        rw [List.filterMap_append]
        exact List.append_nil _
      have hanswer : (done ++ [Step.readMsg]).filterMap Step.answer =
          done.filterMap Step.answer := by
        rw [List.filterMap_append]
        exact List.append_nil _
      cases hbuffer : s.client.bufferedMsg with
      | cons msg rest =>
          refine ⟨{ s with client := { s.client with bufferedMsg := rest }
                           delivered := s.delivered ++ [msg] }, unread, ?_, ?_⟩
          · simp only [State.step, readMsg, h.subscribed, hbuffer, Bool.not_true,
              Bool.false_eq_true, if_false]
            rfl
          · refine { subscribed := h.subscribed, sock := h.sock, complete := ?_,
                     answered := by rw [hanswer]; exact h.answered }
            rw [hpublished, ← h.complete, hbuffer]
            simp
      | nil =>
          cases unread with
          | nil =>
              refine ⟨s, [], ?_, ?_⟩
              · rw [State.step, readMsg_empty h.subscribed hbuffer h.sock]
                rfl
              · exact { subscribed := h.subscribed, sock := h.sock,
                        complete := by rw [hpublished]; exact h.complete,
                        answered := by rw [hanswer]; exact h.answered }
          | cons p ps =>
              have hsock := h.sock
              rw [pushes_cons] at hsock
              have hstep : s.step .readMsg = _ := congrArg (Except.map s.noteRead)
                (readMsg_unread h.subscribed hbuffer hsock)
              refine ⟨_, ps, hstep, ?_⟩
              refine { subscribed := h.subscribed, sock := rfl, complete := ?_,
                       answered := by rw [hanswer]; exact h.answered }
              rw [hpublished, ← h.complete]
              simp [State.noteRead, hbuffer]

theorem run_good (ls : List Step) : ∀ {done : List Step} {unread : List Push} {s : State},
    Good done unread s → ∃ t unread', s.run ls = .ok t ∧ Good (done ++ ls) unread' t := by
  induction ls with
  | nil =>
      intro done unread s h
      refine ⟨s, unread, rfl, ?_⟩
      rw [List.append_nil]
      exact h
  | cons l ls ih =>
      intro done unread s h
      obtain ⟨t, unread', hstep, ht⟩ := step_good h l
      obtain ⟨u, unread'', hrun, hu⟩ := ih ht
      refine ⟨u, unread'', ?_, ?_⟩
      · simp only [State.run, hstep]
        exact hrun
      · rw [List.append_assoc] at hu
        exact hu

theorem start_good (channels patterns : Int) :
    Good [] [] (State.start (listening channels patterns)) where
  subscribed := rfl
  sock := rfl
  complete := rfl
  answered := rfl

def onChannel (channel : Bytes) (payloads : List Bytes) : List Push :=
  payloads.map (Push.message channel)

theorem keptMsgs_onChannel (channel : Bytes) (left : Int) (payloads : List Bytes) :
    keptMsgs (confirmation "unsubscribe" channel left).value
      ((onChannel channel payloads).map (fun p => p.wire.value)) = [] := by
  refine List.filter_eq_nil_iff.mpr (fun msg hmsg => ?_)
  obtain ⟨p, hp, rfl⟩ := List.mem_map.mp hmsg
  obtain ⟨payload, -, rfl⟩ := List.mem_map.mp hp
  have hchannel : rawEq (field (Push.message channel payload).wire.value 2)
      (field (confirmation "unsubscribe" channel left).value 2) = true :=
    beq_self_eq_true channel
  rw [hchannel, Bool.not_true, Bool.and_false]
  exact Bool.false_ne_true

theorem subscribe_idle (channel : Bytes) (rest : Bytes) :
    subscribe idle (encode (confirmation "subscribe" channel 1) ++ rest) =
      .ok (.reply (confirmation "subscribe" channel 1).value,
        { listening 1 0 with sock := arrived rest "timeout" }) := by
  have hcmd := doCmd_pushes (a := ⟨confirmation "subscribe" channel 1, rfl⟩) [] [] rest
    (listening 0 0) rfl rfl
  rw [subscribe]
  change (match doCmd (listening 0 0) (pushes [] ++ (encode (confirmation "subscribe" channel 1) ++
    rest)) with | .error e => _ | .ok (o, c) => _) = _
  rw [hcmd]
  rfl

/-- The last channel is left: its messages that were put aside are dropped. -/
theorem checkUnsubscribed_last (channel : Bytes) (payloads : List Bytes) (c : Client)
    (hbuffer : c.bufferedMsg = (onChannel channel payloads).map (fun p => p.wire.value)) :
    checkUnsubscribed (confirmation "unsubscribe" channel 0).value c =
      { c with channels := c.channels - 1, bufferedMsg := [], subscribed := false } := by
  have hkind : isKind (confirmation "unsubscribe" channel 0).value "unsubscribe" = true := rfl
  have hpattern : isKind (confirmation "unsubscribe" channel 0).value "punsubscribe" = false := rfl
  have hleft : rawEq (field (confirmation "unsubscribe" channel 0).value 3) (some (.num 0)) =
      true := by
    change decide (((0 : Int) : ℚ) = 0) = true
    exact decide_eq_true Int.cast_zero
  simp only [checkUnsubscribed, hkind, hpattern, hleft, hbuffer, keptMsgs_onChannel,
    Bool.true_or, if_true, Bool.false_eq_true, if_false, Bool.not_true, Bool.and_false]

theorem unsubscribe_last (channel : Bytes) (before after : List Bytes) :
    unsubscribe { listening 1 0 with sock := arrived (pushes (onChannel channel before)) "timeout" }
        (pushes (onChannel channel after) ++ encode (confirmation "unsubscribe" channel 0)) =
      .ok (.reply (confirmation "unsubscribe" channel 0).value, idle) := by
  have hcmd := doCmd_pushes (a := ⟨confirmation "unsubscribe" channel 0, rfl⟩)
    (onChannel channel before) (onChannel channel after) []
    { listening 1 0 with sock := arrived (pushes (onChannel channel before)) "timeout" } rfl rfl
  have hbuffer : onChannel channel before ++ onChannel channel after =
      onChannel channel (before ++ after) := List.map_append.symm
  rw [List.append_nil, hbuffer] at hcmd
  simp only [unsubscribe, listening, Bool.not_true, Bool.false_eq_true, if_false] at hcmd ⊢
  rw [hcmd]
  change Except.ok (Outcome.reply (confirmation "unsubscribe" channel 0).value,
    checkUnsubscribed (confirmation "unsubscribe" channel 0).value _) = _
  rw [checkUnsubscribed_last channel (before ++ after) _ rfl]
  rfl

/-- Waiting for one message of a channel returns the first that comes in, and the
connection goes back to the pool as it was before, whatever else was published; where none
comes in the connection is left subscribed, and out of the pool. -/
theorem waitForMessage_returns (channel : Bytes) (before after : List Bytes) :
    waitForMessage idle
        (encode (confirmation "subscribe" channel 1) ++ pushes (onChannel channel before))
        (pushes (onChannel channel after) ++ encode (confirmation "unsubscribe" channel 0)) =
      .ok (match before with
        | payload :: _ => (.reply (Push.message channel payload).wire.value, idle, true)
        | [] => (.failed (some "timeout"), listening 1 0, false)) := by
  cases before with
  | nil =>
      have hread : readMsg
          { listening 1 0 with sock := arrived (pushes (onChannel channel [])) "timeout" } =
            .ok (.failed (some "timeout"), listening 1 0) := readMsg_empty rfl rfl rfl
      simp only [waitForMessage, subscribe_idle, hread, notFalse]
  | cons payload before =>
      have hread : readMsg { listening 1 0 with
          sock := arrived (pushes (onChannel channel (payload :: before))) "timeout" } =
            .ok (.reply (Push.message channel payload).wire.value, { listening 1 0 with
              sock := arrived (pushes (onChannel channel before)) "timeout" }) :=
        readMsg_unread rfl rfl rfl
      have hleave := unsubscribe_last channel before after
      simp only [waitForMessage, subscribe_idle, hread]
      change (match unsubscribe _ _ with
        | .error e => Except.error e
        | .ok (_, c) => .ok (Outcome.reply _, c, setKeepalive c)) = _
      rw [hleave]
      rfl

end PubSub
end OpenrestyGateway
