import OpenrestyGateway.HealthEvents
import OpenrestyGateway.Library.Pool
import Mathlib.Data.NNRat.Defs

/-!
resty/worker/events.lua: events that the workers of a server post in a shared dict and
poll from it.

A process is one call of post_event or the polling of one worker. What the handlers of an
event post are further calls of post_event. The operations on the dict are atomic, and the
processes take them in any order.
-/
namespace OpenrestyGateway
namespace WorkerEvents
open Interleaving

/-- `unique` is the text of its value, nothing where it is nil or false. -/
structure Event where
  source : String
  event : String
  data : Val
  unique : Option String
  pid : Option Nat
  deriving DecidableEq

inductive Value where
  | number (n : Nat)
  | text (s : String)
  deriving DecidableEq

abbrev Shm := Ttl.Store String Value ℚ

def keyLastId : String := "events-last"

def keyData (id : Nat) : String := "events-data:" ++ toString id

def keyOne (unique : String) : String := "events-one:" ++ unique

/-- What becomes of an event in a worker. -/
inductive Fate where
  | handled (e : Event)
  /-- another worker handles it, or nobody knows who does -/
  | skipped
  | garbled
  | dropped
  deriving DecidableEq

inductive Op where
  | get (key : String)
  | add (key : String) (value : Value) (exptime : Option ℚ)
  | incr (key : String)
  | now
  | sleep
  | settle (id : Nat) (fate : Fate)
  deriving DecidableEq

/-- A value of the dict, or nil, or nil and an error. -/
abbrev Fetched := Except String (Option Value)

abbrev Op.Answer : Op → Type
  | .get _ => Fetched
  | .add _ _ _ => Except String Unit
  | .incr _ => Except String Nat
  | .now => ℚ
  | .sleep | .settle _ _ => Unit

def incr (s : Shm) (key : String) : Except String Nat × Shm :=
  match s.lookup key with
  | none => (.error "not found", s)
  | some (.text _) => (.error "not a number", s)
  | some (.number n) => (.ok (n + 1), s.modify key (.number (n + 1)))

def add (s : Shm) (key : String) (value : Value) (exptime : Option ℚ) :
    Except String Unit × Shm :=
  match s.lookup key with
  | some _ => (.error "exists", s)
  | none => (.ok (), s.write key (value, exptime.map (fun t => s.clock + t)))

def get (s : Shm) (key : String) : Fetched := .ok (s.lookup key)

/-- An operation that fails changes nothing. -/
def exec (s : Shm) (fault : Option String) : (o : Op) → o.Answer × Shm
  | .get key => (fault.elim (get s key) .error, s)
  | .add key value exptime => fault.elim (add s key value exptime) (fun err => (.error err, s))
  | .incr key => fault.elim (incr s key) (fun err => (.error err, s))
  | .now => (s.clock, s)
  | .sleep | .settle _ _ => ((), s)

/-! ### Posting -/

/-- A call of post_event for an event that has been encoded. -/
inductive Posting where
  | begun (json : Value)
  | numbering (json : Value)
  | storing (json : Value) (id : Nat)
  | posted (json : Value) (id : Nat)
  | failed (id : Option Nat) (err : String)
  deriving DecidableEq

namespace Posting

def numbered (json : Value) : Except String Nat → Posting
  | .ok id => .storing json id
  | .error err => .failed none err

def stored (json : Value) (id : Nat) : Except String Unit → Posting
  | .ok _ => .posted json id
  | .error err => .failed (some id) err

def next : Posting → Option ((o : Op) × (o.Answer → Posting))
  | .begun json => some ⟨.add keyLastId (.number 0) none, fun _ => .numbering json⟩
  | .numbering json => some ⟨.incr keyLastId, numbered json⟩
  | .storing json id => some ⟨.add (keyData id) json none, stored json id⟩
  | .posted _ _ | .failed _ _ => none

/-- The number that the event has got. -/
def id? : Posting → Option Nat
  | .begun _ | .numbering _ => none
  | .storing _ id | .posted _ id => some id
  | .failed id _ => id

end Posting

/-- The event of a call of post; `encode` is cjson.encode. -/
def post (encode : Event → Option String) (e : Event) : Except String Posting :=
  if e.source = "" then .error "source is required"
  else
    match encode e with
    | none => .error "failed posting event"
    | some json => .ok (.begun (.text json))

/-! ### Polling -/

/-- The options of configure, which refuses all others. -/
structure Config where
  timeout : ℚ
  waitMax : ℚ
  timeout_pos : 0 < timeout
  waitMax_nonneg : 0 ≤ waitMax

/-- What is done about the first event of those in the cache. -/
inductive Stage where
  | look
  | own (e : Event)
  | skip
  | late
  | rest
  | again
  deriving DecidableEq

/-- The cache holds the data of the events up to `_last_event` that are not done yet. -/
inductive Phase where
  | configuring
  | idle
  | fetching (eventId : Nat) (cache : List Fetched)
  | clocking (cache : List Fetched)
  | handling (expire : ℚ) (stage : Stage) (cache : List Fetched)
  /-- the comparison with a number of an event that is no number -/
  | raised

structure Worker where
  pid : Nat
  lastEvent : Nat
  phase : Phase

/-- `get_event_id`: nothing where the dict holds no number. -/
def eventId : Fetched → Option Nat
  | .ok (some (.number n)) => some n
  | .ok (some (.text _)) => none
  | .ok none | .error _ => some 0

namespace Worker

def configured (w : Worker) (answer : Fetched) : Worker :=
  match eventId answer with
  | none => { w with phase := .raised }
  | some id => { w with lastEvent := id, phase := .idle }

def polled (w : Worker) (answer : Fetched) : Worker :=
  match eventId answer with
  | none => { w with phase := .raised }
  | some id =>
      if id = w.lastEvent then w
      else if w.lastEvent < id then { w with phase := .fetching id [] }
      else { w with phase := .clocking [] }

def fetched (w : Worker) (eventId : Nat) (cache : List Fetched) (answer : Fetched) : Worker :=
  { w with
    lastEvent := w.lastEvent + 1
    phase :=
      if w.lastEvent + 1 < eventId then .fetching eventId (cache ++ [answer])
      else .clocking (cache ++ [answer]) }

/-- The loop over the cache; poll calls itself when it is over. -/
def proceed (w : Worker) (expire : ℚ) (cache : List Fetched) : Worker :=
  { w with phase := if cache = [] then .idle else .handling expire .look cache }

def stage (w : Worker) (expire : ℚ) (cache : List Fetched) (stage : Stage) : Worker :=
  { w with phase := .handling expire stage cache }

/-- `mine_to_have` -/
def mineToHave (w : Worker) (expire : ℚ) (cache : List Fetched) (e : Event) :
    Except String Unit → Worker
  | .ok _ => w.stage expire cache (.own e)
  | .error _ => w.stage expire cache .skip

/-- Data that are there go to do_event_json, data that are missing are waited for. -/
def look (cfg : Config) (decode : Value → Option Event) (w : Worker) (expire : ℚ)
    (data : Fetched) (cache : List Fetched) : (o : Op) × (o.Answer → Worker) :=
  let id := w.lastEvent - cache.length
  match data with
  | .error _ => ⟨.settle id .dropped, fun _ => w.proceed expire cache⟩
  | .ok none => ⟨.now, fun now =>
      w.stage expire (data :: cache) (if expire ≤ now then .late else .rest)⟩
  | .ok (some json) =>
      match decode json with
      | none => ⟨.settle id .garbled, fun _ => w.proceed expire cache⟩
      | some e =>
          match e.unique with
          | none => ⟨.settle id (.handled e), fun _ => w.proceed expire cache⟩
          | some unique => ⟨.add (keyOne unique) (.number w.pid) (some cfg.timeout),
              w.mineToHave expire (data :: cache) e⟩

/-- `_last_event - count + idx` is the number of the first event in the cache. -/
def next (cfg : Config) (decode : Value → Option Event) (w : Worker) :
    Option ((o : Op) × (o.Answer → Worker)) :=
  match w.phase with
  | .configuring => some ⟨.get keyLastId, w.configured⟩
  | .idle => some ⟨.get keyLastId, w.polled⟩
  | .fetching eventId cache =>
      some ⟨.get (keyData (w.lastEvent + 1)), w.fetched eventId cache⟩
  | .clocking cache => some ⟨.now, fun now => w.proceed (now + cfg.waitMax) cache⟩
  | .handling expire .look (data :: cache) => some (look cfg decode w expire data cache)
  | .handling expire (.own e) (_ :: cache) =>
      some ⟨.settle (w.lastEvent - cache.length) (.handled e), fun _ => w.proceed expire cache⟩
  | .handling expire .skip (_ :: cache) =>
      some ⟨.settle (w.lastEvent - cache.length) .skipped, fun _ => w.proceed expire cache⟩
  | .handling expire .late (_ :: cache) =>
      some ⟨.settle (w.lastEvent - cache.length) .dropped, fun _ => w.proceed expire cache⟩
  | .handling expire .rest (data :: cache) =>
      some ⟨.sleep, fun _ => w.stage expire (data :: cache) .again⟩
  | .handling expire .again (_ :: cache) =>
      some ⟨.get (keyData (w.lastEvent - cache.length)), fun data =>
        w.stage expire (data :: cache) .look⟩
  | .handling _ _ [] | .raised => none

end Worker

/-! ### All processes -/

inductive Process where
  | posting (q : Posting)
  | worker (w : Worker)

def Process.next (cfg : Config) (decode : Value → Option Event) :
    Process → Option ((o : Op) × (o.Answer → Process))
  | .posting q => q.next.map (fun c => ⟨c.1, fun a => .posting (c.2 a)⟩)
  | .worker w => (w.next cfg decode).map (fun c => ⟨c.1, fun a => .worker (c.2 a)⟩)

/-- Time passes, or the dict runs full and an item is evicted. -/
inductive Change where
  | advance (d : ℚ≥0)
  | evict (key : String)

def change (s : Shm) : Change → Shm
  | .advance d => s.advance d
  | .evict key => { s with cell := Function.update s.cell key none }

def server (cfg : Config) (decode : Value → Option Event) :
    Machine Op Op.Answer Process Shm (Option String) Change where
  next := Process.next cfg decode
  exec := exec
  outside := change

abbrev Server := Pool Op Op.Answer Process Shm

def Op.settles : Op → Option (Nat × Fate)
  | .settle id fate => some (id, fate)
  | .get _ | .add _ _ _ | .incr _ | .now | .sleep => none

/-- What has become of the events in the worker at `i`, in this order. -/
def trace (i : Nat) (log : List (Interleaving.Event Op Op.Answer)) : List (Nat × Fate) :=
  log.filterMap (fun e => if e.who = i then e.op.settles else none)

end WorkerEvents
end OpenrestyGateway
