import OpenrestyGateway.WorkerEvents

/-!
Every worker gets the events in the order of their numbers.

What holds over all runs in which the number of the last event is not evicted: the numbers
are given out once each and without gaps, a worker is done with them one after the other,
and what it handles under a number is what was posted under it.
-/
namespace OpenrestyGateway
namespace WorkerEvents
open Interleaving

/-! ### The keys -/

theorem take_keyData (id : Nat) : (keyData id).toList.take 8 = "events-d".toList := by
  rw [keyData, String.toList_append]
  rfl

theorem take_keyOne (unique : String) : (keyOne unique).toList.take 8 = "events-o".toList := by
  rw [keyOne, String.toList_append]
  rfl

theorem keyData_ne_last (id : Nat) : keyData id ≠ keyLastId := by
  intro h
  have htake := take_keyData id
  rw [h] at htake
  exact absurd htake (by decide)

theorem keyOne_ne_last (unique : String) : keyOne unique ≠ keyLastId := by
  intro h
  have htake := take_keyOne unique
  rw [h] at htake
  exact absurd htake (by decide)

theorem keyOne_ne_data (unique : String) (id : Nat) : keyOne unique ≠ keyData id := by
  intro h
  have htake := take_keyOne unique
  rw [h, take_keyData] at htake
  exact absurd htake (by decide)

theorem append_left_injective {s t u : String} (h : s ++ t = s ++ u) : t = u := by
  have hlist := congrArg String.toList h
  rw [String.toList_append, String.toList_append] at hlist
  exact String.toList_inj.mp (List.append_cancel_left hlist)

theorem keyData_injective {id id' : Nat} (h : keyData id = keyData id') : id = id' :=
  HealthCheck.toString_injective (append_left_injective h)

theorem keyOne_injective {u u' : String} (h : keyOne u = keyOne u') : u = u' :=
  append_left_injective h

/-! ### What the operations do to the dict -/

def Op.writes : Op → Option String
  | .add key _ _ | .incr key => some key
  | .get _ | .now | .sleep | .settle _ _ => none

theorem exec_cell (s : Shm) (fault : Option String) (o : Op) {key : String}
    (h : o.writes ≠ some key) : (exec s fault o).2.cell key = s.cell key := by
  cases o with
  | get _ | now | sleep | settle _ _ => rfl
  | add k value exptime =>
      have hne : key ≠ k := fun heq => h (congrArg some heq.symm)
      cases fault with
      | some err => rfl
      | none =>
          simp only [exec, Option.elim, add]
          split
          · rfl
          · exact if_neg hne
  | incr k =>
      have hne : key ≠ k := fun heq => h (congrArg some heq.symm)
      cases fault with
      | some err => rfl
      | none =>
          simp only [exec, Option.elim, incr]
          split
          · rfl
          · rfl
          · exact if_neg hne

@[simp] theorem exec_clock (s : Shm) (fault : Option String) (o : Op) :
    (exec s fault o).2.clock = s.clock := by
  cases o with
  | get _ | now | sleep | settle _ _ => rfl
  | add k value exptime =>
      cases fault with
      | some err => rfl
      | none =>
          simp only [exec, Option.elim, add]
          split <;> rfl
  | incr k =>
      cases fault with
      | some err => rfl
      | none =>
          simp only [exec, Option.elim, incr]
          split <;> rfl

theorem exec_add (s : Shm) (fault : Option String) (key : String) (value : Value)
    (exptime : Option ℚ) :
    (∃ err, exec s fault (.add key value exptime) = (.error err, s)) ∨
      ∃ s', exec s fault (.add key value exptime) = (.ok (), s') ∧ s.lookup key = none ∧
        ∀ j, s'.cell j =
          if j = key then some (value, exptime.map (fun t => s.clock + t)) else s.cell j := by
  cases fault with
  | some err => exact .inl ⟨err, rfl⟩
  | none =>
      simp only [exec, Option.elim, add]
      split
      · exact .inl ⟨_, rfl⟩
      · exact .inr ⟨_, rfl, ‹_›, fun _ => rfl⟩

theorem cell_of_lookup {s : Shm} {key : String} {v : Value} (h : s.lookup key = some v) :
    ∃ t, s.cell key = some (v, t) := by
  obtain ⟨e, he, rfl⟩ := Option.map_eq_some_iff.mp h
  exact ⟨e.2, (Option.filter_eq_some_iff.mp he).1⟩

theorem lookup_of_cell_none {s : Shm} {key : String} (h : s.cell key = none) :
    s.lookup key = none := by
  simp [Ttl.Store.lookup, Ttl.Store.entry, h]

theorem lookup_of_cell {s : Shm} {key : String} {v : Value} (h : s.cell key = some (v, none)) :
    s.lookup key = some v := by
  simp [Ttl.Store.lookup, Ttl.Store.entry, h, Ttl.Store.alive]

/-- The number of the last event. -/
def Counter (s : Shm) (n : Nat) : Prop :=
  s.cell keyLastId = none ∧ n = 0 ∨ s.cell keyLastId = some (.number n, none)

theorem Counter.of_cell {s s' : Shm} {n : Nat} (h : Counter s n)
    (hcell : s'.cell keyLastId = s.cell keyLastId) : Counter s' n := by
  rw [Counter, hcell]
  exact h

theorem Counter.eventId_le {s : Shm} {n : Nat} (h : Counter s n) (fault : Option String) :
    ∃ id ≤ n, eventId (exec s fault (.get keyLastId)).1 = some id := by
  cases fault with
  | some err => exact ⟨0, n.zero_le, rfl⟩
  | none =>
      obtain ⟨hnone, -⟩ | hsome := h
      · refine ⟨0, n.zero_le, ?_⟩
        simp only [exec, Option.elim, get, lookup_of_cell_none hnone]
        rfl
      · refine ⟨n, le_refl n, ?_⟩
        simp only [exec, Option.elim, get, lookup_of_cell hsome]
        rfl

theorem Counter.add {s : Shm} {n : Nat} (h : Counter s n) (fault : Option String) :
    Counter (exec s fault (.add keyLastId (.number 0) none)).2 n := by
  cases fault with
  | some err => exact h
  | none =>
      simp only [exec, Option.elim, WorkerEvents.add]
      split
      · exact h
      · rename_i hlookup
        obtain ⟨-, rfl⟩ | hsome := h
        · right
          simp [Ttl.Store.write]
        · exact absurd (hlookup.symm.trans (lookup_of_cell hsome)) (by simp)

theorem Counter.incr {s : Shm} {n : Nat} (h : Counter s n) (fault : Option String) :
    (∃ err, exec s fault (.incr keyLastId) = (.error err, s)) ∨
      ∃ s', exec s fault (.incr keyLastId) = (.ok (n + 1), s') ∧ Counter s' (n + 1) := by
  cases fault with
  | some err => exact .inl ⟨err, rfl⟩
  | none =>
      obtain ⟨hnone, -⟩ | hsome := h
      · left
        simp only [exec, Option.elim, WorkerEvents.incr, lookup_of_cell_none hnone]
        exact ⟨_, rfl⟩
      · right
        have hdeadline : s.deadline keyLastId = none := by
          simp [Ttl.Store.deadline, Ttl.Store.entry, hsome, Ttl.Store.alive]
        simp only [exec, Option.elim, WorkerEvents.incr, lookup_of_cell hsome]
        refine ⟨_, rfl, .inr ?_⟩
        simp only [Ttl.Store.modify, Ttl.Store.write, hdeadline, if_true]

/-! ### What a worker does next -/

namespace Worker

def cache (w : Worker) : List Fetched :=
  match w.phase with
  | .fetching _ cache | .clocking cache | .handling _ _ cache => cache
  | .configuring | .idle | .raised => []

end Worker

/-- What becomes of the first event in the cache. -/
inductive Settles (decode : Value → Option Event) : Stage → Fetched → Fate → Prop where
  | error (err : String) : Settles decode .look (.error err) .dropped
  | garbled {json : Value} : decode json = none →
      Settles decode .look (.ok (some json)) .garbled
  | handled {json : Value} {e : Event} : decode json = some e → e.unique = none →
      Settles decode .look (.ok (some json)) (.handled e)
  | own (e : Event) (data : Fetched) : Settles decode (.own e) data (.handled e)
  | skip (data : Fetched) : Settles decode .skip data .skipped
  | late (data : Fetched) : Settles decode .late data .dropped

section Next
variable {cfg : Config} {decode : Value → Option Event} {w : Worker}

theorem next_cases {P : (o : Op) → (o.Answer → Worker) → Prop} {o : Op} {k : o.Answer → Worker}
    (h : w.next cfg decode = some ⟨o, k⟩)
    (configure : w.phase = .configuring → P (.get keyLastId) w.configured)
    (poll : w.phase = .idle → P (.get keyLastId) w.polled)
    (fetch : ∀ eventId cache, w.phase = .fetching eventId cache →
      P (.get (keyData (w.lastEvent + 1))) (w.fetched eventId cache))
    (clock : ∀ cache, w.phase = .clocking cache →
      P .now (fun now => w.proceed (now + cfg.waitMax) cache))
    (wait : ∀ expire cache, w.phase = .handling expire .look (.ok none :: cache) →
      P .now (fun now =>
        w.stage expire (.ok none :: cache) (if expire ≤ now then .late else .rest)))
    (rest : ∀ expire data cache, w.phase = .handling expire .rest (data :: cache) →
      P .sleep (fun _ => w.stage expire (data :: cache) .again))
    (again : ∀ expire data cache, w.phase = .handling expire .again (data :: cache) →
      P (.get (keyData (w.lastEvent - cache.length)))
        (fun data => w.stage expire (data :: cache) .look))
    (claim : ∀ expire json cache e unique,
      w.phase = .handling expire .look (.ok (some json) :: cache) → decode json = some e →
      e.unique = some unique → P (.add (keyOne unique) (.number w.pid) (some cfg.timeout))
        (w.mineToHave expire (.ok (some json) :: cache) e))
    (settle : ∀ expire stage data cache fate, w.phase = .handling expire stage (data :: cache) →
      Settles decode stage data fate →
      P (.settle (w.lastEvent - cache.length) fate) (fun _ => w.proceed expire cache)) :
    P o k := by
  simp only [Worker.next] at h
  split at h
  · cases h
    exact configure ‹_›
  · cases h
    exact poll ‹_›
  · cases h
    exact fetch _ _ ‹_›
  · cases h
    exact clock _ ‹_›
  · rename_i expire data cache hphase
    simp only [Worker.look, Option.some.injEq] at h
    cases data with
    | error err =>
        cases h
        exact settle _ _ _ _ _ hphase (.error err)
    | ok data =>
        cases data with
        | none =>
            cases h
            exact wait _ _ hphase
        | some json =>
            cases hdecode : decode json with
            | none =>
                simp only [hdecode] at h
                cases h
                exact settle _ _ _ _ _ hphase (.garbled hdecode)
            | some e =>
                cases hunique : e.unique with
                | none =>
                    simp only [hdecode, hunique] at h
                    cases h
                    exact settle _ _ _ _ _ hphase (.handled hdecode hunique)
                | some unique =>
                    simp only [hdecode, hunique] at h
                    cases h
                    exact claim _ _ _ _ _ hphase hdecode hunique
  · cases h
    exact settle _ _ _ _ _ ‹_› (.own _ _)
  · cases h
    exact settle _ _ _ _ _ ‹_› (.skip _)
  · cases h
    exact settle _ _ _ _ _ ‹_› (.late _)
  · cases h
    exact rest _ _ _ ‹_›
  · cases h
    exact again _ _ _ ‹_›
  · cases h
  · cases h

end Next

/-! ### What was posted -/

def Numbered (procs : List Process) (i id : Nat) : Prop :=
  ∃ q, procs[i]? = some (.posting q) ∧ q.id? = some id

def Posted (procs : List Process) (id : Nat) (json : Value) : Prop :=
  ∃ i : Nat, procs[i]? = some (Process.posting (.posted json id))

theorem Posted.numbered {procs : List Process} {id : Nat} {json : Value}
    (h : Posted procs id json) : ∃ i, Numbered procs i id := by
  obtain ⟨i, hi⟩ := h
  exact ⟨i, _, hi, rfl⟩

/-- What a step leaves behind: a call that has posted its event is over. -/
theorem Posted.set {procs : List Process} {id i : Nat} {json : Value} {t t' : Process}
    (h : Posted procs id json) (ht : procs[i]? = some t)
    (hgoes : ∀ json id, t ≠ .posting (.posted json id)) : Posted (procs.set i t') id json := by
  obtain ⟨j, hj⟩ := h
  refine ⟨j, ?_⟩
  have hne : i ≠ j := by
    intro heq
    rw [heq] at ht
    exact hgoes json id (Option.some.inj (ht.symm.trans hj))
  rw [List.getElem?_set_ne hne]
  exact hj

/-- The data in the cache were posted, the first of them under the number `first`. -/
def Cached (procs : List Process) : Nat → List Fetched → Prop
  | _, [] => True
  | first, data :: cache =>
      (∀ json, data = .ok (some json) → Posted procs first json) ∧ Cached procs (first + 1) cache

theorem Cached.append {procs : List Process} {data : Fetched} {cache : List Fetched} {first : Nat}
    (h : Cached procs first cache)
    (hdata : ∀ json, data = .ok (some json) → Posted procs (first + cache.length) json) :
    Cached procs first (cache ++ [data]) := by
  induction cache generalizing first with
  | nil => exact ⟨hdata, trivial⟩
  | cons d cache ih =>
      refine ⟨h.1, ih h.2 ?_⟩
      rw [Nat.add_assoc, Nat.add_comm 1]
      exact hdata

theorem Cached.mono {procs procs' : List Process} {cache : List Fetched} {first : Nat}
    (h : Cached procs first cache)
    (hposted : ∀ id json, Posted procs id json → Posted procs' id json) :
    Cached procs' first cache := by
  induction cache generalizing first with
  | nil => trivial
  | cons data cache ih =>
      exact ⟨fun json hjson => hposted _ _ (h.1 json hjson), ih h.2⟩

/-! ### Where a worker stands -/

/-- A worker that began after the event `s`, is done with what `tr` says and has the next
events in its cache, up to the event `last`. -/
structure Runs (decode : Value → Option Event) (n : Nat) (procs : List Process)
    (tr : List (Nat × Fate)) (s last : Nat) (cache : List Fetched) : Prop where
  upto : last ≤ n
  since : s + cache.length ≤ last
  cached : Cached procs (last - cache.length + 1) cache
  ids : tr.map Prod.fst = List.range' (s + 1) (last - cache.length - s)
  handled : ∀ id e, (id, .handled e) ∈ tr → ∃ json, Posted procs id json ∧ decode json = some e

section Runs
variable {decode : Value → Option Event} {n : Nat} {procs : List Process}
  {tr : List (Nat × Fate)} {s last : Nat} {data : Fetched} {cache : List Fetched}

theorem Runs.mono {n' : Nat} {procs' : List Process} (h : Runs decode n procs tr s last cache)
    (hn : n ≤ n') (hposted : ∀ id json, Posted procs id json → Posted procs' id json) :
    Runs decode n' procs' tr s last cache := by
  refine ⟨h.upto.trans hn, h.since, h.cached.mono hposted, h.ids, fun id e he => ?_⟩
  obtain ⟨json, hjson, hdecode⟩ := h.handled id e he
  exact ⟨json, hposted id json hjson, hdecode⟩

theorem Runs.start (hlast : last ≤ n) : Runs decode n procs [] last last [] := by
  refine ⟨hlast, le_refl last, trivial, ?_, fun id e he => by cases he⟩
  simp

theorem Runs.fetch (h : Runs decode n procs tr s last cache) (hlast : last + 1 ≤ n)
    (hdata : ∀ json, data = .ok (some json) → Posted procs (last + 1) json) :
    Runs decode n procs tr s (last + 1) (cache ++ [data]) := by
  have hsince := h.since
  have hlength : (cache ++ [data]).length = cache.length + 1 := by
    rw [List.length_append, List.length_singleton]
  have hfirst : last + 1 - (cache ++ [data]).length = last - cache.length := by omega
  refine ⟨hlast, by omega, ?_, by rw [hfirst]; exact h.ids, h.handled⟩
  rw [hfirst]
  refine h.cached.append ?_
  rw [show last - cache.length + 1 + cache.length = last + 1 by omega]
  exact hdata

theorem Runs.again (h : Runs decode n procs tr s last (data :: cache)) {data' : Fetched}
    (hdata : ∀ json, data' = .ok (some json) → Posted procs (last - cache.length) json) :
    Runs decode n procs tr s last (data' :: cache) := by
  have hsince := h.since
  rw [List.length_cons] at hsince
  refine ⟨h.upto, h.since, ⟨?_, h.cached.2⟩, h.ids, h.handled⟩
  rw [List.length_cons, show last - (cache.length + 1) + 1 = last - cache.length by omega]
  exact hdata

theorem Runs.first (h : Runs decode n procs tr s last (data :: cache)) {json : Value}
    (hjson : data = .ok (some json)) : Posted procs (last - cache.length) json := by
  have hsince := h.since
  have hfirst := h.cached.1 json hjson
  rw [List.length_cons] at hsince hfirst
  rwa [show last - (cache.length + 1) + 1 = last - cache.length by omega] at hfirst

theorem Runs.settle (h : Runs decode n procs tr s last (data :: cache)) {fate : Fate}
    (hfate : ∀ e, fate = .handled e → ∃ json, data = .ok (some json) ∧ decode json = some e) :
    Runs decode n procs (tr ++ [(last - cache.length, fate)]) s last cache := by
  have hsince := h.since
  have hids := h.ids
  have hcached := h.cached.2
  rw [List.length_cons] at hsince hids hcached
  rw [show last - (cache.length + 1) + 1 = last - cache.length by omega] at hcached
  refine ⟨h.upto, by omega, hcached, ?_, fun id e he => ?_⟩
  · rw [List.map_append, hids,
      show last - cache.length - s = last - (cache.length + 1) - s + 1 by omega,
      List.range'_concat]
    simp only [List.map_cons, List.map_nil, Nat.one_mul]
    rw [show s + 1 + (last - (cache.length + 1) - s) = last - cache.length by omega]
  · obtain hold | hnew := List.mem_append.mp he
    · exact h.handled id e hold
    · rw [List.mem_singleton, Prod.mk.injEq] at hnew
      obtain ⟨json, hjson, hdecode⟩ := hfate e hnew.2.symm
      exact ⟨json, hnew.1 ▸ h.first hjson, hdecode⟩

end Runs

/-- What the phase of a worker says about events to come. -/
def Staged (decode : Value → Option Event) (n : Nat) (w : Worker) : Prop :=
  match w.phase with
  | .fetching eventId _ => w.lastEvent < eventId ∧ eventId ≤ n
  | .handling _ (.own e) (data :: _) => ∃ json, data = .ok (some json) ∧ decode json = some e
  | _ => True

def Tracks (decode : Value → Option Event) (n : Nat) (procs : List Process)
    (tr : List (Nat × Fate)) (w : Worker) : Prop :=
  w.phase = .configuring ∧ tr = [] ∨
    w.phase ≠ .configuring ∧ Staged decode n w ∧
      ∃ s, Runs decode n procs tr s w.lastEvent w.cache

theorem Tracks.mono {decode : Value → Option Event} {n n' : Nat} {procs procs' : List Process}
    {tr : List (Nat × Fate)} {w : Worker} (h : Tracks decode n procs tr w) (hn : n ≤ n')
    (hposted : ∀ id json, Posted procs id json → Posted procs' id json) :
    Tracks decode n' procs' tr w := by
  obtain hconf | ⟨hphase, hstaged, s, hruns⟩ := h
  · exact .inl hconf
  · refine .inr ⟨hphase, ?_, s, hruns.mono hn hposted⟩
    simp only [Staged] at hstaged ⊢
    split
    · simp only [*] at hstaged
      exact ⟨hstaged.1, hstaged.2.trans hn⟩
    · simp only [*] at hstaged
      exact hstaged
    · trivial

/-! ### What every step keeps -/

/-- The numbers up to `n` have been given out, once each. -/
structure Sound (decode : Value → Option Event) (n : Nat) (p : Server) : Prop where
  counter : Counter p.store n
  numbers : ∀ i id, Numbered p.procs i id → 1 ≤ id ∧ id ≤ n
  given : ∀ id, 1 ≤ id → id ≤ n → ∃ i, Numbered p.procs i id
  once : ∀ i j id, Numbered p.procs i id → Numbered p.procs j id → i = j
  data : ∀ id json t, p.store.cell (keyData id) = some (json, t) → Posted p.procs id json
  workers : ∀ i w, p.procs[i]? = some (.worker w) →
    Tracks decode n p.procs (trace i p.log) w

section Workers
variable {cfg : Config} {decode : Value → Option Event} {n i : Nat} {p : Server} {w : Worker}

theorem Sound.fetched (h : Sound decode n p) (fault : Option String) {id : Nat} {json : Value}
    (hget : (exec p.store fault (.get (keyData id))).1 = .ok (some json)) :
    Posted p.procs id json := by
  cases fault with
  | some err => cases hget
  | none =>
      simp only [exec, Option.elim, get, Except.ok.injEq] at hget
      obtain ⟨t, hcell⟩ := cell_of_lookup hget
      exact h.data id json t hcell

@[simp] theorem cache_proceed (w : Worker) (expire : ℚ) (cache : List Fetched) :
    (w.proceed expire cache).cache = cache := by
  cases cache <;> rfl

theorem phase_proceed (w : Worker) (expire : ℚ) (cache : List Fetched) :
    (w.proceed expire cache).phase = .idle ∨
      (w.proceed expire cache).phase = .handling expire .look cache := by
  cases cache with
  | nil => exact .inl rfl
  | cons data cache => exact .inr rfl

theorem Tracks.proceed {procs : List Process} {tr : List (Nat × Fate)} {s : Nat}
    {cache : List Fetched} (h : Runs decode n procs tr s w.lastEvent cache) (expire : ℚ) :
    Tracks decode n procs tr (w.proceed expire cache) := by
  refine .inr ⟨?_, ?_, s, ?_⟩
  · obtain hphase | hphase := phase_proceed w expire cache <;> simp [hphase]
  · obtain hphase | hphase := phase_proceed w expire cache <;> simp [Staged, hphase]
  · rw [cache_proceed]
    exact h

theorem Tracks.stage {procs : List Process} {tr : List (Nat × Fate)} {s : Nat} {stage : Stage}
    {data : Fetched} {cache : List Fetched}
    (h : Runs decode n procs tr s w.lastEvent (data :: cache)) (expire : ℚ)
    (hown : ∀ e, stage = .own e → ∃ json, data = .ok (some json) ∧ decode json = some e) :
    Tracks decode n procs tr (w.stage expire (data :: cache) stage) := by
  refine .inr ⟨fun hphase => (by cases hphase), ?_, s, h⟩
  cases stage with
  | own e => exact hown e rfl
  | look | skip | late | rest | again => trivial

theorem Tracks.runs {procs : List Process} {tr : List (Nat × Fate)} {cache : List Fetched}
    (h : Tracks decode n procs tr w) (hphase : w.phase ≠ .configuring) (hcache : w.cache = cache) :
    Staged decode n w ∧ ∃ s, Runs decode n procs tr s w.lastEvent cache := by
  obtain hconf | ⟨-, hrest⟩ := h
  · exact absurd hconf.1 hphase
  · exact hcache ▸ hrest

theorem tracks_next (h : Sound decode n p) (hw : p.procs[i]? = some (.worker w))
    {o : Op} {k : o.Answer → Worker} (hnext : w.next cfg decode = some ⟨o, k⟩)
    (fault : Option String) :
    Tracks decode n p.procs (trace i p.log ++ o.settles.toList)
      (k (exec p.store fault o).1) := by
  have htracks := h.workers i w hw
  refine next_cases (P := fun o k => Tracks decode n p.procs (trace i p.log ++ o.settles.toList)
    (k (exec p.store fault o).1)) hnext ?_ ?_ ?_ ?_ ?_ ?_ ?_ ?_ ?_
  · intro hphase
    obtain ⟨id, hle, hid⟩ := h.counter.eventId_le fault
    have htrace : trace i p.log = [] := by
      obtain hconf | hrest := htracks
      · exact hconf.2
      · exact absurd hphase hrest.1
    simp only [Worker.configured, hid, Op.settles, Option.toList_none, List.append_nil, htrace]
    exact .inr ⟨fun hconf => (by cases hconf), trivial, id, Runs.start hle⟩
  · intro hphase
    obtain ⟨-, s, hruns⟩ := htracks.runs (by simp [hphase])
      (show w.cache = [] by simp [Worker.cache, hphase])
    obtain ⟨id, hle, hid⟩ := h.counter.eventId_le fault
    simp only [Worker.polled, hid, Op.settles, Option.toList_none, List.append_nil]
    split
    · exact htracks
    · split
      · rename_i hlt
        exact .inr ⟨fun hconf => (by cases hconf), ⟨hlt, hle⟩, s, hruns⟩
      · exact .inr ⟨fun hconf => (by cases hconf), trivial, s, hruns⟩
  · intro eventId cache hphase
    obtain ⟨hstaged, s, hruns⟩ := htracks.runs (by simp [hphase])
      (show w.cache = cache by simp [Worker.cache, hphase])
    simp only [Staged, hphase] at hstaged
    have hfetch : Runs decode n p.procs (trace i p.log) s (w.lastEvent + 1)
        (cache ++ [(exec p.store fault (.get (keyData (w.lastEvent + 1)))).1]) :=
      hruns.fetch (by omega) (fun json hjson => h.fetched fault hjson)
    simp only [Worker.fetched, Op.settles, Option.toList_none, List.append_nil]
    split
    · rename_i hlt
      exact .inr ⟨fun hconf => (by cases hconf), ⟨hlt, hstaged.2⟩, s, hfetch⟩
    · exact .inr ⟨fun hconf => (by cases hconf), trivial, s, hfetch⟩
  · intro cache hphase
    obtain ⟨-, s, hruns⟩ := htracks.runs (by simp [hphase])
      (show w.cache = cache by simp [Worker.cache, hphase])
    simp only [Op.settles, Option.toList_none, List.append_nil]
    exact .proceed hruns _
  · intro expire cache hphase
    obtain ⟨-, s, hruns⟩ := htracks.runs (by simp [hphase])
      (show w.cache = .ok none :: cache by simp [Worker.cache, hphase])
    simp only [Op.settles, Option.toList_none, List.append_nil]
    refine .stage hruns _ (fun e he => ?_)
    split at he <;> cases he
  · intro expire data cache hphase
    obtain ⟨-, s, hruns⟩ := htracks.runs (by simp [hphase])
      (show w.cache = data :: cache by simp [Worker.cache, hphase])
    simp only [Op.settles, Option.toList_none, List.append_nil]
    exact .stage hruns _ (fun e he => by cases he)
  · intro expire data cache hphase
    obtain ⟨-, s, hruns⟩ := htracks.runs (by simp [hphase])
      (show w.cache = data :: cache by simp [Worker.cache, hphase])
    simp only [Op.settles, Option.toList_none, List.append_nil]
    exact .stage (hruns.again (fun json hjson => h.fetched fault hjson)) _ (fun e he => by cases he)
  · intro expire json cache e unique hphase hdecode _
    obtain ⟨-, s, hruns⟩ := htracks.runs (by simp [hphase])
      (show w.cache = .ok (some json) :: cache by simp [Worker.cache, hphase])
    simp only [Op.settles, Option.toList_none, List.append_nil]
    cases (exec p.store fault (.add (keyOne unique) (.number w.pid) (some cfg.timeout))).1 with
    | ok _ =>
        refine .stage hruns _ (fun e' he => ?_)
        cases he
        exact ⟨json, rfl, hdecode⟩
    | error _ => exact .stage hruns _ (fun e' he => by cases he)
  · intro expire stage data cache fate hphase hsettles
    obtain ⟨hstaged, s, hruns⟩ := htracks.runs (by simp [hphase])
      (show w.cache = data :: cache by simp [Worker.cache, hphase])
    refine .proceed (hruns.settle (fun e he => ?_)) _
    cases hsettles with
    | handled hdecode _ =>
        cases he
        exact ⟨_, rfl, hdecode⟩
    | own e' =>
        cases he
        simpa only [Staged, hphase] using hstaged
    | error | garbled | skip | late => cases he

end Workers

/-! ### The steps -/

theorem trace_append (i j : Nat) (log : List (Interleaving.Event Op Op.Answer)) (o : Op)
    (a : o.Answer) : trace i (log ++ [⟨j, o, a⟩]) =
      trace i log ++ if j = i then o.settles.toList else [] := by
  simp only [trace, List.filterMap_append, List.filterMap_cons, List.filterMap_nil]
  by_cases hj : j = i
  · simp only [if_pos hj]
    cases o.settles <;> rfl
  · simp only [if_neg hj]

section Steps
variable {cfg : Config} {decode : Value → Option Event} {n i : Nat} {p : Server}

theorem numbered_set {t' : Process} {j id : Nat} (hi : i < p.procs.length) :
    Numbered (p.procs.set i t') j id ↔
      if j = i then ∃ q, t' = .posting q ∧ q.id? = some id else Numbered p.procs j id := by
  simp only [Numbered]
  by_cases hj : j = i
  · subst hj
    simp only [List.getElem?_set_self hi, Option.some.injEq, if_true]
  · simp only [List.getElem?_set_ne (Ne.symm hj), if_neg hj]

/-- A step of a process that neither gets nor loses a number. -/
theorem numbered_set_same {t t' : Process} {j id : Nat} (ht : p.procs[i]? = some t)
    (hsame : (∃ q, t' = .posting q ∧ q.id? = some id) ↔ ∃ q, t = .posting q ∧ q.id? = some id) :
    Numbered (p.procs.set i t') j id ↔ Numbered p.procs j id := by
  rw [numbered_set (List.getElem?_eq_some_iff.mp ht).1]
  by_cases hj : j = i
  · rw [if_pos hj, hsame, Numbered, hj, ht]
    simp only [Option.some.injEq]
  · rw [if_neg hj]

theorem workers_set {n' : Nat} {t t' : Process} (h : Sound decode n p)
    (ht : p.procs[i]? = some t) (hgoes : ∀ json id, t ≠ .posting (.posted json id))
    (hn : n ≤ n') (o : Op) (a : o.Answer)
    (hworker : ∀ w, t' = .worker w →
      Tracks decode n p.procs (trace i p.log ++ o.settles.toList) w) :
    ∀ j w, (p.procs.set i t')[j]? = some (.worker w) →
      Tracks decode n' (p.procs.set i t') (trace j (p.log ++ [⟨i, o, a⟩])) w := by
  intro j w hj
  have hposted : ∀ id json, Posted p.procs id json → Posted (p.procs.set i t') id json :=
    fun id json hpost => hpost.set ht hgoes
  rw [trace_append]
  obtain ⟨rfl, hw⟩ | ⟨hne, hw⟩ := getElem?_set_cases hj
  · rw [if_pos rfl]
    exact (hworker w hw.symm).mono hn hposted
  · rw [if_neg (Ne.symm hne), List.append_nil]
    exact (h.workers j w hw).mono hn hposted

theorem worker_writes {w : Worker} {o : Op} {k : o.Answer → Worker}
    (hnext : w.next cfg decode = some ⟨o, k⟩) :
    o.writes = none ∨ ∃ unique, o.writes = some (keyOne unique) := by
  refine next_cases (P := fun o _ => o.writes = none ∨ ∃ unique, o.writes = some (keyOne unique))
    hnext ?_ ?_ ?_ ?_ ?_ ?_ ?_ ?_ ?_
  · exact fun _ => .inl rfl
  · exact fun _ => .inl rfl
  · exact fun _ _ _ => .inl rfl
  · exact fun _ _ => .inl rfl
  · exact fun _ _ _ => .inl rfl
  · exact fun _ _ _ _ => .inl rfl
  · exact fun _ _ _ _ => .inl rfl
  · exact fun _ _ _ _ unique _ _ _ => .inr ⟨unique, rfl⟩
  · exact fun _ _ _ _ _ _ _ => .inl rfl

theorem worker_cell {w : Worker} {o : Op} {k : o.Answer → Worker}
    (hnext : w.next cfg decode = some ⟨o, k⟩) (s : Shm) (fault : Option String) {key : String}
    (hkey : ∀ unique, key ≠ keyOne unique) : (exec s fault o).2.cell key = s.cell key := by
  refine exec_cell s fault o (fun hwrites => ?_)
  obtain hnone | ⟨unique, hone⟩ := worker_writes hnext
  · cases hnone.symm.trans hwrites
  · exact hkey unique (Option.some.inj (hwrites.symm.trans hone))

theorem sound_worker {w : Worker} (h : Sound decode n p) (hw : p.procs[i]? = some (.worker w))
    {o : Op} {k : o.Answer → Worker} (hnext : w.next cfg decode = some ⟨o, k⟩)
    (fault : Option String) :
    Sound decode n ⟨p.procs.set i (.worker (k (exec p.store fault o).1)),
      (exec p.store fault o).2, p.log ++ [⟨i, o, (exec p.store fault o).1⟩]⟩ := by
  have hgoes : ∀ json id, Process.worker w ≠ .posting (.posted json id) :=
    fun _ _ heq => by cases heq
  have hnumbered : ∀ j id, Numbered (p.procs.set i (.worker (k (exec p.store fault o).1))) j id ↔
      Numbered p.procs j id :=
    fun j id => numbered_set_same hw (by simp)
  refine ⟨?_, ?_, ?_, ?_, ?_, ?_⟩
  · exact h.counter.of_cell (worker_cell hnext _ _ (fun u => (keyOne_ne_last u).symm))
  · exact fun j id hj => h.numbers j id ((hnumbered j id).mp hj)
  · intro id hpos hle
    obtain ⟨j, hj⟩ := h.given id hpos hle
    exact ⟨j, (hnumbered j id).mpr hj⟩
  · exact fun j j' id hj hj' => h.once j j' id ((hnumbered j id).mp hj) ((hnumbered j' id).mp hj')
  · intro id json t hcell
    rw [worker_cell hnext _ _ (fun u => (keyOne_ne_data u id).symm)] at hcell
    exact (h.data id json t hcell).set hw hgoes
  · refine workers_set h hw hgoes (le_refl n) o _ (fun w' heq => ?_)
    cases heq
    exact tracks_next h hw hnext fault

/-- A call of post_event that keeps the number it has, if any. -/
theorem sound_posting {q : Posting} (h : Sound decode n p)
    (hq : p.procs[i]? = some (.posting q)) (q' : Posting) {c : (o : Op) × (o.Answer → Posting)}
    (hnext : q.next = some c) (hid : q'.id? = q.id?) (o : Op) (a : o.Answer) {s' : Shm}
    (hcounter : Counter s' n)
    (hdata : ∀ id json t, s'.cell (keyData id) = some (json, t) →
      p.store.cell (keyData id) = some (json, t) ∨ q' = .posted json id) :
    Sound decode n ⟨p.procs.set i (.posting q'), s', p.log ++ [⟨i, o, a⟩]⟩ := by
  have hi := (List.getElem?_eq_some_iff.mp hq).1
  have hgoes : ∀ json id, Process.posting q ≠ .posting (.posted json id) := by
    intro json id heq
    cases heq
    cases hnext
  have hnumbered : ∀ j id, Numbered (p.procs.set i (.posting q')) j id ↔
      Numbered p.procs j id :=
    fun j id => numbered_set_same hq (by simp [hid])
  refine ⟨hcounter, ?_, ?_, ?_, ?_, ?_⟩
  · exact fun j id hj => h.numbers j id ((hnumbered j id).mp hj)
  · intro id hpos hle
    obtain ⟨j, hj⟩ := h.given id hpos hle
    exact ⟨j, (hnumbered j id).mpr hj⟩
  · exact fun j j' id hj hj' => h.once j j' id ((hnumbered j id).mp hj) ((hnumbered j' id).mp hj')
  · intro id json t hcell
    obtain hold | hnew := hdata id json t hcell
    · exact (h.data id json t hold).set hq hgoes
    · exact ⟨i, by rw [List.getElem?_set_self hi, hnew]⟩
  · exact workers_set h hq hgoes (le_refl n) o a (fun w' heq => by cases heq)

/-- A call of post_event that is given the next number. -/
theorem sound_numbering {json : Value} (h : Sound decode n p)
    (hq : p.procs[i]? = some (.posting (.numbering json))) (a : Except String Nat) {s' : Shm}
    (hcounter : Counter s' (n + 1))
    (hcell : ∀ id, s'.cell (keyData id) = p.store.cell (keyData id)) :
    Sound decode (n + 1) ⟨p.procs.set i (.posting (.storing json (n + 1))), s',
      p.log ++ [⟨i, .incr keyLastId, a⟩]⟩ := by
  have hi := (List.getElem?_eq_some_iff.mp hq).1
  have hgoes : ∀ json' id, Process.posting (.numbering json) ≠ .posting (.posted json' id) :=
    fun _ _ heq => by cases heq
  have hother : ∀ id, ¬Numbered p.procs i id := by
    intro id hnum
    obtain ⟨q, hq', hid⟩ := hnum
    cases hq.symm.trans hq'
    cases hid
  have hnumbered : ∀ j id, Numbered (p.procs.set i (.posting (.storing json (n + 1)))) j id ↔
      j = i ∧ id = n + 1 ∨ Numbered p.procs j id := by
    intro j id
    rw [numbered_set hi]
    by_cases hj : j = i
    · rw [if_pos hj, hj]
      constructor
      · intro hnew
        obtain ⟨q, hq', hid⟩ := hnew
        cases hq'
        exact .inl ⟨rfl, (Option.some.inj hid).symm⟩
      · intro hor
        obtain ⟨-, rfl⟩ | hold := hor
        · exact ⟨_, rfl, rfl⟩
        · exact absurd hold (hother id)
    · rw [if_neg hj]
      exact ⟨.inr, fun hor => hor.resolve_left (fun hand => hj hand.1)⟩
  refine ⟨hcounter, ?_, ?_, ?_, ?_, ?_⟩
  · intro j id hj
    obtain ⟨-, rfl⟩ | hold := (hnumbered j id).mp hj
    · omega
    · have hrange := h.numbers j id hold
      omega
  · intro id hpos hle
    by_cases hid : id = n + 1
    · exact ⟨i, (hnumbered i id).mpr (.inl ⟨rfl, hid⟩)⟩
    · obtain ⟨j, hj⟩ := h.given id hpos (by omega)
      exact ⟨j, (hnumbered j id).mpr (.inr hj)⟩
  · intro j j' id hj hj'
    obtain ⟨rfl, rfl⟩ | hold := (hnumbered j id).mp hj
    · obtain ⟨rfl, -⟩ | hold' := (hnumbered j' _).mp hj'
      · rfl
      · have hrange := h.numbers j' _ hold'
        omega
    · obtain ⟨-, rfl⟩ | hold' := (hnumbered j' id).mp hj'
      · have hrange := h.numbers j _ hold
        omega
      · exact h.once j j' id hold hold'
  · intro id json' t hdata
    rw [hcell] at hdata
    exact (h.data id json' t hdata).set hq hgoes
  · refine workers_set h hq hgoes n.le_succ (.incr keyLastId) a (fun w' heq => ?_)
    cases heq

theorem sound_post {q : Posting} (h : Sound decode n p) (hq : p.procs[i]? = some (.posting q))
    {o : Op} {k : o.Answer → Posting} (hnext : q.next = some ⟨o, k⟩) (fault : Option String) :
    ∃ n', Sound decode n' ⟨p.procs.set i (.posting (k (exec p.store fault o).1)),
      (exec p.store fault o).2, p.log ++ [⟨i, o, (exec p.store fault o).1⟩]⟩ := by
  cases q with
  | begun json =>
      cases hnext
      refine ⟨n, sound_posting h hq (.numbering json) rfl rfl _ _ (h.counter.add fault)
        (fun id json' t hcell => .inl ?_)⟩
      have hframe := exec_cell p.store fault (.add keyLastId (.number 0) none)
        (fun heq => keyData_ne_last id (Option.some.inj heq).symm)
      exact hframe ▸ hcell
  | numbering json =>
      cases hnext
      obtain ⟨err, herr⟩ | ⟨s', hok, hcounter⟩ := h.counter.incr fault
      · rw [herr]
        exact ⟨n, sound_posting h hq (.failed none err) rfl rfl _ _ h.counter
          (fun id json' t hcell => .inl hcell)⟩
      · have hcell : ∀ id, s'.cell (keyData id) = p.store.cell (keyData id) := by
          intro id
          have hframe := exec_cell p.store fault (.incr keyLastId)
            (fun heq => keyData_ne_last id (Option.some.inj heq).symm)
          rw [hok] at hframe
          exact hframe
        rw [hok]
        exact ⟨n + 1, sound_numbering h hq _ hcounter hcell⟩
  | storing json id =>
      cases hnext
      have hcounter : Counter (exec p.store fault (.add (keyData id) json none)).2 n :=
        h.counter.of_cell (exec_cell _ _ _ (fun heq => keyData_ne_last id (Option.some.inj heq)))
      obtain ⟨err, herr⟩ | ⟨s', hok, -, hcells⟩ := exec_add p.store fault (keyData id) json none
      · rw [herr] at hcounter ⊢
        exact ⟨n, sound_posting h hq (.failed (some id) err) rfl rfl _ _ hcounter
          (fun id' json' t hcell => .inl hcell)⟩
      · rw [hok] at hcounter ⊢
        refine ⟨n, sound_posting h hq (.posted json id) rfl rfl _ _ hcounter
          (fun id' json' t hcell => ?_)⟩
        rw [hcells] at hcell
        split at hcell
        · rename_i hkey
          cases hcell
          rw [keyData_injective hkey]
          exact .inr rfl
        · exact .inl hcell
  | posted json id | failed id err => cases hnext

/-- The number of the last event is not evicted. -/
def KeepsLast : Server → Label (Option String) Change → Prop
  | _, .outside (.evict key) => key ≠ keyLastId
  | _, .outside (.advance _) | _, .run _ _ => True

theorem sound_outside {s' : Shm} (h : Sound decode n p) (hcounter : Counter s' n)
    (hcell : ∀ key e, s'.cell key = some e → p.store.cell key = some e) :
    Sound decode n { p with store := s' } :=
  ⟨hcounter, h.numbers, h.given, h.once,
    fun id json t hdata => h.data id json t (hcell _ _ hdata), h.workers⟩

theorem sound_step {q : Server} {l : Label (Option String) Change} (h : Sound decode n p)
    (hl : KeepsLast p l) (hstep : (server cfg decode).step p l = some q) :
    ∃ n', Sound decode n' q := by
  obtain ⟨i, fault, t, o, k, rfl, ht, hnext, rfl⟩ | ⟨x, rfl, rfl⟩ := Machine.step_cases _ hstep
  · obtain ⟨c, hc, heq⟩ : ∃ c : (o : Op) × (o.Answer → Process), t.next cfg decode = some c ∧
        c = ⟨o, k⟩ := ⟨_, hnext, rfl⟩
    cases t with
    | posting q =>
        simp only [Process.next, Option.map_eq_some_iff] at hc
        obtain ⟨⟨o', k'⟩, hq, rfl⟩ := hc
        cases heq
        exact sound_post h ht hq fault
    | worker w =>
        simp only [Process.next, Option.map_eq_some_iff] at hc
        obtain ⟨⟨o', k'⟩, hw, rfl⟩ := hc
        cases heq
        exact ⟨n, sound_worker h ht hw fault⟩
  · cases x with
    | advance d => exact ⟨n, sound_outside h (h.counter.of_cell rfl) (fun _ _ he => he)⟩
    | evict key =>
        refine ⟨n, sound_outside h (h.counter.of_cell ?_) (fun key' e he => ?_)⟩
        · exact Function.update_of_ne (Ne.symm hl) _ _
        · by_cases hkey : key' = key
          · subst hkey
            have hnone : Function.update p.store.cell key' none key' = none :=
              Function.update_self ..
            exact absurd (hnone.symm.trans he) (by simp)
          · exact (Function.update_of_ne hkey _ _).symm.trans he

end Steps

/-! ### All runs -/

/-- A call of post_event or a worker before its first operation. -/
inductive Process.New : Process → Prop where
  | posting (json : Value) : New (.posting (.begun json))
  | worker (pid lastEvent : Nat) : New (.worker ⟨pid, lastEvent, .configuring⟩)

/-- The processes to come and a dict without items. -/
def Server.start (procs : List Process) (clock : ℚ) : Server :=
  Pool.start procs ⟨clock, fun _ => none⟩

section Run
variable {cfg : Config} {decode : Value → Option Event} {procs : List Process} {clock : ℚ}
  {p : Server}

theorem sound_start (hnew : ∀ t ∈ procs, t.New) : Sound decode 0 (Server.start procs clock) := by
  have hnone : ∀ i id, ¬Numbered procs i id := by
    intro i id hnum
    obtain ⟨q, hq, hid⟩ := hnum
    cases hnew _ (List.mem_of_getElem? hq)
    cases hid
  refine ⟨.inl ⟨rfl, rfl⟩, ?_, ?_, ?_, ?_, ?_⟩
  · exact fun i id hnum => absurd hnum (hnone i id)
  · intro id hpos hle
    omega
  · exact fun i j id hnum => absurd hnum (hnone i id)
  · intro id json t hcell
    cases hcell
  · intro i w hw
    cases hnew _ (List.mem_of_getElem? hw)
    exact .inl ⟨rfl, rfl⟩

theorem sound_of_reaches (hnew : ∀ t ∈ procs, t.New)
    (h : (server cfg decode).Reaches KeepsLast (Server.start procs clock) p) :
    ∃ n, Sound decode n p :=
  h.invariant (I := fun p => ∃ n, Sound decode n p) ⟨0, sound_start hnew⟩
    (fun _ _ _ hq hl hstep => hq.elim (fun _ hn => sound_step hn hl hstep))

theorem Posted.unique {n id : Nat} {json json' : Value} (hs : Sound decode n p)
    (h : Posted p.procs id json) (h' : Posted p.procs id json') : json = json' := by
  obtain ⟨i, hi⟩ := h
  obtain ⟨j, hj⟩ := h'
  have heq := hs.once i j id ⟨_, hi, rfl⟩ ⟨_, hj, rfl⟩
  subst heq
  cases hi.symm.trans hj
  rfl

theorem Tracks.consecutive {n : Nat} {tr : List (Nat × Fate)} {w : Worker}
    (h : Tracks decode n procs tr w) :
    (∃ s, s + tr.length ≤ n ∧ tr.map Prod.fst = List.range' (s + 1) tr.length) ∧
      ∀ id e, (id, .handled e) ∈ tr → ∃ json, Posted procs id json ∧ decode json = some e := by
  obtain ⟨-, rfl⟩ | ⟨-, -, s, hruns⟩ := h
  · exact ⟨⟨0, by simp, rfl⟩, fun id e he => by cases he⟩
  · have hlength := congrArg List.length hruns.ids
    rw [List.length_map, List.length_range'] at hlength
    have hupto := hruns.upto
    have hsince := hruns.since
    refine ⟨⟨s, by omega, ?_⟩, hruns.handled⟩
    rw [hlength]
    exact hruns.ids

/-- The numbers from 1 on, each of them once. -/
def NumberedOnce (procs : List Process) : Prop :=
  (∃ n, ∀ id, (1 ≤ id ∧ id ≤ n) ↔ ∃ i, Numbered procs i id) ∧
    ∀ i j id, Numbered procs i id → Numbered procs j id → i = j

/-- There is one sequence of events for all workers: each goes through a stretch of it in
order and without gaps, and what it handles under a number is the event of that number. -/
def InOrder (decode : Value → Option Event) (p : Server) : Prop :=
  ∃ (n : Nat) (sequence : Nat → Option Value),
    (∀ id json, sequence id = some json ↔ Posted p.procs id json) ∧
    ∀ i w, p.procs[i]? = some (.worker w) →
      (∃ s, s + (trace i p.log).length ≤ n ∧
        (trace i p.log).map Prod.fst = List.range' (s + 1) (trace i p.log).length) ∧
      ∀ id e, (id, .handled e) ∈ trace i p.log → (sequence id).bind decode = some e

theorem inOrder_of_sound {n : Nat} (hs : Sound decode n p) : InOrder decode p := by
  classical
  have hsequence : ∀ id json,
      (if h : ∃ json, Posted p.procs id json then some h.choose else none) = some json ↔
        Posted p.procs id json := by
    intro id json
    constructor
    · intro hsome
      split at hsome
      · rename_i hex
        cases hsome
        exact hex.choose_spec
      · cases hsome
    · intro hpost
      have hex : ∃ json, Posted p.procs id json := ⟨json, hpost⟩
      rw [dif_pos hex, hex.choose_spec.unique hs hpost]
  refine ⟨n, _, hsequence, fun i w hw => ?_⟩
  obtain ⟨hids, hhandled⟩ := (hs.workers i w hw).consecutive
  refine ⟨hids, fun id e he => ?_⟩
  obtain ⟨json, hpost, hdecode⟩ := hhandled id e he
  rw [(hsequence id json).mpr hpost]
  exact hdecode

theorem numbers_given_once (hnew : ∀ t ∈ procs, t.New)
    (h : (server cfg decode).Reaches KeepsLast (Server.start procs clock) p) :
    NumberedOnce p.procs := by
  obtain ⟨n, hs⟩ := sound_of_reaches hnew h
  refine ⟨⟨n, fun id => ⟨fun hid => hs.given id hid.1 hid.2, fun hex => ?_⟩⟩, hs.once⟩
  obtain ⟨i, hi⟩ := hex
  exact hs.numbers i id hi

theorem delivered_in_order (hnew : ∀ t ∈ procs, t.New)
    (h : (server cfg decode).Reaches KeepsLast (Server.start procs clock) p) :
    InOrder decode p := by
  obtain ⟨n, hs⟩ := sound_of_reaches hnew h
  exact inOrder_of_sound hs

end Run

/-! ### A run -/

def sampleEvent : Event := ⟨"lua-resty-healthcheck", "healthy", .nil, some "a", some 7⟩

def sampleDecode (v : Value) : Option Event := if v = .text "e" then some sampleEvent else none

def sampleConfig : Config := ⟨2, 1 / 2, two_pos, one_half_pos.le⟩

/-- Two posts and two workers. -/
def sampleProcs : List Process :=
  [.posting (.begun (.text "e")), .posting (.begun (.text "f")),
    .worker ⟨1, 0, .configuring⟩, .worker ⟨2, 0, .configuring⟩]

theorem sampleProcs_new : ∀ t ∈ sampleProcs, t.New := by
  intro t ht
  simp only [sampleProcs, List.mem_cons, List.not_mem_nil, or_false] at ht
  obtain rfl | rfl | rfl | rfl := ht
  · exact .posting _
  · exact .posting _
  · exact .worker 1 0
  · exact .worker 2 0

/-- Both posts overtake each other, both workers go through both events. -/
def sampleRun : List (Label (Option String) Change) :=
  [.run 2 none, .run 3 none, .run 0 none, .run 1 none, .run 1 none, .run 0 none,
    .run 2 none, .run 0 none, .run 1 none] ++
    List.replicate 8 (.run 2 none) ++ [.outside (.advance 1)] ++ List.replicate 8 (.run 3 none)

instance (p : Server) (l : Label (Option String) Change) : Decidable (KeepsLast p l) :=
  match l with
  | .outside (.evict key) => inferInstanceAs (Decidable (key ≠ keyLastId))
  | .outside (.advance _) => isTrue trivial
  | .run _ _ => isTrue trivial

theorem numbers_given_once_two :
    ∃ p : Server, p.procs.length = 4 ∧ NumberedOnce p.procs := by
  obtain ⟨p, hp, hlength⟩ := Machine.exists_reaches_if (server sampleConfig sampleDecode)
    (C := KeepsLast) (fun p => p.procs.length) (p := Server.start sampleProcs 100) sampleRun
    (b := 4) (by decide +kernel)
  exact ⟨p, hlength, numbers_given_once sampleProcs_new hp⟩

theorem delivered_in_order_two : ∃ p : Server,
    (trace 2 p.log, trace 3 p.log) =
      ([(1, .garbled), (2, .handled sampleEvent)], [(1, .garbled), (2, .skipped)]) ∧
    InOrder sampleDecode p := by
  obtain ⟨p, hp, htraces⟩ := Machine.exists_reaches_if (server sampleConfig sampleDecode)
    (C := KeepsLast) (fun p => (trace 2 p.log, trace 3 p.log))
    (p := Server.start sampleProcs 100) sampleRun
    (b := ([(1, .garbled), (2, .handled sampleEvent)], [(1, .garbled), (2, .skipped)]))
    (by decide +kernel)
  exact ⟨p, htraces, delivered_in_order sampleProcs_new hp⟩

end WorkerEvents
end OpenrestyGateway
