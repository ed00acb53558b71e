import OpenrestyGateway.HealthTargets

/-!
resty/healthcheck.lua: the target list in the dict and the targets of all workers.

The list is changed under a lock; what has changed is posted as events, each worker handles
them in their order. A new checker loads the list, and only then subscribes to the events: what
is posted in between does not reach it.
-/
namespace OpenrestyGateway
namespace HealthTargets

open Healthcheck (Health)

structure Entry where
  name : Name
  hostheader : Option String
  purgeTime : Option ℚ

/-- The checker of a worker; `complete` where nothing was posted between loading and
subscribing. -/
structure Worker where
  targets : Targets
  handled : Nat
  subscribed : Bool
  complete : Bool

/-- `states` by the data that key_for has made the key of; `pending` is what the holder of the
lock of the list has still to post. -/
structure Cluster where
  list : List Entry
  states : Data → Option Health
  pending : List Event
  log : List Event
  workers : List Worker

/-- `get_target_status` -/
def Targets.getTargetStatus (t : Targets) (name : Name) : Option Bool :=
  (t.find name).map (fun health => health = some .healthy || health = some .mostlyHealthy)

def Entry.isOf (d : Data) (e : Entry) : Bool :=
  e.name.ip = d.ip ∧ e.name.port = d.port ∧ some e.name.hostname = d.hostname

def Entry.stale (curTime : ℚ) (e : Entry) : Bool := e.purgeTime.any (fun t => t ≤ curTime)

def healthOf (isHealthy : Bool) : Health := if isHealthy then .healthy else .unhealthy

namespace Cluster

def names (C : Cluster) : List Name := C.list.map Entry.name

def setState (C : Cluster) (d : Data) (health : Option Health) : Cluster :=
  { C with states := Function.update C.states d health }

/-- `clear_target_data_from_shm` -/
def clearData (C : Cluster) (d : Data) : Cluster := C.setState d none

def setWorker (C : Cluster) (i : Nat) (w : Worker) : Cluster :=
  { C with workers := C.workers.set i w }

/-- A target that is there and marked for removal is kept, with what the worker knows. -/
def addTarget (C : Cluster) (w : Worker) (d : Data) (isHealthy : Bool)
    (hostheader : Option String) : Cluster :=
  match C.list.find? (fun e => e.name = d.name) with
  | some e =>
      if e.purgeTime = none then C
      else
        { C.setState d.name.data
            (healthOf ((w.targets.getTargetStatus d.name).getD false)) with
          list := C.list.modify (C.list.findIdx (fun e => e.name = d.name))
            (fun e => { e with purgeTime := none }) }
  | none =>
      { C.setState d.name.data (healthOf isHealthy) with
        list := C.list ++ [⟨d.name, hostheader, none⟩]
        pending := [.status (healthOf isHealthy) d.name.data] }

def removeTarget (C : Cluster) (d : Data) : Cluster :=
  if C.list.any (Entry.isOf d) then
    { C.clearData d with list := C.list.eraseP (Entry.isOf d), pending := [.remove d] }
  else C

def clear (C : Cluster) (i : Nat) (w : Worker) : Cluster :=
  { (C.list.foldl (fun C e => C.clearData e.name.data) C).setWorker i
      { w with targets := { w.targets with list := [], hash := ∅ } } with
    list := [], pending := [.clear] }

def delayedClear (C : Cluster) (purgeTime : ℚ) : Cluster :=
  { C with list := C.list.map (fun e => { e with purgeTime := some purgeTime }) }

/-- The removal of what is marked, in the timer of active checks. -/
def cleanup (C : Cluster) (curTime : ℚ) : Cluster :=
  let removed := C.list.filter (Entry.stale curTime)
  if removed.isEmpty then C
  else
    { removed.foldl (fun C e => C.clearData e.name.data) C with
      list := C.list.filter (fun e => !Entry.stale curTime e)
      pending := removed.map (fun e => .remove e.name.data) }

/-- incr_counter where the health changes, set_target_status. -/
def report (C : Cluster) (health : Health) (d : Data) : Cluster :=
  { C.setState d health with log := C.log ++ [.status health d] }

def load (C : Cluster) : Cluster :=
  { C with workers := C.workers ++
      [⟨.load C.names (fun name => C.states name.data), C.log.length, false, true⟩] }

def subscribe (C : Cluster) (i : Nat) (w : Worker) : Cluster :=
  C.setWorker i ⟨w.targets, C.log.length, true, w.handled = C.log.length⟩

def handle (C : Cluster) (i : Nat) (w : Worker) (e : Event) : Cluster :=
  C.setWorker i { w with targets := w.targets.eventHandler e, handled := w.handled + 1 }

end Cluster

inductive Label where
  | add (i : Nat) (d : Data) (isHealthy : Bool) (hostheader : Option String)
  | remove (d : Data)
  | clear (i : Nat)
  | delayedClear (purgeTime : ℚ)
  | cleanup (curTime : ℚ)
  | post
  | report (health : Health) (d : Data)
  | load
  | subscribe (i : Nat)
  | handle (i : Nat)

namespace Cluster

/-- The lock of the list is free. -/
def free (C : Cluster) : Bool := C.pending.isEmpty

def step (C : Cluster) : Label → Option Cluster
  | .add i d isHealthy hostheader =>
      if C.free then (C.workers[i]?).map (fun w => C.addTarget w d isHealthy hostheader) else none
  | .remove d => if C.free then some (C.removeTarget d) else none
  | .clear i => if C.free then (C.workers[i]?).map (fun w => C.clear i w) else none
  | .delayedClear purgeTime => if C.free then some (C.delayedClear purgeTime) else none
  | .cleanup curTime => if C.free then some (C.cleanup curTime) else none
  | .post =>
      match C.pending with
      | [] => none
      | e :: rest => some { C with pending := rest, log := C.log ++ [e] }
  | .report health d => some (C.report health d)
  | .load => if C.free then some C.load else none
  | .subscribe i =>
      (C.workers[i]?).bind (fun w => if w.subscribed then none else some (C.subscribe i w))
  | .handle i =>
      (C.workers[i]?).bind (fun w =>
        if w.subscribed then (C.log[w.handled]?).map (fun e => C.handle i w e) else none)

def start : Cluster := ⟨[], fun _ => none, [], [], []⟩

end Cluster

/-- The clusters reached by runs in which every step meets `ok`. -/
inductive Reaches (ok : Cluster → Label → Prop) : Cluster → Prop where
  | start : Reaches ok .start
  | step {C C' : Cluster} {l : Label} :
      Reaches ok C → ok C l → C.step l = some C' → Reaches ok C'

/-! ### What a worker will know -/

/-- Whether a name is known after an event. -/
def Event.after (name : Name) (known : Bool) : Event → Bool
  | .status _ d => name = d.name || known
  | .remove d => name ≠ d.name && known
  | .clear => false

theorem apply_isSome (e : Event) (f : Name → Option (Option Health)) (name : Name) :
    (e.apply f name).isSome = e.after name (f name).isSome := by
  cases e with
  | status health d =>
      by_cases hname : name = d.name
      · simp [Event.apply, Event.after, hname]
      · simp [Event.apply, Event.after, hname]
  | remove d =>
      by_cases hname : name = d.name
      · simp [Event.apply, Event.after, hname]
      · simp [Event.apply, Event.after, hname]
  | clear => rfl

def afterAll (name : Name) (known : Bool) (events : List Event) : Bool :=
  events.foldl (Event.after name) known

theorem afterAll_append (name : Name) (known : Bool) (events events' : List Event) :
    afterAll name known (events ++ events') = afterAll name (afterAll name known events) events' :=
  List.foldl_append

theorem afterAll_mono {name : Name} {known known' : Bool} (hle : known = true → known' = true)
    {events : List Event} (h : afterAll name known events = true) :
    afterAll name known' events = true := by
  induction events generalizing known known' with
  | nil => exact hle h
  | cons e events ih =>
      refine ih (fun hafter => ?_) h
      cases e with
      | status health d =>
          simp only [Event.after, Bool.or_eq_true] at hafter ⊢
          exact hafter.imp_right hle
      | remove d =>
          simp only [Event.after, Bool.and_eq_true] at hafter ⊢
          exact ⟨hafter.1, hle hafter.2⟩
      | clear => cases hafter

/-- What is known when all that is posted and pending is handled. -/
def Cluster.future (C : Cluster) (w : Worker) (name : Name) : Bool :=
  afterAll name (w.targets.find name).isSome (C.log.drop w.handled ++ C.pending)

/-- A worker whose checker has missed nothing will know the targets of the list; where reports
are up to date, it will know no others. -/
structure Agree (exact : Prop) (C : Cluster) : Prop where
  nodup : C.names.Nodup
  full : ∀ e ∈ C.log ++ C.pending, e.Full
  handled : ∀ w ∈ C.workers, w.handled ≤ C.log.length
  consistent : ∀ w ∈ C.workers, Consistent w.targets
  loading : ∀ w ∈ C.workers, w.subscribed = false → w.complete = true
  missing : ∀ w ∈ C.workers, w.complete = true → ∀ name ∈ C.names, C.future w name = true
  exact : exact → ∀ w ∈ C.workers, w.complete = true →
    ∀ name, C.future w name = true → name ∈ C.names

/-- A target is reported by a worker that knows it and has missed nothing so far. -/
def Fresh (C : Cluster) : Label → Prop
  | .report _ d => ∃ w ∈ C.workers, w.complete = true ∧ w.handled = C.log.length ∧
      (w.targets.find d.name).isSome
  | .add _ _ _ _ | .remove _ | .clear _ | .delayedClear _ | .cleanup _ | .post | .load
  | .subscribe _ | .handle _ => True

section Steps
variable {exact : Prop} {C : Cluster} {i : Nat} {w : Worker}

theorem free_eq (h : C.free = true) : C.pending = [] := List.isEmpty_iff.mp h

/-- The list changes, and the events that will be posted say so. -/
theorem Agree.change (h : Agree exact C) (hfree : C.pending = []) {C' : Cluster}
    (hlog : C'.log = C.log) (hworkers : C'.workers = C.workers) (hnodup : C'.names.Nodup)
    (hfull : ∀ e ∈ C'.pending, e.Full)
    (hmeans : ∀ name, afterAll name (decide (name ∈ C.names)) C'.pending =
      decide (name ∈ C'.names)) : Agree exact C' := by
  have hfuture : ∀ w name, C'.future w name = afterAll name (C.future w name) C'.pending := by
    intro w name
    simp only [Cluster.future, hlog, hfree, List.append_nil, afterAll_append]
  refine ⟨hnodup, ?_, ?_, ?_, ?_, ?_, ?_⟩
  · intro e he
    rw [hlog] at he
    cases List.mem_append.mp he with
    | inl hold => exact h.full e (List.mem_append_left _ hold)
    | inr hnew => exact hfull e hnew
  · rw [hworkers, hlog]
    exact h.handled
  · rw [hworkers]
    exact h.consistent
  · rw [hworkers]
    exact h.loading
  · intro w hw hcomplete name hname
    rw [hworkers] at hw
    rw [hfuture]
    refine afterAll_mono (fun hold => ?_) ((hmeans name).trans (decide_eq_true hname))
    exact h.missing w hw hcomplete name (of_decide_eq_true hold)
  · intro hexact w hw hcomplete name hknown
    rw [hworkers] at hw
    rw [hfuture] at hknown
    have hold : C.future w name = true → decide (name ∈ C.names) = true :=
      fun hold => decide_eq_true (h.exact hexact w hw hcomplete name hold)
    exact of_decide_eq_true ((hmeans name).symm.trans (afterAll_mono hold hknown))

/-- Nothing is posted, and the names stay. -/
theorem Agree.same (h : Agree exact C) (hfree : C.pending = []) {C' : Cluster}
    (hlog : C'.log = C.log) (hworkers : C'.workers = C.workers) (hnames : C'.names = C.names)
    (hpending : C'.pending = []) : Agree exact C' := by
  refine h.change hfree hlog hworkers (hnames ▸ h.nodup) ?_ (fun name => ?_)
  · rw [hpending]
    exact fun e he => absurd he (List.not_mem_nil)
  · rw [hpending, hnames]
    rfl

theorem map_modify_name (list : List Entry) (j : Nat) (f : Entry → Entry)
    (hf : ∀ e, (f e).name = e.name) : (list.modify j f).map Entry.name = list.map Entry.name := by
  induction list generalizing j with
  | nil => cases j <;> rfl
  | cons e list ih =>
      cases j with
      | zero => simp [hf]
      | succ j => simp [ih j]

theorem agree_addTarget (h : Agree exact C) (hfree : C.pending = []) (w : Worker) (d : Data)
    (isHealthy : Bool) (hostheader : Option String) :
    Agree exact (C.addTarget w d isHealthy hostheader) := by
  simp only [Cluster.addTarget]
  split
  · split
    · exact h
    · exact h.same hfree rfl rfl (map_modify_name _ _ _ (fun _ => rfl)) hfree
  · rename_i hnone
    have hnew : d.name ∉ C.names := by
      intro hmem
      obtain ⟨e, he, hname⟩ := List.mem_map.mp hmem
      have hno := List.find?_eq_none.mp hnone e he
      exact hno (decide_eq_true hname)
    refine h.change hfree rfl rfl ?_ ?_ (fun name => ?_)
    · simp only [Cluster.names, List.map_append, List.map_cons, List.map_nil]
      exact List.nodup_append.mpr ⟨h.nodup, List.nodup_singleton _,
        fun a ha b hb heq => hnew (List.mem_singleton.mp hb ▸ heq ▸ ha)⟩
    · intro e he
      rw [List.mem_singleton.mp he]
      trivial
    · have hdata : d.name.data.name = d.name := rfl
      simp only [afterAll, List.foldl_cons, List.foldl_nil, Event.after, hdata, Cluster.names,
        List.map_append, List.map_cons, List.map_nil, List.mem_append, List.mem_singleton]
      by_cases hname : name = d.name
      · simp [hname]
      · simp [hname]

theorem isOf_iff {d : Data} {e : Entry} :
    Entry.isOf d e = true ↔ d.hostname = some e.name.hostname ∧ e.name = d.name := by
  obtain ⟨⟨ip, port, hostname⟩, hostheader, purgeTime⟩ := e
  obtain ⟨ip', port', hostname'⟩ := d
  cases hostname' with
  | none => simp [Entry.isOf]
  | some host =>
      simp only [Entry.isOf, Data.name, Option.getD_some, decide_eq_true_eq, Option.some.injEq,
        Name.mk.injEq]
      constructor
      · intro hall
        exact ⟨hall.2.2.symm, hall.1, hall.2.1, hall.2.2⟩
      · intro hall
        exact ⟨hall.2.1, hall.2.2.1, hall.1.symm⟩

theorem names_unique {list : List Entry} (hnodup : (list.map Entry.name).Nodup) {e e' : Entry}
    (he : e ∈ list) (he' : e' ∈ list) (hname : e.name = e'.name) : e = e' :=
  List.inj_on_of_nodup_map hnodup he he' hname

theorem agree_removeTarget (h : Agree exact C) (hfree : C.pending = []) (d : Data) :
    Agree exact (C.removeTarget d) := by
  simp only [Cluster.removeTarget]
  split
  · rename_i hany
    obtain ⟨e, he, hof⟩ := List.any_eq_true.mp hany
    obtain ⟨hhostname, hname⟩ := isOf_iff.mp hof
    refine h.change hfree rfl rfl ?_ ?_ (fun name => ?_)
    · exact h.nodup.sublist (List.eraseP_sublist.map _)
    · intro e' he'
      rw [List.mem_singleton.mp he']
      simp [Event.Full, hhostname]
    · have hunique : ∀ x ∈ C.list, ∀ y ∈ C.list, Entry.isOf d x → Entry.isOf d y → x = y :=
        fun x hx y hy hpx hpy => names_unique h.nodup hx hy
          ((isOf_iff.mp hpx).2.trans (isOf_iff.mp hpy).2.symm)
      have hnodup : C.list.Nodup := List.Nodup.of_map _ h.nodup
      have hmem : name ∈ (C.list.eraseP (Entry.isOf d)).map Entry.name ↔
          name ≠ d.name ∧ name ∈ C.names := by
        simp only [List.mem_map, mem_eraseP_unique hnodup hunique, Cluster.names]
        constructor
        · intro hin
          obtain ⟨x, ⟨hx, hnot⟩, hxname⟩ := hin
          refine ⟨fun heq => hnot (isOf_iff.mpr ⟨?_, hxname.trans heq⟩), x, hx, hxname⟩
          rw [hhostname, hxname, heq, ← hname]
        · intro hin
          obtain ⟨hne, x, hx, hxname⟩ := hin
          exact ⟨x, ⟨hx, fun hof' => hne (hxname.symm.trans (isOf_iff.mp hof').2)⟩, hxname⟩
      simp only [afterAll, List.foldl_cons, List.foldl_nil, Event.after]
      rw [Bool.eq_iff_iff, Bool.and_eq_true, decide_eq_true_iff, decide_eq_true_iff,
        decide_eq_true_iff]
      exact hmem.symm
  · exact h

theorem clearData_fold (es : List Entry) (C : Cluster) :
    (es.foldl (fun C e => C.clearData e.name.data) C).log = C.log ∧
      (es.foldl (fun C e => C.clearData e.name.data) C).workers = C.workers := by
  induction es generalizing C with
  | nil => exact ⟨rfl, rfl⟩
  | cons e es ih => exact ih (C.clearData e.name.data)

theorem afterAll_removes (name : Name) (known : Bool) (es : List Entry) :
    afterAll name known (es.map (fun e => .remove e.name.data)) =
      (decide (name ∉ es.map Entry.name) && known) := by
  induction es generalizing known with
  | nil => simp [afterAll]
  | cons e es ih =>
      have hdata : e.name.data.name = e.name := rfl
      rw [afterAll, List.map_cons, List.foldl_cons]
      refine (ih _).trans ?_
      by_cases hname : name = e.name
      · simp [Event.after, hdata, hname]
      · simp [Event.after, hdata, hname]

theorem agree_cleanup (h : Agree exact C) (hfree : C.pending = []) (curTime : ℚ) :
    Agree exact (C.cleanup curTime) := by
  simp only [Cluster.cleanup]
  split
  · exact h
  · obtain ⟨hlog, hworkers⟩ := clearData_fold (C.list.filter (Entry.stale curTime)) C
    refine h.change hfree hlog hworkers ?_ ?_ (fun name => ?_)
    · exact h.nodup.sublist (List.filter_sublist.map _)
    · intro e he
      obtain ⟨x, hx, rfl⟩ := List.mem_map.mp he
      rfl
    · rw [afterAll_removes, Bool.eq_iff_iff, Bool.and_eq_true, decide_eq_true_iff,
        decide_eq_true_iff, decide_eq_true_iff]
      simp only [Cluster.names, List.mem_map, List.mem_filter]
      constructor
      · intro hboth
        obtain ⟨hout, x, hx, hname⟩ := hboth
        refine ⟨x, ⟨hx, ?_⟩, hname⟩
        rw [Bool.not_eq_true']
        exact Bool.eq_false_iff.mpr (fun hstale => hout ⟨x, ⟨hx, hstale⟩, hname⟩)
      · intro hin
        obtain ⟨x, ⟨hx, hfresh⟩, hname⟩ := hin
        refine ⟨fun hout => ?_, x, hx, hname⟩
        obtain ⟨y, ⟨hy, hstale⟩, hname'⟩ := hout
        rw [names_unique h.nodup hx hy (hname.trans hname'.symm), hstale] at hfresh
        cases hfresh

theorem agree_clear (h : Agree exact C) (hw : C.workers[i]? = some w) :
    Agree exact (C.clear i w) := by
  obtain ⟨hlog, hworkers⟩ := clearData_fold C.list C
  have hlog' : (C.clear i w).log = C.log := hlog
  have hold := List.mem_of_getElem? hw
  -- the worker forgets its targets at once, the others with the event
  have hcases : ∀ w' ∈ (C.clear i w).workers, ∃ w'' ∈ C.workers, w'.handled = w''.handled ∧
      w'.subscribed = w''.subscribed ∧ w'.complete = w''.complete ∧ Consistent w'.targets := by
    intro w' hmem
    have hset : w' ∈ C.workers.set i
        { w with targets := { w.targets with list := [], hash := ∅ } } := hworkers ▸ hmem
    cases List.mem_or_eq_of_mem_set hset with
    | inl hin => exact ⟨w', hin, rfl, rfl, rfl, h.consistent w' hin⟩
    | inr heq => exact ⟨w, hold, by rw [heq], by rw [heq], by rw [heq],
        heq ▸ consistent_empty w.targets.heap⟩
  have hfuture : ∀ w' name, (C.clear i w).future w' name = false := by
    intro w' name
    simp only [Cluster.future, Cluster.clear, afterAll, List.foldl_append, List.foldl_cons,
      List.foldl_nil, Event.after]
  refine ⟨List.nodup_nil, ?_, ?_, ?_, ?_, ?_, ?_⟩
  · intro e he
    rw [hlog'] at he
    cases List.mem_append.mp he with
    | inl hin => exact h.full e (List.mem_append_left _ hin)
    | inr hnew =>
        rw [List.mem_singleton.mp hnew]
        trivial
  · intro w' hmem
    obtain ⟨w'', hin, hhandled, -⟩ := hcases w' hmem
    rw [hhandled, hlog']
    exact h.handled w'' hin
  · intro w' hmem
    obtain ⟨-, -, -, -, -, hconsistent⟩ := hcases w' hmem
    exact hconsistent
  · intro w' hmem hsub
    obtain ⟨w'', hin, -, hsubscribed, hcomplete, -⟩ := hcases w' hmem
    rw [hcomplete]
    exact h.loading w'' hin (hsubscribed ▸ hsub)
  · intro w' _ _ name hname
    exact absurd hname (List.not_mem_nil)
  · intro _ w' _ _ name hknown
    rw [hfuture] at hknown
    cases hknown

/-- One worker changes, and its future does not. -/
theorem Agree.worker (h : Agree exact C) (hw : C.workers[i]? = some w) (w' : Worker)
    (hhandled : w'.handled ≤ C.log.length) (hconsistent : Consistent w'.targets)
    (hloading : w'.subscribed = false → w'.complete = true)
    (hfuture : w'.complete = true →
      w.complete = true ∧ ∀ name, C.future w' name = C.future w name) :
    Agree exact (C.setWorker i w') := by
  have hold := List.mem_of_getElem? hw
  have hcases : ∀ x ∈ (C.setWorker i w').workers, x ∈ C.workers ∨ x = w' :=
    fun x hmem => List.mem_or_eq_of_mem_set hmem
  refine ⟨h.nodup, h.full, fun x hmem => ?_, fun x hmem => ?_, fun x hmem hsub => ?_,
    fun x hmem hcomplete name hname => ?_, fun hexact x hmem hcomplete name hknown => ?_⟩
  · cases hcases x hmem with
    | inl hin => exact h.handled x hin
    | inr heq => exact heq ▸ hhandled
  · cases hcases x hmem with
    | inl hin => exact h.consistent x hin
    | inr heq => exact heq ▸ hconsistent
  · cases hcases x hmem with
    | inl hin => exact h.loading x hin hsub
    | inr heq => exact heq ▸ hloading (heq ▸ hsub)
  · cases hcases x hmem with
    | inl hin => exact h.missing x hin hcomplete name hname
    | inr heq =>
        obtain ⟨hcomplete', hsame⟩ := hfuture (heq ▸ hcomplete)
        exact heq ▸ (hsame name).trans (h.missing w hold hcomplete' name hname)
  · cases hcases x hmem with
    | inl hin => exact h.exact hexact x hin hcomplete name hknown
    | inr heq =>
        obtain ⟨hcomplete', hsame⟩ := hfuture (heq ▸ hcomplete)
        exact h.exact hexact w hold hcomplete' name ((hsame name).symm.trans (heq ▸ hknown))

theorem agree_subscribe (h : Agree exact C) (hw : C.workers[i]? = some w)
    (hsub : w.subscribed = false) : Agree exact (C.subscribe i w) := by
  have hold := List.mem_of_getElem? hw
  refine h.worker hw _ le_rfl (h.consistent w hold) (fun hsub' => by cases hsub')
    (fun hcomplete => ⟨h.loading w hold hsub, fun name => ?_⟩)
  have hhandled : w.handled = C.log.length := of_decide_eq_true hcomplete
  simp only [Cluster.future, hhandled]

theorem agree_handle (h : Agree exact C) (hw : C.workers[i]? = some w)
    (hsub : w.subscribed = true) {e : Event} (he : C.log[w.handled]? = some e) :
    Agree exact (C.handle i w e) := by
  have hold := List.mem_of_getElem? hw
  have hconsistent := h.consistent w hold
  have hfull := h.full e (List.mem_append_left _ (List.mem_of_getElem? he))
  obtain ⟨hlt, hget⟩ := List.getElem?_eq_some_iff.mp he
  refine h.worker hw _ hlt (hconsistent.event hfull) (fun hsub' => ?_)
    (fun hcomplete => ⟨hcomplete, fun name => ?_⟩)
  · rw [hsub] at hsub'
    cases hsub'
  · have hdrop : C.log.drop w.handled = e :: C.log.drop (w.handled + 1) := by
      rw [List.drop_eq_getElem_cons hlt, hget]
    simp only [Cluster.future, hdrop, find_event hconsistent hfull, apply_isSome]
    rfl

theorem agree_load (h : Agree exact C) (hfree : C.pending = []) : Agree exact C.load := by
  obtain ⟨hconsistent, hfind⟩ := load_spec h.nodup (fun name => C.states name.data)
  let new : Worker := ⟨.load C.names (fun name => C.states name.data), C.log.length, false, true⟩
  have hfuture : ∀ name, C.load.future new name = decide (name ∈ C.names) := by
    intro name
    have hdrop : C.log.drop new.handled ++ C.pending = [] := by
      rw [hfree, List.append_nil]
      exact List.drop_length
    have hknown : (new.targets.find name).isSome = decide (name ∈ C.names) := by
      rw [hfind]
      split
      · rename_i hmem
        exact (decide_eq_true hmem).symm
      · rename_i hmem
        exact (decide_eq_false hmem).symm
    exact (congrArg (afterAll name _) hdrop).trans hknown
  have hcases : ∀ x ∈ C.load.workers, x ∈ C.workers ∨ x = new :=
    fun x hmem => (List.mem_append.mp hmem).imp_right List.mem_singleton.mp
  refine ⟨h.nodup, h.full, fun x hmem => ?_, fun x hmem => ?_, fun x hmem hsub => ?_,
    fun x hmem hcomplete name hname => ?_, fun hexact x hmem hcomplete name hknown => ?_⟩
  · cases hcases x hmem with
    | inl hin => exact h.handled x hin
    | inr heq => exact heq ▸ le_rfl
  · cases hcases x hmem with
    | inl hin => exact h.consistent x hin
    | inr heq => exact heq ▸ hconsistent
  · cases hcases x hmem with
    | inl hin => exact h.loading x hin hsub
    | inr heq => exact heq ▸ rfl
  · cases hcases x hmem with
    | inl hin => exact h.missing x hin hcomplete name hname
    | inr heq => exact heq ▸ (hfuture name).trans (decide_eq_true hname)
  · cases hcases x hmem with
    | inl hin => exact h.exact hexact x hin hcomplete name hknown
    | inr heq => exact of_decide_eq_true ((hfuture name).symm.trans (heq ▸ hknown))

theorem agree_post (h : Agree exact C) {e : Event} {rest : List Event}
    (hpending : C.pending = e :: rest) :
    Agree exact { C with pending := rest, log := C.log ++ [e] } := by
  have hfuture : ∀ w ∈ C.workers, ∀ name,
      ({ C with pending := rest, log := C.log ++ [e] } : Cluster).future w name =
        C.future w name := by
    intro w hw name
    simp only [Cluster.future, hpending, List.drop_append_of_le_length (h.handled w hw),
      List.append_assoc, List.singleton_append]
  refine ⟨h.nodup, ?_, fun w hw => ?_, h.consistent, h.loading,
    fun w hw hcomplete name hname => ?_, fun hexact w hw hcomplete name hknown => ?_⟩
  · intro e' he'
    rw [List.append_assoc, List.singleton_append] at he'
    exact h.full e' (hpending ▸ he')
  · rw [List.length_append]
    exact (h.handled w hw).trans (Nat.le_add_right _ _)
  · exact (hfuture w hw name).trans (h.missing w hw hcomplete name hname)
  · exact h.exact hexact w hw hcomplete name ((hfuture w hw name).symm.trans hknown)

theorem agree_report (h : Agree exact C) (health : Health) (d : Data)
    (hfresh : exact → Fresh C (.report health d)) : Agree exact (C.report health d) := by
  have hfuture : ∀ w ∈ C.workers, ∀ name, (C.report health d).future w name =
      afterAll name (decide (name = d.name) ||
        afterAll name (w.targets.find name).isSome (C.log.drop w.handled)) C.pending := by
    intro w hw name
    have hdrop : (C.log ++ [Event.status health d]).drop w.handled =
        C.log.drop w.handled ++ [Event.status health d] :=
      List.drop_append_of_le_length (h.handled w hw)
    simp only [Cluster.future, Cluster.report, hdrop, afterAll_append]
    rfl
  refine ⟨h.nodup, ?_, fun w hw => ?_, h.consistent, h.loading,
    fun w hw hcomplete name hname => ?_, fun hexact w hw hcomplete name hknown => ?_⟩
  · intro e he
    cases List.mem_append.mp he with
    | inl hin =>
        cases List.mem_append.mp hin with
        | inl hlog => exact h.full e (List.mem_append_left _ hlog)
        | inr hnew =>
            rw [List.mem_singleton.mp hnew]
            trivial
    | inr hpending => exact h.full e (List.mem_append_right _ hpending)
  · simp only [Cluster.report, List.length_append]
    exact (h.handled w hw).trans (Nat.le_add_right _ _)
  · rw [hfuture w hw]
    have hbefore := h.missing w hw hcomplete name hname
    rw [Cluster.future, afterAll_append] at hbefore
    exact afterAll_mono (fun hin => Bool.or_eq_true_iff.mpr (.inr hin)) hbefore
  · rw [hfuture w hw] at hknown
    by_cases hname : name = d.name
    · -- the worker that has reported knows the name, and what is pending decides
      obtain ⟨u, hu, hucomplete, huhandled, hufind⟩ := hfresh hexact
      refine h.exact hexact u hu hucomplete name ?_
      rw [Cluster.future, huhandled, List.drop_length, List.nil_append, hname, hufind]
      exact afterAll_mono (fun _ => rfl) (hname ▸ hknown)
    · refine h.exact hexact w hw hcomplete name ?_
      rw [Cluster.future, afterAll_append]
      rw [decide_eq_false hname, Bool.false_or] at hknown
      exact hknown

theorem agree_step (h : Agree exact C) {l : Label} (hfresh : exact → Fresh C l) {C' : Cluster}
    (hstep : C.step l = some C') : Agree exact C' := by
  cases l with
  | add j d isHealthy hostheader =>
      simp only [Cluster.step] at hstep
      split at hstep
      · rename_i hfree
        obtain ⟨w, -, rfl⟩ := Option.map_eq_some_iff.mp hstep
        exact agree_addTarget h (free_eq hfree) w d isHealthy hostheader
      · cases hstep
  | remove d =>
      simp only [Cluster.step] at hstep
      split at hstep
      · rename_i hfree
        cases hstep
        exact agree_removeTarget h (free_eq hfree) d
      · cases hstep
  | clear j =>
      simp only [Cluster.step] at hstep
      split at hstep
      · obtain ⟨w, hw, rfl⟩ := Option.map_eq_some_iff.mp hstep
        exact agree_clear h hw
      · cases hstep
  | delayedClear purgeTime =>
      simp only [Cluster.step] at hstep
      split at hstep
      · rename_i hfree
        cases hstep
        refine h.same (free_eq hfree) rfl rfl ?_ (free_eq hfree)
        simp only [Cluster.names, Cluster.delayedClear, List.map_map]
        rfl
      · cases hstep
  | cleanup curTime =>
      simp only [Cluster.step] at hstep
      split at hstep
      · rename_i hfree
        cases hstep
        exact agree_cleanup h (free_eq hfree) curTime
      · cases hstep
  | post =>
      simp only [Cluster.step] at hstep
      split at hstep
      · cases hstep
      · rename_i hpending
        cases hstep
        exact agree_post h hpending
  | report health d =>
      cases hstep
      exact agree_report h health d hfresh
  | load =>
      simp only [Cluster.step] at hstep
      split at hstep
      · rename_i hfree
        cases hstep
        exact agree_load h (free_eq hfree)
      · cases hstep
  | subscribe j =>
      obtain ⟨w, hw, hstep⟩ := Option.bind_eq_some_iff.mp hstep
      split at hstep
      · cases hstep
      · rename_i hsub
        cases hstep
        exact agree_subscribe h hw (Bool.eq_false_iff.mpr hsub)
  | handle j =>
      obtain ⟨w, hw, hstep⟩ := Option.bind_eq_some_iff.mp hstep
      split at hstep
      · rename_i hsub
        obtain ⟨e, he, rfl⟩ := Option.map_eq_some_iff.mp hstep
        exact agree_handle h hw hsub he
      · cases hstep

end Steps

/-! ### Runs -/

theorem agree_run {exact : Prop} {ok : Cluster → Label → Prop}
    (hok : ∀ C l, ok C l → exact → Fresh C l) {C : Cluster} (h : Reaches ok C) :
    Agree exact C := by
  induction h with
  | start =>
      exact ⟨List.nodup_nil, fun e he => absurd he (List.not_mem_nil),
        fun w hw => absurd hw (List.not_mem_nil), fun w hw => absurd hw (List.not_mem_nil),
        fun w hw => absurd hw (List.not_mem_nil), fun w hw => absurd hw (List.not_mem_nil),
        fun _ w hw => absurd hw (List.not_mem_nil)⟩
  | step _ hlabel hstep ih => exact agree_step ih (hok _ _ hlabel) hstep

/-- When all that was posted is handled, what a worker will know is what it knows. -/
theorem future_done {C : Cluster} {w : Worker} (hpending : C.pending = [])
    (hdone : w.handled = C.log.length) (name : Name) :
    C.future w name = (w.targets.find name).isSome := by
  rw [Cluster.future, hpending, hdone, List.drop_length]
  rfl

/-- However adding, removing, clearing, reports and the handling of events interleave: the list
holds no target twice, and a worker that has handled all events, and none of whose events was
posted between loading the list and subscribing, knows each target of the list. -/
theorem none_missing {ok : Cluster → Label → Prop} {C : Cluster} (h : Reaches ok C) :
    C.names.Nodup ∧ ∀ w ∈ C.workers, w.complete = true → C.pending = [] →
      w.handled = C.log.length → ∀ name ∈ C.names, (w.targets.find name).isSome := by
  have hagree : Agree False C := agree_run (fun _ _ _ hfalse => hfalse.elim) h
  refine ⟨hagree.nodup, fun w hw hcomplete hpending hdone name hname => ?_⟩
  rw [← future_done hpending hdone]
  exact hagree.missing w hw hcomplete name hname

theorem none_missing_one : ∃ C w, Reaches (fun _ _ => True) C ∧ C.workers = [w] ∧
    C.names = [⟨"10.0.0.1", 80, "10.0.0.1"⟩] ∧
    (w.targets.find ⟨"10.0.0.1", 80, "10.0.0.1"⟩).isSome := by
  have h₁ := Reaches.step (l := .load) (@Reaches.start (fun _ _ => True)) trivial rfl
  have h₂ := Reaches.step (l := .subscribe 0) h₁ trivial rfl
  have h₃ := Reaches.step (l := .add 0 ⟨"10.0.0.1", 80, none⟩ true none) h₂ trivial rfl
  have h₄ := Reaches.step (l := .post) h₃ trivial rfl
  have h₅ := Reaches.step (l := .handle 0) h₄ trivial rfl
  exact ⟨_, _, h₅, rfl, rfl, (none_missing h₅).2 _ (List.mem_singleton_self _) rfl rfl rfl _
    (List.mem_singleton_self _)⟩

/-- Where targets are reported only by workers that are up to date, a worker that has handled
all events knows the targets of the list and no others. -/
theorem views_exact {C : Cluster} (h : Reaches Fresh C) {w : Worker} (hw : w ∈ C.workers)
    (hcomplete : w.complete = true) (hpending : C.pending = [])
    (hdone : w.handled = C.log.length) (name : Name) :
    (w.targets.find name).isSome ↔ name ∈ C.names := by
  have hagree : Agree True C := agree_run (fun _ _ hfresh _ => hfresh) h
  rw [← future_done hpending hdone]
  exact ⟨hagree.exact trivial w hw hcomplete name, hagree.missing w hw hcomplete name⟩

theorem views_exact_one : ∃ C w, Reaches Fresh C ∧ C.workers = [w] ∧ C.log.length = 2 ∧
    w.targets.find ⟨"10.0.0.1", 80, "10.0.0.1"⟩ = none := by
  have h₁ := Reaches.step (l := .load) (@Reaches.start Fresh) trivial rfl
  have h₂ := Reaches.step (l := .subscribe 0) h₁ trivial rfl
  have h₃ := Reaches.step (l := .add 0 ⟨"10.0.0.1", 80, none⟩ true none) h₂ trivial rfl
  have h₄ := Reaches.step (l := .post) h₃ trivial rfl
  have h₅ := Reaches.step (l := .remove ⟨"10.0.0.1", 80, some "10.0.0.1"⟩) h₄ trivial rfl
  have h₆ := Reaches.step (l := .post) h₅ trivial rfl
  have h₇ := Reaches.step (l := .handle 0) h₆ trivial rfl
  have h₈ := Reaches.step (l := .handle 0) h₇ trivial rfl
  refine ⟨_, _, h₈, rfl, rfl, ?_⟩
  have hiff := views_exact h₈ (List.mem_singleton_self _) rfl rfl rfl
    ⟨"10.0.0.1", 80, "10.0.0.1"⟩
  exact Option.not_isSome_iff_eq_none.mp (fun hsome => by
    have hmem := hiff.mp hsome
    cases hmem)

end HealthTargets
end OpenrestyGateway
