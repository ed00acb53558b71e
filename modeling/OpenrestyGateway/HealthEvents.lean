import OpenrestyGateway.AccessKeys
import OpenrestyGateway.Redis
import Mathlib.Data.List.Induction

/-!
Health checks of upstreams: init/init_upstream_healthcheck.lua writes the status of
a target to Redis, access/upstream_logic.lua reads it.

Every event of a target starts a timer whose callback sets the target's key to a
fixed value. The callbacks run on connections of their own, so their SETs are
executed in any order.
-/
namespace OpenrestyGateway

/-- The ip and the port of an event's target, the host and the port of a configured one. -/
structure Target where
  host : String
  port : Nat
  deriving DecidableEq

inductive Status where
  | healthy
  | unhealthy
  deriving DecidableEq

inductive EventName where
  | remove
  | status (s : Status)
  | unknown
  deriving DecidableEq

def Status.text : Status → String
  | .healthy => "healthy"
  | .unhealthy => "unhealthy"

namespace HealthCheck

def redisKey (t : Target) : String :=
  "openresty:healthcheckupstream:" ++ (t.host ++ (":" ++ toString t.port))

/-- The timer that an event starts: the arguments of its callback. -/
def eventHandler (target : Target) : EventName → Option (String × String)
  | .remove | .unknown => none
  | .status s => some (redisKey target, s.text)

/-- The callback of a timer that has expired. -/
def redisHealthcheckChange (key value : String) (s : RedisStore) : RedisStore :=
  (Redis.exec s (.set key (.raw value))).2

/-- `log` holds the events so far, `completed` the numbers of the timers whose
callbacks are done. -/
structure State where
  log : List (Target × EventName)
  completed : List Nat
  store : RedisStore

inductive Label where
  | event (target : Target) (name : EventName)
  | complete (i : Nat)

namespace State

def start (store : RedisStore) : State := ⟨[], [], store⟩

/-- The timers in the order of their events. -/
def timers (s : State) : List (String × String) :=
  s.log.filterMap (fun e => eventHandler e.1 e.2)

/-- A callback runs once. -/
def step (s : State) : Label → Option State
  | .event target name => some { s with log := s.log ++ [(target, name)] }
  | .complete i =>
      match s.timers[i]? with
      | none => none
      | some timer =>
          if i ∈ s.completed then none
          else some { s with
            completed := i :: s.completed
            store := redisHealthcheckChange timer.1 timer.2 s.store }

/-- Runs in which every step meets a condition. -/
inductive Reaches (ok : State → Label → Prop) (s : State) : State → Prop where
  | refl : Reaches ok s s
  | tail {t u : State} {l : Label} : Reaches ok s t → ok t l → t.step l = some u → Reaches ok s u

def Completed (s : State) : Prop := ∀ i, i < s.timers.length → i ∈ s.completed

/-- The status of the target's last event, if it had one. -/
def lastStatus (s : State) (t : Target) : Option Status :=
  (s.log.filterMap (fun e =>
    match e.2 with
    | .status st => if e.1 = t then some st else none
    | _ => none)).getLast?

end State

/-! ### Choosing an upstream -/

structure HealthcheckTable where
  target : List Target
  loadBalance : Val

def isHealthy (s : RedisStore) (t : Target) : Bool :=
  match (Redis.exec s (.get (redisKey t))).1.res with
  | .str (.raw value) => value == "healthy"
  | _ => false

def availableHost (s : RedisStore) (targets : List Target) : List Target :=
  targets.filter (isHealthy s)

/-- The upstream whose address is set; `random` is what math.random returns. -/
def upstreamLogic (s : RedisStore) (table : HealthcheckTable) (random : ℚ) :
    Except LuaError Target :=
  let available := availableHost s table.target
  let chosen :=
    if table.loadBalance.isStr "first" then available.head?
    else
      let randomNumber := ⌊random * available.length + 1⌋.toNat
      available[randomNumber - 1]?
  match chosen with
  | some v => .ok v
  | none =>
      match table.target.head? with
      | some v => .ok v
      | none => .error (.index .nil)

/-- A healthy target is chosen as long as there is one. -/
theorem upstreamLogic_healthy {s : RedisStore} {table : HealthcheckTable} {random : ℚ}
    (h0 : 0 ≤ random) (h1 : random < 1) (hsome : availableHost s table.target ≠ []) :
    ∃ t ∈ availableHost s table.target, upstreamLogic s table random = .ok t := by
  have hpos : 0 < (availableHost s table.target).length := List.length_pos_iff.mpr hsome
  simp only [upstreamLogic]
  by_cases hfirst : table.loadBalance.isStr "first" = true
  · obtain ⟨t, rest, hlist⟩ := List.exists_cons_of_ne_nil hsome
    refine ⟨t, hlist ▸ .head rest, ?_⟩
    rw [if_pos hfirst, hlist]
    rfl
  · have hn : (0 : ℚ) < (availableHost s table.target).length := by exact_mod_cast hpos
    have hlow : (0 : ℚ) ≤ random * (availableHost s table.target).length :=
      mul_nonneg h0 hn.le
    have hhigh : random * (availableHost s table.target).length <
        (availableHost s table.target).length := mul_lt_of_lt_one_left hn h1
    have hlt : ⌊random * (availableHost s table.target).length + 1⌋.toNat - 1 <
        (availableHost s table.target).length := by
      have hfloor : ⌊random * (availableHost s table.target).length + 1⌋ ≤
          ((availableHost s table.target).length : Int) := by
        refine Int.lt_add_one_iff.mp (Int.floor_lt.mpr ?_)
        push_cast
        linarith
      omega
    refine ⟨_, List.getElem_mem hlt, ?_⟩
    rw [if_neg hfirst, List.getElem?_eq_getElem hlt]

/-! ### The keys -/

theorem colon_notMem_port (n : Nat) : ':' ∉ (toString n).toList := by
  intro h
  rw [Nat.toString_eq_repr, Nat.toList_repr] at h
  have hdigit := Nat.isDigit_of_mem_toDigits (by omega) (le_refl 10) h
  exact absurd hdigit (by decide)

theorem toString_injective {m n : Nat} (h : toString m = toString n) : m = n := by
  have hdigits : Nat.toDigits 10 m = Nat.toDigits 10 n := by
    rw [← Nat.toList_repr, ← Nat.toList_repr, ← Nat.toString_eq_repr, ← Nat.toString_eq_repr, h]
  have hvalue := congrArg (fun ds => Nat.ofDigitChars 10 ds 0) hdigits
  simpa only [Nat.ofDigitChars_toDigits (by omega : 1 < 10) (le_refl 10)] using hvalue

theorem redisKey_eq (t : Target) : redisKey t =
    "openresty:healthcheckupstream:" ++ (t.host ++ (":" ++ toString t.port)) := rfl

theorem toList_redisKey (t : Target) : (redisKey t).toList =
    "openresty:healthcheckupstream:".toList ++
      (t.host ++ (":" ++ toString t.port)).toList := by
  rw [redisKey_eq, String.toList_append]

theorem toList_address (host port : String) :
    (host ++ (":" ++ port)).toList = host.toList ++ ':' :: port.toList := by
  have hcolon : ":".toList = [':'] := rfl
  simp only [String.toList_append, hcolon, List.singleton_append]

/-- The port is what follows the last colon. -/
theorem redisKey_injective {t u : Target} (h : redisKey t = redisKey u) : t = u := by
  have hkeys : (redisKey t).toList = (redisKey u).toList := by rw [h]
  rw [toList_redisKey, toList_redisKey] at hkeys
  have hchars := congrArg List.reverse (List.append_cancel_left hkeys)
  rw [toList_address, toList_address, List.reverse_append, List.reverse_append,
    List.reverse_cons, List.reverse_cons, List.append_assoc, List.append_assoc,
    List.singleton_append, List.singleton_append] at hchars
  have hport : ':' ∉ (toString t.port).toList.reverse := by
    simpa using colon_notMem_port t.port
  have hport' : ':' ∉ (toString u.port).toList.reverse := by
    simpa using colon_notMem_port u.port
  have hhost := AccessMain.tail_eq_of_notMem hport hport' hchars
  rw [hhost] at hchars
  have hports := List.append_cancel_right hchars
  obtain ⟨host, port⟩ := t
  obtain ⟨host', port'⟩ := u
  rw [Target.mk.injEq]
  constructor
  · exact String.toList_inj.mp (List.reverse_inj.mp hhost)
  · exact toString_injective (String.toList_inj.mp (List.reverse_inj.mp hports))

/-! ### The order of the SETs -/

/-- No callback sets a key to another value than that of a newer callback which has
set it already. -/
def InOrder (s : State) : Label → Prop
  | .event _ _ => True
  | .complete i => ∀ timer, s.timers[i]? = some timer → ∀ j newer, j ∈ s.completed → i < j →
      s.timers[j]? = some newer → newer.1 = timer.1 → newer.2 = timer.2

/-- `i` is the newest of the completed callbacks for its key. -/
def Newest (s : State) (i : Nat) (timer : String × String) : Prop :=
  i ∈ s.completed ∧ s.timers[i]? = some timer ∧
    ∀ j other, j ∈ s.completed → s.timers[j]? = some other → other.1 = timer.1 → j ≤ i

structure Tracked (store : RedisStore) (s : State) : Prop where
  exist : ∀ i, i ∈ s.completed → i < s.timers.length
  newest : ∀ i timer, Newest s i timer →
    s.store.lookup timer.1 = some (.str (.raw timer.2))
  untouched : ∀ key, (∀ i timer, i ∈ s.completed → s.timers[i]? = some timer → timer.1 ≠ key) →
    s.store.lookup key = store.lookup key

theorem lookup_change_self (s : RedisStore) (key value : String) :
    (redisHealthcheckChange key value s).lookup key = some (.str (.raw value)) := by
  simp [redisHealthcheckChange, Redis.exec, Ttl.Store.lookup]

theorem lookup_change_ne (s : RedisStore) {key other : String} (value : String)
    (h : other ≠ key) : (redisHealthcheckChange key value s).lookup other = s.lookup other := by
  simp [redisHealthcheckChange, Redis.exec, Ttl.Store.lookup, h]

theorem timers_event (s : State) (target : Target) (name : EventName) :
    (State.mk (s.log ++ [(target, name)]) s.completed s.store).timers =
      s.timers ++ (eventHandler target name).toList := by
  simp only [State.timers, List.filterMap_append, List.filterMap_cons, List.filterMap_nil]
  cases eventHandler target name <;> rfl

theorem tracked_event {store : RedisStore} {s : State} (h : Tracked store s) (target : Target)
    (name : EventName) : Tracked store ⟨s.log ++ [(target, name)], s.completed, s.store⟩ := by
  have hold : ∀ i, i ∈ s.completed →
      (State.mk (s.log ++ [(target, name)]) s.completed s.store).timers[i]? =
        s.timers[i]? := by
    intro i hi
    rw [timers_event, List.getElem?_append_left (h.exist i hi)]
  refine ⟨?_, ?_, ?_⟩
  · intro i hi
    rw [timers_event, List.length_append]
    have hlt := h.exist i hi
    omega
  · intro i timer hnew
    refine h.newest i timer ⟨hnew.1, (hold i hnew.1).symm.trans hnew.2.1, ?_⟩
    intro j other hj hother
    exact hnew.2.2 j other hj ((hold j hj).trans hother)
  · intro key hkey
    refine h.untouched key (fun i timer hi htimer => ?_)
    exact hkey i timer hi ((hold i hi).trans htimer)

/-- A callback that is the newest for its key sets it, an older one repeats what the
newest has set. -/
theorem tracked_complete {store : RedisStore} {s : State} {i : Nat} {timer : String × String}
    (h : Tracked store s) (htimer : s.timers[i]? = some timer)
    (hok : InOrder s (.complete i)) :
    Tracked store ⟨s.log, i :: s.completed,
      redisHealthcheckChange timer.1 timer.2 s.store⟩ := by
  refine ⟨?_, ?_, ?_⟩
  · intro j hj
    rcases List.mem_cons.mp hj with rfl | hj
    · exact (List.getElem?_eq_some_iff.mp htimer).1
    · exact h.exist j hj
  · intro j newest hnew
    obtain ⟨hj, hat, hmax⟩ := hnew
    by_cases hkey : newest.1 = timer.1
    · have hvalue : newest.2 = timer.2 := by
        rcases List.mem_cons.mp hj with rfl | hj
        · rw [Option.some.inj (hat.symm.trans htimer)]
        · have hle := hmax i timer (.head _) htimer hkey.symm
          rcases Nat.eq_or_lt_of_le hle with rfl | hlt
          · rw [Option.some.inj (hat.symm.trans htimer)]
          · exact hok timer htimer j newest hj hlt hat hkey
      rw [hkey, hvalue]
      exact lookup_change_self s.store timer.1 timer.2
    · have hj' : j ∈ s.completed := by
        rcases List.mem_cons.mp hj with rfl | hj
        · exact absurd (congrArg Prod.fst (Option.some.inj (hat.symm.trans htimer))) hkey
        · exact hj
      rw [lookup_change_ne s.store timer.2 hkey]
      refine h.newest j newest ⟨hj', hat, ?_⟩
      intro k other hk
      exact hmax k other (.tail _ hk)
  · intro key hkey
    have hne : key ≠ timer.1 := (hkey i timer (.head _) htimer).symm
    rw [lookup_change_ne s.store timer.2 hne]
    refine h.untouched key (fun j other hj => ?_)
    exact hkey j other (.tail _ hj)

theorem tracked_start (store : RedisStore) : Tracked store (State.start store) := by
  refine ⟨?_, ?_, fun _ _ => rfl⟩
  · intro i hi
    cases hi
  · intro i timer hnew
    cases hnew.1

theorem tracked_of_reaches {store : RedisStore} {s : State}
    (h : State.Reaches InOrder (State.start store) s) : Tracked store s := by
  induction h with
  | refl => exact tracked_start store
  | tail _ hok hstep ih =>
      rename_i t u l _
      cases l with
      | event target name =>
          cases hstep
          exact tracked_event ih target name
      | complete i =>
          simp only [State.step] at hstep
          split at hstep
          · cases hstep
          · rename_i timer htimer
            split at hstep
            · cases hstep
            · cases hstep
              exact tracked_complete ih htimer hok

/-! ### The last event of a target -/

theorem lastStatus_event (s : State) (target : Target) (name : EventName) (t : Target) :
    (State.mk (s.log ++ [(target, name)]) s.completed s.store).lastStatus t =
      match name with
      | .status st => if target = t then some st else s.lastStatus t
      | _ => s.lastStatus t := by
  simp only [State.lastStatus, List.filterMap_append, List.filterMap_cons, List.filterMap_nil]
  cases name with
  | remove | unknown => simp
  | status st =>
      by_cases ht : target = t
      · simp [ht]
      · simp [ht]

/-- The newest timer for a key carries this status, if there is any timer for it. -/
def LastTimer (timers : List (String × String)) (key : String) : Option Status → Prop
  | some st => ∃ i, timers[i]? = some (key, st.text) ∧
      ∀ (j : Nat) other, timers[j]? = some other → other.1 = key → j ≤ i
  | none => ∀ timer ∈ timers, timer.1 ≠ key

theorem lastTimer_append {timers : List (String × String)} {key : String} {last : Option Status}
    {timer : String × String} (h : LastTimer timers key last) (hne : timer.1 ≠ key) :
    LastTimer (timers ++ [timer]) key last := by
  cases last with
  | none =>
      intro other hother
      rcases List.mem_append.mp hother with hold | hnew
      · exact h other hold
      · exact List.mem_singleton.mp hnew ▸ hne
  | some st =>
      obtain ⟨i, hi, hmax⟩ := h
      have hlt := (List.getElem?_eq_some_iff.mp hi).1
      refine ⟨i, by rw [List.getElem?_append_left hlt, hi], ?_⟩
      intro j other hj hkey
      by_cases hjlt : j < timers.length
      · rw [List.getElem?_append_left hjlt] at hj
        exact hmax j other hj hkey
      · rw [List.getElem?_append_right (not_lt.mp hjlt)] at hj
        have hmem := List.mem_of_getElem? hj
        rw [List.mem_singleton] at hmem
        exact absurd (hmem ▸ hkey) hne

theorem lastTimer_self (timers : List (String × String)) (key : String) (st : Status) :
    LastTimer (timers ++ [(key, st.text)]) key (some st) := by
  refine ⟨timers.length, List.getElem?_concat_length, ?_⟩
  intro j other hj _
  have hlt := (List.getElem?_eq_some_iff.mp hj).1
  rw [List.length_append, List.length_singleton] at hlt
  omega

/-- The last event of a target has started the newest timer for its key. -/
theorem lastTimer (log : List (Target × EventName)) (completed : List Nat)
    (store : RedisStore) (t : Target) :
    LastTimer (State.mk log completed store).timers (redisKey t)
      ((State.mk log completed store).lastStatus t) := by
  induction log using List.reverseRecOn with
  | nil =>
      intro timer h
      cases h
  | append_singleton log e ih =>
      obtain ⟨target, name⟩ := e
      rw [lastStatus_event ⟨log, completed, store⟩, timers_event ⟨log, completed, store⟩]
      cases name with
      | remove | unknown =>
          simp only [eventHandler, Option.toList_none, List.append_nil]
          exact ih
      | status st =>
          simp only [eventHandler, Option.toList_some]
          by_cases ht : target = t
          · rw [if_pos ht, ht]
            exact lastTimer_self _ (redisKey t) st
          · rw [if_neg ht]
            exact lastTimer_append ih (fun h => ht (redisKey_injective h))

/-! ### What the readers find -/

/-- Every target's key has the status of its last event, and the upstreams to choose
from are the targets whose last event was healthy. -/
structure Propagated (s : State) (targets : List Target) : Prop where
  value : ∀ t st, s.lastStatus t = some st →
    s.store.lookup (redisKey t) = some (.str (.raw st.text))
  available : ∀ t, t ∈ targets →
    (t ∈ availableHost s.store targets ↔ s.lastStatus t = some .healthy)

theorem isHealthy_iff (s : RedisStore) (t : Target) :
    isHealthy s t = true ↔ s.lookup (redisKey t) = some (.str (.raw "healthy")) := by
  simp only [isHealthy, Redis.exec]
  cases s.lookup (redisKey t) with
  | none => simp
  | some d =>
      cases d with
      | set _ => simp [Redis.wrongType]
      | str text => cases text <;> simp

/-- When all callbacks are done that were completed in order, the last event of
every target has won. -/
theorem health_propagates (store : RedisStore) (targets : List Target)
    (hstart : ∀ t, t ∈ targets → isHealthy store t = false) (s : State)
    (h : State.Reaches InOrder (State.start store) s) (hdone : s.Completed) :
    Propagated s targets := by
  have htracked := tracked_of_reaches h
  have hvalue : ∀ t st, s.lastStatus t = some st →
      s.store.lookup (redisKey t) = some (.str (.raw st.text)) := by
    intro t st hlast
    have htimer := lastTimer s.log s.completed s.store t
    rw [show (State.mk s.log s.completed s.store).lastStatus t = some st from hlast] at htimer
    obtain ⟨i, hi, hmax⟩ := htimer
    refine htracked.newest i _ ⟨hdone i (List.getElem?_eq_some_iff.mp hi).1, hi, ?_⟩
    intro j other _ hj hkey
    exact hmax j other hj hkey
  refine ⟨hvalue, fun t ht => ?_⟩
  rw [availableHost, List.mem_filter, isHealthy_iff]
  cases hlast : s.lastStatus t with
  | some st =>
      rw [hvalue t st hlast]
      cases st <;> simp [ht, Status.text]
  | none =>
      have htimer := lastTimer s.log s.completed s.store t
      rw [show (State.mk s.log s.completed s.store).lastStatus t = none from hlast] at htimer
      have hsame := htracked.untouched (redisKey t)
        (fun i timer _ hi => htimer timer (List.mem_of_getElem? hi))
      have hnot := hstart t ht
      rw [hsame, ← isHealthy_iff, hnot]
      simp

/-- A target that is healthy and then unhealthy. -/
def flapLog : List (Target × EventName) :=
  [(⟨"10.0.0.1", 80⟩, .status .healthy), (⟨"10.0.0.1", 80⟩, .status .unhealthy)]

/-- The state after both callbacks, with the values in the order in which they were set. -/
def flapped (completed : List Nat) (first second : Status) : State :=
  ⟨flapLog, completed, redisHealthcheckChange (redisKey ⟨"10.0.0.1", 80⟩) second.text
    (redisHealthcheckChange (redisKey ⟨"10.0.0.1", 80⟩) first.text .empty)⟩

theorem flap_completed {completed : List Nat} {store : RedisStore} (h0 : 0 ∈ completed)
    (h1 : 1 ∈ completed) : (State.mk flapLog completed store).Completed := by
  intro i hi
  have hlt : i < 2 := hi
  rcases (by omega : i = 0 ∨ i = 1) with rfl | rfl
  · exact h0
  · exact h1

/-- The callbacks are done in the order of the events. -/
theorem health_propagates_flap : ∃ s : State, s.log = flapLog ∧
    State.Reaches InOrder (State.start .empty) s ∧ s.Completed ∧
    Propagated s [⟨"10.0.0.1", 80⟩] := by
  have hrun : State.Reaches InOrder (State.start .empty)
      (flapped [1, 0] .healthy .unhealthy) :=
    .tail (l := .complete 1) (.tail (l := .complete 0)
      (.tail (l := .event ⟨"10.0.0.1", 80⟩ (.status .unhealthy))
        (.tail (l := .event ⟨"10.0.0.1", 80⟩ (.status .healthy)) .refl trivial rfl)
        trivial rfl) (fun _ _ _ _ hj => (by cases hj)) rfl)
      (fun _ _ j _ hj hlt => absurd (List.mem_singleton.mp hj) (by omega)) rfl
  have hdone : (flapped [1, 0] .healthy .unhealthy).Completed :=
    flap_completed (.tail _ (.head _)) (.head _)
  refine ⟨_, rfl, hrun, hdone, health_propagates .empty _ ?_ _ hrun hdone⟩
  intro t _
  rfl

/-- The callback of the first event is done last: the key says healthy, while the
target's last event was unhealthy. -/
theorem flap_reversed : ∃ s : State, s.log = flapLog ∧
    State.Reaches (fun _ _ => True) (State.start .empty) s ∧ s.Completed ∧
    s.lastStatus ⟨"10.0.0.1", 80⟩ = some .unhealthy ∧
    ⟨"10.0.0.1", 80⟩ ∈ availableHost s.store [⟨"10.0.0.1", 80⟩] ∧
    ¬ Propagated s [⟨"10.0.0.1", 80⟩] := by
  have hrun : State.Reaches (fun _ _ => True) (State.start .empty)
      (flapped [0, 1] .unhealthy .healthy) :=
    .tail (l := .complete 0) (.tail (l := .complete 1)
      (.tail (l := .event ⟨"10.0.0.1", 80⟩ (.status .unhealthy))
        (.tail (l := .event ⟨"10.0.0.1", 80⟩ (.status .healthy)) .refl trivial rfl)
        trivial rfl) trivial rfl) trivial rfl
  have hvalue := lookup_change_self (redisHealthcheckChange (redisKey ⟨"10.0.0.1", 80⟩)
    "unhealthy" .empty) (redisKey ⟨"10.0.0.1", 80⟩) "healthy"
  have hmem := List.mem_filter.mpr ⟨List.mem_singleton.mpr (rfl : (⟨"10.0.0.1", 80⟩ : Target) = _),
    (isHealthy_iff _ ⟨"10.0.0.1", 80⟩).mpr hvalue⟩
  refine ⟨_, rfl, hrun, flap_completed (.head _) (.tail _ (.head _)), rfl, hmem, ?_⟩
  intro h
  have hlast := (h.available ⟨"10.0.0.1", 80⟩ (.head _)).mp hmem
  cases hlast

end HealthCheck
end OpenrestyGateway
