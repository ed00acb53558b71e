import Mathlib.Data.List.Basic
import Mathlib.Data.List.Count
import Mathlib.Order.Basic
import Mathlib.Tactic.Common

/-!
The handlers of resty/worker/events.lua: lists with holes that do_handlerlist closes while
it calls the handlers.

Whatever has been registered, unregistered or collected before, an event calls every handler
as often as it is registered, also where the handlers unregister others meanwhile.
-/
namespace OpenrestyGateway
namespace WorkerEvents

inductive Level where
  | all
  | source (source : String)
  | event (source event : String)
  deriving DecidableEq

inductive Mode where
  | weak
  | strong
  deriving DecidableEq

/-- The handlers 1 to `weak_count` or `strong_count` of a list, nothing for a hole. -/
abbrev Callbacks (H : Type) := Level → Mode → List (Option H)

def levels (source : Option String) (events : List String) : List Level :=
  match source with
  | none => [.all]
  | some source => if events = [] then [.source source] else events.map (.event source)

/-- A call of unregister. -/
structure Removal (H : Type) where
  callback : H
  source : Option String
  events : List String

section Handlers
variable {H : Type}

def setList (cbs : Callbacks H) (l : Level) (m : Mode) (list : List (Option H)) : Callbacks H :=
  fun l' m' => if l' = l ∧ m' = m then list else cbs l' m'

def register (cbs : Callbacks H) (callback : H) (mode : Mode) (source : Option String)
    (events : List String) : Callbacks H :=
  (levels source events).foldl (fun cbs l => setList cbs l mode (cbs l mode ++ [some callback])) cbs

/-- A handler that was removed leaves a hole, which takes the last handler. -/
def heal (list : List (Option H)) (i : Nat) : List (Option H) :=
  (list.set i list.getLast?.join).dropLast

variable [DecidableEq H]

def clear (callback : H) (list : List (Option H)) : List (Option H) :=
  list.map (fun cb => if cb = some callback then none else cb)

def unregister (cbs : Callbacks H) (r : Removal H) : Bool × Callbacks H :=
  ((levels r.source r.events).any (fun l =>
      decide (some r.callback ∈ cbs l .weak) || decide (some r.callback ∈ cbs l .strong)),
    fun l m => if l ∈ levels r.source r.events then clear r.callback (cbs l m) else cbs l m)

/-- The garbage collector takes a handler that is referred to weakly. -/
def collect (cbs : Callbacks H) (callback : H) : Callbacks H :=
  fun l m => if m = .weak then clear callback (cbs l m) else cbs l m

/-- What the handlers unregister when they are called. -/
def react (drops : H → List (Removal H)) (h : H) (cbs : Callbacks H) : Callbacks H :=
  (drops h).foldl (fun cbs r => (unregister cbs r).2) cbs

/-- The loop of do_handlerlist over one list, from the handler `i` on. -/
def handlerLoop (drops : H → List (Removal H)) (l : Level) (m : Mode) :
    Nat → Nat → Callbacks H → List H × Callbacks H
  | 0, _, cbs => ([], cbs)
  | n + 1, i, cbs =>
      match (cbs l m)[i]? with
      | none => ([], cbs)
      | some none => handlerLoop drops l m n i (setList cbs l m (heal (cbs l m) i))
      | some (some handler) =>
          let rest := handlerLoop drops l m n (i + 1) (react drops handler cbs)
          (handler :: rest.1, rest.2)

def doHandlerlist (drops : H → List (Removal H)) (cbs : Callbacks H) (l : Level) :
    List H × Callbacks H :=
  let weak := handlerLoop drops l .weak (cbs l .weak).length 0 cbs
  let strong := handlerLoop drops l .strong (weak.2 l .strong).length 0 weak.2
  (weak.1 ++ strong.1, strong.2)

def doEvent (drops : H → List (Removal H)) (cbs : Callbacks H) (source event : String) :
    List H × Callbacks H :=
  let onAll := doHandlerlist drops cbs .all
  let onSource := doHandlerlist drops onAll.2 (.source source)
  let onEvent := doHandlerlist drops onSource.2 (.event source event)
  (onAll.1 ++ onSource.1 ++ onEvent.1, onEvent.2)

inductive Action (H : Type) where
  | register (callback : H) (mode : Mode) (source : Option String) (events : List String)
  | unregister (r : Removal H)
  | collect (callback : H)
  | event (source event : String)

inductive Outcome (H : Type) where
  | done
  | removed (found : Bool)
  | called (handlers : List H)

def act (drops : H → List (Removal H)) (cbs : Callbacks H) : Action H → Outcome H × Callbacks H
  | .register callback mode source events => (.done, register cbs callback mode source events)
  | .unregister r => (.removed (unregister cbs r).1, (unregister cbs r).2)
  | .collect callback => (.done, collect cbs callback)
  | .event source event =>
      (.called (doEvent drops cbs source event).1, (doEvent drops cbs source event).2)

def acts (drops : H → List (Removal H)) (cbs : Callbacks H) : List (Action H) → List (Outcome H)
  | [] => []
  | a :: as => (act drops cbs a).1 :: acts drops (act drops cbs a).2 as

/-! ### What the lists are for -/

/-- How often a handler is registered. -/
abbrev Registered := Level → Mode → Nat

def Registered.total (r : Registered) (l : Level) : Nat := r l .weak + r l .strong

/-- What becomes of the registrations of the handler `h`, and how often it is called or found. -/
def Registered.act (r : Registered) (h : H) : Action H → Nat × Registered
  | .register callback mode source events =>
      (0, fun l m => r l m +
        if callback = h ∧ m = mode then (levels source events).count l else 0)
  | .unregister d =>
      if d.callback = h then
        (if (levels d.source d.events).any (fun l => decide (0 < r.total l)) then 1 else 0,
          fun l m => if l ∈ levels d.source d.events then 0 else r l m)
      else (0, r)
  | .collect callback => (0, fun l m => if callback = h ∧ m = .weak then 0 else r l m)
  | .event source event =>
      (r.total .all + r.total (.source source) + r.total (.event source event), r)

def Registered.acts (r : Registered) (h : H) : List (Action H) → List Nat
  | [] => []
  | a :: as => (r.act h a).1 :: Registered.acts (r.act h a).2 h as

/-- How often an outcome shows the handler. -/
def seen (h : H) : Action H → Outcome H → Nat
  | .unregister d, .removed found => if d.callback = h ∧ found then 1 else 0
  | _, .called handlers => handlers.count h
  | _, _ => 0

end Handlers

/-! ### Counting a handler -/

section Counting
variable {H : Type} [DecidableEq H] {h : H} {cbs : Callbacks H}

/-- The number of entries of a handler, in every list. -/
def entries (h : H) (cbs : Callbacks H) : Registered := fun l m => (cbs l m).count (some h)

/-- A change of the entries that leaves those of `h` alone, and makes none. -/
def Spares (h : H) (f : Option H → Option H) : Prop := ∀ cb, f cb = some h ↔ cb = some h

theorem Spares.count {f : Option H → Option H} (hf : Spares h f) (list : List (Option H)) :
    (list.map f).count (some h) = list.count (some h) := by
  induction list with
  | nil => rfl
  | cons cb list ih =>
      rw [List.map_cons, List.count_cons, List.count_cons, ih]
      congr 1
      rw [Bool.eq_iff_iff.mpr (show (f cb == some h) = true ↔ (cb == some h) = true by
        rw [beq_iff_eq, beq_iff_eq]
        exact hf cb)]

theorem spares_clear {callback : H} (hne : callback ≠ h) :
    Spares h (fun cb => if cb = some callback then none else cb) := by
  intro cb
  by_cases hcb : cb = some callback
  · simp [hcb, hne]
  · simp [hcb]

theorem count_clear (callback : H) (list : List (Option H)) :
    (clear callback list).count (some h) =
      if callback = h then 0 else list.count (some h) := by
  by_cases hcb : callback = h
  · subst hcb
    rw [if_pos rfl, List.count_eq_zero]
    intro hmem
    obtain ⟨cb, -, hcb⟩ := List.mem_map.mp hmem
    split at hcb
    · cases hcb
    · rename_i hne
      exact hne hcb
  · rw [if_neg hcb]
    exact (spares_clear hcb).count list

/-- What the handlers do to the lists, entry by entry. -/
theorem react_map {drops : H → List (Removal H)} (hkeep : ∀ h', ∀ r ∈ drops h', r.callback ≠ h)
    (h' : H) (cbs : Callbacks H) (l : Level) (m : Mode) :
    ∃ f, Spares h f ∧ react drops h' cbs l m = (cbs l m).map f := by
  have hrs := hkeep h'
  simp only [react]
  generalize drops h' = rs at hrs
  induction rs generalizing cbs with
  | nil => exact ⟨id, fun _ => Iff.rfl, (List.map_id _).symm⟩
  | cons r rs ih =>
      obtain ⟨f, hf, hmap⟩ := ih (unregister cbs r).2 (fun r' hr' => hrs r' (.tail r hr'))
      rw [List.foldl_cons, hmap]
      simp only [unregister]
      split
      · refine ⟨f ∘ _, fun cb => ?_, List.map_map⟩
        exact (hf _).trans (spares_clear (hrs r (.head rs)) cb)
      · exact ⟨f, hf, rfl⟩

/-- Where the hole is at `i`, what stands from `i` on stays, but for the hole. -/
theorem heal_split {list : List (Option H)} {i : Nat} (hi : list[i]? = some none) :
    (heal list i).length + 1 = list.length ∧
      (heal list i).count (some h) = list.count (some h) ∧
      ((heal list i).drop i).count (some h) = (list.drop i).count (some h) := by
  obtain ⟨hlt, hnone⟩ := List.getElem?_eq_some_iff.mp hi
  obtain ⟨front, back, hlist, hfront⟩ : ∃ front back, list = front ++ none :: back ∧
      front.length = i := by
    refine ⟨list.take i, list.drop (i + 1), ?_, by rw [List.length_take]; omega⟩
    rw [← hnone, List.getElem_cons_drop, List.take_append_drop]
  subst hlist
  subst hfront
  have hset : ∀ last, (front ++ none :: back).set front.length last = front ++ last :: back := by
    intro last
    rw [List.set_append_right _ _ (Nat.le_refl _), Nat.sub_self, List.set_cons_zero]
  simp only [heal, hset]
  obtain rfl | ⟨rest, last, rfl⟩ := back.eq_nil_or_concat'
  · simp
  · have hlast : (front ++ none :: (rest ++ [last])).getLast?.join = last := by
      rw [← List.cons_append, ← List.append_assoc, List.getLast?_concat, Option.join_some]
    have hdrop : (front ++ last :: (rest ++ [last])).dropLast = front ++ last :: rest := by
      rw [← List.cons_append, ← List.append_assoc, List.dropLast_concat]
    rw [hlast, hdrop]
    refine ⟨by simp [Nat.add_assoc], ?_, ?_⟩
    · simp [List.count_append, List.count_cons]
    · simp [List.count_append, List.count_cons]

theorem entries_setList {l : Level} {m : Mode} {list : List (Option H)}
    (hcount : list.count (some h) = (cbs l m).count (some h)) :
    entries h (setList cbs l m list) = entries h cbs := by
  funext l' m'
  simp only [entries, setList]
  split
  · rename_i heq
    rw [hcount, heq.1, heq.2]
  · rfl

theorem entries_react {drops : H → List (Removal H)}
    (hkeep : ∀ h', ∀ r ∈ drops h', r.callback ≠ h) (h' : H) (cbs : Callbacks H) :
    entries h (react drops h' cbs) = entries h cbs := by
  funext l m
  obtain ⟨f, hf, hmap⟩ := react_map hkeep h' cbs l m
  simp only [entries, hmap, hf.count]

/-- The loop calls a handler for each of its entries from `i` on, and keeps them all. -/
theorem handlerLoop_count {drops : H → List (Removal H)}
    (hkeep : ∀ h', ∀ r ∈ drops h', r.callback ≠ h) (l : Level) (m : Mode) :
    ∀ (n i : Nat) (cbs : Callbacks H), (cbs l m).length ≤ n + i →
      (handlerLoop drops l m n i cbs).1.count h = ((cbs l m).drop i).count (some h) ∧
        entries h (handlerLoop drops l m n i cbs).2 = entries h cbs := by
  intro n
  induction n with
  | zero =>
      intro i cbs hlength
      rw [List.drop_of_length_le (by omega)]
      exact ⟨rfl, rfl⟩
  | succ n ih =>
      intro i cbs hlength
      simp only [handlerLoop]
      split
      · rename_i hnone
        rw [List.drop_of_length_le (List.getElem?_eq_none_iff.mp hnone)]
        exact ⟨rfl, rfl⟩
      · rename_i hhole
        obtain ⟨hshorter, hcount, hdrop⟩ := heal_split (h := h) hhole
        have hself : setList cbs l m (heal (cbs l m) i) l m = heal (cbs l m) i :=
          if_pos ⟨rfl, rfl⟩
        obtain ⟨hcalled, hentries⟩ := ih i (setList cbs l m (heal (cbs l m) i)) (by
          rw [hself]
          omega)
        rw [hself] at hcalled
        exact ⟨hcalled.trans hdrop, hentries.trans (entries_setList hcount)⟩
      · rename_i handler hhandler
        obtain ⟨f, hf, hmap⟩ := react_map hkeep handler cbs l m
        obtain ⟨hcalled, hentries⟩ := ih (i + 1) (react drops handler cbs) (by
          rw [hmap, List.length_map]
          omega)
        have hlt := (List.getElem?_eq_some_iff.mp hhandler).1
        have hat := (List.getElem?_eq_some_iff.mp hhandler).2
        refine ⟨?_, hentries.trans (entries_react hkeep handler cbs)⟩
        rw [List.count_cons, hcalled, hmap, ← List.map_drop, hf.count,
          List.drop_eq_getElem_cons hlt, hat, List.count_cons]
        simp

theorem doHandlerlist_count {drops : H → List (Removal H)}
    (hkeep : ∀ h', ∀ r ∈ drops h', r.callback ≠ h) (cbs : Callbacks H) (l : Level) :
    (doHandlerlist drops cbs l).1.count h = (entries h cbs).total l ∧
      entries h (doHandlerlist drops cbs l).2 = entries h cbs := by
  obtain ⟨hweak, hentries⟩ :=
    handlerLoop_count hkeep l .weak (cbs l .weak).length 0 cbs (Nat.le_add_right _ 0)
  obtain ⟨hstrong, hentries'⟩ := handlerLoop_count hkeep l .strong
    ((handlerLoop drops l .weak (cbs l .weak).length 0 cbs).2 l .strong).length 0
    (handlerLoop drops l .weak (cbs l .weak).length 0 cbs).2 (Nat.le_add_right _ 0)
  have hkept := congrFun (congrFun hentries l) .strong
  simp only [entries] at hkept
  simp only [doHandlerlist, List.count_append, hweak, hstrong, List.drop_zero, hentries', hentries,
    hkept, Registered.total, entries, and_self]

theorem doEvent_count {drops : H → List (Removal H)}
    (hkeep : ∀ h', ∀ r ∈ drops h', r.callback ≠ h) (cbs : Callbacks H) (source event : String) :
    (doEvent drops cbs source event).1.count h = (entries h cbs).total .all +
        (entries h cbs).total (.source source) + (entries h cbs).total (.event source event) ∧
      entries h (doEvent drops cbs source event).2 = entries h cbs := by
  obtain ⟨hall, hentries⟩ := doHandlerlist_count hkeep cbs .all
  obtain ⟨hsource, hentries'⟩ :=
    doHandlerlist_count hkeep (doHandlerlist drops cbs .all).2 (.source source)
  obtain ⟨hevent, hentries''⟩ := doHandlerlist_count hkeep
    (doHandlerlist drops (doHandlerlist drops cbs .all).2 (.source source)).2
    (.event source event)
  simp only [doEvent, List.count_append, hall, hsource, hevent, hentries'', hentries', hentries,
    and_self]

/-! ### Registering -/

theorem entries_register (cbs : Callbacks H) (callback : H) (mode : Mode)
    (source : Option String) (events : List String) (l : Level) (m : Mode) :
    entries h (register cbs callback mode source events) l m = entries h cbs l m +
      if callback = h ∧ m = mode then (levels source events).count l else 0 := by
  simp only [register]
  generalize levels source events = ls
  induction ls generalizing cbs with
  | nil => simp
  | cons l' ls ih =>
      have hone : entries h (setList cbs l' mode (cbs l' mode ++ [some callback])) l m =
          entries h cbs l m + if callback = h ∧ m = mode ∧ l' = l then 1 else 0 := by
        simp only [entries, setList]
        by_cases hlm : l = l' ∧ m = mode
        · rw [if_pos hlm, hlm.1, hlm.2, List.count_append, List.count_singleton]
          by_cases hcb : callback = h <;> simp [hcb]
        · rw [if_neg hlm, if_neg (fun hand => hlm ⟨hand.2.2.symm, hand.2.1⟩)]
          rfl
      rw [List.foldl_cons, ih, hone, List.count_cons]
      by_cases hcb : callback = h ∧ m = mode
      · by_cases hl : l' = l
        · simp [hcb, hl]
          omega
        · simp [hcb, hl]
      · rw [if_neg hcb, if_neg hcb, if_neg (fun hand => hcb ⟨hand.1, hand.2.1⟩)]

theorem entries_unregister (cbs : Callbacks H) (r : Removal H) (l : Level) (m : Mode) :
    entries h (unregister cbs r).2 l m =
      if r.callback = h ∧ l ∈ levels r.source r.events then 0 else entries h cbs l m := by
  simp only [entries, unregister]
  by_cases hl : l ∈ levels r.source r.events
  · rw [if_pos hl, count_clear]
    by_cases hcb : r.callback = h <;> simp [hcb, hl]
  · simp [hl]

theorem unregister_found (cbs : Callbacks H) (r : Removal H) (hcb : r.callback = h) :
    (unregister cbs r).1 =
      (levels r.source r.events).any (fun l => decide (0 < (entries h cbs).total l)) := by
  simp only [unregister, hcb]
  congr 1
  funext l
  rw [Bool.eq_iff_iff, Bool.or_eq_true, decide_eq_true_eq, decide_eq_true_eq, decide_eq_true_eq,
    Registered.total, entries, entries, ← List.count_pos_iff, ← List.count_pos_iff]
  omega

/-- One call keeps the lists and the number of registrations in step. -/
theorem act_count {drops : H → List (Removal H)}
    (hkeep : ∀ h', ∀ r ∈ drops h', r.callback ≠ h) (cbs : Callbacks H) (a : Action H) :
    seen h a (act drops cbs a).1 = ((entries h cbs).act h a).1 ∧
      entries h (act drops cbs a).2 = ((entries h cbs).act h a).2 := by
  cases a with
  | register callback mode source events =>
      exact ⟨rfl, funext fun l => funext fun m =>
        entries_register cbs callback mode source events l m⟩
  | unregister r =>
      by_cases hcb : r.callback = h
      · simp only [act, seen, Registered.act, unregister_found cbs r hcb, hcb, if_true, true_and]
        funext l m
        rw [entries_unregister]
        simp only [hcb, true_and]
      · simp only [act, seen, Registered.act, hcb, false_and, if_false]
        refine ⟨trivial, ?_⟩
        funext l m
        rw [entries_unregister, if_neg (fun hand => hcb hand.1)]
  | collect callback =>
      refine ⟨rfl, ?_⟩
      funext l m
      simp only [act, entries, collect, Registered.act]
      by_cases hm : m = .weak
      · rw [if_pos hm, count_clear]
        simp [hm]
      · simp [hm]
  | event source event =>
      simp only [act, seen, Registered.act]
      exact doEvent_count hkeep cbs source event

end Counting

/-- Over any run of registrations, removals, collections and events, an event calls a handler
as often as it is registered then, and unregister finds it just where it is. The handlers may
unregister any others while the event is handled. -/
theorem handlers_called {H : Type} [DecidableEq H] {drops : H → List (Removal H)} {h : H}
    (hkeep : ∀ h', ∀ r ∈ drops h', r.callback ≠ h) (as : List (Action H)) :
    List.zipWith (seen h) as (acts drops (fun _ _ => []) as) =
      Registered.acts (fun _ _ => 0) h as := by
  have hrun : ∀ (as : List (Action H)) (cbs : Callbacks H),
      List.zipWith (seen h) as (acts drops cbs as) = Registered.acts (entries h cbs) h as := by
    intro as
    induction as with
    | nil => exact fun _ => rfl
    | cons a as ih =>
        intro cbs
        obtain ⟨hseen, hentries⟩ := act_count hkeep cbs a
        rw [acts, List.zipWith_cons_cons, hseen, ih, hentries, Registered.acts]
  exact hrun as (fun _ _ => [])

theorem handlers_called_two : List.zipWith (seen 1)
    [.register 0 .weak none [], .register 0 .weak none [], .register 1 .weak none [],
      .unregister ⟨0, none, []⟩, .event "s" "e"]
    (acts (fun h => if h = 1 then [⟨2, none, []⟩] else []) (fun _ _ => [])
      [.register 0 .weak none [], .register 0 .weak none [], .register 1 .weak none [],
        .unregister ⟨0, none, []⟩, .event "s" "e"]) = [0, 0, 0, 0, 1] :=
  handlers_called
    (fun h' r hr => by
      split at hr
      · rw [List.mem_singleton.mp hr]
        decide
      · cases hr)
    [.register 0 .weak none [], .register 0 .weak none [], .register 1 .weak none [],
      .unregister ⟨0, none, []⟩, .event "s" "e"]

end WorkerEvents
end OpenrestyGateway
