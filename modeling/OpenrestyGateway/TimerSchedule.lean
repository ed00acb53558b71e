import OpenrestyGateway.RestyTimer
import Mathlib.Tactic.Linarith
import Mathlib.Algebra.Order.Ring.Rat
import Mathlib.Data.List.Basic

/-!
resty/timer.lua: when the callbacks of a timer are called.

What is said of one timer is kept by each of its own steps, by those of the others, and by the
passage of time.
-/
namespace OpenrestyGateway
namespace RestyTimer

/-- The calls of timer `i`, and when. -/
def trace (i : Nat) (log : List Event) : List (Call × ℚ) :=
  (log.filter (fun e => e.timer = i)).map (fun e => (e.call, e.time))

def calls (i : Nat) (log : List Event) : List Call := (trace i log).map Prod.fst

/-- When the callback `expire` was called. -/
def starts (tr : List (Call × ℚ)) : List ℚ := (tr.filter (fun c => c.1 = .expire)).map Prod.snd

/-- Calls made at one time. -/
def stamped (now : ℚ) (cs : List Call) : List (Call × ℚ) := cs.map (fun call => (call, now))

/-- What the steps of a timer keep of it and its calls, where its callbacks return at times that
meet `C`. -/
structure Preserved (C : ℚ → Timer → Prop) (P : ℚ → Timer → List (Call × ℚ) → Prop) : Prop where
  stop : ∀ {now T tr}, P now T tr → ∀ reason,
    P now (T.stop reason).1 (tr ++ stamped now (T.stop reason).2)
  turn : ∀ {now T tr}, P now T tr → ∀ exiting, T.due now exiting = true → ∀ answer,
    P now (T.turn now exiting answer).1 (tr ++ stamped now (T.turn now exiting answer).2)
  finish : ∀ {now T tr}, P now T tr → T.inCall = true → C now T → ∀ exiting,
    P now (T.finish now exiting).1 (tr ++ stamped now (T.finish now exiting).2)
  collect : ∀ {now T tr}, P now T tr → T.inCall = false →
    P now T.collect.1 (tr ++ stamped now T.collect.2)
  pass : ∀ {now T tr}, P now T tr → ∀ d, 0 ≤ d → P (now + d) T tr

/-- Timer `i` is there, and `P` holds of it. -/
def Holds (P : ℚ → Timer → List (Call × ℚ) → Prop) (W : World) (i : Nat) : Prop :=
  ∃ T, W.timers[i]? = some T ∧ P W.now T (trace i W.log)

theorem Preserved.and {C : ℚ → Timer → Prop} {P Q : ℚ → Timer → List (Call × ℚ) → Prop}
    (hP : Preserved C P) (hQ : Preserved C Q) :
    Preserved C (fun now T tr => P now T tr ∧ Q now T tr) where
  stop h reason := ⟨hP.stop h.1 reason, hQ.stop h.2 reason⟩
  turn h exiting hdue answer := ⟨hP.turn h.1 exiting hdue answer, hQ.turn h.2 exiting hdue answer⟩
  finish h hin hC exiting := ⟨hP.finish h.1 hin hC exiting, hQ.finish h.2 hin hC exiting⟩
  collect h hfree := ⟨hP.collect h.1 hfree, hQ.collect h.2 hfree⟩
  pass h d hd := ⟨hP.pass h.1 d hd, hQ.pass h.2 d hd⟩

/-! ### What new sets for good -/

/-- The fields that no step changes. -/
structure Plan where
  recurring : Bool
  cancel : Bool
  key : Option (String × String)
  interval : ℚ
  subInterval : ℚ

def Timer.plan (T : Timer) : Plan := ⟨T.recurring, T.cancel, T.key, T.interval, T.subInterval⟩

section Plans
variable {T : Timer} {now : ℚ}

theorem plan_stop (reason : Reason) : (T.stop reason).1.plan = T.plan := by
  simp only [Timer.stop]
  split <;> rfl

theorem plan_quit : T.quit.1.plan = T.plan := by
  simp only [Timer.quit]
  split
  · exact plan_stop .system
  · rfl

theorem plan_reschedule (exiting : Bool) : (T.reschedule now exiting).1.plan = T.plan := by
  simp only [Timer.reschedule]
  split
  · exact plan_quit
  · rfl

theorem plan_turn (exiting : Bool) (answer : Except String Unit) :
    (T.turn now exiting answer).1.plan = T.plan := by
  simp only [Timer.turn]
  split
  · exact plan_quit
  · split
    · split
      · rfl
      · split
        · rfl
        · split
          · rfl
          · split
            · exact plan_reschedule false
            · rfl
    · rfl

theorem plan_preserved (C : ℚ → Timer → Prop) (plan : Plan) :
    Preserved C (fun _ T _ => T.plan = plan) where
  stop h reason := (plan_stop reason).trans h
  turn h exiting _ answer := (plan_turn exiting answer).trans h
  finish h _ _ exiting := by
    refine Eq.trans ?_ h
    simp only [Timer.finish]
    split
    · exact plan_reschedule exiting
    · rfl
  collect h _ := by
    refine Eq.trans ?_ h
    simp only [Timer.collect]
    split
    · exact plan_stop .gc
    · rfl
  pass h _ _ := h

end Plans

section Steps
variable {shared : List String} {C : ℚ → Timer → Prop}
  {P : ℚ → Timer → List (Call × ℚ) → Prop} {W W' : World} {i : Nat}

theorem trace_append (i : Nat) (log events : List Event) :
    trace i (log ++ events) = trace i log ++ trace i events := by
  simp only [trace, List.filter_append, List.map_append]

theorem trace_self (i : Nat) (now : ℚ) (cs : List Call) :
    trace i (cs.map (fun call => ⟨i, call, now⟩)) = stamped now cs := by
  induction cs with
  | nil => rfl
  | cons call cs ih =>
      simp only [trace, stamped, List.map_cons, List.filter_cons, decide_true, if_true] at ih ⊢
      rw [ih]

theorem trace_other {i j : Nat} (hne : j ≠ i) (now : ℚ) (cs : List Call) :
    trace i (cs.map (fun call => ⟨j, call, now⟩)) = [] := by
  induction cs with
  | nil => rfl
  | cons call cs ih =>
      simp only [trace, List.map_cons, List.filter_cons, decide_eq_false hne, Bool.false_eq_true,
        if_false] at ih ⊢
      exact ih

theorem Holds.put (h : Holds P W i) {j : Nat} {T : Timer} (hT : W.timers[j]? = some T)
    (r : Timer × List Call) (hr : j = i → ∀ tr, P W.now T tr →
      P W.now r.1 (tr ++ stamped W.now r.2)) : Holds P (W.put j r) i := by
  obtain ⟨T₀, hT₀, hP⟩ := h
  by_cases hij : j = i
  · subst hij
    cases hT.symm.trans hT₀
    refine ⟨r.1, ?_, ?_⟩
    · exact (List.getElem?_set_self' ..).trans (by rw [hT]; rfl)
    · simp only [World.put, trace_append, trace_self]
      exact hr rfl _ hP
  · refine ⟨T₀, (List.getElem?_set_ne hij).trans hT₀, ?_⟩
    simp only [World.put, trace_append, trace_other hij, List.append_nil]
    exact hP

theorem clock_add (dicts : Dicts) (key : String × String) (exptime : ℚ) (fault : Option String) :
    (add dicts key exptime fault).2.clock = dicts.clock := by
  simp only [add]
  split
  · rfl
  · split <;> rfl

/-- What a step can do. -/
inductive Does (shared : List String) (W : World) : Label → World → Prop where
  | new {worker : Nat} {opts : Options} {random : ℚ} {fault : Option String} :
      opts.check shared = .ok () → 0 ≤ random → random < 1 →
      Does shared W (.new worker opts random fault) (W.new worker opts random fault)
  | wake {j : Nat} {T : Timer} {fault : Option String} :
      W.timers[j]? = some T → T.due W.now (W.exiting T.worker) = true →
      Does shared W (.wake j fault) (W.wake j T fault)
  | finish {j : Nat} {T : Timer} : W.timers[j]? = some T → T.inCall = true →
      Does shared W (.finish j) (W.put j (T.finish W.now (W.exiting T.worker)))
  | cancel {j : Nat} {T : Timer} : W.timers[j]? = some T →
      Does shared W (.cancel j) (W.put j (T.stop .user))
  | collect {j : Nat} {T : Timer} : W.timers[j]? = some T → T.inCall = false →
      Does shared W (.collect j) (W.put j T.collect)
  | exit {worker : Nat} :
      Does shared W (.exit worker)
        { W with exiting := fun j => if j = worker then true else W.exiting j }
  | pass {d : ℚ} : 0 ≤ d → Does shared W (.pass d) { W with dicts := W.dicts.advance d }
  | evict {key : String × String} : Does shared W (.evict key) { W with dicts := W.dicts.remove key }

theorem step_does {l : Label} (hstep : W.step shared l = some W') : Does shared W l W' := by
  cases l with
  | new worker opts random fault =>
      simp only [World.step] at hstep
      split at hstep
      · cases hstep
      · rename_i hcheck
        split at hstep
        · rename_i hrandom
          cases hstep
          exact .new hcheck hrandom.1 hrandom.2
        · cases hstep
  | wake j fault =>
      obtain ⟨T, hT, hdue⟩ := Option.bind_eq_some_iff.mp hstep
      split at hdue
      · rename_i hready
        cases hdue
        exact .wake hT hready
      · cases hdue
  | finish j =>
      obtain ⟨T, hT, hcall⟩ := Option.bind_eq_some_iff.mp hstep
      split at hcall
      · rename_i hin
        cases hcall
        exact .finish hT hin
      · cases hcall
  | cancel j =>
      obtain ⟨T, hT, hlive⟩ := Option.bind_eq_some_iff.mp hstep
      split at hlive
      · cases hlive
      · cases hlive
        exact .cancel hT
  | collect j =>
      obtain ⟨T, hT, hlive⟩ := Option.bind_eq_some_iff.mp hstep
      split at hlive
      · cases hlive
      · rename_i hfree
        cases hlive
        simp only [Bool.or_eq_true, not_or, Bool.not_eq_true] at hfree
        exact .collect hT hfree.2
  | exit worker =>
      cases hstep
      exact .exit
  | pass d =>
      simp only [World.step] at hstep
      split at hstep
      · rename_i hd
        cases hstep
        exact .pass hd
      · cases hstep
  | evict key =>
      cases hstep
      exact .evict

/-- A timer that goes on, whatever is in the dicts. -/
theorem wake_eq (W : World) (j : Nat) (T : Timer) (fault : Option String) :
    ∃ answer dicts, dicts.clock = W.dicts.clock ∧ W.wake j T fault =
      { W.put j (T.turn W.now (W.exiting T.worker) answer) with dicts } := by
  simp only [World.wake]
  split
  · exact ⟨_, W.dicts, rfl, rfl⟩
  · split
    · exact ⟨_, W.dicts, rfl, rfl⟩
    · exact ⟨_, _, clock_add _ _ _ _, rfl⟩

/-- The callbacks of timer `i` return at times that meet `C`. -/
def Returns (C : ℚ → Timer → Prop) (i : Nat) (W : World) (l : Label) : Prop :=
  l = .finish i → ∀ T, W.timers[i]? = some T → C W.now T

theorem Preserved.step (hkept : Preserved C P) (h : Holds P W i) {l : Label}
    (hl : Returns C i W l) (hstep : W.step shared l = some W') : Holds P W' i := by
  cases step_does hstep with
  | new _ _ _ =>
      obtain ⟨T, hT, hP⟩ := h
      simp only [World.new]
      split
      · exact ⟨T, hT, hP⟩
      · have hi := (List.getElem?_eq_some_iff.mp hT).1
        exact ⟨T, (List.getElem?_append_left hi).trans hT, hP⟩
  | wake hT hdue =>
      obtain ⟨answer, dicts, hclock, heq⟩ := wake_eq W _ _ _
      obtain ⟨T', hT', hP⟩ := h.put hT _ (fun _ tr hP => hkept.turn hP _ hdue answer)
      rw [heq]
      refine ⟨T', hT', ?_⟩
      rw [World.now, hclock]
      exact hP
  | finish hT hin =>
      refine h.put hT _ (fun hj tr hP => hkept.finish hP hin ?_ _)
      subst hj
      exact hl rfl _ hT
  | cancel hT => exact h.put hT _ (fun _ tr hP => hkept.stop hP .user)
  | collect hT hfree => exact h.put hT _ (fun _ tr hP => hkept.collect hP hfree)
  | exit | evict => exact h
  | pass hd =>
      obtain ⟨T, hT, hP⟩ := h
      exact ⟨T, hT, hkept.pass hP _ hd⟩

theorem Preserved.runs (hkept : Preserved C P) (h : Holds P W i)
    (hruns : Runs shared (Returns C i) W W') : Holds P W' i := by
  induction hruns with
  | refl => exact h
  | step _ hl hstep ih => exact hkept.step ih hl hstep

/-- A step makes calls of one timer that is there. -/
theorem log_step {l : Label} (hstep : W.step shared l = some W') :
    W.timers.length ≤ W'.timers.length ∧
      ∃ j cs, W'.log = W.log ++ cs.map (fun call => ⟨j, call, W.now⟩) ∧
        (cs = [] ∨ j < W.timers.length) := by
  have hput : ∀ {k T} (r : Timer × List Call), W.timers[k]? = some T →
      W.timers.length ≤ (W.put k r).timers.length ∧
        ∃ j cs, (W.put k r).log = W.log ++ cs.map (fun call => ⟨j, call, W.now⟩) ∧
          (cs = [] ∨ j < W.timers.length) :=
    fun r hT => ⟨(List.length_set ..).ge, _, r.2, rfl, .inr (List.getElem?_eq_some_iff.mp hT).1⟩
  have hsame : ∃ j cs, W.log = W.log ++ cs.map (fun call => ⟨j, call, W.now⟩) ∧
      (cs = [] ∨ j < W.timers.length) := ⟨0, [], (List.append_nil _).symm, .inl rfl⟩
  cases step_does hstep with
  | new _ _ _ =>
      simp only [World.new]
      split
      · exact ⟨le_rfl, hsame⟩
      · exact ⟨by simp, hsame⟩
  | wake hT _ =>
      obtain ⟨answer, dicts, -, heq⟩ := wake_eq W _ _ _
      rw [heq]
      exact hput _ hT
  | finish hT _ => exact hput _ hT
  | cancel hT => exact hput _ hT
  | collect hT _ => exact hput _ hT
  | exit | evict | pass => exact ⟨le_rfl, hsame⟩

/-- Calls are those of timers that are there. -/
theorem log_timers {ok : World → Label → Prop} (h : Reaches shared ok W) :
    ∀ e ∈ W.log, e.timer < W.timers.length := by
  induction h with
  | refl => exact fun e he => absurd he List.not_mem_nil
  | step _ _ hstep ih =>
      obtain ⟨hlength, j, cs, hlog, hj⟩ := log_step hstep
      intro e he
      rw [hlog, List.mem_append] at he
      refine lt_of_lt_of_le ?_ hlength
      cases he with
      | inl hold => exact ih e hold
      | inr hnew =>
          obtain ⟨call, hcall, rfl⟩ := List.mem_map.mp hnew
          exact hj.resolve_left (List.ne_nil_of_mem hcall)

/-- A timer that has just been made has made no calls. -/
theorem holds_new {ok : World → Label → Prop} (h : Reaches shared ok W) {worker : Nat}
    {opts : Options} {random : ℚ} (hstep : W.step shared (.new worker opts random none) = some W')
    (hP : opts.check shared = .ok () → 0 ≤ random → P W.now (opts.timer worker random W.now) []) :
    Holds P W' W.timers.length := by
  cases step_does hstep with
  | new hcheck hrandom _ =>
      have htrace : trace W.timers.length W.log = [] := by
        rw [trace, List.map_eq_nil_iff, List.filter_eq_nil_iff]
        intro e he
        have hlt := log_timers h e he
        simp only [decide_eq_true_eq]
        omega
      refine ⟨opts.timer worker random W.now, List.getElem?_concat_length, ?_⟩
      rw [show (W.new worker opts random none).log = W.log from rfl, htrace]
      exact hP hcheck hrandom

end Steps

/-! ### Cancelled once -/

/-- `expire` was called `n` times, and the callback of a cancelled timer once after that. -/
structure Once (n : Nat) (T : Timer) (tr : List (Call × ℚ)) : Prop where
  calls : tr.map Prod.fst = List.replicate n .expire ++
    if T.cancelFlag && T.cancel then T.prematureReason.toList.map .cancel else []
  flagged : T.cancelFlag = true → T.registered = false ∧ T.prematureReason.isSome = true
  single : T.recurring = false → n + (if T.registered then 1 else 0) ≤ 1

section Cancelled
variable {n : Nat} {T : Timer} {now : ℚ} {tr : List (Call × ℚ)}

theorem stamped_nil : tr ++ stamped now [] = tr := List.append_nil tr

theorem calls_stamped (cs : List Call) :
    (tr ++ stamped now cs).map Prod.fst = tr.map Prod.fst ++ cs := by
  rw [List.map_append, stamped, List.map_map]
  exact congrArg _ (List.map_id cs)

/-- What the number of calls depends on. -/
theorem Once.same (h : Once n T tr) {T' : Timer} (hflag : T'.cancelFlag = T.cancelFlag)
    (hcancel : T'.cancel = T.cancel) (hreason : T'.prematureReason = T.prematureReason)
    (hregistered : T'.registered = true → T.registered = true)
    (hrecurring : T'.recurring = T.recurring) : Once n T' tr := by
  refine ⟨?_, fun hflagged => ?_, fun hsingle => ?_⟩
  · rw [hflag, hcancel, hreason]
    exact h.calls
  · rw [hflag] at hflagged
    obtain ⟨hgone, hsome⟩ := h.flagged hflagged
    refine ⟨Bool.eq_false_iff.mpr (fun hthere => ?_), hreason ▸ hsome⟩
    rw [hregistered hthere] at hgone
    cases hgone
  · have hle := h.single (hrecurring ▸ hsingle)
    by_cases hthere : T'.registered = true
    · rw [if_pos hthere]
      rwa [if_pos (hregistered hthere)] at hle
    · rw [if_neg hthere]
      omega

theorem Once.stop (h : Once n T tr) (reason : Reason) :
    Once n (T.stop reason).1 (tr ++ stamped now (T.stop reason).2) := by
  simp only [Timer.stop]
  split
  · rw [stamped_nil]
    exact h
  · rename_i hflag
    have hcalls := h.calls
    rw [Bool.eq_false_iff.mpr hflag, Bool.false_and] at hcalls
    refine ⟨?_, fun _ => ⟨rfl, rfl⟩, fun hsingle => ?_⟩
    · rw [calls_stamped, hcalls, if_neg Bool.false_ne_true, List.append_nil]
      cases T.cancel with
      | false => rfl
      | true => rfl
    · have hle := h.single hsingle
      simp only [Bool.false_eq_true, if_false]
      omega

theorem Once.expire (h : Once n T tr) (hregistered : T.registered = true) {T' : Timer}
    (hflag : T'.cancelFlag = T.cancelFlag) (hrecurring : T'.recurring = T.recurring)
    (hgone : T.recurring = false → T'.registered = false) :
    Once (n + 1) T' (tr ++ stamped now [.expire]) := by
  have hunflagged : T.cancelFlag = false := by
    refine Bool.eq_false_iff.mpr (fun hflagged => ?_)
    rw [(h.flagged hflagged).1] at hregistered
    cases hregistered
  have hcalls := h.calls
  rw [hunflagged, Bool.false_and, if_neg Bool.false_ne_true, List.append_nil] at hcalls
  refine ⟨?_, fun hflagged => ?_, fun hsingle => ?_⟩
  · rw [calls_stamped, hcalls, hflag, hunflagged, Bool.false_and, if_neg Bool.false_ne_true,
      List.append_nil, List.replicate_succ']
  · rw [hflag, hunflagged] at hflagged
    cases hflagged
  · have hle := h.single (hrecurring ▸ hsingle)
    rw [hgone (hrecurring ▸ hsingle), if_neg Bool.false_ne_true]
    rw [if_pos hregistered] at hle
    omega

theorem Once.quit (h : Once n T tr) : Once n T.quit.1 (tr ++ stamped now T.quit.2) := by
  simp only [Timer.quit]
  split
  · exact (h.stop .system).same rfl rfl rfl id rfl
  · rw [stamped_nil]
    exact h.same rfl rfl rfl id rfl

theorem Once.reschedule (h : Once n T tr) (exiting : Bool) :
    Once n (T.reschedule now exiting).1 (tr ++ stamped now (T.reschedule now exiting).2) := by
  simp only [Timer.reschedule]
  split
  · exact Once.quit (h.same rfl rfl rfl id rfl)
  · rw [stamped_nil]
    exact h.same rfl rfl rfl id rfl

theorem once_preserved : Preserved (fun _ _ => True) (fun _ T tr => ∃ n, Once n T tr) where
  stop h reason := h.imp (fun n h => h.stop reason)
  turn := by
    intro now T tr h exiting hdue answer
    obtain ⟨n, h⟩ := h
    have hrest : Once n { T with thread := .ended } tr := h.same rfl rfl rfl id rfl
    simp only [Timer.turn]
    split
    · exact ⟨n, h.quit⟩
    · split
      · rename_i hlive
        obtain ⟨hregistered, -⟩ := Bool.and_eq_true_iff.mp hlive
        split
        · exact ⟨n + 1, h.expire hregistered rfl rfl (fun _ => rfl)⟩
        · rename_i hrecurring
          rw [Bool.not_eq_true', Bool.not_eq_false] at hrecurring
          have hexecute : Once (n + 1) T.execute.1 (tr ++ stamped now T.execute.2) := by
            refine h.expire hregistered rfl rfl (fun hsingle => ?_)
            rw [hrecurring] at hsingle
            cases hsingle
          split
          · rw [stamped_nil]
            exact ⟨n, hrest⟩
          · split
            · exact ⟨n + 1, hexecute⟩
            · split
              · exact ⟨n, h.reschedule false⟩
              · exact ⟨n + 1, hexecute⟩
      · rw [stamped_nil]
        exact ⟨n, hrest⟩
  finish := by
    intro now T tr h hin _ exiting
    obtain ⟨n, h⟩ := h
    refine ⟨n, ?_⟩
    simp only [Timer.finish]
    split
    · exact h.reschedule exiting
    · rw [stamped_nil]
      exact h.same rfl rfl rfl id rfl
  collect := by
    intro now T tr h hin
    obtain ⟨n, h⟩ := h
    refine ⟨n, ?_⟩
    have hgone : Once n { T with registered := false, collected := true } tr :=
      h.same rfl rfl rfl (fun hfalse => by cases hfalse) rfl
    simp only [Timer.collect]
    split
    · exact hgone.stop .gc
    · rw [stamped_nil]
      exact hgone
  pass h d hd := h

end Cancelled

/-- A cancelled timer that is not registered makes no more calls. -/
theorem silent_preserved (tr₀ : List (Call × ℚ)) : Preserved (fun _ _ => True)
    (fun _ T tr => T.cancelFlag = true ∧ T.registered = false ∧ tr = tr₀) where
  stop := by
    intro now T tr h reason
    simp [Timer.stop, stamped, h]
  turn := by
    intro now T tr h exiting hdue answer
    simp [Timer.turn, Timer.quit, stamped, h]
  finish := by
    intro now T tr h hin _ exiting
    cases hrecurring : T.recurring with
    | false => simp [Timer.finish, hrecurring, stamped, h]
    | true => cases exiting <;> simp [Timer.finish, Timer.reschedule, Timer.quit, hrecurring, stamped, h]
  collect := by
    intro now T tr h hin
    cases hcancel : T.cancel with
    | false => simp [Timer.collect, hcancel, stamped, h]
    | true => simp [Timer.collect, Timer.stop, hcancel, stamped, h]
  pass h d hd := h

/-- Over any run of the node: the callback of a timer is called with `expire`, once where the
timer is not recurring, then at most once for its cancellation; and a timer that is cancelled,
for whatever reason, is never called again. -/
theorem cancelled_once {shared : List String} {ok : World → Label → Prop} {W W₁ W' : World}
    (h : Reaches shared ok W) {worker : Nat} {opts : Options} {random : ℚ}
    (hnew : W.step shared (.new worker opts random none) = some W₁)
    (hruns : Runs shared (fun _ _ => True) W₁ W') :
    ∃ T n, W'.timers[W.timers.length]? = some T ∧
      calls W.timers.length W'.log = List.replicate n .expire ++
        (if T.cancelFlag && T.cancel then T.prematureReason.toList.map .cancel else []) ∧
      (opts.recurring = false → n ≤ 1) ∧
      (T.cancelFlag = true → T.prematureReason.isSome = true ∧
        ∀ W'', Runs shared (fun _ _ => True) W' W'' →
          calls W.timers.length W''.log = calls W.timers.length W'.log) := by
  have htimer := holds_new h hnew (P := fun _ T tr => (∃ n, Once n T tr) ∧
      T.plan = (opts.timer worker random W.now).plan)
    (fun _ _ => ⟨⟨0, rfl, fun hflag => (by cases hflag), fun _ => le_rfl⟩, rfl⟩)
  obtain ⟨T, hT, ⟨n, honce⟩, hplan⟩ := (once_preserved.and (plan_preserved _ _)).runs htimer
    (hruns.mono (fun _ _ _ _ _ _ => trivial))
  refine ⟨T, n, hT, honce.calls, fun hsingle => ?_, fun hflag => ?_⟩
  · have hle := honce.single ((congrArg Plan.recurring hplan).trans hsingle)
    omega
  · obtain ⟨hgone, hreason⟩ := honce.flagged hflag
    refine ⟨hreason, fun W'' hmore => ?_⟩
    obtain ⟨-, -, -, -, htrace⟩ := (silent_preserved (trace W.timers.length W'.log)).runs
      ⟨T, hT, hflag, hgone, rfl⟩ (hmore.mono (fun _ _ _ _ _ _ => trivial))
    rw [calls, htrace, calls]

end RestyTimer
end OpenrestyGateway
