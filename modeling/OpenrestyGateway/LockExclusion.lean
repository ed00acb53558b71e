import OpenrestyGateway.LockMemo
import Mathlib.Algebra.Order.Archimedean.Basic
import Mathlib.Data.Rat.Floor
import Mathlib.Tactic.Linarith

/-!
What the locks are for.

A key that runs out is free again, so that a lock excludes others for as long as its key
lasts. A lock that is released later, or prolonged, takes the key of another.
-/
namespace OpenrestyGateway
namespace RestyLock

open Ttl Ttl.Store

/-! ### Exclusion -/

/-- The lock holds its key, and the key has not run out. -/
def Lock.lasts (W : World) (o : Lock) : Prop :=
  o.keyId ≠ 0 ∧ alive W.dicts.clock o.untilTime = true

instance (W : World) (o : Lock) : Decidable (o.lasts W) := inferInstanceAs (Decidable (_ ∧ _))

/-- Locks are released, prolonged and collected in time, and the dict does not evict keys that
are held. -/
def Prompt (W : World) : Label → Prop
  | .unlock i | .expire i _ | .collect i =>
      ∀ o, W.locks[i]? = some o → o.keyId ≠ 0 → o.lasts W
  | .evict dictName key =>
      ∀ o ∈ W.locks, o.lasts W → (o.dictName, o.key) ≠ (dictName, key)
  | .new _ _ _ _ | .lock _ _ _ _ | .retry _ _ _ | .pass _ => True

/-- Who holds a key has added it. -/
def Owns (W : World) : Prop :=
  ∀ i o, W.locks[i]? = some o → o.lasts W →
    W.dicts.entry (o.dictName, o.key) = some (i, o.untilTime)

section Steps
variable {W : World} {i : Nat} {o : Lock}

theorem Owns.ne (h : Owns W) (hlock : W.locks[i]? = some o) (hlasts : o.lasts W) {j : Nat}
    {o' : Lock} (hlock' : W.locks[j]? = some o') (hlasts' : o'.lasts W) (hne : j ≠ i) :
    (o'.dictName, o'.key) ≠ (o.dictName, o.key) := by
  intro heq
  have hentry := h j o' hlock' hlasts'
  rw [heq, h i o hlock hlasts] at hentry
  exact hne (congrArg Prod.fst (Option.some.inj hentry)).symm

theorem getElem?_set_cases {locks : List Lock} {j : Nat} {o' p : Lock}
    (h : (locks.set i o')[j]? = some p) : (j = i ∧ p = o') ∨ (j ≠ i ∧ locks[j]? = some p) := by
  by_cases hj : j = i
  · subst hj
    rw [List.getElem?_set_self'] at h
    obtain ⟨a, -, ha⟩ := Option.map_eq_some_iff.mp h
    exact .inl ⟨rfl, ha.symm⟩
  · rw [List.getElem?_set_ne (Ne.symm hj)] at h
    exact .inr ⟨hj, h⟩

/-- The locks and dicts change at one lock, which holds nothing afterwards. -/
theorem Owns.drop (h : Owns W) {W' : World} (o' : Lock) (hlocks : W'.locks = W.locks.set i o')
    (hdrop : o'.keyId = 0) (hclock : W'.dicts.clock = W.dicts.clock)
    (hentry : ∀ j p, W.locks[j]? = some p → p.lasts W → j ≠ i →
      W'.dicts.entry (p.dictName, p.key) = W.dicts.entry (p.dictName, p.key)) : Owns W' := by
  intro j p hlock hlasts
  rw [hlocks] at hlock
  cases getElem?_set_cases hlock with
  | inl hself =>
      obtain ⟨-, rfl⟩ := hself
      exact absurd hdrop hlasts.1
  | inr hother =>
      have hbefore : p.lasts W := ⟨hlasts.1, hclock ▸ hlasts.2⟩
      rw [hentry j p hother.2 hbefore hother.1]
      exact h j p hother.2 hbefore

/-- The locks and dicts change at one lock, which has the key afterwards. -/
theorem Owns.gain (h : Owns W) {W' : World} (o' : Lock) (hlocks : W'.locks = W.locks.set i o')
    (hdicts : W'.dicts = W.dicts.write (o'.dictName, o'.key) (i, o'.untilTime))
    (hfree : ∀ j p, W.locks[j]? = some p → p.lasts W → j ≠ i →
      (p.dictName, p.key) ≠ (o'.dictName, o'.key)) : Owns W' := by
  intro j p hlock hlasts
  have hclock : W'.dicts.clock = W.dicts.clock := by
    rw [hdicts]
    rfl
  rw [hlocks] at hlock
  cases getElem?_set_cases hlock with
  | inl hself =>
      obtain ⟨rfl, rfl⟩ := hself
      rw [hdicts]
      exact entry_write_self _ _ _ (hclock ▸ hlasts.2)
  | inr hother =>
      have hbefore : p.lasts W := ⟨hlasts.1, hclock ▸ hlasts.2⟩
      rw [hdicts, entry_write_ne _ _ (hfree j p hother.2 hbefore hother.1)]
      exact h j p hother.2 hbefore

theorem owns_tryAdd (h : Owns W) (hkey : o.keyId = 0) (key : String) (len : Nat)
    (fault : Option String) (elapsed : ℚ) (next : Option Wait) :
    Owns (W.tryAdd i o key len fault elapsed next).1 := by
  have hset : ∀ waiting, Owns (W.setLock i { o with waiting }) :=
    fun waiting => h.drop { o with waiting } rfl hkey rfl (fun _ _ _ _ _ => rfl)
  simp only [World.tryAdd]
  split
  · exact hset none
  · split
    · rename_i hnone
      refine h.gain _ rfl rfl (fun j p hlock hlasts _ heq => ?_)
      have hentry := h j p hlock hlasts
      rw [heq, Option.isNone_iff_eq_none.mp hnone] at hentry
      cases hentry
    · split
      · exact hset none
      · exact hset _

theorem owns_new (h : Owns W) (worker : Nat) (dictName : String) (opts : Options) (len : Nat) :
    Owns (W.new worker dictName opts len) := by
  intro j p hlock hlasts
  simp only [World.new] at hlock
  by_cases hj : j < W.locks.length
  · rw [List.getElem?_append_left hj] at hlock
    exact h j p hlock hlasts
  · rw [List.getElem?_append_right (by omega)] at hlock
    have hmem := List.mem_singleton.mp (List.mem_of_getElem? hlock)
    exact absurd (congrArg Lock.keyId hmem) hlasts.1

theorem owns_pass (h : Owns W) {d : ℚ} (hd : 0 ≤ d) :
    Owns { W with dicts := W.dicts.advance d } := by
  intro j p hlock hlasts
  have hbefore : p.lasts W := ⟨hlasts.1, alive_of_advance hd hlasts.2⟩
  simp only [entry_advance _ _ hd, h j p hlock hbefore]
  exact (Option.filter_eq_some_iff).mpr ⟨rfl, hlasts.2⟩

theorem owns_step {ok : World → Label → Prop} (hreaches : Reaches ok W) (h : Owns W) {l : Label}
    (hprompt : Prompt W l) {W' : World} {a : Answer} (hstep : W.step l = some (W', a)) :
    Owns W' := by
  obtain ⟨size, hkept⟩ := kept_run hreaches
  cases l with
  | new worker dictName opts len =>
      simp only [World.step] at hstep
      split at hstep
      · cases hstep
        exact owns_new h worker dictName opts len
      · cases hstep
  | lock j key len fault =>
      obtain ⟨o, hidle, hstep⟩ := Option.bind_eq_some_iff.mp hstep
      split at hstep
      · have heq : (W.lock j o key len fault).1 = W' := congrArg Prod.fst (Option.some.inj hstep)
        rw [← heq, World.lock]
        split
        · exact h
        · exact owns_tryAdd h (by omega) key len fault 0 _
      · cases hstep
  | retry j len fault =>
      obtain ⟨o, hlock, hstep⟩ := Option.bind_eq_some_iff.mp hstep
      obtain ⟨w, hwaiting, hstep⟩ := Option.bind_eq_some_iff.mp hstep
      split at hstep
      · have heq : (W.retry j o w.1 w.2.1 len fault).1 = W' :=
          congrArg Prod.fst (Option.some.inj hstep)
        have hvalid := (hkept.valid o (List.mem_of_getElem? hlock)).1 (by rw [hwaiting]; rfl)
        rw [← heq]
        exact owns_tryAdd h hvalid.1 w.1 len fault _ _
      · cases hstep
  | unlock j =>
      obtain ⟨o, hidle, hstep⟩ := Option.map_eq_some_iff.mp hstep
      have heq : (W.unlock j o).1 = W' := congrArg Prod.fst hstep
      obtain ⟨hlock, hlive, -⟩ := idle_eq hidle
      have hdicts := hkept.unlock_dicts hidle
      rw [heq] at hdicts
      by_cases hkey : o.keyId = 0
      · rw [World.unlock, if_pos hkey] at heq
        exact heq ▸ h
      · rw [if_neg hkey] at hdicts
        refine h.drop (i := j) { o with keyId := 0 } ?_ rfl ?_ (fun j' p hlock' hlasts hne => ?_)
        · rw [← heq, World.unlock, if_neg hkey]
          simp only [World.setLock, deleteKey_locks, World.setMemo]
        · rw [hdicts]
          rfl
        · rw [hdicts]
          exact entry_remove_ne _ (h.ne hlock (hprompt o hlock hkey) hlock' hlasts hne)
  | expire j time =>
      obtain ⟨o, hidle, hstep⟩ := Option.map_eq_some_iff.mp hstep
      have heq : (W.expire j o time).1 = W' := congrArg Prod.fst hstep
      obtain ⟨hlock, hlive, -⟩ := idle_eq hidle
      rw [← heq, World.expire]
      split
      · exact h
      · rename_i hkey
        have hlasts := hprompt o hlock hkey
        simp only [h j o hlock hlasts]
        refine h.gain
          { o with untilTime := expiry W.dicts.clock (time.getD o.settings.exptime) }
          rfl rfl (fun j' p hlock' hlasts' hne => ?_)
        exact h.ne hlock hlasts hlock' hlasts' hne
  | collect j =>
      obtain ⟨o, hidle, hstep⟩ := Option.map_eq_some_iff.mp hstep
      have heq : W.gcLock j o = W' := congrArg Prod.fst hstep
      obtain ⟨hlock, hlive, -⟩ := idle_eq hidle
      have hdicts := hkept.gcLock_dicts hidle
      rw [heq] at hdicts
      refine h.drop (i := j) { o with keyId := 0, collected := true } ?_ rfl ?_
        (fun j' p hlock' hlasts hne => ?_)
      · rw [← heq]
        simp only [World.gcLock, World.setLock, World.setMemo, gcKey_locks]
      · rw [hdicts]
        split <;> rfl
      · rw [hdicts]
        split
        · rfl
        · rename_i hkey
          exact entry_remove_ne _ (h.ne hlock (hprompt o hlock hkey) hlock' hlasts hne)
  | pass d =>
      simp only [World.step] at hstep
      split at hstep
      · rename_i hd
        cases hstep
        exact owns_pass h hd
      · cases hstep
  | evict dictName key =>
      cases hstep
      intro j p hlock hlasts
      have hne := hprompt p (List.mem_of_getElem? hlock) hlasts
      simp only [entry_remove_ne _ hne]
      exact h j p hlock hlasts

end Steps

theorem owns_run {W : World} (h : Reaches Prompt W) : Owns W := by
  induction h with
  | start => exact fun _ _ hlock => by cases hlock
  | step hreaches hprompt hstep ih => exact owns_step hreaches ih hprompt hstep

/-- As long as locks are given back in time and nothing is evicted, no two of them hold the
same key of the same dict, in whatever workers they are and however their calls interleave. -/
theorem exclusive {W : World} (h : Reaches Prompt W) {i j : Nat} {o o' : Lock}
    (hi : W.locks[i]? = some o) (hj : W.locks[j]? = some o') (hlasts : o.lasts W)
    (hlasts' : o'.lasts W) (hdict : o.dictName = o'.dictName) (hkey : o.key = o'.key) :
    i = j := by
  by_contra hne
  exact (owns_run h).ne hj hlasts' hi hlasts hne (Prod.ext hdict hkey)

/-- The key of the first lock runs out, and the second one gets it. -/
theorem exclusive_two : ∃ W o o', Reaches Prompt W ∧ W.locks[0]? = some o ∧
    W.locks[1]? = some o' ∧ o'.lasts W ∧ o.keyId ≠ 0 ∧ ¬o.lasts W := by
  let opts : Options := ⟨none, none, none, none, none⟩
  let ls : List Label := [.new 0 "conf" opts 0, .new 1 "conf" opts 0, .lock 0 "k" 1 none,
    .lock 1 "k" 1 none, .pass 30, .retry 1 1 none]
  have hcheck : (World.start.run ls).any (fun W => (W.locks[0]?).any (fun o =>
      (W.locks[1]?).any (fun o' => decide (o'.lasts W ∧ o.keyId ≠ 0 ∧
        o.dictName = o'.dictName ∧ o.key = o'.key)))) = true := by
    decide +kernel
  obtain ⟨W, hrun, hW⟩ := (Option.any_eq_true ..).mp hcheck
  obtain ⟨o, ho, hW⟩ := (Option.any_eq_true ..).mp hW
  obtain ⟨o', ho', hW⟩ := (Option.any_eq_true ..).mp hW
  obtain ⟨hlasts', hkeyId, hdict, hkey⟩ := of_decide_eq_true hW
  have hreaches : Reaches Prompt W := .run .start (fun l hl W => by
    simp only [ls, List.mem_cons, List.not_mem_nil, or_false] at hl
    obtain rfl | rfl | rfl | rfl | rfl | rfl := hl <;> trivial) hrun
  refine ⟨W, o, o', hreaches, ho, ho', hlasts', hkeyId, fun hlasts => ?_⟩
  exact absurd (exclusive hreaches ho ho' hlasts hlasts' hdict hkey) (by decide)

/-! ### Waiting -/

structure Settings.Positive (s : Settings) : Prop where
  timeout : 0 < s.timeout
  step : 0 < s.step
  step_le : s.step ≤ s.timeout
  maxStep : 0 < s.maxStep

/-- No sleep is shorter, save the last one. -/
def Settings.shortest (s : Settings) : ℚ := min s.step (min (1 / 1000) s.maxStep)

section Waiting
variable {s : Settings}

theorem Settings.Positive.shortest (h : s.Positive) : 0 < s.shortest :=
  lt_min h.step (lt_min (by norm_num) h.maxStep)

/-- What the loop keeps: the sleeps and the time that is left add up to the timeout. -/
structure Sleeping (s : Settings) (n : Nat) (w : Wait) : Prop where
  sum : w.elapsed + w.timeout = s.timeout
  step : 0 < w.step
  fits : w.step ≤ w.timeout
  elapsed : n * s.shortest ≤ w.elapsed
  full : w.step = w.timeout ∨ s.shortest ≤ w.step

theorem again_full (T a M : ℚ) :
    min (min (max (1 / 1000) a) T) M = T ∨
      min (1 / 1000) M ≤ min (min (max (1 / 1000) a) T) M := by
  by_cases hle : T ≤ min (max (1 / 1000) a) M
  · left
    have hbounds := le_min_iff.mp hle
    rw [min_eq_right hbounds.1, min_eq_left hbounds.2]
  · right
    have hlong : min (1 / 1000) M ≤ min (max (1 / 1000) a) M :=
      min_le_min_right M (le_max_left _ _)
    exact le_min (le_min (hlong.trans (min_le_left _ _)) (hlong.trans (not_le.mp hle).le))
      (min_le_right _ _)

theorem sleeping (h : s.Positive) {n : Nat} {w : Wait} (hsleep : s.sleep n = some w) :
    Sleeping s n w := by
  induction n generalizing w with
  | zero =>
      simp only [Settings.sleep, if_pos h.timeout] at hsleep
      cases hsleep
      exact ⟨zero_add _, h.step, h.step_le, by simp [Settings.wait], .inr (min_le_left _ _)⟩
  | succ n ih =>
      obtain ⟨w', hsleep', hagain⟩ := Option.bind_eq_some_iff.mp hsleep
      have hbefore := ih hsleep'
      simp only [Wait.again] at hagain
      split at hagain
      · cases hagain
      · rename_i hleft
        have hpos : 0 < w'.slept.timeout := not_le.mp hleft
        have hlong : s.shortest ≤ w'.step := by
          cases hbefore.full with
          | inl heq =>
              simp only [Wait.slept, heq, sub_self] at hpos
              exact absurd hpos (lt_irrefl 0)
          | inr hle => exact hle
        cases hagain
        have hsum := hbefore.sum
        have helapsed := hbefore.elapsed
        refine ⟨?_, ?_, ?_, ?_, ?_⟩
        · simp only [Wait.slept]
          linarith
        · exact lt_min (lt_min (lt_max_of_lt_left (by norm_num)) hpos) h.maxStep
        · exact (min_le_left _ _).trans (min_le_right _ _)
        · simp only [Wait.slept]
          push_cast
          linarith
        · exact (again_full _ _ _).imp_right (fun hle => (min_le_right _ _).trans hle)

/-- The sleeps come to an end. -/
theorem sleep_ends (h : s.Positive) : ∃ N, ∀ n, (s.sleep n).isSome ↔ n < N := by
  have hnone : ∃ n, s.sleep n = none := by
    obtain ⟨n, hn⟩ := exists_nat_gt (s.timeout / s.shortest)
    refine ⟨n, ?_⟩
    cases hsleep : s.sleep n with
    | none => rfl
    | some w =>
        have hkeeps := sleeping h hsleep
        have hlong := (div_lt_iff₀ h.shortest).mp hn
        have hpos : 0 < w.timeout := lt_of_lt_of_le hkeeps.step hkeeps.fits
        have hsum := hkeeps.sum
        have helapsed := hkeeps.elapsed
        linarith
  have hstays : ∀ k n, s.sleep n = none → s.sleep (n + k) = none := by
    intro k n hsleep
    induction k with
    | zero => exact hsleep
    | succ k ih => rw [← Nat.add_assoc, Settings.sleep, ih, Option.bind_none]
  refine ⟨Nat.find hnone, fun n => ⟨fun hsome => ?_, fun hlt => ?_⟩⟩
  · by_contra hge
    have hlater := hstays (n - Nat.find hnone) _ (Nat.find_spec hnone)
    rw [Nat.add_sub_cancel' (not_lt.mp hge)] at hlater
    rw [hlater] at hsome
    cases hsome
  · exact Option.isSome_iff_ne_none.mpr (Nat.find_min hnone hlt)

end Waiting

/-- The options of each lock let it wait. -/
def Sane : Label → Prop
  | .new _ _ opts _ => opts.settings.Positive
  | .lock _ _ _ _ | .retry _ _ _ | .unlock _ | .expire _ _ | .collect _ | .pass _ | .evict _ _ =>
      True

/-- A lock that waits is in one of the sleeps of its settings. -/
def Lock.InSleep (o : Lock) : Prop :=
  o.settings.Positive ∧
    ∀ key w wake, o.waiting = some (key, w, wake) → ∃ n, o.settings.sleep n = some w

section Steps
variable {W : World} {i : Nat} {o : Lock}

theorem inSleep_set (h : ∀ o ∈ W.locks, o.InSleep) (i : Nat) (o' : Lock) {W' : World}
    (hlocks : W'.locks = W.locks.set i o') (ho : o'.InSleep) : ∀ o ∈ W'.locks, o.InSleep := by
  intro p hmem
  rw [hlocks] at hmem
  cases List.mem_or_eq_of_mem_set hmem with
  | inl hold => exact h p hold
  | inr heq => exact heq ▸ ho

theorem inSleep_tryAdd (h : ∀ o ∈ W.locks, o.InSleep) (i : Nat) (ho : o.InSleep) (key : String)
    (len : Nat) (fault : Option String) (elapsed : ℚ) {next : Option Wait}
    (hnext : ∀ w, next = some w → ∃ n, o.settings.sleep n = some w) :
    ∀ p ∈ (W.tryAdd i o key len fault elapsed next).1.locks, p.InSleep := by
  have hnone : ({ o with waiting := none } : Lock).InSleep :=
    ⟨ho.1, fun _ _ _ hwait => by cases hwait⟩
  cases fault with
  | some err => exact inSleep_set h i _ rfl hnone
  | none =>
      simp only [World.tryAdd]
      split
      · refine inSleep_set h i _ rfl ⟨ho.1, fun _ _ _ hwait => ?_⟩
        cases hwait
      · split
        · exact inSleep_set h i _ rfl hnone
        · rename_i w
          refine inSleep_set h i _ rfl ⟨ho.1, fun key' w' wake' hwait => ?_⟩
          cases hwait
          exact hnext w rfl

theorem inSleep_step (h : ∀ o ∈ W.locks, o.InSleep) {l : Label} (hsane : Sane l) {W' : World}
    {a : Answer} (hstep : W.step l = some (W', a)) : ∀ o ∈ W'.locks, o.InSleep := by
  cases l with
  | new worker dictName opts len =>
      simp only [World.step] at hstep
      split at hstep
      · cases hstep
        intro p hmem
        cases List.mem_append.mp hmem with
        | inl hold => exact h p hold
        | inr hnew =>
            rw [List.mem_singleton.mp hnew]
            exact ⟨hsane, fun _ _ _ hwait => by cases hwait⟩
      · cases hstep
  | lock j key len fault =>
      obtain ⟨o, hidle, hstep⟩ := Option.bind_eq_some_iff.mp hstep
      have ho := h o (List.mem_of_getElem? (idle_eq hidle).1)
      split at hstep
      · have heq : (W.lock j o key len fault).1 = W' := congrArg Prod.fst (Option.some.inj hstep)
        rw [← heq, World.lock]
        split
        · exact h
        · exact inSleep_tryAdd h j ho key len fault 0 (fun w hw => ⟨0, hw⟩)
      · cases hstep
  | retry j len fault =>
      obtain ⟨o, hlock, hstep⟩ := Option.bind_eq_some_iff.mp hstep
      obtain ⟨w, hwaiting, hstep⟩ := Option.bind_eq_some_iff.mp hstep
      have ho := h o (List.mem_of_getElem? hlock)
      split at hstep
      · have heq : (W.retry j o w.1 w.2.1 len fault).1 = W' :=
          congrArg Prod.fst (Option.some.inj hstep)
        obtain ⟨n, hn⟩ := ho.2 w.1 w.2.1 w.2.2 hwaiting
        rw [← heq]
        refine inSleep_tryAdd h j ho w.1 len fault _ (fun w' hw' => ⟨n + 1, ?_⟩)
        rw [Settings.sleep, hn, Option.bind_some, hw']
      · cases hstep
  | unlock j =>
      obtain ⟨o, hidle, hstep⟩ := Option.map_eq_some_iff.mp hstep
      have heq : (W.unlock j o).1 = W' := congrArg Prod.fst hstep
      have ho := h o (List.mem_of_getElem? (idle_eq hidle).1)
      rw [← heq, World.unlock]
      split
      · exact h
      · refine inSleep_set h j { o with keyId := 0 } ?_ ho
        simp only [World.setLock, deleteKey_locks, World.setMemo]
  | expire j time =>
      obtain ⟨o, hidle, hstep⟩ := Option.map_eq_some_iff.mp hstep
      have heq : (W.expire j o time).1 = W' := congrArg Prod.fst hstep
      have ho := h o (List.mem_of_getElem? (idle_eq hidle).1)
      rw [← heq, World.expire]
      split
      · exact h
      · split
        · exact h
        · exact inSleep_set h j
            { o with untilTime := expiry W.dicts.clock (time.getD o.settings.exptime) } rfl ho
  | collect j =>
      obtain ⟨o, hidle, hstep⟩ := Option.map_eq_some_iff.mp hstep
      have heq : W.gcLock j o = W' := congrArg Prod.fst hstep
      have ho := h o (List.mem_of_getElem? (idle_eq hidle).1)
      rw [← heq]
      refine inSleep_set h j { o with keyId := 0, collected := true } ?_ ho
      simp only [World.gcLock, World.setLock, World.setMemo, gcKey_locks]
  | pass d =>
      simp only [World.step] at hstep
      split at hstep
      · cases hstep
        exact h
      · cases hstep
  | evict dictName key =>
      cases hstep
      exact h

end Steps

theorem inSleep_run {W : World} (h : Reaches (fun _ => Sane) W) : ∀ o ∈ W.locks, o.InSleep := by
  induction h with
  | start => exact fun _ hmem => absurd hmem (List.not_mem_nil)
  | step _ hsane hstep ih => exact inSleep_step ih hsane hstep

end RestyLock
end OpenrestyGateway
