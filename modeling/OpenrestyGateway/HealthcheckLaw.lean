import OpenrestyGateway.Healthcheck

/-!
When the health of a target changes.

The four counters share a number, and reading one of them rounds what is below it. With
limits of up to 254, which is what a new checker asserts, a report is never late and at most
one early; with limits of up to 127 it is exact.
-/
namespace OpenrestyGateway
namespace Healthcheck

def Ctr.good : Ctr → Bool
  | .success => true
  | .http | .tcp | .timeout => false

def Ctr.report (k : Ctr) : Health := if k.good then .healthy else .unhealthy

def Health.mostly : Health → Health
  | .healthy => .mostlyHealthy
  | .unhealthy => .mostlyUnhealthy
  | .mostlyHealthy => .mostlyHealthy
  | .mostlyUnhealthy => .mostlyUnhealthy

theorem mostly_ne_report (health : Health) (k : Ctr) : health.mostly ≠ k.report := by
  cases health <;> cases k <;> simp [Health.mostly, Ctr.report, Ctr.good]

theorem report_eq_iff {j k : Ctr} : j.report = k.report ↔ j.good = k.good := by
  cases j <;> cases k <;> simp [Ctr.report, Ctr.good]

/-! ### Four counters in one number -/

abbrev Counts := Ctr → Nat

def pack (c : Counts) : Nat :=
  c .success + 256 * c .http + 65536 * c .tcp + 16777216 * c .timeout

def more (c : Counts) (k : Ctr) : Counts := fun j => c j + if j = k then 1 else 0

/-- One more of its sort, and none of the other sort. -/
def bump (c : Counts) (k : Ctr) : Counts := fun j => if j.good = k.good then more c k j else 0

/-- The counter as it is read. -/
def reading (c : Counts) (k : Ctr) : Nat := c k + 1 + carry (pack (more c k)) k.unit

theorem carry_le_one (n u : Nat) : carry n u ≤ 1 := by
  simp only [carry]
  split
  · omega
  · split
    · omega
    · split <;> omega

theorem pack_more (c : Counts) (k : Ctr) : pack c + k.unit = pack (more c k) := by
  cases k <;> simp [pack, more, Ctr.unit] <;> omega

section Packed
variable {c : Counts} {k : Ctr} {top : Nat}

theorem more_le (hsmall : ∀ j, c j ≤ top) (hk : c k < top) (j : Ctr) : more c k j ≤ top := by
  have hj := hsmall j
  simp only [more]
  split
  · rename_i heq
    rw [heq]
    omega
  · omega

theorem bump_le (hsmall : ∀ j, c j ≤ top) (hk : c k < top) (j : Ctr) : bump c k j ≤ top := by
  simp only [bump]
  split
  · exact more_le hsmall hk j
  · omega

theorem pack_lt (h : ∀ j, c j ≤ 255) : pack c < 2 ^ 32 := by
  have hsuccess := h .success
  have hhttp := h .http
  have htcp := h .tcp
  have htimeout := h .timeout
  simp only [pack]
  omega

theorem reading_bounds (c : Counts) (k : Ctr) :
    c k + 1 ≤ reading c k ∧ reading c k ≤ c k + 2 := by
  have hcarry := carry_le_one (pack (more c k)) k.unit
  simp only [reading]
  omega

theorem reading_exact (h : ∀ j, more c k j ≤ 127) : reading c k = c k + 1 := by
  have hsuccess := h .success
  have hhttp := h .http
  have htcp := h .tcp
  have htimeout := h .timeout
  have hcarry : carry (pack (more c k)) k.unit = 0 := by
    rw [carry, if_pos]
    cases k <;> simp only [Ctr.unit, pack] <;> omega
  rw [reading, hcarry]

theorem ctrGet_pack (h : ∀ j, more c k j ≤ 254) :
    ctrGet (stored (pack c) + k.unit) k.unit = reading c k := by
  have hsuccess := h .success
  have hhttp := h .http
  have htcp := h .tcp
  have htimeout := h .timeout
  have hquot : pack (more c k) / k.unit % 256 = more c k k := by
    cases k <;> simp only [Ctr.unit, pack] <;> omega
  have hmore : more c k k = c k + 1 := by simp [more]
  have hcarry := carry_le_one (pack (more c k)) k.unit
  have hk := h k
  rw [ctrGet_stored, pack_more]
  simp only [reading]
  omega

theorem keep_success (h : ∀ j, more c k j ≤ 254) (hgood : k.good = true) :
    band ((stored (pack c) + k.unit : Int) : ℚ) maskSuccess = stored (pack (bump c k)) := by
  have hsuccess := h .success
  rw [band_stored, and_success, pack_more, stored]
  congr 2
  cases k with
  | success =>
      simp [pack, bump, Ctr.good]
      omega
  | http | tcp | timeout => cases hgood

theorem keep_failure (h : ∀ j, more c k j ≤ 254) (hgood : k.good = false) :
    band ((stored (pack c) + k.unit : Int) : ℚ) maskFailure = stored (pack (bump c k)) := by
  have hsuccess := h .success
  rw [band_stored, pack_more, and_failure (pack_lt (fun j => (h j).trans (by norm_num))), stored]
  congr 2
  cases k with
  | success => cases hgood
  | http | tcp | timeout =>
      simp [pack, bump, Ctr.good]
      omega

theorem first_failure (hgood : k.good = false) (hclear : ∀ j : Ctr, j.good = false → c j = 0) :
    0 < band ((stored (pack (bump c k)) : Int) : ℚ) maskFailure := by
  have hpack : pack (bump c k) = k.unit := by
    have hhttp := hclear .http rfl
    have htcp := hclear .tcp rfl
    have htimeout := hclear .timeout rfl
    cases k with
    | success => cases hgood
    | http | tcp | timeout => simp [pack, bump, more, Ctr.good, Ctr.unit, hhttp, htcp, htimeout]
  have hband := band_stored k.unit 0 maskFailure
  rw [Nat.cast_zero, add_zero] at hband
  rw [hpack, hband]
  cases k with
  | success => cases hgood
  | http | tcp | timeout => decide

theorem first_success (hgood : k.good = true) (hk : c k < 254) :
    0 < band ((stored (pack (bump c k)) : Int) : ℚ) maskSuccess := by
  have hpack : pack (bump c k) = c k + 1 := by
    cases k with
    | success => simp [pack, bump, more, Ctr.good]
    | http | tcp | timeout => cases hgood
  have hband := band_stored (c k + 1) 0 maskSuccess
  rw [Nat.cast_zero, add_zero, and_success, BitVec.toInt_ofNat', add_zero,
    Nat.mod_eq_of_lt (by omega)] at hband
  rw [hpack, hband, Int.bmod_eq_of_le (by omega) (by omega)]
  omega

end Packed

/-- What the lock protects, in terms of the four counters. -/
theorem incrLocked_eq {c : Counts} {m : Mark} {health : Health} (hsmall : ∀ j, c j ≤ 254)
    (hk : c m.ctr < 254) (hhealth : m.ctr.report ≠ health)
    (hclear : health = .healthy → ∀ j : Ctr, j.good = false → c j = 0) :
    incrLocked health m (stored (pack c)) = (stored (pack (bump c m.ctr)),
      let newHealth :=
        if m.limit ≤ ((reading c m.ctr : Nat) : ℚ) then m.report else health.mostly
      if newHealth = health then none else some newHealth) := by
  have hmore := more_le hsmall hk
  have hread : ((ctrGet (stored (pack c) + m.ctr.unit) m.ctr.unit : Int) : ℚ) =
      ((reading c m.ctr : Nat) : ℚ) := by
    rw [ctrGet_pack hmore, Int.cast_natCast]
  have hnew : (if m.ctr = .success
      then band ((stored (pack c) + m.ctr.unit : Int) : ℚ) maskSuccess
      else band ((stored (pack c) + m.ctr.unit : Int) : ℚ) maskFailure) =
        stored (pack (bump c m.ctr)) := by
    cases hctr : m.ctr with
    | success =>
        rw [if_pos rfl]
        exact keep_success (hctr ▸ hmore) rfl
    | http | tcp | timeout =>
        rw [if_neg (by simp)]
        exact keep_failure (hctr ▸ hmore) rfl
  simp only [incrLocked, hread, hnew]
  by_cases hdone : m.limit ≤ ((reading c m.ctr : Nat) : ℚ)
  · simp only [if_pos hdone, Option.some.injEq]
  · have hgood : m.ctr.report = if m.ctr.good then .healthy else .unhealthy := rfl
    simp only [if_neg hdone]
    cases hgood' : m.ctr.good with
    | false =>
        cases health with
        | healthy => simp [Health.mostly, first_failure hgood' (hclear rfl)]
        | unhealthy => simp [hgood, hgood'] at hhealth
        | mostlyHealthy | mostlyUnhealthy => simp [Health.mostly]
    | true =>
        cases health with
        | healthy => simp [hgood, hgood'] at hhealth
        | unhealthy => simp [Health.mostly, first_success hgood' hk]
        | mostlyHealthy | mostlyUnhealthy => simp [Health.mostly]

/-! ### What has been reported -/

inductive Entry where
  | mark (k : Ctr)
  | reset
  deriving DecidableEq

/-- A report with a limit of 0 does not count. -/
def Command.entry (checks : Checks) : Command → Option Entry
  | .report r => (r.mark checks).bind (fun m => if m.limit = 0 then none else some (.mark m.ctr))
  | .setStatus _ => some .reset

/-- What counts of a run, the last of it first. -/
def entries (checks : Checks) (cs : List Command) : List Entry :=
  (cs.filterMap (Command.entry checks)).reverse

/-- How often something was reported since the last report of the other sort. -/
def count (k : Ctr) : List Entry → Nat
  | [] | .reset :: _ => 0
  | .mark j :: es =>
      if j.good = k.good then count k es + (if j = k then 1 else 0) else 0

def Checks.limits (checks : Checks) (side : Side) : List ℚ :=
  [(checks.get side).healthy.successes, (checks.get side).unhealthy.tcpFailures,
    (checks.get side).unhealthy.timeouts, (checks.get side).unhealthy.httpFailures]

def Checks.Within (checks : Checks) (top : Nat) : Prop :=
  ∀ side, ∀ limit ∈ checks.limits side, limit ≤ top

theorem getDefaults_within {top : Nat} (htop : 7 ≤ top) : getDefaults.Within top := by
  have hq : (7 : ℚ) ≤ top := by exact_mod_cast htop
  intro side limit hlimit
  cases side <;>
    simp only [Checks.limits, Checks.get, getDefaults, List.mem_cons, List.not_mem_nil,
      or_false] at hlimit <;>
    obtain rfl | rfl | rfl | rfl := hlimit <;>
    linarith

section Marks
variable {checks : Checks} {r : Report} {m : Mark}

theorem mark_report (h : r.mark checks = some m) : m.report = m.ctr.report := by
  cases r with
  | failure check =>
      cases h
      simp only [reportFailure]
      split <;> rfl
  | success check | tcpFailure check | timeout check =>
      cases h
      rfl
  | httpStatus status check =>
      simp only [Report.mark, reportHttpStatus] at h
      split at h
      · cases h
        rfl
      · split at h
        · cases h
          rfl
        · cases h

theorem mark_limit (h : r.mark checks = some m) : ∃ side, m.limit ∈ checks.limits side := by
  cases r with
  | failure check =>
      cases h
      refine ⟨check, ?_⟩
      simp only [reportFailure, Checks.limits]
      split <;> simp
  | success check | tcpFailure check | timeout check =>
      cases h
      exact ⟨check, by simp [reportSuccess, reportTcpFailure, reportTimeout, Checks.limits]⟩
  | httpStatus status check =>
      refine ⟨check, ?_⟩
      simp only [Report.mark, reportHttpStatus] at h
      split at h
      · cases h
        simp [Checks.limits]
      · split at h
        · cases h
          simp [Checks.limits]
        · cases h

end Marks

/-! ### The counters and the history -/

/-- Where a report can still change the health, the counter is what the history says. -/
structure Agrees (top : Nat) (es : List Entry) (t : Target) (c : Counts) : Prop where
  packed : t.counter.getD 0 = stored (pack c)
  small : ∀ k : Ctr, c k ≤ top
  counts : ∀ k : Ctr, t.health ≠ k.report → c k = count k es ∧ c k < top
  settled : ∀ k j : Ctr, t.health = k.report → j.good ≠ k.good → count j es = 0

section Steps
variable {top : Nat} {es : List Entry} {t : Target} {c : Counts} {m : Mark}

theorem Agrees.clear (h : Agrees top es t c) (hhealth : t.health = .healthy) (j : Ctr)
    (hj : j.good = false) : c j = 0 := by
  have hne : t.health ≠ j.report := by simp [hhealth, Ctr.report, hj]
  rw [(h.counts j hne).1]
  exact h.settled .success j hhealth (by rw [hj]; exact Bool.false_ne_true)

theorem agrees_ignored (h : Agrees top es t c) (hhealth : m.ctr.report = t.health) :
    Agrees top (.mark m.ctr :: es) t c := by
  refine ⟨h.packed, h.small, fun k hk => ?_, fun k j hk hj => ?_⟩
  · have hne : m.ctr.good ≠ k.good := fun heq => hk (hhealth ▸ report_eq_iff.mpr heq)
    have hzero := h.settled m.ctr k hhealth.symm (Ne.symm hne)
    obtain ⟨hcount, hlt⟩ := h.counts k hk
    refine ⟨?_, hlt⟩
    rw [hcount, hzero, count, if_neg hne]
  · have heq : m.ctr.good = k.good := report_eq_iff.mp (hhealth.trans hk)
    rw [count, if_neg (fun hgood => hj (hgood.symm.trans heq))]

/-- A report that counts: it completes its limit, or the health becomes mostly what it was. -/
theorem incrCounter_counted (h : Agrees top es t c) (htop : top ≤ 254) (hzero : m.limit ≠ 0)
    (hreport : m.report = m.ctr.report) (hhealth : m.ctr.report ≠ t.health) :
    t.incrCounter m = ⟨if m.limit ≤ ((reading c m.ctr : Nat) : ℚ) then m.report
      else t.health.mostly, some (stored (pack (bump c m.ctr)))⟩ := by
  have hlt := (h.counts m.ctr (Ne.symm hhealth)).2
  have hignores : ¬t.ignores m := fun hor => hor.elim hzero (fun heq => hhealth (hreport ▸ heq))
  simp only [Target.incrCounter, if_neg hignores, h.packed,
    incrLocked_eq (fun j => (h.small j).trans htop) (lt_of_lt_of_le hlt htop) hhealth h.clear]
  rw [Target.mk.injEq]
  refine ⟨?_, rfl⟩
  generalize (if m.limit ≤ ((reading c m.ctr : Nat) : ℚ) then m.report
    else t.health.mostly) = newHealth
  by_cases heq : newHealth = t.health
  · rw [if_pos heq, heq, Option.getD_none]
  · rw [if_neg heq, Option.getD_some]

theorem agrees_counted (h : Agrees top es t c) (htop : top ≤ 254) (hlimit : m.limit ≤ top)
    (hzero : m.limit ≠ 0) (hreport : m.report = m.ctr.report)
    (hhealth : m.ctr.report ≠ t.health) :
    Agrees top (.mark m.ctr :: es) (t.incrCounter m) (bump c m.ctr) := by
  obtain ⟨hcount, hlt⟩ := h.counts m.ctr (Ne.symm hhealth)
  rw [incrCounter_counted h htop hzero hreport hhealth]
  refine ⟨rfl, bump_le h.small hlt, fun k hk => ?_, fun k j hk hj => ?_⟩
  · by_cases hgood : m.ctr.good = k.good
    · have hopen : ¬m.limit ≤ ((reading c m.ctr : Nat) : ℚ) := by
        intro hdone
        simp only [if_pos hdone] at hk
        exact hk (hreport.trans (report_eq_iff.mpr hgood))
      have hne : t.health ≠ k.report :=
        fun heq => hhealth ((report_eq_iff.mpr hgood).trans heq.symm)
      obtain ⟨hcount', hlt'⟩ := h.counts k hne
      have hsmall : c m.ctr + 1 < top := by
        have hq : ((reading c m.ctr : Nat) : ℚ) < top := lt_of_lt_of_le (not_le.mp hopen) hlimit
        exact lt_of_le_of_lt (reading_bounds c m.ctr).1 (by exact_mod_cast hq)
      rw [count, if_pos hgood, bump, if_pos hgood.symm, more, hcount']
      by_cases hkm : k = m.ctr
      · rw [if_pos hkm, if_pos hkm.symm]
        rw [hkm] at hcount'
        rw [hkm]
        omega
      · rw [if_neg hkm, if_neg (Ne.symm hkm)]
        omega
    · rw [count, if_neg hgood, bump, if_neg (Ne.symm hgood)]
      omega
  · have hdone : m.limit ≤ ((reading c m.ctr : Nat) : ℚ) := by
      by_contra hopen
      simp only [if_neg hopen] at hk
      exact mostly_ne_report _ _ hk
    simp only [if_pos hdone] at hk
    have hgood := report_eq_iff.mp (hreport.symm.trans hk)
    rw [count, if_neg (fun heq => hj (heq.symm.trans hgood))]

theorem agrees_reset (htop : 0 < top) (es : List Entry) (health : Health)
    (counter : Option Int) (hcounter : counter.getD 0 = 0) (hzero : ∀ k, count k es = 0) :
    Agrees top es ⟨health, counter⟩ (fun _ => 0) :=
  ⟨hcounter, fun _ => Nat.zero_le _, fun k _ => ⟨(hzero k).symm, htop⟩, fun _ j _ _ => hzero j⟩

end Steps

/-! ### Runs -/

section Runs
variable {checks : Checks} {top : Nat}

theorem entries_append (checks : Checks) (cs : List Command) (cmd : Command) :
    entries checks (cs ++ [cmd]) = (cmd.entry checks).toList ++ entries checks cs := by
  simp only [entries, List.filterMap_append, List.reverse_append, List.filterMap_cons,
    List.filterMap_nil]
  cases cmd.entry checks <;> rfl

theorem run_append (checks : Checks) (t : Target) (cs : List Command) (cmd : Command) :
    t.run checks (cs ++ [cmd]) = (t.run checks cs).step checks cmd := by
  simp only [Target.run, List.foldl_append, List.foldl_cons, List.foldl_nil]

theorem agrees_step (htop : top ≤ 254) (hpos : 0 < top) (hlimits : checks.Within top)
    {cs : List Command} {t : Target} {c : Counts} (h : Agrees top (entries checks cs) t c)
    (cmd : Command) : ∃ c', Agrees top (entries checks (cs ++ [cmd])) (t.step checks cmd) c' := by
  rw [entries_append]
  cases cmd with
  | setStatus isHealthy => exact ⟨_, agrees_reset hpos _ _ (some 0) rfl (fun _ => rfl)⟩
  | report r =>
      cases hmark : r.mark checks with
      | none =>
          have hentry : Command.entry checks (.report r) = none := by
            simp only [Command.entry, hmark, Option.bind_none]
          simp only [hentry, Target.step, hmark]
          exact ⟨c, h⟩
      | some m =>
          have hreport := mark_report hmark
          simp only [Command.entry, hmark, Option.bind_some, Target.step]
          by_cases hzero : m.limit = 0
          · rw [if_pos hzero, Target.incrCounter, if_pos (.inl hzero)]
            exact ⟨c, h⟩
          · rw [if_neg hzero]
            by_cases hhealth : m.ctr.report = t.health
            · rw [Target.incrCounter, if_pos (.inr (hreport.trans hhealth))]
              exact ⟨c, agrees_ignored h hhealth⟩
            · obtain ⟨side, hmem⟩ := mark_limit hmark
              exact ⟨_, agrees_counted h htop (hlimits side _ hmem) hzero hreport hhealth⟩

theorem agrees_run (htop : top ≤ 254) (hpos : 0 < top) (hlimits : checks.Within top)
    (isHealthy : Bool) (cs : List Command) :
    ∃ c, Agrees top (entries checks cs) ((Target.added isHealthy).run checks cs) c := by
  induction cs using List.reverseRecOn with
  | nil => exact ⟨_, agrees_reset hpos [] _ none rfl (fun _ => rfl)⟩
  | append_singleton cs cmd ih =>
      obtain ⟨c, h⟩ := ih
      rw [run_append]
      exact agrees_step htop hpos hlimits h cmd

/-- The health after a report, from the health before it and the history. -/
theorem report_reads (htop : top ≤ 254) (hpos : 0 < top) (hlimits : checks.Within top)
    (isHealthy : Bool) (cs : List Command) {r : Report} {m : Mark}
    (hmark : r.mark checks = some m) (hzero : m.limit ≠ 0)
    (hhealth : m.report ≠ ((Target.added isHealthy).run checks cs).health) :
    ∃ n : Nat, count m.ctr (entries checks (cs ++ [.report r])) ≤ n ∧
      n ≤ count m.ctr (entries checks (cs ++ [.report r])) + 1 ∧
      (top ≤ 127 → n = count m.ctr (entries checks (cs ++ [.report r]))) ∧
      ((Target.added isHealthy).run checks (cs ++ [.report r])).health =
        if m.limit ≤ (n : ℚ) then m.report
        else ((Target.added isHealthy).run checks cs).health.mostly := by
  obtain ⟨c, h⟩ := agrees_run htop hpos hlimits isHealthy cs
  have hreport := mark_report hmark
  rw [hreport] at hhealth
  obtain ⟨hcount, hlt⟩ := h.counts m.ctr (Ne.symm hhealth)
  have hlast : count m.ctr (entries checks (cs ++ [.report r])) = c m.ctr + 1 := by
    rw [entries_append, Command.entry, hmark, Option.bind_some, if_neg hzero,
      Option.toList_some, List.singleton_append, count, if_pos rfl, if_pos rfl, hcount]
  rw [hlast, run_append]
  refine ⟨reading c m.ctr, (reading_bounds c m.ctr).1, (reading_bounds c m.ctr).2,
    fun hexact => reading_exact (fun j => (more_le h.small hlt j).trans hexact), ?_⟩
  simp only [Target.step, hmark, incrCounter_counted h htop hzero hreport hhealth]

/-- A report that does not count changes nothing. -/
theorem report_ignored (isHealthy : Bool) (cs : List Command) {r : Report} {m : Mark}
    (hmark : r.mark checks = some m)
    (hignored : m.limit = 0 ∨ m.report = ((Target.added isHealthy).run checks cs).health) :
    (Target.added isHealthy).run checks (cs ++ [.report r]) =
      (Target.added isHealthy).run checks cs := by
  rw [run_append]
  simp only [Target.step, hmark]
  exact if_pos hignored

/-- With limits of up to 127, a report that counts brings its health just where it is the one
that completes its limit since the last report of the other sort. -/
theorem health_law (hlimits : checks.Within 127) (isHealthy : Bool) (cs : List Command)
    (r : Report) (m : Mark) (hmark : r.mark checks = some m) :
    ((Target.added isHealthy).run checks (cs ++ [.report r])).health =
      let health := ((Target.added isHealthy).run checks cs).health
      if m.limit = 0 ∨ m.report = health then health
      else if m.limit ≤ (count m.ctr (entries checks (cs ++ [.report r])) : Nat) then m.report
      else health.mostly := by
  by_cases hignored : m.limit = 0 ∨ m.report = ((Target.added isHealthy).run checks cs).health
  · rw [report_ignored isHealthy cs hmark hignored]
    exact (if_pos hignored).symm
  · obtain ⟨hzero, hhealth⟩ := not_or.mp hignored
    obtain ⟨n, -, -, hexact, hnext⟩ :=
      report_reads (by norm_num) (by norm_num) hlimits isHealthy cs hmark hzero hhealth
    rw [hnext, hexact le_rfl]
    exact (if_neg hignored).symm

theorem health_law_five :
    ((Target.added true).run getDefaults
      (List.replicate 5 (.report (.httpStatus (some 500) .passive)))).health = .unhealthy := by
  have hlaw := health_law (getDefaults_within (by norm_num)) true
    (List.replicate 4 (.report (.httpStatus (some 500) .passive))) (.httpStatus (some 500) .passive)
    ⟨.unhealthy, 5, .http⟩ (by decide +kernel)
  exact hlaw.trans (by decide +kernel)

/-- With the limits that a new checker asserts, a report that counts is never late, and at most
one early. -/
theorem health_within_one (hlimits : checks.Within 254) (isHealthy : Bool) (cs : List Command)
    (r : Report) (m : Mark) (hmark : r.mark checks = some m) (hzero : m.limit ≠ 0)
    (hhealth : m.report ≠ ((Target.added isHealthy).run checks cs).health) :
    let before := ((Target.added isHealthy).run checks cs).health
    let after := ((Target.added isHealthy).run checks (cs ++ [.report r])).health
    let reports := count m.ctr (entries checks (cs ++ [.report r]))
    (m.limit ≤ reports → after = m.report) ∧
      (after = m.report → m.limit ≤ reports + 1) ∧
      (after = m.report ∨ after = before.mostly) := by
  obtain ⟨n, hlow, hhigh, -, hnext⟩ :=
    report_reads (by norm_num) (by norm_num) hlimits isHealthy cs hmark hzero hhealth
  have hreport : m.report = m.ctr.report := mark_report hmark
  refine ⟨fun hdone => ?_, fun hdone => ?_, ?_⟩
  · rw [hnext, if_pos (hdone.trans (by exact_mod_cast hlow))]
  · by_cases hread : m.limit ≤ (n : ℚ)
    · exact hread.trans (by exact_mod_cast hhigh)
    · rw [hnext, if_neg hread, hreport] at hdone
      exact absurd hdone (mostly_ne_report _ _)
  · rw [hnext]
    split
    · exact .inl rfl
    · exact .inr rfl

theorem health_within_one_two :
    ((Target.added true).run getDefaults
      (List.replicate 2 (.report (.tcpFailure .active)))).health = .unhealthy := by
  have hwithin := health_within_one (getDefaults_within (by norm_num)) true
    [.report (.tcpFailure .active)] (.tcpFailure .active) ⟨.unhealthy, 2, .tcp⟩
    (by decide +kernel) (by decide +kernel) (by decide +kernel)
  exact hwithin.1 (by decide +kernel)

/-- One early: below the failures there are more successes than half a byte holds. -/
example : ((Target.added false).run
    { getDefaults with
      active := { getDefaults.active with
        healthy := { getDefaults.active.healthy with successes := 200 }
        unhealthy := { getDefaults.active.unhealthy with httpFailures := 2 } } }
    (List.replicate 130 (.report (.success .active)) ++
      [.report (.httpStatus (some 500) .active)])).health = .unhealthy := by
  decide +kernel

end Runs
end Healthcheck
end OpenrestyGateway
