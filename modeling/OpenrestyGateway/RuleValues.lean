import OpenrestyGateway.Library.Pool
import OpenrestyGateway.DomainChecks

/-!
What becomes of the fields of the governing rule on their way to its limiter.

The connection limiter is built from the rule as configured. So is the request
limiter, except that default_args lose their duration in the normaliser. A dry run is
read from the rule in the one and from the section in the other, and the normaliser
takes a rule's false for a missing value.
-/
namespace OpenrestyGateway
open Interleaving

/-- What a rule of either list of the reqlimit section configures. -/
structure ReqValues where
  rate : Option RateText
  burst : Option ℚ
  duration : Option ℚ
  dryRun : Option Bool
  burst_nonneg : ∀ q ∈ burst, 0 ≤ q
  duration_nonneg : ∀ q ∈ duration, 0 ≤ q

def ReqLimits.values (r : ReqLimits) : ReqValues :=
  ⟨r.rate, r.burst, r.duration, r.dryRun, r.burst_nonneg, r.duration_nonneg⟩

def ReqDefaults.values (r : ReqDefaults) : ReqValues :=
  ⟨r.rate, r.burst, r.duration, r.dryRun, r.burst_nonneg, r.duration_nonneg⟩

def ConnSection.limitsAt (s : ConnSection) : Place → Option ConnLimits :=
  ruleIn s.limitArgs (s.defaultArgs.getD []) Prod.snd id

def ReqSection.valuesAt (s : ReqSection) : Place → Option ReqValues :=
  ruleIn s.limitArgs (s.defaultArgs.getD []) (fun r => r.2.values) ReqDefaults.values

/-- The configuration of the rule that governs the request. -/
def ConnSection.governingLimits (s : ConnSection) (rq : RequestVars) : Option ConnLimits :=
  (s.table.governing rq).bind s.limitsAt

def ReqSection.governingValues (s : ReqSection) (rq : RequestVars) : Option ReqValues :=
  (s.table.governing (ReqlimitLogic.located rq)).bind s.valuesAt

/-- A rule of default_args governs the request. -/
def ReqSection.Shared (s : ReqSection) (rq : RequestVars) : Prop :=
  ∃ i, s.table.governing (ReqlimitLogic.located rq) = some (.defaultArg i)

theorem ConnSection.getConfig_of_limits {s : ConnSection} {rq : RequestVars} {l : ConnLimits}
    (h : s.governingLimits rq = some l) :
    ∃ key, ConnlimitLogic.getConfig s.conf rq =
      .ok (some (l.rule (.str key) (s.dryRun.getD false))) := by
  obtain ⟨place, hplace, hl⟩ := Option.bind_eq_some_iff.mp h
  have hcode := ConnlimitLogic.governedBy_governing s rq
  rw [ConnSection.GovernedBy, hplace, Option.bind_some] at hcode
  cases place with
  | limitArg i =>
      obtain ⟨r, hr, rfl⟩ := Option.map_eq_some_iff.mp hl
      exact ⟨r.1, by simp [hcode, ConnSection.ruleAt, ruleIn, hr]⟩
  | defaultArg i =>
      obtain ⟨r, hr, rfl⟩ := Option.map_eq_some_iff.mp hl
      exact ⟨s.table.client rq, by simp [hcode, ConnSection.ruleAt, ruleIn, hr]⟩

/-- The governing rule as the normaliser leaves it. -/
theorem ReqSection.getConfig_of_values {s : ReqSection} {rq : RequestVars} {v : ReqValues}
    (h : s.governingValues rq = some v) :
    ∃ args, ReqlimitLogic.getConfig s.conf rq = .ok (some args) ∧
      args.rate = (v.rate.map RateText.val).getD (.str "1000r/s") ∧
      args.burst = .num (v.burst.getD 0) ∧
      (¬ s.Shared rq ∧ args.duration = .num (v.duration.getD 2) ∨
        s.Shared rq ∧ args.duration = .nil) := by
  obtain ⟨place, hplace, hv⟩ := Option.bind_eq_some_iff.mp h
  have hcode := ReqlimitLogic.governedBy_located s rq
  rw [ReqSection.GovernedBy, hplace, Option.bind_some] at hcode
  cases place with
  | limitArg i =>
      obtain ⟨r, hr, rfl⟩ := Option.map_eq_some_iff.mp hv
      refine ⟨r.2.rule (.str r.1), by simp [hcode, ReqSection.ruleAt, ruleIn, hr], rfl, rfl,
        .inl ⟨?_, rfl⟩⟩
      rintro ⟨j, hj⟩
      cases hplace.symm.trans hj
  | defaultArg i =>
      obtain ⟨r, hr, rfl⟩ := Option.map_eq_some_iff.mp hv
      exact ⟨_, by simp [hcode, ReqSection.ruleAt, ruleIn, hr]; rfl, rfl, rfl,
        .inr ⟨⟨i, hplace⟩, rfl⟩⟩

/-! ### Limits -/

/-- The object the connection limiter works with has the configured limits, and the
normaliser's defaults for the others. -/
def ConnSection.BuildsConfigured (s : ConnSection) (rq : RequestVars) : Prop :=
  ∀ l, s.governingLimits rq = some l →
    ∃ args lim, ConnlimitLogic.getConfig s.conf rq = .ok (some args) ∧
      ConnLim.new args.max args.burst args.defaultConnDelay = .ok lim ∧
      lim.1 = ⟨l.max.getD 1000, l.burst.getD 0, l.defaultConnDelay.getD (1 / 2)⟩

/-- The same of the request limiter. -/
def ReqSection.BuildsConfigured (s : ReqSection) (rq : RequestVars) : Prop :=
  ∀ v, s.governingValues rq = some v →
    ∃ args lim, ReqlimitLogic.getConfig s.conf rq = .ok (some args) ∧
      RateLim.new (some "openresty") args.rate args.burst args.duration = .ok lim ∧
      RateLim.new (some "openresty") ((v.rate.map RateText.val).getD (.str "1000r/s"))
        (.num (v.burst.getD 0)) (.num (v.duration.getD 2)) = .ok lim

theorem ConnSection.buildsConfigured (s : ConnSection) (rq : RequestVars) :
    s.BuildsConfigured rq := by
  intro l hl
  obtain ⟨key, hcode⟩ := getConfig_of_limits hl
  have hmax : 0 < l.max.getD 1000 := ConnlimitLogic.getD_pos l.max_pos (by norm_num)
  have hburst : 0 ≤ l.burst.getD 0 := ReqlimitLogic.getD_nonneg l.burst_nonneg (le_refl 0)
  have hdelay : 0 < l.defaultConnDelay.getD (1 / 2) :=
    ConnlimitLogic.getD_pos l.delay_pos (by norm_num)
  refine ⟨_, ⟨⟨_, _, _⟩, hmax, hburst, hdelay⟩, hcode, ?_, rfl⟩
  simp only [ConnLimits.rule, ConnLim.new, Val.toOrdered_num, bind, Except.bind]
  rw [dif_pos hmax, dif_pos hburst, dif_pos hdelay]
  rfl

theorem ReqValues.new_ok (v : ReqValues) {d : ℚ} (hd : 0 ≤ d) :
    ∃ lim, RateLim.new (some "openresty") ((v.rate.map RateText.val).getD (.str "1000r/s"))
      (.num (v.burst.getD 0)) (.num d) = .ok lim ∧ lim.1.duration = d := by
  have hproper : ReqlimitLogic.Proper ⟨.str "", (v.rate.map RateText.val).getD (.str "1000r/s"),
      .num (v.burst.getD 0), .num d, .nil, .str "", .nil⟩ :=
    ⟨⟨_, rfl⟩, ReqlimitLogic.rate_val v.rate,
      ⟨_, rfl, ReqlimitLogic.getD_nonneg v.burst_nonneg (le_refl 0)⟩, .inr ⟨d, rfl, hd⟩,
      ⟨_, rfl⟩⟩
  obtain ⟨lim, hlim⟩ := ReqlimitLogic.proper_new hproper
  obtain ⟨r, scale, b, d', -, -, -, -, hdur, heq⟩ := RateLim.new_ok hlim
  cases hdur
  exact ⟨lim, hlim, by rw [heq]⟩

theorem ReqSection.buildsConfigured_iff (s : ReqSection) (rq : RequestVars) :
    s.BuildsConfigured rq ↔
      ∀ v, s.governingValues rq = some v → s.Shared rq → v.duration = some 0 := by
  have hcode := fun v (hv : s.governingValues rq = some v) => getConfig_of_values hv
  constructor
  · intro h v hv hshared
    obtain ⟨args, hargs, hrate, hburst, ⟨hnot, -⟩ | ⟨-, hduration⟩⟩ := hcode v hv
    · exact absurd hshared hnot
    obtain ⟨args', lim, hargs', hlim, hconfigured⟩ := h v hv
    cases hargs.symm.trans hargs'
    rw [hrate, hburst, hduration] at hlim
    have hnonneg := ReqlimitLogic.getD_nonneg v.duration_nonneg (zero_le_two)
    obtain ⟨zero, hzero, hzerod⟩ := v.new_ok (le_refl 0)
    obtain ⟨full, hfull, hfulld⟩ := v.new_ok hnonneg
    cases hzero.symm.trans hlim
    cases hfull.symm.trans hconfigured
    rw [hzerod] at hfulld
    cases hd : v.duration with
    | none =>
        rw [hd, Option.getD_none] at hfulld
        norm_num at hfulld
    | some d =>
        rw [hd, Option.getD_some] at hfulld
        rw [hfulld]
  · intro h v hv
    obtain ⟨args, hargs, hrate, hburst, hduration⟩ := hcode v hv
    have hnonneg := ReqlimitLogic.getD_nonneg v.duration_nonneg (zero_le_two)
    obtain ⟨full, hfull, -⟩ := v.new_ok hnonneg
    refine ⟨args, full, hargs, ?_, hfull⟩
    rw [hrate, hburst]
    rcases hduration with ⟨-, hduration⟩ | ⟨hshared, hduration⟩
    · rw [hduration]
      exact hfull
    · rw [h v hv hshared, Option.getD_some] at hfull
      rw [hduration]
      exact hfull

theorem five_nonneg : ∀ q ∈ some (5 : ℚ), 0 ≤ q := by
  intro q hq
  cases hq
  norm_num

/-- Any address is limited by the one rule of default_args, which bans for 5 seconds. -/
def sharedReqlimit : ReqSection :=
  ⟨none, none, none, [],
    some [⟨none, none, some 5, none, none, none, none_nonneg, five_nonneg⟩], none⟩

/-- A request that the limiter rejects is refused exactly if its rule is no dry run: the
rule's own value counts if there is one, and the section's otherwise. -/
def ConnSection.HonoursDryRun (s : ConnSection) (rq : RequestVars) (service : String) : Prop :=
  ∀ l args lim key, s.governingLimits rq = some l →
    ConnlimitLogic.getConfig s.conf rq = .ok (some args) →
    ConnLim.new args.max args.burst args.defaultConnDelay = .ok lim →
    ConnlimitLogic.counterKey (.str service) args = .ok key →
    ∀ es, (lim.1.incoming key true).replay es = some (.ok (.refused (some "rejected"))) →
      ((ConnlimitLogic.connLimitLogic s.conf (.str service) rq).replay es =
          some (.error (.exit 429)) ↔ l.dryRun.getD (s.dryRun.getD false) = false)

def ReqSection.HonoursDryRun (s : ReqSection) (rq : RequestVars) (service : String) : Prop :=
  ∀ v args lim key, s.governingValues rq = some v →
    ReqlimitLogic.getConfig s.conf rq = .ok (some args) →
    RateLim.new (some "openresty") args.rate args.burst args.duration = .ok lim →
    ReqlimitLogic.recordKey (.str service) args = .ok key →
    ∀ es, (lim.1.incoming key).replay es = some (.ok (.refused (some "rejected"))) →
      ((ReqlimitLogic.reqLimitLogic s.conf (.str service) rq).replay es =
          some (.error (.exit 429)) ↔ v.dryRun.getD (s.dryRun.getD false) = false)

theorem replay_refuse (d : Bool) (es : List (Event Op Op.Answer)) :
    (refuse (some "rejected") (.bool d)).replay es =
      some (if d then .ok () else .error (.exit 429)) := by
  cases d <;> rfl

theorem refused_iff (d : Bool) :
    (some (if d then .ok () else .error (.exit 429)) : Option (Except Stop Unit)) =
      some (.error (.exit 429)) ↔ d = false := by
  cases d <;> simp

theorem ConnLim.exists_rejected (lim : ConnLim) (key : String) :
    ∃ es, (lim.incoming key true).replay es = some (.ok (.refused (some "rejected"))) := by
  have hover : lim.Over ((⌊lim.max + lim.burst⌋ + 1 : Int) : ℚ) := by
    have hlt := Int.lt_floor_add_one (lim.max + lim.burst)
    simpa only [ConnLim.Over, Int.cast_add, Int.cast_one] using hlt
  refine ⟨[⟨0, .redis (.incr key), ⟨.int (⌊lim.max + lim.burst⌋ + 1), none⟩⟩,
    ⟨0, .redis (.decr key), ⟨.int 0, none⟩⟩], ?_⟩
  simp only [ConnLim.incoming, if_true, Lua.redis_bind, Prog.replay, dif_pos, ConnLim.intRes,
    hover]
  rfl

theorem RateLim.exists_rejected (lim : RateLim) (key : String) :
    ∃ es, (lim.incoming key).replay es = some (.ok (.refused (some "rejected"))) := by
  refine ⟨[⟨0, .now, (0 : ℚ)⟩,
    ⟨0, .redis (.get (lim.recordKey key)), ⟨.str (record 0 0 true), none⟩⟩], ?_⟩
  rw [RateLim.incoming_eq]
  simp only [Prog.replay, dif_pos, RateLim.afterGet, RateLim.weigh_ban]
  rfl

theorem ConnSection.replay_rejected {s : ConnSection} {rq : RequestVars} {service : String}
    {l : ConnLimits} {args : ConnRule} {lim : { lim : ConnLim // lim.Accepted }} {key : String}
    (hl : s.governingLimits rq = some l)
    (hargs : ConnlimitLogic.getConfig s.conf rq = .ok (some args))
    (hlim : ConnLim.new args.max args.burst args.defaultConnDelay = .ok lim)
    (hkey : ConnlimitLogic.counterKey (.str service) args = .ok key)
    {es : List (Event Op Op.Answer)}
    (hes : (lim.1.incoming key true).replay es = some (.ok (.refused (some "rejected")))) :
    (ConnlimitLogic.connLimitLogic s.conf (.str service) rq).replay es =
      some (if l.dryRun.getD false || s.dryRun.getD false then .ok ()
        else .error (.exit 429)) := by
  obtain ⟨k, hcode⟩ := getConfig_of_limits hl
  cases hargs.symm.trans hcode
  have hlog : Val.concat [.str service, .str " conn limit is start"] =
      .ok (service ++ (" conn limit is start" ++ "")) := rfl
  simp only [ConnlimitLogic.connLimitLogic, hlog, hcode, hlim, hkey, Lua.lift_ok, Prog.ret_bind]
  exact Prog.replay_bind hes (replay_refuse _)

theorem ReqSection.replay_rejected {s : ReqSection} {rq : RequestVars} {service : String}
    {args : ReqRule} {lim : { lim : RateLim // lim.Accepted }} {key : String}
    (hargs : ReqlimitLogic.getConfig s.conf rq = .ok (some args))
    (hlim : RateLim.new (some "openresty") args.rate args.burst args.duration = .ok lim)
    (hkey : ReqlimitLogic.recordKey (.str service) args = .ok key)
    {es : List (Event Op Op.Answer)}
    (hes : (lim.1.incoming key).replay es = some (.ok (.refused (some "rejected")))) :
    (ReqlimitLogic.reqLimitLogic s.conf (.str service) rq).replay es =
      some (if s.dryRun.getD false then .ok () else .error (.exit 429)) := by
  simp only [ReqlimitLogic.reqLimitLogic, hargs, hlim, hkey, Lua.lift_ok, Prog.ret_bind]
  exact Prog.replay_bind hes (replay_refuse _)

theorem ConnSection.honoursDryRun_iff (s : ConnSection) (rq : RequestVars) (service : String) :
    s.HonoursDryRun rq service ↔
      ∀ l, s.governingLimits rq = some l → ¬ (l.dryRun = some false ∧ s.dryRun = some true) := by
  have hflag : ∀ l : ConnLimits, ((l.dryRun.getD false || s.dryRun.getD false) = false ↔
      l.dryRun.getD (s.dryRun.getD false) = false) ↔
        ¬ (l.dryRun = some false ∧ s.dryRun = some true) := by
    intro l
    rcases l.dryRun with _ | _ | _ <;> rcases s.dryRun with _ | _ | _ <;> simp
  constructor
  · intro h l hl
    obtain ⟨args, lim, hargs, hlim, -⟩ := s.buildsConfigured rq l hl
    obtain ⟨o, ho, hproper⟩ := ConnlimitLogic.getConfig_proper s rq
    cases hargs.symm.trans ho
    obtain ⟨key, hkey⟩ := ConnlimitLogic.proper_counterKey (hproper args rfl) service
    obtain ⟨es, hes⟩ := lim.1.exists_rejected key
    have hiff := h l args lim key hl hargs hlim hkey es hes
    rw [replay_rejected hl hargs hlim hkey hes, refused_iff] at hiff
    exact (hflag l).mp hiff
  · intro h l args lim key hl hargs hlim hkey es hes
    rw [replay_rejected hl hargs hlim hkey hes, refused_iff]
    exact (hflag l).mpr (h l hl)

theorem ReqSection.honoursDryRun_iff (s : ReqSection) (rq : RequestVars) (service : String) :
    s.HonoursDryRun rq service ↔ ∀ v, s.governingValues rq = some v →
      v.dryRun = none ∨ v.dryRun = some (s.dryRun.getD false) := by
  have hflag : ∀ v : ReqValues, (s.dryRun.getD false = false ↔
      v.dryRun.getD (s.dryRun.getD false) = false) ↔
        v.dryRun = none ∨ v.dryRun = some (s.dryRun.getD false) := by
    intro v
    rcases v.dryRun with _ | _ | _ <;> rcases s.dryRun with _ | _ | _ <;> simp
  constructor
  · intro h v hv
    obtain ⟨args, hargs, -⟩ := getConfig_of_values hv
    obtain ⟨o, ho, hproper⟩ := ReqlimitLogic.getConfig_proper s rq
    cases hargs.symm.trans ho
    obtain ⟨lim, hlim⟩ := ReqlimitLogic.proper_new (hproper args rfl)
    obtain ⟨key, hkey⟩ := ReqlimitLogic.proper_recordKey (hproper args rfl) service
    obtain ⟨es, hes⟩ := lim.1.exists_rejected key
    have hiff := h v args lim key hv hargs hlim hkey es hes
    rw [replay_rejected hargs hlim hkey hes, refused_iff] at hiff
    exact (hflag v).mp hiff
  · intro h v args lim key hv hargs hlim hkey es hes
    rw [replay_rejected hargs hlim hkey hes, refused_iff]
    exact (hflag v).mpr (h v hv)

/-- Both limiters honour the dry run exactly if the connlimit rule does not switch off a
dry run of its section, and the reqlimit rule does not differ from its section. -/
theorem dryRun_honoured_iff (c : ConnSection) (r : ReqSection) (rq : RequestVars)
    (service : String) :
    (c.HonoursDryRun rq service ∧ r.HonoursDryRun rq service) ↔
      (∀ l, c.governingLimits rq = some l → ¬ (l.dryRun = some false ∧ c.dryRun = some true)) ∧
      ∀ v, r.governingValues rq = some v →
        v.dryRun = none ∨ v.dryRun = some (r.dryRun.getD false) :=
  and_congr (c.honoursDryRun_iff rq service) (r.honoursDryRun_iff rq service)

/-- A dry run of the section that the rule switches off. -/
def trialConnlimit : ConnSection :=
  ⟨none, none, none,
    [("10.0.0.0/8", ⟨none, none, none, none, some false, none_pos, none_nonneg, none_pos⟩)],
    none, some true⟩

def trialReqlimit : ReqSection :=
  ⟨none, none, none,
    [("10.0.0.0/8", ⟨none, none, none, none, some false, none_nonneg, none_nonneg⟩)], none,
    some true⟩

/-- Neither limiter refuses what its rule would have refused. -/
theorem dryRun_not_switched_off :
    ¬ trialConnlimit.HonoursDryRun ⟨"a.example", none, "10.0.0.7", some ""⟩ "gitlab" ∧
      ¬ trialReqlimit.HonoursDryRun ⟨"a.example", none, "10.0.0.7", some ""⟩ "gitlab" := by
  constructor
  · intro h
    have hplace : trialConnlimit.table.governing ⟨"a.example", none, "10.0.0.7", some ""⟩ =
        some (.limitArg 0) := by decide +kernel
    have hno := (trialConnlimit.honoursDryRun_iff _ _).mp h _
      (by rw [ConnSection.governingLimits, hplace]; rfl)
    exact hno ⟨rfl, rfl⟩
  · intro h
    have hplace : trialReqlimit.table.governing
        (ReqlimitLogic.located ⟨"a.example", none, "10.0.0.7", some ""⟩) =
          some (.limitArg 0) := by decide +kernel
    have hsame := (trialReqlimit.honoursDryRun_iff _ _).mp h _
      (by rw [ReqSection.governingValues, hplace]; rfl)
    rcases hsame with hnone | hsome
    · cases hnone
    · cases hsome

end OpenrestyGateway
