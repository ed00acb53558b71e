import OpenrestyGateway.GetConf
import OpenrestyGateway.Ratelimit

/-!
A domain's entry in the rule file as its author means it: up to three sections, and
in them fields that may be left out where get_conf.lua has a default. A JSON value
describes an entry if its fields read back as the entry's; other fields are free.
On such a value the normaliser returns the section with its defaults filled in.
-/
namespace OpenrestyGateway

/-- The field holds `a`, or is not there. -/
def Reads {α : Type} (v : Val) (name : String) (f : α → Val) (a : Option α) : Prop :=
  v.index name = .ok ((a.map f).getD .nil)

/-- The section is described by what stands under its name, or is not there. -/
def ReadsSection {σ : Type} (v : Val) (name : String) (describes : σ → Val → Prop) :
    Option σ → Prop
  | none => v.index name = .ok .nil
  | some s => ∃ x, v.index name = .ok x ∧ describes s x

def ReadsList {ρ : Type} (describes : ρ → Val → Prop) (rules : List ρ) (v : Val) : Prop :=
  ∃ xs, v = .arr xs ∧ List.Forall₂ describes rules xs

/-- A rate that ratelimit.new accepts. -/
structure RateText where
  text : String
  accepted : ∃ r, RateLim.rateNumber (.str text) = .ok r ∧ 0 < r.1

def RateText.val (r : RateText) : Val := .str r.text

structure BasicSection where
  service : Option String
  ipDeny : Option Bool

/-- A rule of the connlimit section, its key apart. -/
structure ConnLimits where
  max : Option ℚ
  burst : Option ℚ
  defaultConnDelay : Option ℚ
  limitLocation : Option String
  dryRun : Option Bool
  max_pos : ∀ q ∈ max, 0 < q
  burst_nonneg : ∀ q ∈ burst, 0 ≤ q
  delay_pos : ∀ q ∈ defaultConnDelay, 0 < q

structure ConnSection where
  limitType : Option String
  limitDefaultUser : Option String
  limitCommonOn : Option Bool
  limitArgs : List (String × ConnLimits)
  defaultArgs : Option (List ConnLimits)
  dryRun : Option Bool

/-- A rule of the reqlimit section's limit_args, its key apart. -/
structure ReqLimits where
  rate : Option RateText
  burst : Option ℚ
  duration : Option ℚ
  limitLocation : Option String
  dryRun : Option Bool
  burst_nonneg : ∀ q ∈ burst, 0 ≤ q
  duration_nonneg : ∀ q ∈ duration, 0 ≤ q

/-- A rule of the reqlimit section's default_args. -/
structure ReqDefaults where
  rate : Option RateText
  burst : Option ℚ
  duration : Option ℚ
  defaultConnDelay : Option ℚ
  limitLocation : Option String
  dryRun : Option Bool
  burst_nonneg : ∀ q ∈ burst, 0 ≤ q
  duration_nonneg : ∀ q ∈ duration, 0 ≤ q

structure ReqSection where
  limitType : Option String
  limitDefaultUser : Option String
  limitCommonOn : Option Bool
  limitArgs : List (String × ReqLimits)
  defaultArgs : Option (List ReqDefaults)
  dryRun : Option Bool

structure DomainEntry where
  basic : Option BasicSection
  reqlimit : Option ReqSection
  connlimit : Option ConnSection

/-! ### Description by a JSON value -/

structure BasicSection.Describes (s : BasicSection) (v : Val) : Prop where
  service : Reads v "service" .str s.service
  ipDeny : Reads v "ip_deny" .bool s.ipDeny

structure ConnLimits.Describes (r : ConnLimits) (v : Val) : Prop where
  max : Reads v "max" .num r.max
  burst : Reads v "burst" .num r.burst
  defaultConnDelay : Reads v "default_conn_delay" .num r.defaultConnDelay
  limitLocation : Reads v "limit_location" .str r.limitLocation
  dryRun : Reads v "dry_run" .bool r.dryRun

structure ReqLimits.Describes (r : ReqLimits) (v : Val) : Prop where
  rate : Reads v "rate" RateText.val r.rate
  burst : Reads v "burst" .num r.burst
  duration : Reads v "duration" .num r.duration
  limitLocation : Reads v "limit_location" .str r.limitLocation
  dryRun : Reads v "dry_run" .bool r.dryRun

structure ReqDefaults.Describes (r : ReqDefaults) (v : Val) : Prop where
  rate : Reads v "rate" RateText.val r.rate
  burst : Reads v "burst" .num r.burst
  duration : Reads v "duration" .num r.duration
  defaultConnDelay : Reads v "default_conn_delay" .num r.defaultConnDelay
  limitLocation : Reads v "limit_location" .str r.limitLocation
  dryRun : Reads v "dry_run" .bool r.dryRun

def DescribesKeyed {ρ : Type} (describes : ρ → Val → Prop) (r : String × ρ) (v : Val) : Prop :=
  v.index "key" = .ok (.str r.1) ∧ describes r.2 v

structure ConnSection.Describes (s : ConnSection) (v : Val) : Prop where
  limitType : Reads v "limit_type" .str s.limitType
  limitDefaultUser : Reads v "limit_default_user" .str s.limitDefaultUser
  limitCommonOn : Reads v "limit_common_on" .bool s.limitCommonOn
  limitArgs : ∃ x, v.index "limit_args" = .ok x ∧
    ReadsList (DescribesKeyed ConnLimits.Describes) s.limitArgs x
  defaultArgs : ReadsSection v "default_args" (ReadsList ConnLimits.Describes) s.defaultArgs
  dryRun : Reads v "dry_run" .bool s.dryRun

structure ReqSection.Describes (s : ReqSection) (v : Val) : Prop where
  limitType : Reads v "limit_type" .str s.limitType
  limitDefaultUser : Reads v "limit_default_user" .str s.limitDefaultUser
  limitCommonOn : Reads v "limit_common_on" .bool s.limitCommonOn
  limitArgs : ∃ x, v.index "limit_args" = .ok x ∧
    ReadsList (DescribesKeyed ReqLimits.Describes) s.limitArgs x
  defaultArgs : ReadsSection v "default_args" (ReadsList ReqDefaults.Describes) s.defaultArgs
  dryRun : Reads v "dry_run" .bool s.dryRun

structure DomainEntry.Describes (entry : DomainEntry) (v : Val) : Prop where
  basic : ReadsSection v "basic" BasicSection.Describes entry.basic
  reqlimit : ReadsSection v "reqlimit" ReqSection.Describes entry.reqlimit
  connlimit : ReadsSection v "connlimit" ConnSection.Describes entry.connlimit

/-! ### Defaults -/

def BasicSection.conf (s : BasicSection) : BasicConf where
  service := .str (s.service.getD "default")
  ipDeny := .bool (s.ipDeny.getD false)

def ConnLimits.rule (r : ConnLimits) (key : Val) (defaultDryRun : Bool) : ConnRule where
  key := key
  max := .num (r.max.getD 1000)
  burst := .num (r.burst.getD 0)
  defaultConnDelay := .num (r.defaultConnDelay.getD (1 / 2))
  limitLocation := .str (r.limitLocation.getD "")
  dryRun := .bool (r.dryRun.getD false || defaultDryRun)

def ConnSection.conf (s : ConnSection) : ConnlimitConf where
  limitType := .str (s.limitType.getD "ip")
  limitDefaultUser := .str (s.limitDefaultUser.getD "anonymous")
  limitCommonOn := .bool (s.limitCommonOn.getD false)
  limitArgs := s.limitArgs.map (fun r => r.2.rule (.str r.1) (s.dryRun.getD false))
  defaultArgs := (s.defaultArgs.getD []).map (fun r => r.rule .nil (s.dryRun.getD false))
  dryRun := .bool (s.dryRun.getD false)
  connlimitOn := true

def ReqLimits.rule (r : ReqLimits) (key : Val) : ReqRule where
  key := key
  rate := (r.rate.map RateText.val).getD (.str "1000r/s")
  burst := .num (r.burst.getD 0)
  duration := .num (r.duration.getD 2)
  defaultConnDelay := .nil
  limitLocation := .str (r.limitLocation.getD "")
  dryRun := .nil

def ReqDefaults.rule (r : ReqDefaults) : ReqRule where
  key := .nil
  rate := (r.rate.map RateText.val).getD (.str "1000r/s")
  burst := .num (r.burst.getD 0)
  duration := .nil
  defaultConnDelay := .num (r.defaultConnDelay.getD (1 / 2))
  limitLocation := .str (r.limitLocation.getD "")
  dryRun := .bool (r.dryRun.getD false)

def ReqSection.conf (s : ReqSection) : ReqlimitConf where
  limitType := .str (s.limitType.getD "ip")
  limitDefaultUser := .str (s.limitDefaultUser.getD "anonymous")
  limitArgs := s.limitArgs.map (fun r => r.2.rule (.str r.1))
  defaultArgs := (s.defaultArgs.getD []).map ReqDefaults.rule
  dryRun := .bool (s.dryRun.getD false)
  limitCommonOn := .bool (s.limitCommonOn.getD false)
  reqlimitOn := true

/-! ### The normaliser fills in these defaults -/

namespace GetConf

@[simp] theorem or_optional_num (a : Option ℚ) (d : ℚ) :
    ((a.map Val.num).getD .nil).or (.num d) = .num (a.getD d) := by
  cases a <;> rfl

@[simp] theorem or_optional_str (a : Option String) (d : String) :
    ((a.map Val.str).getD .nil).or (.str d) = .str (a.getD d) := by
  cases a <;> rfl

@[simp] theorem or_optional_bool (a : Option Bool) (d : Bool) :
    ((a.map Val.bool).getD .nil).or (.bool d) = .bool (a.getD false || d) := by
  match a with
  | none => rfl
  | some false => rfl
  | some true => rfl

@[simp] theorem or_optional_rate (a : Option RateText) (d : Val) :
    ((a.map RateText.val).getD .nil).or d = (a.map RateText.val).getD d := by
  cases a <;> rfl

theorem mapM_eq_ok {α β : Type} {describes : α → Val → Prop} {f : Val → Except LuaError β}
    {g : α → β} {rules : List α} {xs : List Val} (h : List.Forall₂ describes rules xs)
    (hf : ∀ r x, describes r x → f x = .ok (g r)) : xs.mapM f = .ok (rules.map g) := by
  induction h with
  | nil => rfl
  | cons hx _ ih =>
      rw [List.mapM_cons, hf _ _ hx, ih]
      rfl

theorem truthy_of_index {v x : Val} {name : String} (h : v.index name = .ok x) :
    v.truthy = true := by
  cases v with
  | obj fs => rfl
  | arr xs => rfl
  | str s => rfl
  | _ => cases h

theorem appCheckBasic_eq {s : BasicSection} {v : Val} (h : s.Describes v) :
    appCheckBasic v = .ok s.conf := by
  have hservice := h.service
  have hdeny := h.ipDeny
  simp only [Reads] at hservice hdeny
  simp [appCheckBasic, hservice, hdeny, BasicSection.conf, bind, Except.bind, pure, Except.pure]

theorem connRule_eq {r : ConnLimits} {v : Val} (h : r.Describes v) (key : Val) (d : Bool) :
    connRule (.bool d) key v = .ok (r.rule key d) := by
  obtain ⟨hmax, hburst, hdelay, hlocation, hdry⟩ := h
  simp only [Reads] at hmax hburst hdelay hlocation hdry
  simp [connRule, hmax, hburst, hdelay, hlocation, hdry, ConnLimits.rule, bind, Except.bind,
    pure, Except.pure]

theorem reqLimitRule_eq {r : ReqLimits} {v : Val} {key : String}
    (h : DescribesKeyed ReqLimits.Describes (key, r) v) :
    reqLimitRule v = .ok (r.rule (.str key)) := by
  obtain ⟨hkey, hrate, hburst, hduration, hlocation, -⟩ := h
  simp only [Reads] at hrate hburst hduration hlocation
  simp [reqLimitRule, hkey, hrate, hburst, hduration, hlocation, ReqLimits.rule, bind,
    Except.bind, pure, Except.pure]

theorem reqDefaultRule_eq {r : ReqDefaults} {v : Val} (h : r.Describes v) :
    reqDefaultRule v = .ok r.rule := by
  obtain ⟨hrate, hburst, -, hdelay, hlocation, hdry⟩ := h
  simp only [Reads] at hrate hburst hdelay hlocation hdry
  simp [reqDefaultRule, hrate, hburst, hdelay, hlocation, hdry, ReqDefaults.rule, bind,
    Except.bind, pure, Except.pure]

theorem defaultArgs_eq {ρ β : Type} {describes : ρ → Val → Prop} {f : Val → Except LuaError β}
    {g : ρ → β} {v : Val} {rules : Option (List ρ)}
    (h : ReadsSection v "default_args" (ReadsList describes) rules)
    (hf : ∀ r x, describes r x → f x = .ok (g r)) :
    ∃ x, v.index "default_args" = .ok x ∧
      (optionalRules x >>= fun xs => xs.mapM f) = .ok ((rules.getD []).map g) := by
  cases rules with
  | none => exact ⟨.nil, h, rfl⟩
  | some rs =>
      obtain ⟨x, hx, xs, rfl, hall⟩ := h
      refine ⟨.arr xs, hx, ?_⟩
      have hmap := mapM_eq_ok hall hf
      cases xs with
      | nil => exact hmap
      | cons a as => exact hmap

theorem appCheckConnlimit_eq {s : ConnSection} {v : Val} (h : s.Describes v) :
    appCheckConnlimit v = .ok s.conf := by
  obtain ⟨htype, huser, hcommon, ⟨args, hargs, xs, rfl, hall⟩, hdefaults, hdry⟩ := h
  obtain ⟨x, hx, hxs⟩ := defaultArgs_eq (g := fun r => r.rule .nil (s.dryRun.getD false))
    hdefaults (fun r x hr => connRule_eq hr .nil _)
  have hrules := mapM_eq_ok
    (f := fun v => do connRule (.bool (s.dryRun.getD false)) (← v.index "key") v)
    (g := fun r => r.2.rule (.str r.1) (s.dryRun.getD false)) hall (fun r x hr => by
      simp only [hr.1, bind, Except.bind]
      exact connRule_eq hr.2 (.str r.1) _)
  have htruthy : v.truthy = true := truthy_of_index hargs
  simp only [Reads] at htype huser hcommon hdry
  cases hlist : optionalRules x with
  | error e =>
      rw [hlist] at hxs
      cases hxs
  | ok defaults =>
      rw [hlist] at hxs
      have hxs' : defaults.mapM (connRule (.bool (s.dryRun.getD false)) .nil) = .ok _ := hxs
      simp only [bind, Except.bind] at hrules
      simp [appCheckConnlimit, htruthy, hdry, hargs, Val.ipairs, hrules, hx, hlist, hxs', htype,
        huser, hcommon, ConnSection.conf, bind, Except.bind, pure, Except.pure]

theorem appCheckReqlimit_eq {s : ReqSection} {v : Val} (h : s.Describes v) :
    appCheckReqlimit v = .ok s.conf := by
  obtain ⟨htype, huser, hcommon, ⟨args, hargs, xs, rfl, hall⟩, hdefaults, hdry⟩ := h
  obtain ⟨x, hx, hxs⟩ := defaultArgs_eq (g := ReqDefaults.rule) hdefaults
    (fun r x hr => reqDefaultRule_eq hr)
  have hrules := mapM_eq_ok (g := fun r => r.2.rule (.str r.1)) hall
    (fun r x hr => reqLimitRule_eq hr)
  have htruthy : v.truthy = true := truthy_of_index hargs
  simp only [Reads] at htype huser hcommon hdry
  cases hlist : optionalRules x with
  | error e =>
      rw [hlist] at hxs
      cases hxs
  | ok defaults =>
      rw [hlist] at hxs
      have hxs' : defaults.mapM reqDefaultRule = .ok _ := hxs
      simp [appCheckReqlimit, htruthy, hdry, hargs, Val.ipairs, hrules, hx, hlist, hxs', htype,
        huser, hcommon, ReqSection.conf, bind, Except.bind, pure, Except.pure]

end GetConf
end OpenrestyGateway
