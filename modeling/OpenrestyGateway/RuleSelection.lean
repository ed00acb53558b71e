import OpenrestyGateway.AccessMain
import OpenrestyGateway.DomainEntry

/-!
Which rule governs a request. The reference is one function of the keys and the
locations of a section's rules; the selectors of both limiters are compared with it.
The connection limiter follows it. The request limiter looks a request without a
location up under "default", where its rules stand under the empty location.
-/
namespace OpenrestyGateway

/-- A rule, by its list and its position there. -/
inductive Place where
  | limitArg (i : Nat)
  | defaultArg (i : Nat)
  deriving DecidableEq

/-- What selects a rule: the fields of the section that do, and of each rule its key and
its location. -/
structure RuleTable where
  limitType : Option String
  limitDefaultUser : Option String
  limitCommonOn : Option Bool
  limitArgs : List (String × Option String)
  defaultArgs : List (Option String)

namespace RuleTable

def byUser (t : RuleTable) : Bool := t.limitType.getD "ip" == "user"

/-- The name the rules of default_args are applied under. -/
def client (t : RuleTable) (rq : RequestVars) : String :=
  if t.byUser then rq.remoteUser.getD "none" else rq.remoteAddr

def keyMatches (t : RuleTable) (rq : RequestVars) (key : String) : Bool :=
  if t.byUser then key == rq.remoteUser.getD "none"
  else Util.isInSubnetMask rq.remoteAddr (.str key) matches .ok true

def atLocation (rq : RequestVars) (limitLocation : Option String) : Bool :=
  limitLocation.getD "" == rq.limitLocation.getD ""

/-- A user who has a name and no rule shares those of default_args only where
limit_common_on says so, and is the default user otherwise. An address always does. -/
def sharesDefaults (t : RuleTable) (rq : RequestVars) : Bool :=
  !t.byUser || (rq.remoteUser.getD "none" != "none" && t.limitCommonOn.getD false)

/-- The reference: the first rule of the key and the location, else the first one in
default_args of the location, or the default user's. -/
def governing (t : RuleTable) (rq : RequestVars) : Option Place :=
  match t.limitArgs.findIdx? (fun r => t.keyMatches rq r.1 && atLocation rq r.2) with
  | some i => some (.limitArg i)
  | none =>
      if t.sharesDefaults rq then (t.defaultArgs.findIdx? (atLocation rq)).map .defaultArg
      else
        (t.limitArgs.findIdx? (fun r =>
          t.limitDefaultUser.getD "anonymous" == r.1 && atLocation rq r.2)).map .limitArg

end RuleTable

def ConnSection.table (s : ConnSection) : RuleTable where
  limitType := s.limitType
  limitDefaultUser := s.limitDefaultUser
  limitCommonOn := s.limitCommonOn
  limitArgs := s.limitArgs.map (fun r => (r.1, r.2.limitLocation))
  defaultArgs := (s.defaultArgs.getD []).map ConnLimits.limitLocation

def ReqSection.table (s : ReqSection) : RuleTable where
  limitType := s.limitType
  limitDefaultUser := s.limitDefaultUser
  limitCommonOn := s.limitCommonOn
  limitArgs := s.limitArgs.map (fun r => (r.1, r.2.limitLocation))
  defaultArgs := (s.defaultArgs.getD []).map ReqDefaults.limitLocation

def ruleIn {α δ ρ : Type} (limitArgs : List α) (defaultArgs : List δ) (f : α → ρ)
    (k : δ → ρ) : Place → Option ρ
  | .limitArg i => limitArgs[i]?.map f
  | .defaultArg i => defaultArgs[i]?.map k

/-- The rule at a place, as it is applied to a request. -/
def ConnSection.ruleAt (s : ConnSection) (rq : RequestVars) : Place → Option ConnRule :=
  ruleIn s.limitArgs (s.defaultArgs.getD [])
    (fun r => r.2.rule (.str r.1) (s.dryRun.getD false))
    (fun r => r.rule (.str (s.table.client rq)) (s.dryRun.getD false))

def ReqSection.ruleAt (s : ReqSection) (rq : RequestVars) : Place → Option ReqRule :=
  ruleIn s.limitArgs (s.defaultArgs.getD []) (fun r => r.2.rule (.str r.1))
    (fun r => { r.rule with key := .str (s.table.client rq) })

/-- The rule at the place governs the request, whichever its limits are. -/
def ConnSection.GovernedBy (s : ConnSection) (rq : RequestVars) (place : Option Place) : Prop :=
  ConnlimitLogic.getConfig s.conf rq = .ok (place.bind (s.ruleAt rq))

def ReqSection.GovernedBy (s : ReqSection) (rq : RequestVars) (place : Option Place) : Prop :=
  ReqlimitLogic.getConfig s.conf rq = .ok (place.bind (s.ruleAt rq))

section Lists
variable {α β ρ : Type}

/-- A search for a rule and the search for its index agree. -/
def Found (idx : Option Nat) (rule : Nat → Option ρ) (o : Option ρ) : Prop :=
  (idx = none ∧ o = none) ∨ ∃ i v, idx = some i ∧ rule i = some v ∧ o = some v

theorem found_find? {f : α → ρ} {g : α → β} {p : ρ → Bool} {q : β → Bool}
    (h : ∀ a, p (f a) = q (g a)) (xs : List α) :
    Found ((xs.map g).findIdx? q) (fun i => xs[i]?.map f) ((xs.map f).find? p) := by
  have hsame : p ∘ f = q ∘ g := funext h
  rw [List.find?_map, List.findIdx?_map, hsame, List.find?_eq_bind_findIdx?_getElem?]
  cases hidx : xs.findIdx? (q ∘ g) with
  | none => exact .inl ⟨rfl, rfl⟩
  | some i =>
      obtain ⟨hlt, -⟩ := List.findIdx?_eq_some_iff_getElem.mp hidx
      have hget := List.getElem?_eq_getElem hlt
      exact .inr ⟨i, f xs[i], rfl, by simp [hget], by simp [hget]⟩

theorem Found.map {idx : Option Nat} {xs : List α} {f : α → ρ} {o : Option ρ}
    (h : Found idx (fun i => xs[i]?.map f) o) (k : ρ → ρ) :
    Found idx (fun i => xs[i]?.map (fun a => k (f a))) (o.map k) := by
  rcases h with ⟨rfl, rfl⟩ | ⟨i, v, rfl, hrule, rfl⟩
  · exact .inl ⟨rfl, rfl⟩
  · obtain ⟨a, ha, rfl⟩ := Option.map_eq_some_iff.mp hrule
    exact .inr ⟨i, k (f a), rfl, by simp [ha], rfl⟩

theorem firstInSubnet_eq_find {key limitLocation : ρ → Val} {rules : List ρ}
    (h : ∀ r ∈ rules, ∃ k, key r = .str k) (userIp location : String) :
    firstInSubnet key limitLocation userIp location rules =
      .ok (rules.find? (fun r => (Util.isInSubnetMask userIp (key r) matches .ok true) &&
        (limitLocation r).isStr location)) := by
  induction rules with
  | nil => rfl
  | cons a as ih =>
      obtain ⟨k, hk⟩ := h a (.head as)
      obtain ⟨b, hb⟩ := Util.isInSubnetMask_str userIp k
      have hrest := ih (fun r hr => h r (.tail a hr))
      simp only [firstInSubnet, hk, hb, bind, Except.bind, List.find?_cons, hrest]
      cases b <;> cases (limitLocation a).isStr location <;> rfl

end Lists

namespace RuleTable

theorem governing_bind {ρ : Type} {t : RuleTable} {rq : RequestVars}
    {rule : Place → Option ρ} {first shared fallback : Option ρ}
    (hfirst : Found
      (t.limitArgs.findIdx? (fun r => t.keyMatches rq r.1 && atLocation rq r.2))
      (fun i => rule (.limitArg i)) first)
    (hshared : Found (t.defaultArgs.findIdx? (atLocation rq))
      (fun i => rule (.defaultArg i)) shared)
    (hfallback : Found
      (t.limitArgs.findIdx? (fun r =>
        t.limitDefaultUser.getD "anonymous" == r.1 && atLocation rq r.2))
      (fun i => rule (.limitArg i)) fallback) :
    (t.governing rq).bind rule =
      first.or (if t.sharesDefaults rq then shared else fallback) := by
  simp only [governing]
  rcases hfirst with ⟨hidx, rfl⟩ | ⟨i, v, hidx, hrule, rfl⟩
  · rw [hidx]
    cases t.sharesDefaults rq with
    | true =>
        rcases hshared with ⟨hidx, rfl⟩ | ⟨i, v, hidx, hrule, rfl⟩
        · simp [hidx]
        · simp [hidx, hrule]
    | false =>
        rcases hfallback with ⟨hidx, rfl⟩ | ⟨i, v, hidx, hrule, rfl⟩
        · simp [hidx]
        · simp [hidx, hrule]
  · rw [hidx]
    exact hrule

/-- The reference in terms of three searches among the normalised rules. -/
theorem governing_eq {α δ ρ : Type} {t : RuleTable} {rq : RequestVars} {xs : List (String × α)}
    {ds : List δ} {f : String × α → ρ} {k : δ → ρ} {g : α → Option String}
    {h : δ → Option String} {p q r : ρ → Bool}
    (hxs : t.limitArgs = xs.map (fun a => (a.1, g a.2))) (hds : t.defaultArgs = ds.map h)
    (hfirst : ∀ a, p (f a) = (t.keyMatches rq a.1 && atLocation rq (g a.2)))
    (hshared : ∀ d, q (k d) = atLocation rq (h d))
    (hfallback : ∀ a, r (f a) =
      (t.limitDefaultUser.getD "anonymous" == a.1 && atLocation rq (g a.2)))
    (keyed : ρ → ρ) :
    (t.governing rq).bind (ruleIn xs ds f (fun d => keyed (k d))) =
      ((xs.map f).find? p).or
        (if t.sharesDefaults rq then ((ds.map k).find? q).map keyed
        else (xs.map f).find? r) := by
  refine governing_bind ?_ ?_ ?_
  · rw [hxs]
    exact found_find? hfirst xs
  · rw [hds]
    exact (found_find? hshared ds).map keyed
  · rw [hxs]
    exact found_find? hfallback xs

end RuleTable

/-! ### The selectors of the connection limiter -/

namespace ConnlimitLogic

theorem rule_log (r : ConnLimits) (key : String) (d : Bool) : ∃ text, Val.concat
    [(r.rule (.str key) d).key, .str ";", (r.rule (.str key) d).max, .str ";",
      (r.rule (.str key) d).burst, .str ";", (r.rule (.str key) d).defaultConnDelay] =
        .ok text := by
  simp only [ConnLimits.rule, Val.concat, Val.text_str, Val.text_num, bind, Except.bind]
  exact ⟨_, rfl⟩

theorem getUserConfig_eq (s : ConnSection) (user location : String) :
    getUserConfig s.conf user location = .ok
      ((s.conf.limitArgs.find? (fun v =>
        v.key.isStr user && v.limitLocation.isStr location)).or
          (if user != "none" && s.limitCommonOn.getD false then
            (s.conf.defaultArgs.find? (fun v => v.limitLocation.isStr location)).map
              (fun v => { v with key := .str user })
          else
            s.conf.limitArgs.find? (fun v =>
              s.conf.limitDefaultUser.rawEq v.key && v.limitLocation.isStr location))) := by
  have htruthy : s.conf.limitCommonOn.truthy = s.limitCommonOn.getD false := by
    simp only [ConnSection.conf]
    cases s.limitCommonOn.getD false <;> rfl
  simp only [getUserConfig]
  rw [htruthy]
  cases hfirst : s.conf.limitArgs.find? (fun v =>
      v.key.isStr user && v.limitLocation.isStr location) with
  | some v => rfl
  | none =>
      simp only [Option.none_or, Bool.and_eq_true, bne_iff_ne]
      split
      · cases s.conf.defaultArgs.find? (fun v => v.limitLocation.isStr location) <;> rfl
      · cases hfallback : s.conf.limitArgs.find? (fun v =>
            s.conf.limitDefaultUser.rawEq v.key && v.limitLocation.isStr location) with
        | none => rfl
        | some v =>
            obtain ⟨r, -, rfl⟩ := List.mem_map.mp (List.mem_of_find?_eq_some hfallback)
            obtain ⟨text, htext⟩ := rule_log r.2 r.1 (s.dryRun.getD false)
            simp only [htext]
            rfl

theorem getIpConfig_eq (s : ConnSection) (userIp location : String) :
    getIpConfig s.conf userIp location = .ok
      ((s.conf.limitArgs.find? (fun v =>
        (Util.isInSubnetMask userIp v.key matches .ok true) &&
          v.limitLocation.isStr location)).or
        ((s.conf.defaultArgs.find? (fun v => v.limitLocation.isStr location)).map
          (fun v => { v with key := .str userIp }))) := by
  have hkeys : ∀ v ∈ s.conf.limitArgs, ∃ k, v.key = .str k := by
    intro v hv
    obtain ⟨r, -, rfl⟩ := List.mem_map.mp hv
    exact ⟨r.1, rfl⟩
  simp only [getIpConfig]
  rw [firstInSubnet_eq_find hkeys]
  cases s.conf.limitArgs.find? (fun v =>
    (Util.isInSubnetMask userIp v.key matches .ok true) && v.limitLocation.isStr location) <;> rfl

/-- The connection limiter follows the reference. -/
theorem governedBy_governing (s : ConnSection) (rq : RequestVars) :
    s.GovernedBy rq (s.table.governing rq) := by
  simp only [ConnSection.GovernedBy, getConfig]
  cases huser : s.table.byUser with
  | true =>
      have hmode : s.conf.limitType.isStr "user" = true := huser
      rw [if_pos hmode, getUserConfig_eq]
      refine congrArg Except.ok (Eq.trans ?_ (RuleTable.governing_eq
        (k := fun r : ConnLimits => r.rule .nil (s.dryRun.getD false))
        (p := fun v => v.key.isStr (rq.remoteUser.getD "none") &&
          v.limitLocation.isStr (rq.limitLocation.getD ""))
        (q := fun v => v.limitLocation.isStr (rq.limitLocation.getD ""))
        (r := fun v => s.conf.limitDefaultUser.rawEq v.key &&
          v.limitLocation.isStr (rq.limitLocation.getD ""))
        rfl rfl (fun r => ?_) (fun r => rfl) (fun r => rfl)
        (fun v => { v with key := .str (s.table.client rq) })).symm)
      · simp only [RuleTable.sharesDefaults, RuleTable.client, huser, Bool.not_true,
          Bool.false_or, if_true]
        rfl
      · simp only [RuleTable.keyMatches, huser, if_true]
        rfl
  | false =>
      have hmode : ¬ s.conf.limitType.isStr "user" = true :=
        fun h => Bool.false_ne_true (huser.symm.trans h)
      rw [if_neg hmode, getIpConfig_eq]
      refine congrArg Except.ok (Eq.trans ?_ (RuleTable.governing_eq
        (k := fun r : ConnLimits => r.rule .nil (s.dryRun.getD false))
        (p := fun v => (Util.isInSubnetMask rq.remoteAddr v.key matches .ok true) &&
          v.limitLocation.isStr (rq.limitLocation.getD ""))
        (q := fun v => v.limitLocation.isStr (rq.limitLocation.getD ""))
        (r := fun v => s.conf.limitDefaultUser.rawEq v.key &&
          v.limitLocation.isStr (rq.limitLocation.getD ""))
        rfl rfl (fun r => ?_) (fun r => rfl) (fun r => rfl)
        (fun v => { v with key := .str (s.table.client rq) })).symm)
      · simp only [RuleTable.sharesDefaults, RuleTable.client, huser, Bool.not_false,
          Bool.true_or, if_true]
        rfl
      · simp only [RuleTable.keyMatches, huser]
        rfl

end ConnlimitLogic

/-! ### The selectors of the request limiter -/

namespace ReqlimitLogic

/-- The location a request is looked up under. -/
def located (rq : RequestVars) : RequestVars :=
  { rq with limitLocation := some (rq.limitLocation.getD "default") }

theorem rule_log (r : ReqLimits) (key : String) : ∃ text, Val.concat
    [(r.rule (.str key)).key, .str ";", (r.rule (.str key)).rate, .str ";",
      (r.rule (.str key)).burst, .str ";", (r.rule (.str key)).duration] = .ok text := by
  cases hrate : r.rate <;>
    simp [ReqLimits.rule, hrate, RateText.val, Val.concat, bind, Except.bind, pure, Except.pure]

theorem getUserConfig_eq (s : ReqSection) (user location : String) :
    getUserConfig s.conf user location = .ok
      ((s.conf.limitArgs.find? (fun v =>
        v.key.isStr user && v.limitLocation.isStr location)).or
          (if user != "none" && s.limitCommonOn.getD false then
            (s.conf.defaultArgs.find? (fun v => v.limitLocation.isStr location)).map
              (fun v => { v with key := .str user, duration := .nil })
          else
            s.conf.limitArgs.find? (fun v =>
              s.conf.limitDefaultUser.rawEq v.key && v.limitLocation.isStr location))) := by
  have htruthy : s.conf.limitCommonOn.truthy = s.limitCommonOn.getD false := by
    simp only [ReqSection.conf]
    cases s.limitCommonOn.getD false <;> rfl
  have hlog : ∀ v ∈ s.conf.limitArgs, ∃ text, Val.concat
      [v.key, .str ";", v.rate, .str ";", v.burst, .str ";", v.duration] = .ok text := by
    intro v hv
    obtain ⟨r, -, rfl⟩ := List.mem_map.mp hv
    exact rule_log r.2 r.1
  simp only [getUserConfig]
  rw [htruthy]
  cases hfirst : s.conf.limitArgs.find? (fun v =>
      v.key.isStr user && v.limitLocation.isStr location) with
  | some v =>
      obtain ⟨text, htext⟩ := hlog v (List.mem_of_find?_eq_some hfirst)
      simp only [htext]
      rfl
  | none =>
      simp only [Option.none_or, Bool.and_eq_true, bne_iff_ne]
      split
      · cases s.conf.defaultArgs.find? (fun v => v.limitLocation.isStr location) <;> rfl
      · cases hfallback : s.conf.limitArgs.find? (fun v =>
            s.conf.limitDefaultUser.rawEq v.key && v.limitLocation.isStr location) with
        | none => rfl
        | some v =>
            obtain ⟨text, htext⟩ := hlog v (List.mem_of_find?_eq_some hfallback)
            simp only [htext]
            rfl

theorem getIpConfig_eq (s : ReqSection) (userIp location : String) :
    getIpConfig s.conf userIp location = .ok
      ((s.conf.limitArgs.find? (fun v =>
        (Util.isInSubnetMask userIp v.key matches .ok true) &&
          v.limitLocation.isStr location)).or
        ((s.conf.defaultArgs.find? (fun v => v.limitLocation.isStr location)).map
          (fun v => { v with key := .str userIp, duration := .nil }))) := by
  have hkeys : ∀ v ∈ s.conf.limitArgs, ∃ k, v.key = .str k := by
    intro v hv
    obtain ⟨r, -, rfl⟩ := List.mem_map.mp hv
    exact ⟨r.1, rfl⟩
  simp only [getIpConfig]
  rw [firstInSubnet_eq_find hkeys]
  cases s.conf.limitArgs.find? (fun v =>
    (Util.isInSubnetMask userIp v.key matches .ok true) && v.limitLocation.isStr location) <;> rfl

/-- The request limiter follows the reference for the request as it is looked up. -/
theorem governedBy_located (s : ReqSection) (rq : RequestVars) :
    s.GovernedBy rq (s.table.governing (located rq)) := by
  simp only [ReqSection.GovernedBy, getConfig]
  cases huser : s.table.byUser with
  | true =>
      have hmode : s.conf.limitType.isStr "user" = true := huser
      rw [if_pos hmode, getUserConfig_eq]
      refine congrArg Except.ok (Eq.trans ?_ (RuleTable.governing_eq
        (k := ReqDefaults.rule)
        (p := fun v => v.key.isStr (rq.remoteUser.getD "none") &&
          v.limitLocation.isStr (rq.limitLocation.getD "default"))
        (q := fun v => v.limitLocation.isStr (rq.limitLocation.getD "default"))
        (r := fun v => s.conf.limitDefaultUser.rawEq v.key &&
          v.limitLocation.isStr (rq.limitLocation.getD "default"))
        rfl rfl (fun r => ?_) (fun r => rfl) (fun r => rfl)
        (fun v => { v with key := .str (s.table.client rq), duration := .nil })).symm)
      · simp only [RuleTable.sharesDefaults, RuleTable.client, huser, Bool.not_true,
          Bool.false_or, if_true]
        rfl
      · simp only [RuleTable.keyMatches, huser, if_true]
        rfl
  | false =>
      have hmode : ¬ s.conf.limitType.isStr "user" = true :=
        fun h => Bool.false_ne_true (huser.symm.trans h)
      rw [if_neg hmode, getIpConfig_eq]
      refine congrArg Except.ok (Eq.trans ?_ (RuleTable.governing_eq
        (k := ReqDefaults.rule)
        (p := fun v => (Util.isInSubnetMask rq.remoteAddr v.key matches .ok true) &&
          v.limitLocation.isStr (rq.limitLocation.getD "default"))
        (q := fun v => v.limitLocation.isStr (rq.limitLocation.getD "default"))
        (r := fun v => s.conf.limitDefaultUser.rawEq v.key &&
          v.limitLocation.isStr (rq.limitLocation.getD "default"))
        rfl rfl (fun r => ?_) (fun r => rfl) (fun r => rfl)
        (fun v => { v with key := .str (s.table.client rq), duration := .nil })).symm)
      · simp only [RuleTable.sharesDefaults, RuleTable.client, huser, Bool.not_false,
          Bool.true_or, if_true]
        rfl
      · simp only [RuleTable.keyMatches, huser]
        rfl

end ReqlimitLogic

/-! ### The two limiters together -/

theorem mem_of_findIdx? {α β : Type} {g : α → β} {q : β → Bool} {xs : List α} {i : Nat}
    (h : (xs.map g).findIdx? q = some i) : ∃ a, xs[i]? = some a ∧ q (g a) = true := by
  obtain ⟨hlt, hq, -⟩ := List.findIdx?_eq_some_iff_getElem.mp h
  rw [List.length_map] at hlt
  rw [List.getElem_map] at hq
  exact ⟨xs[i], List.getElem?_eq_getElem hlt, hq⟩

/-- The place the reference finds holds a rule of the request's location. -/
theorem ReqSection.ruleAt_governing {s : ReqSection} {rq : RequestVars} {place : Place}
    (h : s.table.governing rq = some place) (rq' : RequestVars) :
    ∃ v, s.ruleAt rq' place = some v ∧ v.limitLocation = .str (rq.limitLocation.getD "") := by
  have hlocation : ∀ l, RuleTable.atLocation rq l = true → l.getD "" = rq.limitLocation.getD "" :=
    fun l hl => beq_iff_eq.mp hl
  have hlimit : ∀ (q : String → Bool) i,
      s.table.limitArgs.findIdx? (fun r => q r.1 && RuleTable.atLocation rq r.2) = some i →
        ∃ v, s.ruleAt rq' (.limitArg i) = some v ∧
          v.limitLocation = .str (rq.limitLocation.getD "") := by
    intro q i hidx
    obtain ⟨r, hr, hq⟩ := mem_of_findIdx? hidx
    refine ⟨r.2.rule (.str r.1), by simp [ruleAt, ruleIn, hr], ?_⟩
    exact congrArg Val.str (hlocation _ (Bool.and_eq_true_iff.mp hq).2)
  simp only [RuleTable.governing] at h
  split at h
  · rename_i i hidx
    cases h
    exact hlimit _ i hidx
  · split at h
    · obtain ⟨i, hidx, rfl⟩ := Option.map_eq_some_iff.mp h
      obtain ⟨r, hr, hq⟩ := mem_of_findIdx? hidx
      refine ⟨{ r.rule with key := .str (s.table.client rq') }, by simp [ruleAt, ruleIn, hr], ?_⟩
      exact congrArg Val.str (hlocation _ hq)
    · obtain ⟨i, hidx, rfl⟩ := Option.map_eq_some_iff.mp h
      exact hlimit _ i hidx

/-- Both limiters apply the rule that the reference selects. -/
def SelectAlike (c : ConnSection) (r : ReqSection) (rq : RequestVars) : Prop :=
  c.GovernedBy rq (c.table.governing rq) ∧ r.GovernedBy rq (c.table.governing rq)

theorem none_pos : ∀ q ∈ (none : Option ℚ), 0 < q := by
  intro q hq
  cases hq

theorem none_nonneg : ∀ q ∈ (none : Option ℚ), 0 ≤ q := by
  intro q hq
  cases hq

def plainLimits : ConnLimits :=
  ⟨none, none, none, none, none, none_pos, none_nonneg, none_pos⟩

def plainConnlimit : ConnSection :=
  ⟨none, none, none, [("10.0.0.0/8", plainLimits)], none, none⟩

def plainRule : ReqLimits := ⟨none, none, none, none, none, none_nonneg, none_nonneg⟩

def plainReqlimit : ReqSection := ⟨none, none, none, [("10.0.0.0/8", plainRule)], none, none⟩

end OpenrestyGateway
