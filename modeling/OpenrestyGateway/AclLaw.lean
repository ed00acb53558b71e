import OpenrestyGateway.AclRules

/-!
The decision of the access lists against what the lists mean.

The rules decide as the lists mean it, except where there is no address to check
and where the networks around an IPv6 address are asked for the wrong way round.
-/
namespace OpenrestyGateway
namespace Acl

namespace ZoneRule

theorem rawEq_str (s : String) (v : Val) : (Val.str s).rawEq v = true ↔ Val.str s = v := by
  cases v <;> simp [Val.rawEq]

theorem rawEq_zhName (place : Option Place) {v : Val} (hv : v.truthy = true) :
    (zhName place).rawEq v = true ↔ zhName place = v := by
  simp only [zhName]
  split
  · exact rawEq_str _ v
  · cases v with
    | nil => cases hv
    | _ => simp [Val.rawEq]

theorem provinceMatches_iff (place : Option Place) (province : Val) :
    provinceMatches place province = true ↔
      ∃ name, zhName place = .str name ∧ Val.str (provinceName name) = province := by
  simp only [provinceMatches]
  cases zhName place with
  | str name => simp [rawEq_str]
  | _ => simp

/-- A field that a condition leaves out is not checked. -/
theorem field_passes {v : Val} {check : Bool} {P : Prop}
    (h : v.truthy = true → (check = true ↔ P)) :
    (v.truthy && !check) = false ↔ (v.truthy = true → P) := by
  cases hv : v.truthy with
  | false => simp
  | true => simp [h hv]

theorem isMatchingCondition_iff (ipInfo : Option GeoInfo) (condition : ZoneCondition) :
    isMatchingCondition ipInfo condition = true ↔ Satisfies ipInfo condition := by
  have hcountry := field_passes (v := condition.country)
    (rawEq_zhName (ipInfo.bind GeoInfo.country))
  have hprovince := field_passes (v := condition.province) (fun _ => provinceMatches_iff
    ((ipInfo.bind GeoInfo.subdivisions).bind List.head?) condition.province)
  have hcity := field_passes (v := condition.city) (rawEq_zhName (ipInfo.bind GeoInfo.city))
  simp only [isMatchingCondition]
  constructor
  · intro h
    split at h
    · cases h
    · rename_i hc
      split at h
      · cases h
      · rename_i hp
        split at h
        · cases h
        · rename_i ht
          exact ⟨hcountry.mp (Bool.eq_false_of_not_eq_true hc),
            hprovince.mp (Bool.eq_false_of_not_eq_true hp),
            hcity.mp (Bool.eq_false_of_not_eq_true ht)⟩
  · intro h
    rw [hcountry.mpr h.country, hprovince.mpr h.province, hcity.mpr h.city]
    rfl

theorem queryIp_eq {env : Env} {cache : GeoCache} (hopen : env.initted = true)
    (hcache : CacheSound env cache) (ip : String) :
    ∃ cache', queryIp env cache ip = .ok (env.lookup ip, cache') ∧ CacheSound env cache' := by
  simp only [queryIp, hopen]
  cases hc : cache ip with
  | some info =>
      rw [hcache ip info hc]
      exact ⟨cache, rfl, hcache⟩
  | none =>
      cases hl : env.lookup ip with
      | none => exact ⟨cache, rfl, hcache⟩
      | some info =>
          refine ⟨_, rfl, ?_⟩
          intro ip' info' h
          by_cases hip : ip' = ip
          · subst hip
            rw [Function.update_self] at h
            cases h
            exact hl
          · rw [Function.update_of_ne hip] at h
            exact hcache ip' info' h

theorem located_iff (env : Env) (conf : DenyConf) (ip : String) :
    conf.zone.any (isMatchingCondition (env.lookup ip)) = true ↔ Located env conf ip := by
  simp only [List.any_eq_true, isMatchingCondition_iff, Located]

theorem anyZone_eq {env : Env} (hopen : env.initted = true) (conf : DenyConf)
    (ips : List String) {cache : GeoCache} (hcache : CacheSound env cache) :
    ∃ z cache', anyZone env conf cache ips = .ok (z, cache') ∧ (z = .hit ∨ z = .miss) ∧
      (z = .hit ↔ ∃ ip ∈ ips, Located env conf ip) := by
  induction ips generalizing cache with
  | nil => exact ⟨.miss, cache, rfl, .inr rfl, by simp⟩
  | cons ip ips ih =>
      obtain ⟨cache', hquery, hcache'⟩ := queryIp_eq hopen hcache ip
      simp only [anyZone, hquery, bind, Except.bind, pure, Except.pure]
      by_cases hloc : Located env conf ip
      · rw [if_pos ((located_iff env conf ip).mpr hloc)]
        exact ⟨.hit, cache', rfl, .inl rfl, fun _ => ⟨ip, .head _, hloc⟩, fun _ => rfl⟩
      · rw [if_neg (fun h => hloc ((located_iff env conf ip).mp h))]
        obtain ⟨z, cache'', hrest, hz, hhit⟩ := ih hcache'
        refine ⟨z, cache'', hrest, hz, ?_⟩
        rw [hhit, List.exists_mem_cons_iff]
        simp [hloc]

end ZoneRule

namespace IpRule

/-- What the rule looks for: of an IPv6 address, the networks that lie within it. -/
def Finds (env : Env) (conf : DenyConf) (ip : String) : Prop :=
  if isIpv6 ip then ∃ cidr ∈ conf.ipv6List, env.lies cidr ip = true
  else ∃ cidr ∈ conf.ipv4List, Iputils.InNetwork ip cidr

theorem found_iff (env : Env) {conf : DenyConf} {ranges : List (Nat × Nat)}
    (hread : Iputils.parseCidrs conf.ipv4List = .ok ranges) (ip : String) :
    (if !isIpv6 ip then Iputils.ipInCidrs ip ranges
      else conf.ipv6List.any (fun ipcidr => env.contains ip ipcidr)) = true ↔
      Finds env conf ip := by
  simp only [Finds]
  cases isIpv6 ip with
  | false => simpa using Iputils.ipInCidrs_iff hread
  | true => simp [Env.contains]

theorem anyAllowed_eq (env : Env) {conf : DenyConf} {ranges : List (Nat × Nat)}
    (hread : Iputils.parseCidrs conf.ipv4List = .ok ranges) (ips : List String) :
    ∃ b, anyAllowed env conf ips = .ok b ∧ (b = true ↔ ∃ ip ∈ ips, Finds env conf ip) := by
  induction ips with
  | nil => exact ⟨false, rfl, by simp⟩
  | cons ip ips ih =>
      obtain ⟨b, hrest, hb⟩ := ih
      have hip := found_iff env hread ip
      have hstep : anyAllowed env conf (ip :: ips) =
          .ok ((if !isIpv6 ip then Iputils.ipInCidrs ip ranges
            else conf.ipv6List.any (fun ipcidr => env.contains ip ipcidr)) || b) := by
        simp only [anyAllowed, hread, hrest, bind, Except.bind, pure, Except.pure]
        cases isIpv6 ip with
        | false => cases Iputils.ipInCidrs ip ranges <;> rfl
        | true => cases conf.ipv6List.any (fun ipcidr => env.contains ip ipcidr) <;> rfl
      refine ⟨_, hstep, ?_⟩
      rw [Bool.or_eq_true, hip, hb, List.exists_mem_cons_iff]

end IpRule

/-- Some checked address is one that the rules look for. -/
def Found (env : Env) (conf : DenyConf) (req : Request) : Prop :=
  ∃ ip ∈ ipList conf req, IpRule.Finds env conf ip ∨ Located env conf ip

structure Law (env : Env) (cache : GeoCache) (conf : DenyConf) (req : Request) :
    Prop where
  deny : conf.aclType = .str "deny" →
    (decision env cache conf req = .ok .deny ↔ Matched env conf req)
  allow : conf.aclType = .str "allow" →
    (decision env cache conf req = .ok .allow ↔ Matched env conf req)

/-- Some address is located as configured, or lies in a network of the IPv4 list. -/
def MatchedElsewhere (env : Env) (conf : DenyConf) (req : Request) : Prop :=
  ∃ ip ∈ ipList conf req, Located env conf ip ∨
    IpRule.isIpv6 ip = false ∧ ∃ cidr ∈ conf.ipv4List, Iputils.InNetwork ip cidr

/-- Some checked IPv6 address lies in a network of the IPv6 list. -/
def NetworkAround (env : Env) (conf : DenyConf) (req : Request) : Prop :=
  ∃ ip ∈ ipList conf req, IpRule.isIpv6 ip = true ∧
    ∃ cidr ∈ conf.ipv6List, env.lies ip cidr = true

/-- Some network of the IPv6 list lies in a checked IPv6 address. -/
def NetworkWithin (env : Env) (conf : DenyConf) (req : Request) : Prop :=
  ∃ ip ∈ ipList conf req, IpRule.isIpv6 ip = true ∧
    ∃ cidr ∈ conf.ipv6List, env.lies cidr ip = true

/-- Something is checked before a request is allowed, and where the decision is left
to the IPv6 list, it has a network around an address if it has one within. -/
structure Guarded (env : Env) (conf : DenyConf) (req : Request) : Prop where
  checked : conf.aclType = .str "allow" → ipList conf req ≠ []
  around : MatchedElsewhere env conf req ∨
    (NetworkWithin env conf req ↔ NetworkAround env conf req)

section Decision
variable {env : Env} {cache : GeoCache} {conf : DenyConf} {req : Request}

variable (env cache) in
/-- Without an address the first rule is undecided and the second allows. -/
theorem decision_unchecked (h : ipList conf req = []) :
    decision env cache conf req = .ok .allow := by
  simp only [decision, IpRule.ipLogic, IpRule.isIpAllowed, ZoneRule.zoneLogic,
    ZoneRule.isZoneAllowed, h, List.length_nil, if_true]
  rfl

theorem decision_checked (hopen : env.initted = true) (hcache : CacheSound env cache)
    {ranges : List (Nat × Nat)} (hread : Iputils.parseCidrs conf.ipv4List = .ok ranges)
    (h : ipList conf req ≠ []) :
    (Found env conf req → decision env cache conf req =
      .ok (if conf.aclType.isStr "deny" then .deny else .allow)) ∧
    (¬ Found env conf req → decision env cache conf req =
      .ok (if conf.aclType.isStr "allow" then .deny else .allow)) := by
  have hlen : ¬ (ipList conf req).length = 0 := fun h0 => h (List.length_eq_zero_iff.mp h0)
  obtain ⟨b, hip, hb⟩ := IpRule.anyAllowed_eq env hread (ipList conf req)
  obtain ⟨z, cache', hzone, hz, hhit⟩ :=
    ZoneRule.anyZone_eq hopen conf (ipList conf req) hcache
  have hfound : Found env conf req ↔ b = true ∨ z = .hit := by
    rw [hb, hhit]
    simp only [Found, ← exists_or, and_or_left]
  simp only [hfound, decision, IpRule.ipLogic, IpRule.isIpAllowed, ZoneRule.zoneLogic,
    ZoneRule.isZoneAllowed, if_neg hlen, hip, hzone, bind, Except.bind, pure, Except.pure]
  cases b with
  | true => cases conf.aclType.isStr "deny" <;> simp
  | false =>
      rcases hz with rfl | rfl
      · cases conf.aclType.isStr "deny" <;> simp
      · cases conf.aclType.isStr "allow" <;> simp

theorem exists_by_family (ips : List String) (A B L : String → Prop) :
    (∃ ip ∈ ips, (if IpRule.isIpv6 ip then A ip else B ip) ∨ L ip) ↔
      (∃ ip ∈ ips, L ip ∨ IpRule.isIpv6 ip = false ∧ B ip) ∨
        ∃ ip ∈ ips, IpRule.isIpv6 ip = true ∧ A ip := by
  rw [← exists_or]
  refine exists_congr (fun ip => ?_)
  cases IpRule.isIpv6 ip with
  | false => simp [or_comm]
  | true =>
      simp only [if_true, Bool.true_eq_false, false_and, or_false, true_and]
      rw [← and_or_left, or_comm]

theorem found_iff : Found env conf req ↔
    MatchedElsewhere env conf req ∨ NetworkWithin env conf req :=
  exists_by_family _ _ _ _

theorem matched_iff : Matched env conf req ↔
    MatchedElsewhere env conf req ∨ NetworkAround env conf req :=
  exists_by_family _ _ _ _

/-- The decision is the one the lists mean exactly if a request without an address
is not allowed and the IPv6 networks do not mislead. -/
theorem law_iff_guarded (hopen : env.initted = true) (hcache : CacheSound env cache)
    {ranges : List (Nat × Nat)} (hread : Iputils.parseCidrs conf.ipv4List = .ok ranges)
    (htype : conf.aclType = .str "deny" ∨ conf.aclType = .str "allow") :
    Law env cache conf req ↔ Guarded env conf req := by
  have haround : (Found env conf req ↔ Matched env conf req) ↔
      (MatchedElsewhere env conf req ∨
        (NetworkWithin env conf req ↔ NetworkAround env conf req)) := by
    rw [found_iff, matched_iff]
    tauto
  by_cases hips : ipList conf req = []
  · have hdecision := decision_unchecked env cache hips
    have hnone : ¬ Matched env conf req := by
      rintro ⟨ip, hip, -⟩
      rw [hips] at hip
      cases hip
    have hsame : Found env conf req ↔ Matched env conf req := by
      simp [Found, Matched, hips]
    constructor
    · intro law
      refine ⟨fun hallow => ?_, haround.mp hsame⟩
      exact absurd ((law.allow hallow).mp hdecision) hnone
    · intro guarded
      refine ⟨fun _ => ?_, fun hallow => absurd hips (guarded.checked hallow)⟩
      rw [hdecision]
      exact ⟨fun h => (by cases h), fun h => absurd h hnone⟩
  · obtain ⟨hyes, hno⟩ := decision_checked hopen hcache hread hips
    have hdeny : conf.aclType = .str "deny" →
        (decision env cache conf req = .ok .deny ↔ Found env conf req) := by
      intro htype
      by_cases hfound : Found env conf req
      · simp [hyes hfound, htype, hfound, Val.isStr]
      · simp [hno hfound, htype, hfound, Val.isStr]
    have hallow : conf.aclType = .str "allow" →
        (decision env cache conf req = .ok .allow ↔ Found env conf req) := by
      intro htype
      by_cases hfound : Found env conf req
      · simp [hyes hfound, htype, hfound, Val.isStr]
      · simp [hno hfound, htype, hfound, Val.isStr]
    constructor
    · intro law
      refine ⟨fun _ => hips, haround.mp ?_⟩
      rcases htype with htype | htype
      · exact (hdeny htype).symm.trans (law.deny htype)
      · exact (hallow htype).symm.trans (law.allow htype)
    · intro guarded
      have hsame := haround.mpr guarded.around
      exact ⟨fun h => (hdeny h).trans hsame, fun h => (hallow h).trans hsame⟩

end Decision

/-- A blocked network and an address in it. -/
theorem law_iff_guarded_blocked :
    Law ⟨fun _ _ => false, true, fun _ => none⟩ (fun _ => none)
      ⟨.str "deny", [.str "remote_addr"], ["10.0.0.0/8"], [], []⟩ ⟨some "10.1.2.3", none, none⟩ ∧
    decision ⟨fun _ _ => false, true, fun _ => none⟩ (fun _ => none)
      ⟨.str "deny", [.str "remote_addr"], ["10.0.0.0/8"], [], []⟩
      ⟨some "10.1.2.3", none, none⟩ = .ok .deny := by
  refine ⟨(law_iff_guarded rfl (fun _ _ h => (by cases h))
    (show Iputils.parseCidrs _ = .ok [(167772160, 184549375)] from by decide +kernel)
    (.inl rfl)).mpr ⟨fun _ => ?_, .inr ?_⟩, by decide +kernel⟩
  · decide +kernel
  · simp [NetworkWithin, NetworkAround]

/-- Only the addresses of one network are to be allowed; the header that is checked
is absent, and the request is allowed. And an address of a blocked IPv6 network is
not denied. -/
theorem unchecked_is_allowed :
    ¬ Law ⟨fun _ _ => false, true, fun _ => none⟩ (fun _ => none)
      ⟨.str "allow", [.str "real_ip"], ["10.0.0.0/8"], [], []⟩
      ⟨some "192.0.2.1", none, none⟩ ∧
    ¬ Law ⟨fun little big => little == "2001:db8::1" && big == "2001:db8::/32", true,
        fun _ => none⟩ (fun _ => none)
      ⟨.str "deny", [.str "remote_addr"], [], ["2001:db8::/32"], []⟩
      ⟨some "2001:db8::1", none, none⟩ := by
  constructor
  · intro law
    obtain ⟨ip, hip, -⟩ := (law.allow rfl).mp (decision_unchecked _ _ rfl)
    cases hip
  · intro law
    have hdeny := (law.deny rfl).mpr ⟨"2001:db8::1", by decide +kernel, .inl ?_⟩
    · exact absurd hdeny (by decide +kernel)
    · exact ⟨"2001:db8::/32", .head _, by decide +kernel⟩

end Acl
end OpenrestyGateway
