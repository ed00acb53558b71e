import OpenrestyGateway.AclLaw
import Mathlib.Data.Finset.Basic
import Mathlib.Data.List.Basic

/-!
Conditions built from the names of a location, access/zone_rule.lua.

The name of a province loses the endings 省 and 市 before it is compared, the name
in the condition keeps them.
-/
namespace OpenrestyGateway
namespace Acl
namespace ZoneRule

inductive Field where
  | country
  | province
  | city
  deriving DecidableEq

/-- The province of a location is its first subdivision. -/
def provinceOf (ipInfo : Option GeoInfo) : Option Place :=
  (ipInfo.bind GeoInfo.subdivisions).bind List.head?

/-- A location with zh-CN names for its country, first subdivision and city. -/
structure NamedInfo where
  info : GeoInfo
  country : String
  province : String
  city : String
  country_eq : zhName info.country = .str country
  province_eq : zhName (provinceOf (some info)) = .str province
  city_eq : zhName info.city = .str city

/-- The condition that names the location's own names of some fields. -/
def NamedInfo.condition (r : NamedInfo) (fields : Finset Field) : ZoneCondition where
  country := if .country ∈ fields then .str r.country else .nil
  province := if .province ∈ fields then .str r.province else .nil
  city := if .city ∈ fields then .str r.city else .nil

def Suffixed (name : String) : Prop :=
  name.toList.getLast? = some '省' ∨ name.toList.getLast? = some '市'

/-- What the two substitutions can take off a name. -/
def endings : List String := ["", "省", "市", "市省"]

def SameStem (name name' : String) : Prop :=
  ∃ stem, ∃ ending ∈ endings, ∃ ending' ∈ endings, name = stem ++ ending ∧ name' = stem ++ ending'

/-! ### The endings of a name -/

theorem dropLastChar_append (c : Char) (name : List Char) :
    dropLastChar c name = name ∨ name = dropLastChar c name ++ [c] := by
  simp only [dropLastChar]
  by_cases h : name.getLast? = some c
  · rw [if_pos h]
    exact .inr (List.dropLast_append_getLast? c h).symm
  · rw [if_neg h]
    exact .inl rfl

theorem dropLastChar_eq_self {c : Char} {name : List Char} :
    dropLastChar c name = name ↔ name.getLast? ≠ some c := by
  constructor
  · intro h hlast
    have happend := List.dropLast_append_getLast? c hlast
    rw [dropLastChar, if_pos hlast] at h
    have hlength := congrArg List.length happend
    rw [h, List.length_append, List.length_singleton] at hlength
    omega
  · intro h
    exact if_neg h

theorem length_dropLastChar_le (c : Char) (name : List Char) :
    (dropLastChar c name).length ≤ name.length := by
  obtain h | h := dropLastChar_append c name
  · rw [h]
  · have hlength := congrArg List.length h
    rw [List.length_append] at hlength
    omega

theorem provinceName_eq_self (name : String) : provinceName name = name ↔ ¬ Suffixed name := by
  have hchars : provinceName name = name ↔
      dropLastChar '市' (dropLastChar '省' name.toList) = name.toList := by
    rw [← String.toList_inj, provinceName, String.toList_ofList]
  rw [hchars, Suffixed, not_or, ← ne_eq, ← ne_eq, ← dropLastChar_eq_self,
    ← dropLastChar_eq_self]
  constructor
  · intro h
    -- the second substitution does not give back what the first has taken
    have hfirst : dropLastChar '省' name.toList = name.toList := by
      obtain hsame | hdropped := dropLastChar_append '省' name.toList
      · exact hsame
      · have hlength := congrArg List.length hdropped
        have hle := length_dropLastChar_le '市' (dropLastChar '省' name.toList)
        rw [List.length_append, List.length_singleton] at hlength
        rw [h] at hle
        omega
    rw [hfirst] at h
    exact ⟨hfirst, h⟩
  · intro h
    rw [h.1, h.2]

/-- A name is what is compared of it and one of the endings. -/
theorem provinceName_append (name : String) :
    ∃ ending ∈ endings, name = provinceName name ++ ending := by
  have happend : ∀ ending : String,
      name.toList = dropLastChar '市' (dropLastChar '省' name.toList) ++ ending.toList →
        name = provinceName name ++ ending := by
    intro ending h
    rw [← String.toList_inj, String.toList_append, provinceName, String.toList_ofList]
    exact h
  obtain hfirst | hfirst := dropLastChar_append '省' name.toList
  · obtain hsecond | hsecond := dropLastChar_append '市' (dropLastChar '省' name.toList)
    · refine ⟨"", by simp [endings], happend "" ?_⟩
      rw [hsecond, hfirst]
      exact (List.append_nil _).symm
    · refine ⟨"市", by simp [endings], happend "市" ?_⟩
      rw [hfirst] at hsecond ⊢
      exact hsecond
  · obtain hsecond | hsecond := dropLastChar_append '市' (dropLastChar '省' name.toList)
    · refine ⟨"省", by simp [endings], happend "省" ?_⟩
      rw [hsecond]
      exact hfirst
    · refine ⟨"市省", by simp [endings], happend "市省" ?_⟩
      rw [hsecond, List.append_assoc] at hfirst
      exact hfirst

theorem sameStem_of_provinceName {name name' : String}
    (h : provinceName name = provinceName name') : SameStem name name' := by
  obtain ⟨ending, hending, hname⟩ := provinceName_append name
  obtain ⟨ending', hending', hname'⟩ := provinceName_append name'
  exact ⟨provinceName name, ending, hending, ending', hending', hname, h ▸ hname'⟩

/-! ### Own names -/

theorem own_field (named : Prop) [Decidable named] (name : String) (P : Val → Prop) :
    ((if named then Val.str name else .nil).truthy = true →
      P (if named then .str name else .nil)) ↔ (named → P (.str name)) := by
  by_cases h : named
  · simp [h, Val.truthy]
  · simp [h, Val.truthy]

theorem own_province (r : NamedInfo) :
    (∃ name, zhName (provinceOf (some r.info)) = .str name ∧
      Val.str (provinceName name) = .str r.province) ↔ ¬ Suffixed r.province := by
  rw [r.province_eq, ← provinceName_eq_self]
  constructor
  · intro h
    obtain ⟨name, hname, hprovince⟩ := h
    cases hname
    exact Val.str.inj hprovince
  · intro h
    exact ⟨r.province, rfl, congrArg Val.str h⟩

theorem satisfies_own (r : NamedInfo) (fields : Finset Field) :
    Satisfies (some r.info) (r.condition fields) ↔
      (.province ∈ fields → ¬ Suffixed r.province) := by
  have hprovince := own_field (.province ∈ fields) r.province (fun v =>
    ∃ name, zhName (provinceOf (some r.info)) = .str name ∧ Val.str (provinceName name) = v)
  rw [own_province] at hprovince
  constructor
  · intro h
    exact hprovince.mp h.province
  · intro h
    refine ⟨?_, hprovince.mpr h, ?_⟩
    · exact (own_field _ r.country (fun v => zhName r.info.country = v)).mpr
        (fun _ => r.country_eq)
    · exact (own_field _ r.city (fun v => zhName r.info.city = v)).mpr (fun _ => r.city_eq)

/-- A location matches the condition of its own names unless that names a province whose
name has an ending. Provinces that match one condition differ in their endings only. -/
theorem own_names_match_iff (r : NamedInfo) (fields : Finset Field) :
    (isMatchingCondition (some r.info) (r.condition fields) = true ↔
      (.province ∈ fields → ¬ Suffixed r.province)) ∧
    ∀ (a b : Option GeoInfo) (condition : ZoneCondition), condition.province.truthy = true →
      isMatchingCondition a condition = true → isMatchingCondition b condition = true →
      ∃ name name', zhName (provinceOf a) = .str name ∧ zhName (provinceOf b) = .str name' ∧
        SameStem name name' := by
  constructor
  · rw [isMatchingCondition_iff]
    exact satisfies_own r fields
  · intro a b condition hnamed ha hb
    obtain ⟨name, hname, hprovince⟩ := ((isMatchingCondition_iff a condition).mp ha).province hnamed
    obtain ⟨name', hname', hprovince'⟩ :=
      ((isMatchingCondition_iff b condition).mp hb).province hnamed
    exact ⟨name, name', hname, hname',
      sameStem_of_provinceName (Val.str.inj (hprovince.trans hprovince'.symm))⟩

/-- The condition names the province as the location has it, 广东省. -/
theorem own_province_unmatched : ¬ ∀ (r : NamedInfo) (fields : Finset Field), fields.Nonempty →
    isMatchingCondition (some r.info) (r.condition fields) = true := by
  intro h
  have hmatch := h
    ⟨⟨some ⟨some [("zh-CN", "中国")]⟩, some [⟨some [("zh-CN", "广东省")]⟩],
      some ⟨some [("zh-CN", "深圳市")]⟩⟩, "中国", "广东省", "深圳市", rfl, rfl, rfl⟩
    {.province} ⟨.province, Finset.mem_singleton_self _⟩
  exact absurd hmatch (by decide +kernel)

end ZoneRule
end Acl
end OpenrestyGateway
