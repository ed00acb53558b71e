import OpenrestyGateway.AclLaw
import OpenrestyGateway.GetConf
import OpenrestyGateway.TimestampRule

/-!
get_deny of util/get_conf.lua: the table that the three access rules are given, from
the configuration of the requested host.
-/
namespace OpenrestyGateway
namespace GetDeny
open Acl

structure DenyTable where
  domain : Val
  aclType : Val
  startDate : Val
  stopDate : Val
  effectiveTime : Val
  checkIp : Val
  ipv4List : Val
  ipv6List : Val
  zone : Val

def getDeny (conf : Dict) (host : String) : Except LuaError (Option DenyTable) := do
  let domainTable ← GetConf.getDomainconfLocal conf host
  if !domainTable.truthy then return none
  else
    let domain ← domainTable.index "domain"
    let aclType ← domainTable.index "acl_type"
    let startDate ← domainTable.index "start_date"
    let stopDate ← domainTable.index "stop_date"
    let effectiveTime ← domainTable.index "effective_time"
    let checkIp ← domainTable.index "check_ip"
    let ipv4List ← domainTable.index "ipv4_list"
    let ipv6List ← domainTable.index "ipv6_list"
    let zone ← domainTable.index "zone"
    return some {
      domain := domain
      aclType := aclType.or (.str "deny")
      startDate := startDate.or (.str "1970-01-01")
      stopDate := stopDate.or (.str "1970-01-01")
      effectiveTime := effectiveTime.or (.arr [])
      checkIp := checkIp.or (.arr [])
      ipv4List := ipv4List.or (.arr [])
      ipv6List := ipv6List.or (.arr [])
      zone := zone.or (.arr []) }

/-! ### The rules on the table -/

def cidrText : Val → Except LuaError String
  | .str s => .ok s
  | v => .error (.badArgument "find" v.type)

def zoneCondition (v : Val) : Except LuaError ZoneCondition := do
  let country ← v.index "country"
  let province ← v.index "province"
  let city ← v.index "city"
  return ⟨country, province, city⟩

namespace DenyTable
variable (t : DenyTable)

/-- What ip_logic and zone_logic read of the table. They go through a list where they
need it, here all are gone through at once. -/
def lists : Except LuaError DenyConf := do
  let checkIp ← t.checkIp.ipairs
  let ipv4List ← (← t.ipv4List.ipairs).mapM cidrText
  let ipv6List ← (← t.ipv6List.ipairs).mapM cidrText
  let zone ← (← t.zone.ipairs).mapM zoneCondition
  return ⟨t.aclType, checkIp, ipv4List, ipv6List, zone⟩

def timestampLogic (offset now : Int) : Except LuaError Bool :=
  TimestampRule.timestampLogic offset now ⟨t.startDate, t.stopDate, t.effectiveTime⟩

def ipLogic (env : Env) (req : Request) : Except LuaError (Rule × List String) := do
  IpRule.ipLogic env (← t.lists) req

def zoneLogic (env : Env) (cache : GeoCache) (req : Request) :
    Except LuaError (Rule × List String) := do
  ZoneRule.zoneLogic env cache (← t.lists) req

end DenyTable

/-! ### When the rules raise -/

/-- Some address has to be looked up before one of the cached locations is hit. -/
def LookupNeeded (conf : DenyConf) (cache : GeoCache) : List String → Prop
  | [] => False
  | ip :: ips =>
      match cache ip with
      | none => True
      | some info => conf.zone.any (ZoneRule.isMatchingCondition (some info)) = false ∧
          LookupNeeded conf cache ips

section Rules
variable {env : Env} {conf : DenyConf} {req : Request}

theorem anyZone_open (hopen : env.initted = true) (cache : GeoCache) (ips : List String) :
    ∃ r, ZoneRule.anyZone env conf cache ips = .ok r := by
  induction ips generalizing cache with
  | nil => exact ⟨_, rfl⟩
  | cons ip ips ih =>
      have hquery : ∃ r, ZoneRule.queryIp env cache ip = .ok r := by
        simp only [ZoneRule.queryIp, hopen]
        cases cache ip with
        | some info => exact ⟨_, rfl⟩
        | none =>
            cases env.lookup ip with
            | none => exact ⟨_, rfl⟩
            | some info => exact ⟨_, rfl⟩
      obtain ⟨⟨res, cache'⟩, hquery⟩ := hquery
      simp only [ZoneRule.anyZone, hquery, bind, Except.bind]
      cases conf.zone.any (ZoneRule.isMatchingCondition res) with
      | true => exact ⟨_, rfl⟩
      | false => exact ih cache'

theorem anyZone_closed (hclosed : env.initted = false) (cache : GeoCache) (ips : List String) :
    (∃ r, ZoneRule.anyZone env conf cache ips = .ok r) ↔ ¬ LookupNeeded conf cache ips := by
  induction ips with
  | nil => exact iff_of_true ⟨_, rfl⟩ (fun h => h)
  | cons ip ips ih =>
      simp only [LookupNeeded, ZoneRule.anyZone, ZoneRule.queryIp]
      cases hcache : cache ip with
      | none =>
          simp only [hclosed]
          exact iff_of_false (LuaError.error_ne_ok _) (fun h => h trivial)
      | some info =>
          simp only [bind, Except.bind]
          cases conf.zone.any (ZoneRule.isMatchingCondition (some info)) with
          | true => exact iff_of_true ⟨_, rfl⟩ (fun h => Bool.noConfusion h.1)
          | false => simpa using ih

theorem zoneLogic_ok (cache : GeoCache) :
    (∃ r, ZoneRule.zoneLogic env cache conf req = .ok r) ↔
      env.initted = true ∨ ¬ LookupNeeded conf cache (ipList conf req) := by
  have hany : (∃ r, ZoneRule.zoneLogic env cache conf req = .ok r) ↔
      ∃ r, ZoneRule.isZoneAllowed env cache (ipList conf req) conf = .ok r := by
    rw [ZoneRule.zoneLogic, LuaError.bind_ok_iff]
    refine exists_congr (fun r => and_iff_left ?_)
    obtain ⟨res, cache'⟩ := r
    by_cases hdeny : res = .hit ∧ conf.aclType.isStr "deny"
    · exact ⟨_, if_pos hdeny⟩
    · simp only [if_neg hdeny]
      by_cases hallow : res = .miss ∧ conf.aclType.isStr "allow"
      · exact ⟨_, if_pos hallow⟩
      · exact ⟨_, if_neg hallow⟩
  rw [hany, ZoneRule.isZoneAllowed]
  by_cases hips : (ipList conf req).length = 0
  · rw [if_pos hips, List.length_eq_zero_iff.mp hips]
    exact iff_of_true ⟨_, rfl⟩ (.inr (fun h => h))
  · rw [if_neg hips]
    cases hinit : env.initted with
    | true => exact iff_of_true (anyZone_open hinit cache _) (.inl rfl)
    | false => simpa using anyZone_closed hinit cache (ipList conf req)

theorem ipLogic_ok :
    (∃ r, IpRule.ipLogic env conf req = .ok r) ↔
      (ipList conf req ≠ [] → ∀ cidr ∈ conf.ipv4List, ¬ Iputils.OddMask cidr) := by
  rw [← Iputils.parseCidrs_ok]
  simp only [IpRule.ipLogic, IpRule.isIpAllowed]
  cases hips : ipList conf req with
  | nil => exact iff_of_true ⟨_, rfl⟩ (fun h => absurd rfl h)
  | cons ip ips =>
      rw [List.length_cons, if_neg (Nat.succ_ne_zero _)]
      constructor
      · intro h _
        obtain ⟨r, h⟩ := h
        obtain ⟨b, hb, -⟩ := LuaError.bind_eq_ok h
        obtain ⟨ranges, hranges, -⟩ := LuaError.bind_eq_ok hb
        exact ⟨ranges, hranges⟩
      · intro h
        obtain ⟨ranges, hread⟩ := h (List.cons_ne_nil _ _)
        obtain ⟨b, hb, -⟩ := IpRule.anyAllowed_eq env hread (ip :: ips)
        rw [hb]
        cases b with
        | true => exact ⟨_, rfl⟩
        | false => exact ⟨_, rfl⟩

end Rules

/-! ### Stored configurations -/

/-- A text in which the pattern of a date or of a time is found. -/
structure PatternText (sep : Char) where
  text : String
  found : (TimestampRule.matchFields sep text.toList).isSome = true

structure Hours where
  start : PatternText ':'
  stop : PatternText ':'
  rest : List Val

def Hours.json (h : Hours) : Val := .arr (.str h.start.text :: .str h.stop.text :: h.rest)

def textList (texts : List String) : Val := .arr (texts.map .str)

/-- The object stored for a domain. Each field of the access rules may be absent, and one
that is present holds what the rules expect of it; other fields hold anything. -/
structure StoredConf where
  fields : List (String × Val)
  startDate : Option (PatternText '-')
  stopDate : Option (PatternText '-')
  effectiveTime : Option Hours
  checkIp : Option (List Val)
  ipv4List : Option (List String)
  ipv6List : Option (List String)
  zone : Option (List (List (String × Val)))
  startDate_eq : fields.lookup "start_date" = startDate.map (fun d => .str d.text)
  stopDate_eq : fields.lookup "stop_date" = stopDate.map (fun d => .str d.text)
  effectiveTime_eq : fields.lookup "effective_time" = effectiveTime.map Hours.json
  checkIp_eq : fields.lookup "check_ip" = checkIp.map .arr
  ipv4List_eq : fields.lookup "ipv4_list" = ipv4List.map textList
  ipv6List_eq : fields.lookup "ipv6_list" = ipv6List.map textList
  zone_eq : fields.lookup "zone" = zone.map (fun conditions => .arr (conditions.map .obj))

def zoneOf (fields : List (String × Val)) : ZoneCondition where
  country := (fields.lookup "country").getD .nil
  province := (fields.lookup "province").getD .nil
  city := (fields.lookup "city").getD .nil

namespace StoredConf
variable (c : StoredConf)

def aclType : Val := ((c.fields.lookup "acl_type").getD .nil).or (.str "deny")

/-- What get_deny returns for a stored configuration. -/
def table : DenyTable where
  domain := (c.fields.lookup "domain").getD .nil
  aclType := c.aclType
  startDate := c.startDate.elim (.str "1970-01-01") (fun d => .str d.text)
  stopDate := c.stopDate.elim (.str "1970-01-01") (fun d => .str d.text)
  effectiveTime := c.effectiveTime.elim (.arr []) Hours.json
  checkIp := c.checkIp.elim (.arr []) .arr
  ipv4List := c.ipv4List.elim (.arr []) textList
  ipv6List := c.ipv6List.elim (.arr []) textList
  zone := c.zone.elim (.arr []) (fun conditions => .arr (conditions.map .obj))

/-- What ip_logic and zone_logic read of it. -/
def acl : DenyConf where
  aclType := c.aclType
  checkIp := c.checkIp.getD []
  ipv4List := c.ipv4List.getD []
  ipv6List := c.ipv6List.getD []
  zone := (c.zone.getD []).map zoneOf

end StoredConf

theorem or_default {α : Type} (o : Option α) (f : α → Val) (d : Val)
    (hf : ∀ a, (f a).truthy = true) : ((o.map f).getD .nil).or d = o.elim d f := by
  cases o with
  | none => rfl
  | some a => exact if_pos (hf a)

theorem getDeny_stored (c : StoredConf) {conf : Dict} {host : String}
    (h : conf host = some (.json (.obj c.fields))) : getDeny conf host = .ok (some c.table) := by
  have hstart := or_default c.startDate (fun d => .str d.text) (.str "1970-01-01") (fun _ => rfl)
  have hstop := or_default c.stopDate (fun d => .str d.text) (.str "1970-01-01") (fun _ => rfl)
  have htime := or_default c.effectiveTime Hours.json (.arr []) (fun _ => rfl)
  have hcheck := or_default c.checkIp .arr (.arr []) (fun _ => rfl)
  have hipv4 := or_default c.ipv4List textList (.arr []) (fun _ => rfl)
  have hipv6 := or_default c.ipv6List textList (.arr []) (fun _ => rfl)
  have hzone := or_default c.zone (fun conditions => .arr (conditions.map .obj)) (.arr [])
    (fun _ => rfl)
  rw [← c.startDate_eq] at hstart
  rw [← c.stopDate_eq] at hstop
  rw [← c.effectiveTime_eq] at htime
  rw [← c.checkIp_eq] at hcheck
  rw [← c.ipv4List_eq] at hipv4
  rw [← c.ipv6List_eq] at hipv6
  rw [← c.zone_eq] at hzone
  simp only [getDeny, GetConf.getDomainconfLocal, h, GetConf.decode, bind, Except.bind, Val.index,
    Val.truthy, hstart, hstop, htime, hcheck, hipv4, hipv6, hzone]
  rfl

theorem mapM_textList (texts : List String) :
    (texts.map Val.str).mapM cidrText = .ok texts := by
  induction texts with
  | nil => rfl
  | cons text texts ih =>
      rw [List.map_cons, List.mapM_cons, ih]
      rfl

theorem mapM_conditions (conditions : List (List (String × Val))) :
    (conditions.map Val.obj).mapM zoneCondition = .ok (conditions.map zoneOf) := by
  induction conditions with
  | nil => rfl
  | cons fields conditions ih =>
      rw [List.map_cons, List.mapM_cons, ih]
      rfl

theorem lists_table (c : StoredConf) : c.table.lists = .ok c.acl := by
  have hcheck : c.table.checkIp = .arr c.acl.checkIp := by
    simp only [StoredConf.table, StoredConf.acl]
    cases c.checkIp <;> rfl
  have hipv4 : c.table.ipv4List = textList c.acl.ipv4List := by
    simp only [StoredConf.table, StoredConf.acl]
    cases c.ipv4List <;> rfl
  have hipv6 : c.table.ipv6List = textList c.acl.ipv6List := by
    simp only [StoredConf.table, StoredConf.acl]
    cases c.ipv6List <;> rfl
  have hzone : c.table.zone = .arr ((c.zone.getD []).map .obj) := by
    simp only [StoredConf.table]
    cases c.zone <;> rfl
  simp only [DenyTable.lists, hcheck, hipv4, hipv6, hzone, textList, Val.ipairs, bind,
    Except.bind, mapM_textList, mapM_conditions]
  rfl

/-! ### The period of a stored configuration -/

theorem parseDate_found (offset : Int) (d : PatternText '-') :
    ∃ n, TimestampRule.parseDate offset (.str d.text) = .ok n := by
  obtain ⟨⟨year, month, day⟩, hfields⟩ := Option.isSome_iff_exists.mp d.found
  simp only [TimestampRule.parseDate, TimestampRule.callMatch, hfields]
  exact ⟨_, rfl⟩

theorem parseTime_found (t : PatternText ':') :
    ∃ n, TimestampRule.parseTime (.str t.text) = .ok n := by
  obtain ⟨⟨hour, min, sec⟩, hfields⟩ := Option.isSome_iff_exists.mp t.found
  simp only [TimestampRule.parseTime, TimestampRule.callMatch, hfields]
  exact ⟨_, rfl⟩

theorem parseDate_default (offset : Int) (date : Option (PatternText '-')) :
    ∃ n, TimestampRule.parseDate offset
      (date.elim (.str "1970-01-01") (fun d => .str d.text)) = .ok n := by
  cases date with
  | none => exact parseDate_found offset ⟨"1970-01-01", by decide +kernel⟩
  | some d => exact parseDate_found offset d

theorem timestampLogic_ok (offset now : Int) {t : DenyTable} {start stop a b : Int} {v w : Val}
    (hstart : TimestampRule.parseDate offset t.startDate = .ok start)
    (hstop : TimestampRule.parseDate offset t.stopDate = .ok stop)
    (hv : t.effectiveTime.at' 1 = .ok v) (hw : t.effectiveTime.at' 2 = .ok w)
    (ha : TimestampRule.parseTime v = .ok a) (hb : TimestampRule.parseTime w = .ok b) :
    ∃ r, t.timestampLogic offset now = .ok r := by
  simp only [DenyTable.timestampLogic, TimestampRule.timestampLogic, hstart, hstop, hv, hw, ha, hb,
    bind, Except.bind]
  generalize TimestampRule.osTime offset _ _ _ 0 0 0 = todayZero
  by_cases hdate : start ≤ now ∧ now ≤ stop + 86400
  · rw [if_pos hdate]
    by_cases hhours : a ≤ now - todayZero ∧ now - todayZero ≤ b
    · exact ⟨_, if_pos hhours⟩
    · exact ⟨_, if_neg hhours⟩
  · exact ⟨_, if_neg hdate⟩

theorem timestampLogic_hours (offset now : Int) {c : StoredConf} {hours : Hours}
    (h : c.effectiveTime = some hours) : ∃ b, c.table.timestampLogic offset now = .ok b := by
  obtain ⟨start, hstart⟩ := parseDate_default offset c.startDate
  obtain ⟨stop, hstop⟩ := parseDate_default offset c.stopDate
  obtain ⟨a, ha⟩ := parseTime_found hours.start
  obtain ⟨b, hb⟩ := parseTime_found hours.stop
  have htime : c.table.effectiveTime = hours.json := by
    simp only [StoredConf.table, h, Option.elim_some]
  exact timestampLogic_ok offset now hstart hstop (htime ▸ rfl) (htime ▸ rfl) ha hb

/-- The default of the hours is an empty list, whose first entry is nil. -/
theorem timestampLogic_empty (offset now : Int) {t : DenyTable} {start stop : Int}
    (hstart : TimestampRule.parseDate offset t.startDate = .ok start)
    (hstop : TimestampRule.parseDate offset t.stopDate = .ok stop)
    (htime : t.effectiveTime = .arr []) :
    t.timestampLogic offset now = .error (.index .nil) := by
  simp only [DenyTable.timestampLogic, TimestampRule.timestampLogic, hstart, hstop, htime]
  rfl

theorem timestampLogic_noHours (offset now : Int) {c : StoredConf} (h : c.effectiveTime = none) :
    c.table.timestampLogic offset now = .error (.index .nil) := by
  obtain ⟨start, hstart⟩ := parseDate_default offset c.startDate
  obtain ⟨stop, hstop⟩ := parseDate_default offset c.stopDate
  refine timestampLogic_empty offset now hstart hstop ?_
  simp only [StoredConf.table, h, Option.elim_none]

/-! ### What get_deny promises -/

section Promise
variable (offset now : Int) (env : Env) (cache : GeoCache) (req : Request)

/-- The three rules run on the table without an error. -/
structure Runs (t : DenyTable) : Prop where
  timestamp : ∃ b, t.timestampLogic offset now = .ok b
  ip : ∃ r, t.ipLogic env req = .ok r
  zone : ∃ r, t.zoneLogic env cache req = .ok r

/-- nil for a host without a configuration, else a table that the rules run on. -/
structure Feeds (conf : Dict) (host : String) : Prop where
  absent : conf host = none → getDeny conf host = .ok none
  stored : conf host ≠ none →
    ∃ t, getDeny conf host = .ok (some t) ∧ Runs offset now env cache req t

/-- There are hours; where there is an address to check, the networks have lengths
that the library reads; and the geo database is open if it is needed. -/
structure Runnable (c : StoredConf) : Prop where
  hours : c.effectiveTime.isSome = true
  lengths : ipList c.acl req ≠ [] → ∀ cidr ∈ c.acl.ipv4List, ¬ Iputils.OddMask cidr
  database : env.initted = true ∨ ¬ LookupNeeded c.acl cache (ipList c.acl req)

end Promise

section Promise
variable {offset now : Int} {env : Env} {cache : GeoCache} {req : Request}

theorem runs_iff (c : StoredConf) :
    Runs offset now env cache req c.table ↔ Runnable env cache req c := by
  have hip : (∃ r, c.table.ipLogic env req = .ok r) ↔
      (ipList c.acl req ≠ [] → ∀ cidr ∈ c.acl.ipv4List, ¬ Iputils.OddMask cidr) := by
    rw [← @ipLogic_ok env, DenyTable.ipLogic, lists_table]
    rfl
  have hzone : (∃ r, c.table.zoneLogic env cache req = .ok r) ↔
      env.initted = true ∨ ¬ LookupNeeded c.acl cache (ipList c.acl req) := by
    rw [← zoneLogic_ok, DenyTable.zoneLogic, lists_table]
    rfl
  constructor
  · intro h
    refine ⟨?_, hip.mp h.ip, hzone.mp h.zone⟩
    cases htime : c.effectiveTime with
    | some hours => rfl
    | none =>
        obtain ⟨b, hb⟩ := h.timestamp
        rw [timestampLogic_noHours offset now htime] at hb
        cases hb
  · intro h
    obtain ⟨hours, htime⟩ := Option.isSome_iff_exists.mp h.hours
    exact ⟨timestampLogic_hours offset now htime, hip.mpr h.lengths, hzone.mpr h.database⟩

/-- A host without a configuration gets the table of the defaults. -/
theorem getDeny_absent {conf : Dict} {host : String} (h : conf host = none) :
    ∃ t, getDeny conf host = .ok (some t) := by
  simp only [getDeny, GetConf.getDomainconfLocal, h]
  exact ⟨_, rfl⟩

/-- get_deny feeds the rules safely exactly if the host has a configuration on which
they can run. -/
theorem feeds_iff_runnable {conf : Dict} {host : String} {stored : Option StoredConf}
    (h : conf host = stored.map (fun c => .json (.obj c.fields))) :
    Feeds offset now env cache req conf host ↔
      ∃ c, stored = some c ∧ Runnable env cache req c := by
  cases stored with
  | none =>
      refine iff_of_false (fun feeds => ?_) (fun hc => ?_)
      · obtain ⟨t, ht⟩ := getDeny_absent h
        cases ht.symm.trans (feeds.absent h)
      · obtain ⟨c, hc, -⟩ := hc
        cases hc
  | some c =>
      have htable := getDeny_stored c h
      have hne : conf host ≠ none := fun hnone => by cases h.symm.trans hnone
      constructor
      · intro feeds
        obtain ⟨t, ht, hruns⟩ := feeds.stored hne
        cases htable.symm.trans ht
        exact ⟨c, rfl, (runs_iff c).mp hruns⟩
      · intro hc
        obtain ⟨c', hc', hrunnable⟩ := hc
        cases hc'
        exact ⟨fun hnone => absurd hnone hne,
          fun _ => ⟨c.table, htable, (runs_iff c).mpr hrunnable⟩⟩

/-- Hours and a blocked network, everything else absent. -/
theorem feeds_iff_runnable_hours : ∃ c : StoredConf,
    c.fields = [("effective_time", .arr [.str "08:00:00", .str "18:00:00"]),
      ("check_ip", .arr [.str "remote_addr"]), ("ipv4_list", .arr [.str "10.0.0.0/8"])] ∧
    Feeds 28800 1709222399 ⟨fun _ _ => false, true, fun _ => none⟩ (fun _ => none)
      ⟨some "10.1.2.3", none, none⟩ (fun _ => some (.json (.obj c.fields))) "a.example.com" := by
  have hstart : (TimestampRule.matchFields ':' "08:00:00".toList).isSome = true := by
    decide +kernel
  have hstop : (TimestampRule.matchFields ':' "18:00:00".toList).isSome = true := by
    decide +kernel
  have hranges : ∃ ranges, Iputils.parseCidrs ["10.0.0.0/8"] = .ok ranges :=
    ⟨[(167772160, 184549375)], by decide +kernel⟩
  refine ⟨⟨_, none, none, some ⟨⟨"08:00:00", hstart⟩, ⟨"18:00:00", hstop⟩, []⟩,
    some [.str "remote_addr"], some ["10.0.0.0/8"], none, none, rfl, rfl, rfl, rfl, rfl, rfl, rfl⟩,
    rfl, (feeds_iff_runnable rfl).mpr ⟨_, rfl, rfl, fun _ => ?_, .inl rfl⟩⟩
  exact (Iputils.parseCidrs_ok _).mp hranges

/-- A host without a configuration is given a table. And a configuration without hours is
given an empty list of hours, on which the first rule raises. -/
theorem defaults_are_unsafe :
    ¬ Feeds 28800 1709222399 ⟨fun _ _ => false, true, fun _ => none⟩ (fun _ => none)
      ⟨some "10.1.2.3", none, none⟩ (fun _ => none) "a.example.com" ∧
    ∃ c : StoredConf, c.fields = [("acl_type", .str "deny")] ∧
      ¬ Feeds 28800 1709222399 ⟨fun _ _ => false, true, fun _ => none⟩ (fun _ => none)
        ⟨some "10.1.2.3", none, none⟩ (fun _ => some (.json (.obj c.fields))) "a.example.com" := by
  constructor
  · intro feeds
    obtain ⟨t, ht⟩ := @getDeny_absent (fun _ => none) "a.example.com" rfl
    cases ht.symm.trans (feeds.absent rfl)
  · refine ⟨⟨_, none, none, none, none, none, none, none, rfl, rfl, rfl, rfl, rfl, rfl, rfl⟩,
      rfl, fun feeds => ?_⟩
    obtain ⟨t, ht, hruns⟩ := feeds.stored (Option.some_ne_none _)
    obtain ⟨b, hb⟩ := hruns.timestamp
    cases ht
    cases hb

end Promise

end GetDeny
end OpenrestyGateway
