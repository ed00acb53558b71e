import OpenrestyGateway.AclLaw
import OpenrestyGateway.LruRefinement

/-!
The locations that access/zone_rule.lua keeps in the cache of init/init_conf.lua.

A location is kept for a day at most. What the rules decide over a whole run does not
depend on the cache.
-/
namespace OpenrestyGateway
namespace ZoneCache
open Acl Acl.ZoneRule LruCache

abbrev Locations := Cache String GeoInfo

def maxLocations : Nat := 1000

def expirationTime : ℚ := 86400

/-- The call Query_ip at a time. Nothing where the cache fails, which it never does. -/
def queryIp (env : Env) (now : ℚ) (lcache : Locations) (ip : String) :
    Option (Except LuaError (Option GeoInfo) × Locations) := do
  let (got, lcache) ← LruCache.get lcache ip now
  match got.value with
  | some cachedInfo => return (.ok (some cachedInfo), lcache)
  | none =>
      if !env.initted then return (.error (.index .nil), lcache)
      else
        match env.lookup ip with
        | none => return (.ok none, lcache)
        | some info => do
            let lcache ← LruCache.set lcache ip (some info) (some expirationTime) none now
            return (.ok (some info), lcache)

def anyZone (env : Env) (now : ℚ) (conf : DenyConf) :
    Locations → List String → Option (Except LuaError Zone × Locations)
  | lcache, [] => some (.ok .miss, lcache)
  | lcache, ip :: ips => do
      let (res, lcache) ← queryIp env now lcache ip
      match res with
      | .error e => return (.error e, lcache)
      | .ok info =>
          if conf.zone.any (isMatchingCondition info) then return (.ok .hit, lcache)
          else anyZone env now conf lcache ips

def isZoneAllowed (env : Env) (now : ℚ) (lcache : Locations) (ips : List String)
    (conf : DenyConf) : Option (Except LuaError Zone × Locations) :=
  if ips.length = 0 then some (.ok .none, lcache) else anyZone env now conf lcache ips

def zoneVerdict (conf : DenyConf) (res : Zone) : Rule :=
  if res = .hit ∧ conf.aclType.isStr "deny" then .deny
  else if res = .miss ∧ conf.aclType.isStr "allow" then .deny
  else .allow

def zoneLogic (env : Env) (now : ℚ) (lcache : Locations) (conf : DenyConf) (req : Acl.Request) :
    Option (Except LuaError Rule × Locations) := do
  let (res, lcache) ← isZoneAllowed env now lcache (ipList conf req) conf
  return (res.map (zoneVerdict conf), lcache)

def decision (env : Env) (now : ℚ) (lcache : Locations) (conf : DenyConf) (req : Acl.Request) :
    Option (Except LuaError Rule × Locations) :=
  match IpRule.ipLogic env conf req with
  | .error e => some (.error e, lcache)
  | .ok (ipres, _) =>
      if ipres = .pending then zoneLogic env now lcache conf req
      else some (.ok ipres, lcache)

/-! ### Runs -/

/-- A look at the location of an address, with the database as it is at that time. -/
structure Query where
  env : Env
  ip : String
  now : ℚ
  since_epoch : 0 ≤ now

def queries (lcache : Locations) :
    List Query → Option (List (Except LuaError (Option GeoInfo)) × Locations)
  | [] => some ([], lcache)
  | q :: qs => do
      let (answer, lcache) ← queryIp q.env q.now lcache q.ip
      let (answers, lcache) ← queries lcache qs
      return (answer :: answers, lcache)

structure Visit where
  conf : DenyConf
  req : Acl.Request
  now : ℚ

def decisions (env : Env) (lcache : Locations) :
    List Visit → Option (List (Except LuaError Rule) × Locations)
  | [] => some ([], lcache)
  | v :: vs => do
      let (answer, lcache) ← decision env v.now lcache v.conf v.req
      let (answers, lcache) ← decisions env lcache vs
      return (answer :: answers, lcache)

/-! ### The cache as a table -/

abbrev Places := Table String GeoInfo

def ask (env : Env) (now : ℚ) (t : Places) (ip : String) :
    Except LuaError (Option GeoInfo) × Places :=
  match (t.get ip now).1.value with
  | some cachedInfo => (.ok (some cachedInfo), (t.get ip now).2)
  | none =>
      if !env.initted then (.error (.index .nil), (t.get ip now).2)
      else
        match env.lookup ip with
        | none => (.ok none, (t.get ip now).2)
        | some info => (.ok (some info),
            (t.get ip now).2.set ip ⟨some info, expiry (some expirationTime) now,
              storedFlags none⟩)

section Refinement
variable {lcache : Locations} {t : Places}

theorem queryIp_refines (h : Refines lcache t) (env : Env) (now : ℚ) (ip : String) :
    ∃ lcache', queryIp env now lcache ip = some ((ask env now t ip).1, lcache') ∧
      Refines lcache' (ask env now t ip).2 := by
  obtain ⟨lcache', hget, h'⟩ := get_refines h ip now
  simp only [queryIp, hget, ask, bind, Option.bind]
  cases (t.get ip now).1.value with
  | some cachedInfo => exact ⟨lcache', rfl, h'⟩
  | none =>
      cases env.initted with
      | false => exact ⟨lcache', rfl, h'⟩
      | true =>
          cases env.lookup ip with
          | none => exact ⟨lcache', rfl, h'⟩
          | some info =>
              obtain ⟨lcache'', hset, h''⟩ :=
                set_refines h' ip (some info) (some expirationTime) none now
              refine ⟨lcache'', ?_, h''⟩
              simp only [hset]
              rfl

theorem mem_get {key : String} {now : ℚ} {e : String × Cell GeoInfo}
    (h : e ∈ (t.get key now).2.entries) : e ∈ t.entries := by
  simp only [Table.get] at h
  split at h
  · exact h
  · rename_i c hlookup
    split at h
    · exact h
    · simp only [Recency.touch, hlookup] at h
      obtain heq | hmem := List.mem_cons.mp h
      · obtain ⟨front, back, hsplit, -⟩ := Recency.exists_split hlookup
        rw [heq, hsplit]
        exact List.mem_append_right front (.head back)
      · exact List.mem_of_mem_filter hmem

theorem mem_set {key : String} {c : Cell GeoInfo} {e : String × Cell GeoInfo}
    (h : e ∈ (t.set key c).entries) : e = (key, c) ∨ e ∈ t.entries := by
  simp only [Table.set, Recency.put] at h
  obtain heq | hmem := List.mem_cons.mp h
  · exact .inl heq
  · right
    split at hmem
    · exact List.mem_of_mem_filter hmem
    · split at hmem
      · exact hmem
      · exact List.mem_of_mem_dropLast hmem

/-- What an entry of the key gives at a time, if it has not expired. -/
theorem get_value {key : String} {now : ℚ} {v : GeoInfo}
    (h : (t.get key now).1.value = some v) : ∃ c, (key, c) ∈ t.entries ∧ c.value = some v ∧
      ¬(0 ≤ c.expire ∧ c.expire < now) := by
  simp only [Table.get] at h
  split at h
  · cases h
  · rename_i c hlookup
    split at h
    · cases h
    · rename_i w hw
      have hmem : (key, c) ∈ t.entries := by
        obtain ⟨front, back, hsplit, -⟩ := Recency.exists_split hlookup
        rw [hsplit]
        exact List.mem_append_right front (.head back)
      simp only [Table.hit] at h
      split at h
      · cases h
      · rename_i halive
        cases h
        exact ⟨c, hmem, hw, halive⟩

end Refinement

/-! ### Where the locations come from -/

/-- The query has read a location from the database. -/
def Query.Reads (q : Query) (ip : String) (info : GeoInfo) : Prop :=
  q.ip = ip ∧ q.env.initted = true ∧ q.env.lookup ip = some info

/-- Every entry was read by one of the queries and expires a day after it. -/
def ReadBy (log : List Query) (t : Places) : Prop :=
  ∀ e ∈ t.entries, ∃ q ∈ log, ∃ info, q.Reads e.1 info ∧
    e.2.value = some info ∧ e.2.expire = q.now + expirationTime

/-- What the answer to a query says, after the queries of `log`. -/
def Fresh (log : List Query) (q : Query) : Except LuaError (Option GeoInfo) → Prop
  | .ok (some info) => ∃ q' ∈ log ++ [q], q'.Reads q.ip info ∧ q.now ≤ q'.now + expirationTime
  | .ok none => q.env.initted = true ∧ q.env.lookup q.ip = none
  | .error _ => q.env.initted = false

section Fresh
variable {log : List Query} {t : Places}

theorem ReadBy.append (h : ReadBy log t) (q : Query) : ReadBy (log ++ [q]) t := by
  intro e he
  obtain ⟨q', hmem, hread⟩ := h e he
  exact ⟨q', List.mem_append_left [q] hmem, hread⟩

theorem ReadBy.get (h : ReadBy log t) (key : String) (now : ℚ) :
    ReadBy log (t.get key now).2 :=
  fun e he => h e (mem_get he)

theorem fresh_cached (h : ReadBy log t) (q : Query) {info : GeoInfo}
    (hvalue : (t.get q.ip q.now).1.value = some info) : Fresh log q (.ok (some info)) := by
  obtain ⟨c, hmem, hc, halive⟩ := get_value hvalue
  obtain ⟨q', hlog, info', hreads, hinfo, hexpire⟩ := h _ hmem
  have heq : info' = info := Option.some.inj (hinfo.symm.trans hc)
  have hpos : 0 ≤ c.expire := by
    rw [hexpire]
    exact add_nonneg q'.since_epoch (by norm_num [expirationTime])
  have hle : q.now ≤ c.expire := not_lt.mp (fun hlt => halive ⟨hpos, hlt⟩)
  exact ⟨q', List.mem_append_left [q] hlog, heq ▸ hreads, hexpire ▸ hle⟩

theorem readBy_set (h : ReadBy log t) (q : Query) {info : GeoInfo}
    (hopen : q.env.initted = true) (hlookup : q.env.lookup q.ip = some info) :
    ReadBy (log ++ [q]) (t.set q.ip
      ⟨some info, expiry (some expirationTime) q.now, storedFlags none⟩) := by
  intro e he
  obtain heq | hmem := mem_set he
  · rw [heq]
    exact ⟨q, List.mem_append_right log (.head _), info, ⟨rfl, hopen, hlookup⟩, rfl, rfl⟩
  · exact h.append q e hmem

theorem ask_fresh (h : ReadBy log t) (q : Query) :
    Fresh log q (ask q.env q.now t q.ip).1 ∧
      ReadBy (log ++ [q]) (ask q.env q.now t q.ip).2 := by
  have hget := h.get q.ip q.now
  simp only [ask]
  cases hvalue : (t.get q.ip q.now).1.value with
  | some info => exact ⟨fresh_cached h q hvalue, hget.append q⟩
  | none =>
      cases hopen : q.env.initted with
      | false => exact ⟨hopen, hget.append q⟩
      | true =>
          cases hlookup : q.env.lookup q.ip with
          | none => exact ⟨⟨hopen, hlookup⟩, hget.append q⟩
          | some info =>
              refine ⟨⟨q, List.mem_append_right log (.head _), ⟨rfl, hopen, hlookup⟩, ?_⟩,
                readBy_set hget q hopen hlookup⟩
              exact le_add_of_nonneg_right (by norm_num [expirationTime])

theorem queries_answers (qs : List Query) {lcache : Locations} (hcache : Refines lcache t)
    (h : ReadBy log t) : ∃ answers lcache', queries lcache qs = some (answers, lcache') ∧
      answers.length = qs.length ∧
      ∀ (i : Nat) q answer, qs[i]? = some q → answers[i]? = some answer →
        Fresh (log ++ qs.take i) q answer := by
  induction qs generalizing log t lcache with
  | nil => exact ⟨[], lcache, rfl, rfl, fun i q answer hq => by cases hq⟩
  | cons q qs ih =>
      obtain ⟨lcache', hquery, hcache'⟩ := queryIp_refines hcache q.env q.now q.ip
      obtain ⟨hfresh, h'⟩ := ask_fresh h q
      obtain ⟨answers, lcache'', hrun, hlength, hrest⟩ := ih hcache' h'
      refine ⟨(ask q.env q.now t q.ip).1 :: answers, lcache'', ?_, congrArg (· + 1) hlength, ?_⟩
      · simp only [queries, hquery, hrun, bind, Option.bind, pure]
      · intro i q' answer hq hanswer
        cases i with
        | zero =>
            cases hq
            cases hanswer
            simpa using hfresh
        | succ i =>
            have hfresh' := hrest i q' answer hq hanswer
            rw [List.append_assoc] at hfresh'
            exact hfresh'

end Fresh

/-- Over any run of queries, whatever becomes of the database: a location that is found was
read for the same address at most a day before, by this query or an earlier one, and none is
missed that the database has. -/
theorem locations_fresh (qs : List Query) :
    ∃ lcache answers lcache', LruCache.new maxLocations = some lcache ∧
      queries lcache qs = some (answers, lcache') ∧ answers.length = qs.length ∧
      ∀ (i : Nat) q answer, qs[i]? = some q → answers[i]? = some answer →
        Fresh (qs.take i) q answer := by
  obtain ⟨lcache, hnew, hcache⟩ := new_refines (κ := String) (α := GeoInfo) 999
  obtain ⟨answers, lcache', hrun, hlength, hfresh⟩ :=
    queries_answers qs hcache (show ReadBy [] _ from fun e he => absurd he List.not_mem_nil)
  exact ⟨lcache, answers, lcache', hnew, hrun, hlength, hfresh⟩

/-! ### The decisions -/

/-- The location of an address without any cache. -/
def locate (env : Env) (ip : String) : Except LuaError (Option GeoInfo) :=
  if env.initted then .ok (env.lookup ip) else .error (.index .nil)

/-- Every entry repeats what the database says. -/
def Agrees (env : Env) (t : Places) : Prop :=
  ∀ e ∈ t.entries, ∃ info, e.2.value = some info ∧ env.initted = true ∧
    env.lookup e.1 = some info

def zoneOf (env : Env) (conf : DenyConf) : List String → Except LuaError Zone
  | [] => .ok .miss
  | ip :: ips =>
      match locate env ip with
      | .error e => .error e
      | .ok info =>
          if conf.zone.any (isMatchingCondition info) then .ok .hit else zoneOf env conf ips

section Decisions
variable {env : Env} {lcache : Locations} {t : Places}

theorem ask_agrees (h : Agrees env t) (now : ℚ) (ip : String) :
    (ask env now t ip).1 = locate env ip ∧ Agrees env (ask env now t ip).2 := by
  have hget : Agrees env (t.get ip now).2 := fun e he => h e (mem_get he)
  simp only [ask, locate]
  cases hvalue : (t.get ip now).1.value with
  | some info =>
      obtain ⟨c, hmem, hc, -⟩ := get_value hvalue
      obtain ⟨info', hinfo, hopen, hlookup⟩ := h _ hmem
      rw [if_pos hopen, hlookup, hinfo.symm.trans hc]
      exact ⟨rfl, hget⟩
  | none =>
      cases hopen : env.initted with
      | false => exact ⟨rfl, hget⟩
      | true =>
          cases hlookup : env.lookup ip with
          | none => exact ⟨rfl, hget⟩
          | some info =>
              refine ⟨rfl, fun e he => ?_⟩
              obtain heq | hmem := mem_set he
              · rw [heq]
                exact ⟨info, rfl, hopen, hlookup⟩
              · exact hget e hmem

theorem anyZone_eq (hcache : Refines lcache t) (h : Agrees env t) (now : ℚ) (conf : DenyConf)
    (ips : List String) : ∃ lcache' t', anyZone env now conf lcache ips =
      some (zoneOf env conf ips, lcache') ∧ Refines lcache' t' ∧ Agrees env t' := by
  induction ips generalizing lcache t with
  | nil => exact ⟨lcache, t, rfl, hcache, h⟩
  | cons ip ips ih =>
      obtain ⟨lcache', hquery, hcache'⟩ := queryIp_refines hcache env now ip
      obtain ⟨hanswer, h'⟩ := ask_agrees h now ip
      simp only [anyZone, hquery, hanswer, bind, Option.bind, zoneOf]
      cases locate env ip with
      | error e => exact ⟨lcache', _, rfl, hcache', h'⟩
      | ok info =>
          by_cases hmatch : conf.zone.any (isMatchingCondition info) = true
          · simp only [if_pos hmatch]
            exact ⟨lcache', _, rfl, hcache', h'⟩
          · simp only [if_neg hmatch]
            exact ih hcache' h'

/-- A cache of the request's own changes nothing either. -/
theorem anyZone_eq_zoneOf {cache : GeoCache} (conf : DenyConf) (ips : List String)
    (h : ∀ ip info, cache ip = some info → env.initted = true ∧ env.lookup ip = some info) :
    (Acl.ZoneRule.anyZone env conf cache ips).map Prod.fst = zoneOf env conf ips := by
  induction ips generalizing cache with
  | nil => rfl
  | cons ip ips ih =>
      have hrest : ∀ info, locate env ip = .ok info → ∀ cache',
          (∀ ip info, cache' ip = some info → env.initted = true ∧ env.lookup ip = some info) →
          Acl.ZoneRule.queryIp env cache ip = .ok (info, cache') →
          (Acl.ZoneRule.anyZone env conf cache (ip :: ips)).map Prod.fst =
            zoneOf env conf (ip :: ips) := by
        intro info hlocate cache' hcache' hquery
        simp only [Acl.ZoneRule.anyZone, hquery, bind, Except.bind, zoneOf, hlocate]
        by_cases hmatch : conf.zone.any (isMatchingCondition info) = true
        · simp only [if_pos hmatch]
          rfl
        · simp only [if_neg hmatch]
          exact ih hcache'
      cases hc : cache ip with
      | some info =>
          obtain ⟨hopen, hlookup⟩ := h ip info hc
          refine hrest (some info) ?_ cache h ?_
          · rw [locate, if_pos hopen, hlookup]
          · simp only [Acl.ZoneRule.queryIp, hc]
      | none =>
          cases hopen : env.initted with
          | false =>
              simp [Acl.ZoneRule.anyZone, Acl.ZoneRule.queryIp, hc, hopen, zoneOf, locate, bind,
                Except.bind, Except.map]
          | true =>
              cases hlookup : env.lookup ip with
              | none =>
                  refine hrest none ?_ cache h ?_
                  · rw [locate, if_pos hopen, hlookup]
                  · simp [Acl.ZoneRule.queryIp, hc, hopen, hlookup]
              | some info =>
                  refine hrest (some info) ?_ (Function.update cache ip (some info)) ?_ ?_
                  · rw [locate, if_pos hopen, hlookup]
                  · intro ip' info' hmem
                    by_cases hip : ip' = ip
                    · subst hip
                      rw [Function.update_self] at hmem
                      exact ⟨hopen, hlookup.trans hmem⟩
                    · rw [Function.update_of_ne hip] at hmem
                      exact h ip' info' hmem
                  · simp [Acl.ZoneRule.queryIp, hc, hopen, hlookup]

theorem zoneLogic_eq (conf : DenyConf) (req : Acl.Request) :
    (Acl.ZoneRule.zoneLogic env (fun _ => none) conf req).map Prod.fst =
      if (ipList conf req).length = 0 then .ok (zoneVerdict conf .none)
      else (zoneOf env conf (ipList conf req)).map (zoneVerdict conf) := by
  have hzone : (Acl.ZoneRule.anyZone env conf (fun _ => none) (ipList conf req)).map Prod.fst =
      zoneOf env conf (ipList conf req) := anyZone_eq_zoneOf conf _ (fun _ _ h => by cases h)
  simp only [Acl.ZoneRule.zoneLogic, Acl.ZoneRule.isZoneAllowed]
  by_cases hempty : (ipList conf req).length = 0
  · simp only [if_pos hempty]
    rfl
  · simp only [if_neg hempty, ← hzone]
    cases Acl.ZoneRule.anyZone env conf (fun _ => none) (ipList conf req) with
    | error e => rfl
    | ok r =>
        simp only [bind, Except.bind, Except.map, zoneVerdict, pure, Except.pure]
        by_cases hhit : r.1 = .hit ∧ conf.aclType.isStr "deny" = true
        · simp only [if_pos hhit]
        · simp only [if_neg hhit]
          by_cases hmiss : r.1 = .miss ∧ conf.aclType.isStr "allow" = true
          · simp only [if_pos hmiss]
          · simp only [if_neg hmiss]

theorem decision_cases (cache : GeoCache) (conf : DenyConf) (req : Acl.Request) :
    Acl.decision env cache conf req =
      match IpRule.ipLogic env conf req with
      | .error e => .error e
      | .ok (ipres, _) =>
          if ipres = .pending then (Acl.ZoneRule.zoneLogic env cache conf req).map Prod.fst
          else .ok ipres := by
  simp only [Acl.decision]
  cases IpRule.ipLogic env conf req with
  | error e => rfl
  | ok r =>
      cases Acl.ZoneRule.zoneLogic env cache conf req with
      | error e => rfl
      | ok z => rfl

theorem decision_eq (hcache : Refines lcache t) (h : Agrees env t) (now : ℚ) (conf : DenyConf)
    (req : Acl.Request) : ∃ lcache' t', decision env now lcache conf req =
      some (Acl.decision env (fun _ => none) conf req, lcache') ∧ Refines lcache' t' ∧
      Agrees env t' := by
  rw [decision_cases, zoneLogic_eq, decision]
  cases IpRule.ipLogic env conf req with
  | error e => exact ⟨lcache, t, rfl, hcache, h⟩
  | ok r =>
      by_cases hpending : r.1 = .pending
      · simp only [if_pos hpending, zoneLogic, isZoneAllowed]
        by_cases hempty : (ipList conf req).length = 0
        · simp only [if_pos hempty]
          exact ⟨lcache, t, rfl, hcache, h⟩
        · obtain ⟨lcache', t', hany, hcache', h'⟩ :=
            anyZone_eq hcache h now conf (ipList conf req)
          simp only [if_neg hempty, hany]
          exact ⟨lcache', t', rfl, hcache', h'⟩
      · simp only [if_neg hpending]
        exact ⟨lcache, t, rfl, hcache, h⟩

theorem decisions_eq (vs : List Visit) (hcache : Refines lcache t) (h : Agrees env t) :
    ∃ lcache', decisions env lcache vs =
      some (vs.map (fun v => Acl.decision env (fun _ => none) v.conf v.req), lcache') := by
  induction vs generalizing lcache t with
  | nil => exact ⟨lcache, rfl⟩
  | cons v vs ih =>
      obtain ⟨lcache', t', hdecision, hcache', h'⟩ := decision_eq hcache h v.now v.conf v.req
      obtain ⟨lcache'', hrest⟩ := ih hcache' h'
      refine ⟨lcache'', ?_⟩
      simp only [decisions, hdecision, hrest, bind, Option.bind, pure, List.map_cons]

end Decisions

/-- Over any run of requests, at any times, the cache of a thousand locations changes no
decision, whatever it has forgotten or kept. -/
theorem decisions_transparent (env : Env) (vs : List Visit) :
    ∃ lcache lcache', LruCache.new maxLocations = some lcache ∧
      decisions env lcache vs =
        some (vs.map (fun v => Acl.decision env (fun _ => none) v.conf v.req), lcache') := by
  obtain ⟨lcache, hnew, hcache⟩ := new_refines (κ := String) (α := GeoInfo) 999
  obtain ⟨lcache', hrun⟩ := decisions_eq vs hcache (fun e he => absurd he List.not_mem_nil)
  exact ⟨lcache, lcache', hnew, hrun⟩

end ZoneCache
end OpenrestyGateway
