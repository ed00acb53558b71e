import OpenrestyGateway.AccessKeys
import OpenrestyGateway.KeySteps

/-!
What a user's requests get from a limiter does not depend on the other users.

The requests a limiter governs by one rule key and one location share one Redis key, and
no other request of the domain issues a command on it, nor does the other limiter. So
the limiter's steps for these requests are a run of their own on this key.
-/
namespace OpenrestyGateway
open Interleaving

/-- A rule's key and its location, as the Redis keys have them. -/
structure Pair where
  key : String
  location : String
  colonFree : ':' ∉ key.toList

def ColonFree (v : Val) : Prop := ∀ s, v.text = .ok s → ':' ∉ s.toList

/-- A domain with both limiters in user mode. The service name is any text where the
domain has none. -/
structure UserDomain where
  conf : Dict
  host : String
  service : String
  connlimit : ConnlimitConf
  reqlimit : ReqlimitConf
  service_eq : ∀ basic s, GetConf.app GetConf.appCheckBasic conf host "basic" =
    .ok (some basic) → basic.service.text = .ok s → s = service
  connlimit_eq : GetConf.app GetConf.appCheckConnlimit conf host "connlimit" =
    .ok (some connlimit)
  reqlimit_eq : GetConf.app GetConf.appCheckReqlimit conf host "reqlimit" = .ok (some reqlimit)
  connlimit_user : connlimit.limitType.isStr "user" = true
  reqlimit_user : reqlimit.limitType.isStr "user" = true
  connlimit_keys : ∀ v ∈ connlimit.limitArgs, ColonFree v.key
  reqlimit_keys : ∀ v ∈ reqlimit.limitArgs, ColonFree v.key

inductive Limiter where
  | connlimit
  | reqlimit

def Limiter.Answer : Limiter → Type
  | .connlimit => ConnLim.Incoming
  | .reqlimit => RateLim.Incoming

namespace UserDomain

/-- A request for the domain: nginx cuts remote_user at the first colon. -/
def Visitor (d : UserDomain) : Type :=
  { rq : RequestVars // rq.host = d.host ∧ ':' ∉ (rq.remoteUser.getD "none").toList }

variable (d : UserDomain)

/-- The limiter governs the request by the pair. -/
def Governs (pair : Pair) : Limiter → d.Visitor → Prop
  | .connlimit, rq => ∃ args, ConnlimitLogic.getConfig d.connlimit rq.1 = .ok (some args) ∧
      args.key.text = .ok pair.key ∧ args.limitLocation.text = .ok pair.location
  | .reqlimit, rq => ∃ args, ReqlimitLogic.getConfig d.reqlimit rq.1 = .ok (some args) ∧
      args.key.text = .ok pair.key ∧ args.limitLocation.text = .ok pair.location

/-- The name of the pair's record, without the zone of the request limiter. -/
def recordName (pair : Pair) : String :=
  d.service ++ (":reqlimit:" ++ (pair.key ++ (":" ++ pair.location)))

def redisKey (pair : Pair) : Limiter → String
  | .connlimit =>
      "openresty:" ++ (d.service ++ (":connlimit:" ++ (pair.key ++ (":" ++ pair.location))))
  | .reqlimit => "openresty" ++ ":" ++ d.recordName pair

def handlers (rqs : List d.Visitor) : List (Lua Unit) :=
  rqs.map (fun rq => AccessMain.main d.conf rq.1)

end UserDomain

/-! ### The keys of a domain -/

theorem pair_eq_of_text {k k' l l' : String} (h : ':' ∉ k.toList) (h' : ':' ∉ k'.toList)
    (heq : k ++ (":" ++ l) = k' ++ (":" ++ l')) : k = k' ∧ l = l' := by
  have hchars : k.toList ++ ':' :: l.toList = k'.toList ++ ':' :: l'.toList := by
    simpa using congrArg String.toList heq
  have hl : l = l' := String.toList_inj.mp (AccessMain.tail_eq_of_notMem h h' hchars)
  subst hl
  exact ⟨String.toList_inj.mp (List.append_cancel_right hchars), rfl⟩

theorem list_ne_counter (s rest : String) :
    IpDeny.blackList s ≠ "openresty:" ++ (s ++ (":connlimit:" ++ rest)) ∧
      IpDeny.whiteList s ≠ "openresty:" ++ (s ++ (":connlimit:" ++ rest)) := by
  constructor
  · intro h
    have hchars := congrArg String.toList h
    simp [IpDeny.blackList] at hchars
  · intro h
    have hchars := congrArg String.toList h
    simp [IpDeny.whiteList] at hchars

theorem list_ne_record (s rest : String) :
    IpDeny.blackList s ≠ "openresty" ++ ":" ++ (s ++ (":reqlimit:" ++ rest)) ∧
      IpDeny.whiteList s ≠ "openresty" ++ ":" ++ (s ++ (":reqlimit:" ++ rest)) := by
  constructor
  · intro h
    have hchars := congrArg String.toList h
    simp [IpDeny.blackList] at hchars
  · intro h
    have hchars := congrArg String.toList h
    simp [IpDeny.whiteList] at hchars

namespace UserDomain
variable (d : UserDomain) (pair : Pair)

theorem connKey_colonFree {rq : d.Visitor} {args : ConnRule}
    (h : ConnlimitLogic.getConfig d.connlimit rq.1 = .ok (some args)) : ColonFree args.key := by
  rw [ConnlimitLogic.getConfig, if_pos d.connlimit_user] at h
  simp only [ConnlimitLogic.getUserConfig] at h
  split at h
  · rename_i hv
    cases h
    exact d.connlimit_keys _ (List.mem_of_find?_eq_some hv)
  · split at h
    · split at h
      · cases h
        intro s hs
        cases hs
        exact rq.2.2
      · cases h
    · split at h
      · rename_i hv
        obtain ⟨_, -, h⟩ := LuaError.bind_eq_ok h
        cases h
        exact d.connlimit_keys _ (List.mem_of_find?_eq_some hv)
      · cases h

theorem recordKey_colonFree {rq : d.Visitor} {args : ReqRule}
    (h : ReqlimitLogic.getConfig d.reqlimit rq.1 = .ok (some args)) : ColonFree args.key := by
  rw [ReqlimitLogic.getConfig, if_pos d.reqlimit_user] at h
  simp only [ReqlimitLogic.getUserConfig] at h
  split at h
  · rename_i hv
    obtain ⟨_, -, h⟩ := LuaError.bind_eq_ok h
    cases h
    exact d.reqlimit_keys _ (List.mem_of_find?_eq_some hv)
  · split at h
    · split at h
      · cases h
        intro s hs
        cases hs
        exact rq.2.2
      · cases h
    · split at h
      · rename_i hv
        obtain ⟨_, -, h⟩ := LuaError.bind_eq_ok h
        cases h
        exact d.reqlimit_keys _ (List.mem_of_find?_eq_some hv)
      · cases h

/-- A counter the domain's requests use is the pair's only if the pair governs them. -/
theorem counter_ne {basic : BasicConf} {rq : d.Visitor} {args : ConnRule} {counter : String}
    (hbasic : GetConf.app GetConf.appCheckBasic d.conf rq.1.host "basic" = .ok (some basic))
    (hargs : ConnlimitLogic.getConfig d.connlimit rq.1 = .ok (some args))
    (hcounter : ConnlimitLogic.counterKey basic.service args = .ok counter)
    (h : ¬ d.Governs pair .connlimit rq) : counter ≠ d.redisKey pair .connlimit := by
  obtain ⟨s, k, l, hs, hk, hl, rfl⟩ := AccessMain.counterKey_eq_ok hcounter
  rw [rq.2.1] at hbasic
  cases d.service_eq basic s hbasic hs
  intro heq
  have htail : k ++ (":" ++ l) = pair.key ++ (":" ++ pair.location) := by
    have hchars := congrArg String.toList heq
    simp only [redisKey, String.toList_append, List.append_cancel_left_eq] at hchars
    exact String.toList_inj.mp (by simpa using hchars)
  obtain ⟨rfl, rfl⟩ :=
    pair_eq_of_text (d.connKey_colonFree hargs k hk) pair.colonFree htail
  exact h ⟨args, hargs, hk, hl⟩

theorem record_ne {basic : BasicConf} {rq : d.Visitor} {args : ReqRule} {name : String}
    (hbasic : GetConf.app GetConf.appCheckBasic d.conf rq.1.host "basic" = .ok (some basic))
    (hargs : ReqlimitLogic.getConfig d.reqlimit rq.1 = .ok (some args))
    (hname : ReqlimitLogic.recordKey basic.service args = .ok name)
    (h : ¬ d.Governs pair .reqlimit rq) :
    "openresty" ++ ":" ++ name ≠ d.redisKey pair .reqlimit := by
  obtain ⟨s, k, l, hs, hk, hl, rfl⟩ := AccessMain.recordKey_eq_ok hname
  rw [rq.2.1] at hbasic
  cases d.service_eq basic s hbasic hs
  intro heq
  have htail : k ++ (":" ++ l) = pair.key ++ (":" ++ pair.location) := by
    have hchars := congrArg String.toList heq
    simp only [redisKey, recordName, String.toList_append,
      List.append_cancel_left_eq] at hchars
    exact String.toList_inj.mp (by simpa using hchars)
  obtain ⟨rfl, rfl⟩ :=
    pair_eq_of_text (d.recordKey_colonFree hargs k hk) pair.colonFree htail
  exact h ⟨args, hargs, hk, hl⟩

/-! ### What each limiter does on the pair's key -/

/-- The limiter's part in the life of a request it governs. -/
def visit (pair : Pair) : Limiter → d.Visitor → Lua Unit
  | .connlimit, rq =>
      match ConnlimitLogic.getConfig d.connlimit rq.1 with
      | .ok (some args) =>
          match ConnLim.new args.max args.burst args.defaultConnDelay with
          | .ok lim => ConnlimitLogic.visit lim.1 (d.redisKey pair .connlimit)
          | .error _ => .ret ()
      | _ => .ret ()
  | .reqlimit, rq =>
      match ReqlimitLogic.getConfig d.reqlimit rq.1 with
      | .ok (some args) =>
          match RateLim.new (some "openresty") args.rate args.burst args.duration with
          | .ok lim => lim.1.incoming (d.recordName pair) >>= fun _ => .ret ()
          | .error _ => .ret ()
      | _ => .ret ()

variable {d pair}

theorem lists_ne {basic : BasicConf} {rq : d.Visitor} {s : String} (limiter : Limiter)
    (hbasic : GetConf.app GetConf.appCheckBasic d.conf rq.1.host "basic" = .ok (some basic))
    (hs : basic.service.text = .ok s) :
    IpDeny.blackList s ≠ d.redisKey pair limiter ∧
      IpDeny.whiteList s ≠ d.redisKey pair limiter := by
  rw [rq.2.1] at hbasic
  cases d.service_eq basic s hbasic hs
  cases limiter with
  | connlimit => exact list_ne_counter d.service _
  | reqlimit => exact list_ne_record d.service _

theorem counters_ne {basic : BasicConf} {rq : d.Visitor} {clock : Bool} (limiter : Limiter)
    (hbasic : GetConf.app GetConf.appCheckBasic d.conf rq.1.host "basic" = .ok (some basic))
    (h : limiter = .connlimit → ¬ d.Governs pair .connlimit rq) :
    (AccessMain.connlimitCheck d.conf basic.service rq.1).Uses
      (Off (d.redisKey pair limiter) clock) := by
  refine connlimitCheck_off (fun table args counter htable hargs hcounter => ?_)
  rw [rq.2.1, d.connlimit_eq] at htable
  cases htable
  cases limiter with
  | connlimit => exact d.counter_ne pair hbasic hargs hcounter (h rfl)
  | reqlimit =>
      obtain ⟨s, k, l, hs, -, -, rfl⟩ := AccessMain.counterKey_eq_ok hcounter
      rw [rq.2.1] at hbasic
      cases d.service_eq basic s hbasic hs
      exact AccessMain.counter_ne_record d.service _ _

theorem records_ne {basic : BasicConf} {rq : d.Visitor} (limiter : Limiter)
    (hbasic : GetConf.app GetConf.appCheckBasic d.conf rq.1.host "basic" = .ok (some basic))
    (h : limiter = .reqlimit → ¬ d.Governs pair .reqlimit rq) :
    (AccessMain.reqlimitCheck d.conf basic.service rq.1).Uses
      (fun o => Off (d.redisKey pair limiter) false o ∧ KeepsCtx o) := by
  refine reqlimitCheck_off (fun table args name htable hargs hname => ?_)
  rw [rq.2.1, d.reqlimit_eq] at htable
  cases htable
  cases limiter with
  | reqlimit => exact d.record_ne pair hbasic hargs hname (h rfl)
  | connlimit =>
      obtain ⟨s, k, l, hs, -, -, rfl⟩ := AccessMain.recordKey_eq_ok hname
      rw [rq.2.1] at hbasic
      cases d.service_eq basic s hbasic hs
      exact (AccessMain.counter_ne_record d.service _ _).symm

/-- A request the pair does not govern stays off the pair's key. -/
theorem other_off {rq : d.Visitor} {limiter : Limiter} (h : ¬ d.Governs pair limiter rq) :
    (AccessMain.main d.conf rq.1).Uses (Off (d.redisKey pair limiter) false) := by
  rcases AccessMain.main_cases d.conf rq.1 with ⟨hmain, -⟩ | ⟨e, hmain⟩ | ⟨basic, hbasic, hmain⟩
  · rw [hmain]
    trivial
  · rw [hmain]
    trivial
  · rw [hmain]
    refine Prog.uses_bind ((denyCheck_off rq.1 (fun s hs =>
      lists_ne limiter hbasic hs)).mono (fun _ ho => ho.1)) (fun _ => ?_)
    refine Prog.uses_bind ((records_ne limiter hbasic ?_).mono (fun _ ho => ho.1)) (fun _ => ?_)
    · rintro rfl
      exact h
    · refine counters_ne limiter hbasic ?_
      rintro rfl
      exact h

theorem connlimitCheck_shows {basic : BasicConf} {rq : d.Visitor}
    (hbasic : GetConf.app GetConf.appCheckBasic d.conf rq.1.host "basic" = .ok (some basic))
    (h : d.Governs pair .connlimit rq) :
    (Request.life none (AccessMain.connlimitCheck d.conf basic.service rq.1)).Shows
      (watches (d.redisKey pair .connlimit) false) (d.visit pair .connlimit rq) := by
  obtain ⟨args, hargs, hk, hl⟩ := h
  refine life_lift_shows (fun table htable => ?_)
  rw [rq.2.1, d.connlimit_eq] at htable
  cases htable
  refine life_lift_shows (fun _ _ => life_lift_shows (fun args' hargs' => ?_))
  cases hargs.symm.trans hargs'
  refine life_lift_shows (fun lim hlim => life_lift_shows (fun counter hcounter => ?_))
  obtain ⟨s, k, l, hs, hk', hl', rfl⟩ := AccessMain.counterKey_eq_ok hcounter
  rw [rq.2.1] at hbasic
  cases d.service_eq basic s hbasic hs
  cases hk.symm.trans hk'
  cases hl.symm.trans hl'
  simp only [visit, hargs, hlim]
  exact ConnlimitLogic.limitConn_shows lim.1 _ _

theorem lift_shows {α : Type} {vis : Op → Bool} {x : Except LuaError α} {f : α → Lua Unit}
    {q : Lua Unit} (h : ∀ a, x = .ok a → (f a).Shows vis q) :
    (Lua.lift x >>= f).Shows vis q := by
  cases x with
  | ok a => exact h a rfl
  | error e => trivial

theorem reqlimitCheck_shows {basic : BasicConf} {rq : d.Visitor}
    (hbasic : GetConf.app GetConf.appCheckBasic d.conf rq.1.host "basic" = .ok (some basic))
    (h : d.Governs pair .reqlimit rq) :
    (AccessMain.reqlimitCheck d.conf basic.service rq.1).Shows
      (watches (d.redisKey pair .reqlimit) true) (d.visit pair .reqlimit rq) := by
  obtain ⟨args, hargs, hk, hl⟩ := h
  refine lift_shows (fun table htable => ?_)
  rw [rq.2.1, d.reqlimit_eq] at htable
  cases htable
  refine lift_shows (fun args' hargs' => ?_)
  cases hargs.symm.trans hargs'
  refine lift_shows (fun lim hlim => lift_shows (fun name hname => ?_))
  obtain ⟨s, k, l, hs, hk', hl', rfl⟩ := AccessMain.recordKey_eq_ok hname
  rw [rq.2.1] at hbasic
  cases d.service_eq basic s hbasic hs
  cases hk.symm.trans hk'
  cases hl.symm.trans hl'
  have hzone : d.redisKey pair .reqlimit = lim.1.recordKey (d.recordName pair) := by
    obtain ⟨r, scale, b, t, -, -, -, -, -, heq⟩ := RateLim.new_ok hlim
    simp only [RateLim.recordKey, heq]
    rfl
  simp only [visit, hargs, hlim, hzone]
  exact ReqlimitLogic.limitReq_shows lim.1 _ _

theorem reqlimitCheck_keepsCtx (conf : Dict) (service : Val) (rq : RequestVars) :
    (AccessMain.reqlimitCheck conf service rq).Uses KeepsCtx := by
  refine Lua.uses_lift_bind (fun table _ => ?_)
  cases table with
  | none => trivial
  | some table =>
      refine Lua.uses_lift_bind (fun args _ => ?_)
      cases args with
      | none => trivial
      | some args =>
          exact Lua.uses_lift_bind (fun lim _ => Lua.uses_lift_bind (fun name _ =>
            ReqlimitLogic.limitReq_keepsCtx lim.1 name _))

/-- A request the pair governs does nothing on the pair's key but the limiter's visit. -/
theorem governed_shows {rq : d.Visitor} {limiter : Limiter} (h : d.Governs pair limiter rq) :
    (Request.life none (AccessMain.main d.conf rq.1)).Shows
      (watches (d.redisKey pair limiter) (limiter matches .reqlimit))
      (d.visit pair limiter rq) := by
  rcases AccessMain.main_cases d.conf rq.1 with ⟨hmain, -⟩ | ⟨e, hmain⟩ | ⟨basic, hbasic, hmain⟩
  · rw [hmain]
    exact life_shows (p := .ret ()) trivial _
  · rw [hmain]
    exact life_shows (p := .stop _) trivial _
  · rw [hmain]
    refine life_bind_shows (denyCheck_off rq.1 (fun s hs => lists_ne limiter hbasic hs))
      (fun _ => ?_)
    cases limiter with
    | connlimit =>
        exact life_bind_shows (records_ne .connlimit hbasic (fun hlim => nomatch hlim))
          (fun _ => connlimitCheck_shows hbasic h)
    | reqlimit =>
        exact life_shows_bind (reqlimitCheck_shows hbasic h)
          (reqlimitCheck_keepsCtx d.conf basic.service rq.1)
          (fun _ => counters_ne .reqlimit hbasic (fun hlim => nomatch hlim))

/-- What the limiter answered to a request it governs by the pair, given the request's
steps on the pair's key. -/
def answer (d : UserDomain) (pair : Pair) : (limiter : Limiter) → d.Visitor →
    List (Event Op Op.Answer) → Option (Except Stop limiter.Answer)
  | .connlimit, rq, events =>
      match ConnlimitLogic.getConfig d.connlimit rq.1 with
      | .ok (some args) =>
          match ConnLim.new args.max args.burst args.defaultConnDelay with
          | .ok lim => (lim.1.incoming (d.redisKey pair .connlimit) true).replay events
          | .error e => some (.error (.error e))
      | _ => none
  | .reqlimit, rq, events =>
      match ReqlimitLogic.getConfig d.reqlimit rq.1 with
      | .ok (some args) =>
          match RateLim.new (some "openresty") args.rate args.burst args.duration with
          | .ok lim => (lim.1.incoming (d.recordName pair)).replay events
          | .error e => some (.error (.error e))
      | _ => none

/-- The domain's server at the arrival of the requests. -/
def opening (d : UserDomain) (rqs : List d.Visitor) (store : RedisStore) : Server :=
  Server.start (d.handlers rqs) store

/-- The limiter's steps for the first `m` requests on the pair's key. -/
def steps (d : UserDomain) (pair : Pair) (limiter : Limiter) (m i : Nat) : Op → Bool :=
  watches (d.redisKey pair limiter)
    (match limiter with
    | .connlimit => false
    | .reqlimit => decide (i < m))

theorem opening_matches {limiter : Limiter} {mine others : List d.Visitor}
    (hmine : ∀ rq ∈ mine, d.Governs pair limiter rq)
    (hothers : ∀ rq ∈ others, ¬ d.Governs pair limiter rq) (store : RedisStore) :
    (d.opening (mine ++ others) store).Matches Request.program
      (d.steps pair limiter mine.length) (keyPart (d.redisKey pair limiter))
      ⟨fun i => (mine[i]?.map (d.visit pair limiter)).getD (.ret ()),
        store.cell (d.redisKey pair limiter), []⟩ := by
  refine ⟨fun i t ht => ?_, rfl, rfl⟩
  simp only [opening, Server.start, Pool.start, handlers, List.map_map,
    List.getElem?_map] at ht
  obtain ⟨rq, hrq, rfl⟩ := Option.map_eq_some_iff.mp ht
  by_cases hi : i < mine.length
  · rw [List.getElem?_append_left hi] at hrq
    have hshows := governed_shows (hmine rq (List.mem_of_getElem? hrq))
    simp only [hrq, Option.map_some, Option.getD_some]
    cases limiter with
    | connlimit => exact hshows
    | reqlimit =>
        have hsteps : d.steps pair .reqlimit mine.length i =
            watches (d.redisKey pair .reqlimit) true := by
          simp [steps, hi]
        rw [hsteps]
        exact hshows
  · have hnone : mine[i]? = none := List.getElem?_eq_none (Nat.le_of_not_lt hi)
    rw [List.getElem?_append_right (Nat.le_of_not_lt hi)] at hrq
    have hoff := other_off (hothers rq (List.mem_of_getElem? hrq))
    have hsteps : d.steps pair limiter mine.length i =
        watches (d.redisKey pair limiter) false := by
      cases limiter with
      | connlimit => rfl
      | reqlimit => simp [steps, hi]
    rw [hsteps]
    exact life_shows hoff _

/-- The answer to the `i`-th request in a run of which the first `m` requests are the
pair's. -/
def answerIn (d : UserDomain) (pair : Pair) (limiter : Limiter) (m i : Nat) (rq : d.Visitor)
    (p : Server) : Option (Except Stop limiter.Answer) :=
  d.answer pair limiter rq
    ((visible (d.steps pair limiter m) p.log).filter (fun e => e.who == i))

/-- What a run has the limiter do for the pair: who takes a step, whether it fails, when. -/
def timetable (d : UserDomain) (pair : Pair) (limiter : Limiter) (m : Nat) (p : Server)
    (ls : List ServerLabel) : List (Stamp (Option Fault) ℚ) :=
  server.schedule (d.steps pair limiter m) Ttl.Store.clock p ls

/-- In two runs in which a limiter takes the same steps at the same times for the requests
of a pair, these get the same answers and leave the same record, whatever the other
requests and the other limiter do. -/
theorem users_isolated (d : UserDomain) (pair : Pair) (limiter : Limiter)
    {mine others others' : List d.Visitor} (hmine : ∀ rq ∈ mine, d.Governs pair limiter rq)
    (hothers : ∀ rq ∈ others, ¬ d.Governs pair limiter rq)
    (hothers' : ∀ rq ∈ others', ¬ d.Governs pair limiter rq) {store store' : RedisStore}
    (hstart : store.cell (d.redisKey pair limiter) = store'.cell (d.redisKey pair limiter))
    {ls ls' : List ServerLabel} {p p' : Server}
    (hrun : server.steps (d.opening (mine ++ others) store) ls = some p)
    (hrun' : server.steps (d.opening (mine ++ others') store') ls' = some p')
    (hsame : d.timetable pair limiter mine.length (d.opening (mine ++ others) store) ls =
      d.timetable pair limiter mine.length (d.opening (mine ++ others') store') ls') :
    (∀ i rq, mine[i]? = some rq → d.answerIn pair limiter mine.length i rq p =
      d.answerIn pair limiter mine.length i rq p') ∧
    p.store.cell (d.redisKey pair limiter) = p'.store.cell (d.redisKey pair limiter) := by
  have hmatches := opening_matches hmine hothers store
  have hmatches' := opening_matches hmine hothers' store'
  rw [hstart] at hmatches
  have hisolated : (keyPart (d.redisKey pair limiter)).Isolated server
      (d.steps pair limiter mine.length) := keyPart_isolated _ _
  obtain ⟨hlog, hcell⟩ :=
    hmatches.isolated server_programs hisolated hmatches' hrun hrun' hsame
  refine ⟨fun i rq _ => ?_, hcell⟩
  rw [answerIn, answerIn, hlog]

def aliceRule : Val := .obj [("key", .str "alice"), ("max", .num 1)]

def gitlab : UserDomain where
  conf := fun _ => some (.json (.obj [("basic", .obj [("service", .str "gitlab")]),
    ("connlimit", .obj [("limit_type", .str "user"), ("limit_common_on", .bool true),
      ("limit_args", .arr [aliceRule]), ("default_args", .arr [.obj []])]),
    ("reqlimit", .obj [("limit_type", .str "user"), ("limit_args", .arr [])])]))
  host := "a.example"
  service := "gitlab"
  connlimit := ⟨.str "user", .str "anonymous", .bool true,
    [⟨.str "alice", .num 1, .num 0, .num (1 / 2), .str "", .bool false⟩],
    [⟨.nil, .num 1000, .num 0, .num (1 / 2), .str "", .bool false⟩], .bool false, true⟩
  reqlimit := ⟨.str "user", .str "anonymous", [], [], .bool false, .bool false, true⟩
  service_eq := by
    intro basic s hbasic hs
    cases hbasic
    cases hs
    rfl
  connlimit_eq := rfl
  reqlimit_eq := rfl
  connlimit_user := rfl
  reqlimit_user := rfl
  connlimit_keys := by
    intro v hv s hs
    cases List.mem_singleton.mp hv
    cases hs
    decide
  reqlimit_keys := by
    intro v hv
    cases hv

def alice : gitlab.Visitor := ⟨⟨"a.example", some "alice", "10.0.0.7", none⟩, rfl, by decide⟩

def bob : gitlab.Visitor := ⟨⟨"a.example", some "bob", "10.0.0.8", none⟩, rfl, by decide⟩

def ofAlice : Pair := ⟨"alice", "", by decide⟩

theorem users_isolated_alice : ∃ p p',
    server.steps (gitlab.opening ([alice, alice] ++ [bob]) .empty)
      [.run 2 none, .run 0 none, .run 2 none, .run 1 none, .run 1 none] = some p ∧
    server.steps (gitlab.opening ([alice, alice] ++ []) .empty)
      [.run 0 none, .run 1 none, .run 1 none] = some p' ∧
    ∀ i rq, [alice, alice][i]? = some rq →
      gitlab.answerIn ofAlice .connlimit 2 i rq p =
        gitlab.answerIn ofAlice .connlimit 2 i rq p' := by
  obtain ⟨p, hrun⟩ := Option.isSome_iff_exists.mp (show (server.steps
    (gitlab.opening ([alice, alice] ++ [bob]) .empty)
    [.run 2 none, .run 0 none, .run 2 none, .run 1 none, .run 1 none]).isSome = true by
      decide +kernel)
  obtain ⟨p', hrun'⟩ := Option.isSome_iff_exists.mp (show (server.steps
    (gitlab.opening ([alice, alice] ++ []) .empty)
    [.run 0 none, .run 1 none, .run 1 none]).isSome = true by decide +kernel)
  refine ⟨p, p', hrun, hrun', (users_isolated gitlab ofAlice .connlimit (fun rq hrq => ?_)
    (fun rq hrq => ?_) (fun rq hrq => ?_) rfl hrun hrun' (by decide +kernel)).1⟩
  · simp only [List.mem_cons, List.not_mem_nil, or_false, or_self] at hrq
    subst hrq
    exact ⟨⟨.str "alice", .num 1, .num 0, .num (1 / 2), .str "", .bool false⟩, rfl, rfl, rfl⟩
  · cases List.mem_singleton.mp hrq
    rintro ⟨args, hargs, hkey, -⟩
    cases hargs
    exact absurd (Except.ok.inj hkey) (by decide)
  · cases hrq

end UserDomain
end OpenrestyGateway
