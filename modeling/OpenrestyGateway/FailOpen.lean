import OpenrestyGateway.AccessKeys
import OpenrestyGateway.ConnDiscipline

/-!
One request with and without failing Redis commands.

`Follows` and `FailsOpen` compare a run without failures with a run in which some
commands fail: where the first returns, so does the second. Both limiters are
fail-open in this sense. The IP check is not, as the second of its two lookups is
the one that lets an address through.
-/
namespace OpenrestyGateway
open Interleaving
open ReqlimitLogic (afterIncoming)

/-- The commands of a request that fail, by their number. -/
abbrev Faults := Nat → Option Fault

def Faults.none : Faults := fun _ => .none

abbrev Progress := Nat × RedisStore

def commandCount : Op → Nat
  | .redis _ => 1
  | _ => 0

def execFaulty (faults : Faults) (s : Progress) (o : Op) : o.Answer × Progress :=
  ((execOp s.2 (faults s.1) o).1, s.1 + commandCount o, (execOp s.2 (faults s.1) o).2)

def Lua.runFaulty {α : Type} (faults : Faults) (s : Progress) (p : Lua α) :
    Except Stop α × Progress :=
  Prog.run (execFaulty faults) s p

/-- The request is let through to the content phase. -/
def Admits (faults : Faults) (s : Progress) (p : Lua Unit) : Prop :=
  (p.runFaulty faults s).1 = .ok ()

section Rules
variable (faults : Faults)

/-- From any two stores: where `p` returns without failures, `p'` returns with them. -/
def Follows (p p' : Lua Unit) : Prop :=
  ∀ s s' : Progress, Admits .none s p → Admits faults s' p'

/-- The same from two stores that agree on a key. -/
def FailsOpen (key : String) (p p' : Lua Unit) : Prop :=
  ∀ s s' : Progress, s.2.clock = s'.2.clock → s.2.cell key = s'.2.cell key →
    Admits .none s p → Admits faults s' p'

variable {faults} {key : String} {p p' : Lua Unit}

theorem Follows.failsOpen (h : Follows faults p p') : FailsOpen faults key p p' :=
  fun s s' _ _ => h s s'

theorem follows_ret (p : Lua Unit) : Follows faults p (.ret ()) := fun _ _ _ => rfl

theorem follows_stop (e : Stop) (p' : Lua Unit) : Follows faults (.stop e) p' :=
  fun _ _ h => nomatch h

theorem follows_call {o : Op} {k k' : o.Answer → Lua Unit}
    (h : ∀ r r', Follows faults (k r) (k' r')) : Follows faults (.call o k) (.call o k') :=
  fun _ _ hp => h _ _ _ _ hp

theorem follows_call_right {o : Op} {k' : o.Answer → Lua Unit}
    (h : ∀ r', Follows faults p (k' r')) : Follows faults p (.call o k') :=
  fun s _ hp => h _ s _ hp

theorem failsOpen_redis {c : Command} {k k' : Reply → Lua Unit} (hkey : c.key = key)
    (same : ∀ r, FailsOpen faults key (k r) (k' r))
    (failed : ∀ r (f : Fault), Follows faults (k r) (k' ⟨.nil, f.err⟩)) :
    FailsOpen faults key (.call (.redis c) k) (.call (.redis c) k') := by
  intro s s' hclock hcell hp
  subst hkey
  obtain ⟨hreply, hclock', hcell'⟩ := Redis.exec_congr c hclock hcell
  cases hf : faults s'.1 with
  | some f =>
      have hrest := failed _ f _ (s'.1 + 1, s'.2) hp
      simpa only [Admits, Lua.runFaulty, Prog.run_call, execFaulty, execOp, hf,
        commandCount] using hrest
  | none =>
      have hrest := same (Redis.exec s.2 c).1 (s.1 + 1, (Redis.exec s.2 c).2)
        (s'.1 + 1, (Redis.exec s'.2 c).2) hclock' hcell' hp
      simpa only [Admits, Lua.runFaulty, Prog.run_call, execFaulty, execOp, hf,
        commandCount, hreply] using hrest

theorem failsOpen_now {k k' : ℚ → Lua Unit} (h : ∀ t, FailsOpen faults key (k t) (k' t)) :
    FailsOpen faults key (.call .now k) (.call .now k') := by
  intro s s' hclock hcell hp
  have hrest := h s.2.clock s s' hclock hcell hp
  rw [hclock] at hrest
  exact hrest

/-! ### The limiters -/

theorem refuse_cases (err : Option String) (dryRun : Val) :
    refuse err dryRun = .ret () ∨ refuse err dryRun = .stop (.exit 429) := by
  simp only [refuse]
  split
  · split
    · exact .inl rfl
    · exact .inr rfl
  · exact .inl rfl

theorem follows_refuse (err : Option String) (dryRun : Val) :
    Follows faults (refuse err dryRun) (refuse err dryRun) := by
  rcases refuse_cases err dryRun with h | h <;> rw [h]
  · exact follows_ret _
  · exact follows_stop _ _

theorem follows_refuse_fault (p : Lua Unit) (f : Fault) (dryRun : Val) :
    Follows faults p (refuse f.err dryRun) := by
  simp only [refuse, f.foreign, if_false]
  exact follows_ret p

theorem failsOpen_limitConn (lim : ConnLim) (key : String) (dryRun : Val) :
    FailsOpen faults key (ConnlimitLogic.limitConn lim key dryRun)
      (ConnlimitLogic.limitConn lim key dryRun) := by
  rw [ConnlimitLogic.limitConn_eq]
  refine failsOpen_redis rfl ?_ (fun _ f => follows_refuse_fault _ f dryRun)
  intro reply
  cases ConnLim.intRes reply.res with
  | none => exact (follows_refuse _ dryRun).failsOpen
  | some conn =>
      by_cases hover : lim.Over conn
      · simp only [hover, if_true]
        refine failsOpen_redis rfl ?_ (fun _ f => follows_refuse_fault _ f dryRun)
        intro undo
        cases ConnLim.intRes undo.res <;> exact (follows_refuse _ dryRun).failsOpen
      · simp only [hover, if_false]
        refine (follows_call (fun _ _ => ?_)).failsOpen
        split
        · exact follows_call (fun _ _ => follows_ret _)
        · exact follows_ret _

theorem follows_afterIncoming (dryRun : Val) (a : RateLim.Incoming) :
    Follows faults (afterIncoming dryRun a) (afterIncoming dryRun a) := by
  cases a with
  | refused err => exact follows_refuse err dryRun
  | granted delay _ =>
      cases delay with
      | finite d =>
          simp only [ReqlimitLogic.afterIncoming, ReqlimitLogic.delaySleep]
          split
          · exact follows_call (fun _ _ => follows_ret _)
          · exact follows_ret _
      | infinite => exact follows_stop _ _
      | nan => exact follows_ret _

theorem follows_writeBack (dryRun : Val) (key : String) (a : RateLim.Incoming)
    (w : Option (Text × ℚ)) :
    Follows faults (RateLim.writeBack key a w >>= afterIncoming dryRun)
      (RateLim.writeBack key a w >>= afterIncoming dryRun) := by
  cases w with
  | none => exact follows_afterIncoming dryRun a
  | some w =>
      exact follows_call (fun _ _ => follows_call (fun _ _ => follows_afterIncoming dryRun a))

/-- Without a reply a call finds an empty bucket, and is granted no delay. -/
theorem follows_afterGet_nil (p : Lua Unit) (lim : RateLim) (key : String) (now : ℚ)
    (dryRun : Val) :
    Follows faults p (RateLim.afterGet lim key now .nil >>= afterIncoming dryRun) := by
  have hempty : RateLim.afterGet lim key now .nil =
      RateLim.writeBack key (.granted (RateLim.Delay.divide 0 lim.rate) (0 / 1000))
        (some (RateLim.record 0 now false, 60)) := rfl
  have hfree := ReqlimitLogic.afterIncoming_no_excess dryRun lim.rate (0 / 1000)
  rw [hempty]
  refine follows_call_right (fun _ => follows_call_right (fun _ => ?_))
  rw [show (Prog.ret _ : Lua RateLim.Incoming).bind (afterIncoming dryRun) = .ret () from hfree]
  exact follows_ret p

theorem failsOpen_limitReq (lim : RateLim) (key : String) (dryRun : Val) :
    FailsOpen faults (lim.recordKey key) (ReqlimitLogic.limitReq lim key dryRun)
      (ReqlimitLogic.limitReq lim key dryRun) := by
  rw [ReqlimitLogic.limitReq_eq]
  refine failsOpen_now (fun seconds => failsOpen_redis rfl ?_
    (fun _ _ => follows_afterGet_nil _ lim _ _ dryRun))
  intro reply
  simp only [RateLim.afterGet]
  cases RateLim.weigh lim (seconds * 1000) (Reply.res reply) with
  | error e => exact (follows_stop _ _).failsOpen
  | ok v => exact (follows_writeBack dryRun _ _ _).failsOpen

theorem admits_lift_bind {α : Type} {x : Except LuaError α} {f : α → Lua Unit}
    {s s' : Progress} (h : Admits .none s (Lua.lift x >>= f))
    (rest : ∀ a, x = .ok a → Admits .none s (f a) → Admits faults s' (f a)) :
    Admits faults s' (Lua.lift x >>= f) := by
  cases x with
  | ok a => exact rest a rfl h
  | error e => cases h

section Checks
variable {conf : Dict} {rq : RequestVars} {basic : BasicConf}

theorem admits_reqlimitCheck {s s' : Progress} (hstore : s.2 = s'.2)
    (h : Admits .none s (AccessMain.reqlimitCheck conf basic.service rq)) :
    Admits faults s' (AccessMain.reqlimitCheck conf basic.service rq) := by
  refine admits_lift_bind h (fun table _ h => ?_)
  cases table with
  | none => rfl
  | some table =>
      refine admits_lift_bind h (fun args _ h => ?_)
      cases args with
      | none => rfl
      | some args =>
          exact admits_lift_bind h (fun lim _ h => admits_lift_bind h (fun key _ h =>
            failsOpen_limitReq lim.1 key _ s s' (by rw [hstore]) (by rw [hstore]) h))

theorem admits_connlimitCheck {s s' : Progress}
    (hbasic : GetConf.app GetConf.appCheckBasic conf rq.host "basic" = .ok (some basic))
    (hstore : ∀ key, AccessMain.connlimitKey conf rq = .ok (some key) →
      s.2.clock = s'.2.clock ∧ s.2.cell key = s'.2.cell key)
    (h : Admits .none s (AccessMain.connlimitCheck conf basic.service rq)) :
    Admits faults s' (AccessMain.connlimitCheck conf basic.service rq) := by
  refine admits_lift_bind h (fun table htable h => ?_)
  cases table with
  | none => rfl
  | some table =>
      refine admits_lift_bind h (fun _ _ h => admits_lift_bind h (fun args hargs h => ?_))
      cases args with
      | none => rfl
      | some args =>
          refine admits_lift_bind h (fun lim _ h => admits_lift_bind h (fun key hkey h => ?_))
          have hcounter : AccessMain.connlimitKey conf rq = .ok (some key) := by
            simp only [AccessMain.connlimitKey, hbasic, htable, hargs, hkey, bind, Except.bind]
            rfl
          obtain ⟨hclock, hcell⟩ := hstore key hcounter
          exact failsOpen_limitConn lim.1 key _ s s' hclock hcell h

end Checks

/-! ### The IP check -/

def IsMember (s : RedisStore) (key member : String) : Prop :=
  ∃ ms, s.lookup key = some (.set ms) ∧ member ∈ ms

theorem sismember_eq (s : RedisStore) (key member : String) :
    (ConnLim.intRes (Redis.exec s (.sismember key member)).1.res = some 1 ↔
      IsMember s key member) ∧ (Redis.exec s (.sismember key member)).2 = s := by
  simp only [Redis.exec, IsMember]
  cases s.lookup key with
  | none => simp [ConnLim.intRes]
  | some d =>
      cases d with
      | str t => simp [ConnLim.intRes, Redis.wrongType]
      | set ms =>
          by_cases hm : member ∈ ms <;> simp [ConnLim.intRes, hm]

/-- The address is denied if the first lookup finds it in the black list and the
second does not find it in the white list, be it for want of an answer. -/
def Denied (faults : Faults) (s : Progress) (name addr : String) : Prop :=
  (faults s.1).isNone ∧ IsMember s.2 (IpDeny.blackList name) addr ∧
    ((faults (s.1 + 1)).isNone → ¬ IsMember s.2 (IpDeny.whiteList name) addr)

theorem execFaulty_sismember (faults : Faults) (s : Progress) (key member : String) :
    (ConnLim.intRes (execFaulty faults s (.redis (.sismember key member))).1.res = some 1 ↔
      (faults s.1).isNone ∧ IsMember s.2 key member) ∧
    (execFaulty faults s (.redis (.sismember key member))).2 = (s.1 + 1, s.2) := by
  obtain ⟨hreply, hstore⟩ := sismember_eq s.2 key member
  cases hf : faults s.1 with
  | some f => simp [execFaulty, execOp, hf, ConnLim.intRes, commandCount]
  | none => simp [execFaulty, execOp, hf, hreply, hstore, commandCount]

theorem runFaulty_ipRule (faults : Faults) (s : Progress) (service : Val) (rq : RequestVars)
    (name : String) (hname : service.text = .ok name) :
    (∃ denied : Bool, ((IpDeny.ipRule service rq).runFaulty faults s).1 = .ok denied ∧
      (denied = true ↔ Denied faults s name rq.remoteAddr)) ∧
    ((IpDeny.ipRule service rq).runFaulty faults s).2.2 = s.2 := by
  obtain ⟨hblack, hstore⟩ :=
    execFaulty_sismember faults s (IpDeny.blackList name) rq.remoteAddr
  obtain ⟨hwhite, hstore'⟩ := execFaulty_sismember faults
    (s.1 + 1, s.2) (IpDeny.whiteList name) rq.remoteAddr
  simp only [IpDeny.ipRule, hname, Lua.lift_ok, Prog.ret_bind, Lua.redis_bind,
    Lua.runFaulty, Prog.run_call, hstore]
  by_cases hin : ConnLim.intRes (execFaulty faults s (.redis (.sismember
      (IpDeny.blackList name) rq.remoteAddr))).1.res = some 1
  · have hlisted := hblack.mp hin
    simp only [hin, if_true, Prog.run_call, hstore']
    by_cases hout : ConnLim.intRes (execFaulty faults (s.1 + 1, s.2) (.redis (.sismember
        (IpDeny.whiteList name) rq.remoteAddr))).1.res = some 1
    · have hfree := hwhite.mp hout
      simp only [hout, if_true]
      exact ⟨⟨false, rfl, by simp [Denied, hfree.1, hfree.2]⟩, rfl⟩
    · have hdenied : Denied faults s name rq.remoteAddr :=
        ⟨hlisted.1, hlisted.2, fun hanswered hmember => hout (hwhite.mpr ⟨hanswered, hmember⟩)⟩
      simp only [hout, if_false]
      exact ⟨⟨true, rfl, by simp [hdenied]⟩, rfl⟩
  · have hfree : ¬ Denied faults s name rq.remoteAddr :=
      fun h => hin (hblack.mpr ⟨h.1, h.2.1⟩)
    simp only [hin, if_false]
    exact ⟨⟨false, rfl, by simp [hfree]⟩, rfl⟩

theorem admits_denyCheck (faults : Faults) (s : Progress) (basic : BasicConf)
    (rq : RequestVars) :
    (Admits faults s (AccessMain.denyCheck basic rq) ↔
      (basic.ipDeny.isTrue = true →
        ∃ name, basic.service.text = .ok name ∧ ¬ Denied faults s name rq.remoteAddr)) ∧
    ((AccessMain.denyCheck basic rq).runFaulty faults s).2.2 = s.2 := by
  simp only [AccessMain.denyCheck]
  by_cases hon : basic.ipDeny.isTrue = true
  · simp only [hon, if_true, Admits, Lua.runFaulty, Prog.run_bind, true_imp_iff]
    cases hname : basic.service.text with
    | error e => simp [IpDeny.ipRule, hname]
    | ok name =>
        obtain ⟨⟨denied, hrun, hdenied⟩, hstore⟩ :=
          runFaulty_ipRule faults s basic.service rq name hname
        simp only [Lua.runFaulty] at hrun hstore
        rcases hr : Prog.run (execFaulty faults) s (IpDeny.ipRule basic.service rq) with ⟨r, s'⟩
        rw [hr] at hrun hstore
        simp only at hrun hstore
        subst hrun
        have hname' : ∀ n, Except.ok name = (Except.ok n : Except LuaError String) ↔ name = n := by
          simp
        cases denied with
        | true => simp [Lua.exit, hstore, hdenied.mp rfl]
        | false =>
            have hfree : ¬ Denied faults s name rq.remoteAddr := fun h => by
              simpa using hdenied.mpr h
            simp [hstore, hfree]
  · simp [hon, Admits, Lua.runFaulty]

end Rules

/-! ### The whole access phase -/

/-- The address is in both lists, the first lookup finds it in the black list, and
the second lookup fails. -/
def WhitelistLost (conf : Dict) (rq : RequestVars) (store : RedisStore) (faults : Faults) :
    Prop :=
  ∃ basic name, GetConf.app GetConf.appCheckBasic conf rq.host "basic" = .ok (some basic) ∧
    basic.ipDeny.isTrue = true ∧ basic.service.text = .ok name ∧
    IsMember store (IpDeny.blackList name) rq.remoteAddr ∧
    IsMember store (IpDeny.whiteList name) rq.remoteAddr ∧
    (faults 0).isNone ∧ (faults 1).isSome

theorem admits_bind (faults : Faults) (s : Progress) (p q : Lua Unit) :
    Admits faults s (p >>= fun _ => q) ↔
      Admits faults s p ∧ Admits faults (p.runFaulty faults s).2 q := by
  simp only [Admits, Lua.runFaulty, Prog.run_bind]
  rcases Prog.run (execFaulty faults) s p with ⟨r, s'⟩
  cases r with
  | ok u => simp
  | error e => simp

/-- A program that stores records elsewhere leaves a key alone. -/
theorem runFaulty_quiet {D : Discipline} {p : Lua Unit} (h : D.Quiet p) {key : String}
    (hkey : ¬ D.stores key) (faults : Faults) (s : Progress) :
    (p.runFaulty faults s).2.2.clock = s.2.clock ∧
      (p.runFaulty faults s).2.2.cell key = s.2.cell key := by
  refine Prog.run_frame (execFaulty faults) (I := fun q => q.2.clock = s.2.clock ∧
    q.2.cell key = s.2.cell key) h ?_ ⟨rfl, rfl⟩
  rintro q o ho ⟨hclock, hcell⟩
  rw [← hclock, ← hcell]
  simp only [execFaulty]
  cases o with
  | now | sleep _ | setCtx _ | yield => exact ⟨rfl, rfl⟩
  | redis c =>
      cases faults q.1 with
      | some f => exact ⟨rfl, rfl⟩
      | none =>
          have hne : ∀ k, D.stores k → key ≠ k := fun k hs he => hkey (he ▸ hs)
          cases c with
          | get k | sismember k m =>
              simp only [execOp, Redis.exec]
              split <;> exact ⟨rfl, rfl⟩
          | set k t => exact ⟨rfl, if_neg (hne k ho)⟩
          | expire k seconds =>
              simp only [execOp, Redis.exec]
              split
              · exact ⟨rfl, rfl⟩
              · split
                · exact ⟨rfl, rfl⟩
                · refine ⟨Ttl.Store.clock_expire q.2 k seconds, ?_⟩
                  simp only [Ttl.Store.expire]
                  split
                  · rfl
                  · exact if_neg (hne k ho)
          | incr _ | decr _ => exact ho.elim

/-- Where the IP check lets a request through, failures make it refuse the request
exactly if its second lookup is the one that is lost. -/
theorem admits_denyCheck_iff {conf : Dict} {rq : RequestVars} {basic : BasicConf}
    (store : RedisStore) (faults : Faults)
    (hbasic : GetConf.app GetConf.appCheckBasic conf rq.host "basic" = .ok (some basic))
    (h : Admits .none (0, store) (AccessMain.denyCheck basic rq)) :
    Admits faults (0, store) (AccessMain.denyCheck basic rq) ↔
      ¬ WhitelistLost conf rq store faults := by
  rw [(admits_denyCheck Faults.none (0, store) basic rq).1] at h
  rw [(admits_denyCheck faults (0, store) basic rq).1]
  constructor
  · rintro hopen ⟨basic', name, hbasic', hon, hname, hblack, hwhite, hfirst, hsecond⟩
    cases hbasic.symm.trans hbasic'
    obtain ⟨name', hname', hfree⟩ := hopen hon
    cases hname.symm.trans hname'
    refine hfree ⟨hfirst, hblack, fun hanswered => ?_⟩
    rw [Option.isNone_iff_eq_none.mp hanswered] at hsecond
    cases hsecond
  · intro hkept hon
    obtain ⟨name, hname, hfree⟩ := h hon
    refine ⟨name, hname, ?_⟩
    rintro ⟨hfirst, hblack, hmissed⟩
    have hwhite : IsMember store (IpDeny.whiteList name) rq.remoteAddr := by
      by_contra hno
      exact hfree ⟨rfl, hblack, fun _ => hno⟩
    refine hkept ⟨basic, name, hbasic, hon, hname, hblack, hwhite, hfirst, ?_⟩
    cases hsecond : faults 1 with
    | some _ => rfl
    | none => exact absurd hwhite (hmissed (by simp [hsecond]))

def listsOnly : Dict
  | "gitlab.example" => some (.json (.obj
      [("basic", .obj [("service", .str "gitlab"), ("ip_deny", .bool true)]),
       ("reqlimit", .obj [("limit_args", .arr [])]),
       ("connlimit", .obj [("limit_args", .arr [])])]))
  | _ => none

def bothLists : RedisStore :=
  ⟨0, fun key => if key = "openresty:gitlab:black_list" ∨ key = "openresty:gitlab:white_list"
    then some (.set ["10.0.0.7"], none) else none⟩

def timeoutAt (n : Nat) : Faults := fun i =>
  if i = n then some ⟨some "timeout", by decide⟩ else none

end OpenrestyGateway
