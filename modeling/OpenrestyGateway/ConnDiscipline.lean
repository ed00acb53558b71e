import OpenrestyGateway.RequestLife

/-!
What a request does to the connection counters, whatever answers it gets.

A request increments at most one counter, and either takes the increment back at
once or is admitted and takes it back in the log phase. `Stage` follows a request
along this path and `Moves` lists the operations that lead from one stage to the
next, with the request's share in the counters before and after.
-/
namespace OpenrestyGateway
open Interleaving

/-- Which counters a request may increment, under which limiter, and which other
keys it may store records under. -/
structure Discipline where
  counts : String → ConnLim → Prop
  stores : String → Prop

namespace Discipline

def Counter (D : Discipline) (key : String) : Prop := ∃ lim, D.counts key lim

def Calm (D : Discipline) : Op → Prop
  | .redis (.get _) | .redis (.sismember _ _) | .now | .sleep _ | .yield => True
  | .redis (.set key _) | .redis (.expire key _) => D.stores key
  | .redis (.incr _) | .redis (.decr _) | .setCtx _ => False

def Quiet {α : Type} (D : Discipline) (p : Lua α) : Prop := p.Uses D.Calm

inductive Admitted (D : Discipline) (key : String) : Lua Unit → Prop where
  | intro (c : ConnCtx) (k : Unit → Lua Unit) :
      c.limitConnKey = key → (∀ r, D.Quiet (k r) ∧ (k r).NeverStops) →
      Admitted D key (.call (.setCtx c) k)

inductive Undoing (D : Discipline) (key : String) : Lua Unit → Prop where
  | intro (k : Reply → Lua Unit) :
      (∀ r, D.Quiet (k r)) → Undoing D key (.call (.redis (.decr key)) k)

/-- After the INCR: over the limit it is undone, otherwise the request is admitted. -/
def AfterIncr (D : Discipline) (lim : ConnLim) (key : String) : Option Int → Lua Unit → Prop
  | none, p => D.Quiet p
  | some n, p => if lim.Over n then D.Undoing key p else D.Admitted key p

/-- An access handler that has not touched a counter yet. -/
inductive Enters (D : Discipline) : Lua Unit → Prop where
  | ret (u : Unit) : Enters D (.ret u)
  | stop (e : Stop) : Enters D (.stop e)
  | incr (key : String) (lim : ConnLim) (k : Reply → Lua Unit) : D.counts key lim →
      (∀ reply, D.AfterIncr lim key (ConnLim.intRes reply.res) (k reply)) →
      Enters D (.call (.redis (.incr key)) k)
  | calm (o : Op) (k : o.Answer → Lua Unit) : D.Calm o → (∀ r, Enters D (k r)) →
      Enters D (.call o k)

inductive Tail : Lua Unit → Prop where
  | ret (u : Unit) : Tail (.ret u)
  | expire (key : String) (k : Reply → Lua Unit) : (∀ r, ∃ u, k r = .ret u) →
      Tail (.call (.redis (.expire key 60)) k)

variable {D : Discipline}

theorem enters_bind {α : Type} {p : Lua α} {f : α → Lua Unit} (first : D.Quiet p)
    (rest : ∀ a, D.Enters (f a)) : D.Enters (p >>= f) := by
  induction p with
  | ret a => exact rest a
  | stop e => exact .stop e
  | call o k ih => exact .calm o _ first.1 (fun r => ih r (first.2 r))

end Discipline

structure Share where
  held : Option String
  undoing : Option String

namespace Request

def share (r : Request) : Share := ⟨r.heldKey, r.undoingKey⟩

def counterOp : Op → List Command
  | .redis (.incr key) => [.incr key]
  | .redis (.decr key) => [.decr key]
  | _ => []

/-- The commands on counters of a request that was not admitted: none, an INCR
that failed, or an INCR that was taken back. -/
def Unadmitted (ops : List Command) : Prop :=
  ops = [] ∨ (∃ key, ops = [.incr key]) ∨ ∃ key, ops = [.incr key, .decr key]

/-- The path of a request past the counters, with the commands on counters it
has issued so far. -/
inductive Stage (D : Discipline) : Request → List Command → Prop where
  | entering (p : Lua Unit) : D.Enters p → Stage D ⟨.access p, none⟩ []
  | undoing (key : String) (p : Lua Unit) : D.Counter key → D.Undoing key p →
      Stage D ⟨.access p, none⟩ [.incr key]
  | admitted (key : String) (p : Lua Unit) : D.Counter key → D.Admitted key p →
      Stage D ⟨.access p, none⟩ [.incr key]
  | refused (p : Lua Unit) (ops : List Command) : D.Quiet p → Unadmitted ops →
      Stage D ⟨.access p, none⟩ ops
  | served (c : ConnCtx) (p : Lua Unit) : D.Counter c.limitConnKey → D.Quiet p →
      p.NeverStops → Stage D ⟨.access p, some c⟩ [.incr c.limitConnKey]
  | contentNone (ops : List Command) : Unadmitted ops → Stage D ⟨.content, none⟩ ops
  | contentSome (c : ConnCtx) : D.Counter c.limitConnKey →
      Stage D ⟨.content, some c⟩ [.incr c.limitConnKey]
  | leaving (c : ConnCtx) (k : Reply → Lua Unit) : D.Counter c.limitConnKey →
      (∀ reply, Discipline.Tail (k reply)) →
      Stage D ⟨.log (.call (.redis (.decr c.limitConnKey)) k), some c⟩ [.incr c.limitConnKey]
  | leftNone (p : Lua Unit) (ops : List Command) : Discipline.Tail p → Unadmitted ops →
      Stage D ⟨.log p, none⟩ ops
  | leftSome (c : ConnCtx) (p : Lua Unit) : Discipline.Tail p →
      Stage D ⟨.log p, some c⟩ [.incr c.limitConnKey, .decr c.limitConnKey]

/-- One operation of a request and its effect on the request's share. -/
inductive Moves (D : Discipline) : Share → (o : Op) → o.Answer → Share → Prop where
  | calm (s : Share) (o : Op) (a : o.Answer) : D.Calm o → Moves D s o a s
  | ttl (s : Share) (key : String) (reply : Reply) :
      Moves D s (.redis (.expire key 60)) reply s
  | handOver (key : String) (c : ConnCtx) : c.limitConnKey = key →
      Moves D ⟨some key, none⟩ (.setCtx c) () ⟨some key, none⟩
  | enter (key : String) (lim : ConnLim) (reply : Reply) (n : Int) : D.counts key lim →
      ConnLim.intRes reply.res = some n → ¬ lim.Over n →
      Moves D ⟨none, none⟩ (.redis (.incr key)) reply ⟨some key, none⟩
  | excess (key : String) (lim : ConnLim) (reply : Reply) (n : Int) : D.counts key lim →
      ConnLim.intRes reply.res = some n → lim.Over n →
      Moves D ⟨none, none⟩ (.redis (.incr key)) reply ⟨none, some key⟩
  | lost (key : String) (lim : ConnLim) (reply : Reply) : D.counts key lim →
      ConnLim.intRes reply.res = none →
      Moves D ⟨none, none⟩ (.redis (.incr key)) reply ⟨none, none⟩
  | undo (key : String) (reply : Reply) : D.Counter key →
      Moves D ⟨none, some key⟩ (.redis (.decr key)) reply ⟨none, none⟩
  | leave (key : String) (reply : Reply) : D.Counter key →
      Moves D ⟨some key, none⟩ (.redis (.decr key)) reply ⟨none, none⟩

variable {D : Discipline}

theorem share_access_of_quiet {p : Lua Unit} (ctx : Option ConnCtx) (h : D.Quiet p) :
    share ⟨.access p, ctx⟩ = ⟨ctx.map ConnCtx.limitConnKey, none⟩ := by
  cases p with
  | ret _ | stop _ => rfl
  | call o k =>
      cases o with
      | redis c => cases c <;> first | rfl | exact h.1.elim
      | now | sleep _ | yield => rfl
      | setCtx _ => exact h.1.elim

theorem share_of_enters {p : Lua Unit} (h : D.Enters p) :
    share ⟨.access p, none⟩ = ⟨none, none⟩ := by
  cases h with
  | ret _ | stop _ | incr _ _ _ _ _ => rfl
  | calm o k ho _ =>
      cases o with
      | redis c => cases c <;> first | rfl | exact ho.elim
      | now | sleep _ | yield => rfl
      | setCtx _ => exact ho.elim

theorem share_of_tail {p : Lua Unit} (ctx : Option ConnCtx) (h : Discipline.Tail p) :
    share ⟨.log p, ctx⟩ = ⟨none, none⟩ := by
  cases h <;> rfl

theorem noteCtx_of_calm {o : Op} (ctx : Option ConnCtx) (h : D.Calm o) :
    noteCtx ctx o = ctx := by
  cases o with
  | setCtx _ => exact h.elim
  | redis _ | now | sleep _ | yield => rfl

theorem counterOp_of_calm {o : Op} (h : D.Calm o) : counterOp o = [] := by
  cases o with
  | redis c => cases c <;> first | rfl | exact h.elim
  | now | sleep _ | setCtx _ | yield => rfl

theorem stage_timerCallback (c : ConnCtx) (hc : D.Counter c.limitConnKey) :
    Stage D ⟨.log (ConnRedis.timerCallback (some c)), some c⟩ [.incr c.limitConnKey] := by
  rw [ConnRedis.timerCallback_some]
  refine .leaving c _ hc ?_
  intro reply
  split
  · exact .ret ()
  · split
    · exact .expire c.limitConnKey _ (fun _ => ⟨(), rfl⟩)
    · exact .ret ()

theorem stage_afterIncr {key : String} {lim : ConnLim} {reply : Reply} {p : Lua Unit}
    (hkey : D.counts key lim) (h : D.AfterIncr lim key (ConnLim.intRes reply.res) p) :
    Stage D ⟨.access p, none⟩ [.incr key] ∧
      Moves D ⟨none, none⟩ (.redis (.incr key)) reply (share ⟨.access p, none⟩) := by
  cases hres : ConnLim.intRes reply.res with
  | none =>
      rw [hres] at h
      refine ⟨.refused p _ h (.inr (.inl ⟨key, rfl⟩)), ?_⟩
      rw [share_access_of_quiet none h]
      exact .lost key lim reply hkey hres
  | some n =>
      rw [hres] at h
      by_cases hover : lim.Over n
      · simp only [Discipline.AfterIncr, hover, if_true] at h
        refine ⟨.undoing key p ⟨lim, hkey⟩ h, ?_⟩
        cases h with
        | intro k _ => exact .excess key lim reply n hkey hres hover
      · simp only [Discipline.AfterIncr, hover, if_false] at h
        refine ⟨.admitted key p ⟨lim, hkey⟩ h, ?_⟩
        cases h with
        | intro c k hc _ =>
            subst hc
            exact .enter _ lim reply n hkey hres hover

/-- A step of an access phase that leaves the counters alone. -/
theorem quiet_call_moves (ctx : Option ConnCtx) {o : Op} {k : o.Answer → Lua Unit}
    (h : D.Quiet (.call o k)) (a : o.Answer) :
    Moves D (share ⟨.access (.call o k), ctx⟩) o a (share ⟨.access (k a), ctx⟩) := by
  rw [share_access_of_quiet ctx h, share_access_of_quiet ctx (h.2 a)]
  exact .calm _ _ _ h.1

/-- The only step of a log phase past its DECR is an EXPIRE, and it is the last. -/
theorem tail_next {p : Lua Unit} {ctx : Option ConnCtx} (h : Discipline.Tail p) {o : Op}
    {k : o.Answer → Request} (hn : next ⟨.log p, ctx⟩ = some ⟨o, k⟩) (a : o.Answer) :
    counterOp o = [] ∧ (∃ u, k a = ⟨.log (.ret u), ctx⟩) ∧
      Moves D (share ⟨.log p, ctx⟩) o a (k a).share := by
  cases h with
  | ret _ => cases hn
  | expire key k' hrest =>
      cases hn
      obtain ⟨u, hu⟩ := hrest a
      refine ⟨rfl, ⟨u, by simp only [hu]⟩, ?_⟩
      simp only [hu]
      exact .ttl _ key a

/-- Each operation of a request leads from a stage to a stage. -/
theorem stage_next {r : Request} {ops : List Command} (h : Stage D r ops) {o : Op}
    {k : o.Answer → Request} (hn : r.next = some ⟨o, k⟩) (a : o.Answer) :
    Stage D (k a) (ops ++ counterOp o) ∧ Moves D r.share o a (k a).share := by
  cases h with
  | entering p hp =>
      rw [share_of_enters hp]
      cases hp with
      | ret _ | stop _ =>
          cases hn
          exact ⟨.contentNone _ (.inl rfl), .calm _ _ _ trivial⟩
      | incr key lim k' hkey hafter =>
          cases hn
          exact stage_afterIncr hkey (hafter a)
      | calm o' k' ho hrest =>
          cases hn
          rw [noteCtx_of_calm none ho, counterOp_of_calm ho]
          refine ⟨.entering _ (hrest a), ?_⟩
          rw [share_of_enters (hrest a)]
          exact .calm _ _ _ ho
  | undoing key p hkey hp =>
      cases hp with
      | intro k' hrest =>
          cases hn
          refine ⟨.refused _ _ (hrest a) (.inr (.inr ⟨key, rfl⟩)), ?_⟩
          simp only [noteCtx, share_access_of_quiet none (hrest a)]
          exact .undo key a hkey
  | admitted key p hkey hp =>
      cases hp with
      | intro c k' hc hrest =>
          subst hc
          cases hn
          refine ⟨.served c _ hkey (hrest a).1 (hrest a).2, ?_⟩
          simp only [noteCtx, share_access_of_quiet (some c) (hrest a).1]
          exact .handOver _ c rfl
  | refused p ops hp hops =>
      cases p with
      | ret _ | stop _ =>
          cases hn
          exact ⟨.contentNone _ (by simpa [counterOp] using hops), .calm _ _ _ trivial⟩
      | call o' k' =>
          cases hn
          rw [noteCtx_of_calm none hp.1, counterOp_of_calm hp.1, List.append_nil]
          exact ⟨.refused _ _ (hp.2 a) hops, quiet_call_moves none hp a⟩
  | served c p hkey hp hret =>
      cases p with
      | ret _ | stop _ =>
          cases hn
          exact ⟨.contentSome c hkey, .calm _ _ _ trivial⟩
      | call o' k' =>
          cases hn
          rw [noteCtx_of_calm (some c) hp.1, counterOp_of_calm hp.1]
          exact ⟨.served c _ hkey (hp.2 a) (hret a), quiet_call_moves (some c) hp a⟩
  | contentNone ops hops =>
      cases hn
      exact ⟨.leftNone _ _ (.ret ()) (by simpa [counterOp] using hops), .calm _ _ _ trivial⟩
  | contentSome c hkey =>
      cases hn
      exact ⟨stage_timerCallback c hkey, .calm _ _ _ trivial⟩
  | leaving c k' hkey hrest =>
      cases hn
      refine ⟨.leftSome c _ (hrest a), ?_⟩
      rw [share_of_tail _ (hrest a)]
      exact .leave c.limitConnKey a hkey
  | leftNone p ops hp hops =>
      obtain ⟨hops', ⟨u, hu⟩, hmoves⟩ := tail_next hp hn a
      rw [hops', List.append_nil]
      exact ⟨hu ▸ .leftNone _ _ (.ret u) hops, hmoves⟩
  | leftSome c p hp =>
      obtain ⟨hops', ⟨u, hu⟩, hmoves⟩ := tail_next hp hn a
      rw [hops', List.append_nil]
      exact ⟨hu ▸ .leftSome c _ (.ret u), hmoves⟩

end Request

namespace Discipline
variable {D : Discipline}

theorem enters_limitConn {lim : ConnLim} {key : String} (dryRun : Val)
    (h : D.counts key lim) : D.Enters (ConnlimitLogic.limitConn lim key dryRun) := by
  rw [ConnlimitLogic.limitConn_eq]
  refine .incr key lim _ h ?_
  intro reply
  cases ConnLim.intRes reply.res with
  | none => exact refuse_uses _ _
  | some n =>
      simp only [AfterIncr]
      split
      · refine .intro _ ?_
        intro undo
        cases ConnLim.intRes undo.res <;> exact refuse_uses _ _
      · refine .intro _ _ rfl ?_
        intro _
        split
        · exact ⟨⟨trivial, fun _ => trivial⟩, fun _ => trivial⟩
        · exact ⟨trivial, trivial⟩

theorem enters_lift_bind {α : Type} {x : Except LuaError α} {f : α → Lua Unit}
    (h : ∀ a, x = .ok a → D.Enters (f a)) : D.Enters (Lua.lift x >>= f) := by
  cases x with
  | ok a => exact h a rfl
  | error e => exact .stop _

theorem quiet_redisCommit {zone key : String} (lim : RateLim)
    (h : D.stores (zone ++ ":" ++ key)) : D.Quiet (RateLim.redisCommit zone key lim) := by
  simp only [RateLim.redisCommit]
  simp only [Lua.now_bind, Lua.redis_bind, RateLim.errField_eq_none]
  refine ⟨trivial, fun t => ⟨trivial, fun reply => Lua.uses_lift_bind (fun v _ => ?_)⟩⟩
  cases v with
  | forbidden => trivial
  | busy x =>
      dsimp only
      split
      · rw [RateLim.store_eq]
        exact ⟨h, fun _ => ⟨h, fun _ => trivial⟩⟩
      · trivial
  | pass x =>
      simp only [RateLim.store_eq]
      exact ⟨h, fun _ => ⟨h, fun _ => trivial⟩⟩

theorem quiet_limitReq {lim : RateLim} {key : String} (dryRun : Val)
    (h : D.stores (lim.zone ++ ":" ++ key)) :
    D.Quiet (ReqlimitLogic.limitReq lim key dryRun) := by
  simp only [ReqlimitLogic.limitReq, RateLim.incoming]
  refine Prog.uses_bind (Prog.uses_bind (quiet_redisCommit lim h) ?_) ?_
  · intro c
    cases c <;> trivial
  · intro answer
    cases answer with
    | refused err => exact refuse_uses err dryRun
    | granted delay excess =>
        cases delay with
        | finite d =>
            simp only [ReqlimitLogic.delaySleep]
            split
            · exact ⟨trivial, fun _ => trivial⟩
            · trivial
        | infinite | nan => trivial

theorem quiet_denyCheck (basic : BasicConf) (rq : RequestVars) :
    D.Quiet (AccessMain.denyCheck basic rq) := by
  simp only [AccessMain.denyCheck]
  split
  · refine Prog.uses_bind ?_ ?_
    · simp only [IpDeny.ipRule]
      refine Lua.uses_lift_bind (fun name _ => ?_)
      simp only [Lua.redis_bind]
      refine ⟨trivial, fun black => ?_⟩
      dsimp only
      split
      · refine ⟨trivial, fun white => ?_⟩
        dsimp only
        split <;> trivial
      · trivial
    · intro denied
      cases denied <;> trivial
  · trivial

section Main
variable {conf : Dict} {rq : RequestVars} {basic : BasicConf}

theorem quiet_reqlimitCheck
    (hbasic : GetConf.app GetConf.appCheckBasic conf rq.host "basic" = .ok (some basic))
    (h : ∀ key, AccessMain.reqlimitKey conf rq = .ok (some key) → D.stores key) :
    D.Quiet (AccessMain.reqlimitCheck conf basic.service rq) := by
  refine Lua.uses_lift_bind (fun table htable => ?_)
  cases table with
  | none => trivial
  | some table =>
      refine Lua.uses_lift_bind (fun args hargs => ?_)
      cases args with
      | none => trivial
      | some args =>
          refine Lua.uses_lift_bind (fun lim hlim =>
            Lua.uses_lift_bind (fun key hkey => quiet_limitReq _ ?_))
          obtain ⟨r, scale, b, d, -, -, -, -, -, hzone⟩ := RateLim.new_ok hlim
          rw [hzone]
          apply h
          simp only [AccessMain.reqlimitKey, hbasic, htable, hargs, hkey, bind, Except.bind]
          rfl

theorem enters_connlimitCheck
    (hbasic : GetConf.app GetConf.appCheckBasic conf rq.host "basic" = .ok (some basic))
    (h : ∀ key lim, AccessMain.connlimitKey conf rq = .ok (some key) → D.counts key lim) :
    D.Enters (AccessMain.connlimitCheck conf basic.service rq) := by
  refine enters_lift_bind (fun table htable => ?_)
  cases table with
  | none => exact .ret _
  | some table =>
      refine enters_lift_bind (fun _ _ => enters_lift_bind (fun args hargs => ?_))
      cases args with
      | none => exact .ret _
      | some args =>
          refine enters_lift_bind (fun lim _ => enters_lift_bind (fun key hkey =>
            enters_limitConn _ (h key lim.1 ?_)))
          simp only [AccessMain.connlimitKey, hbasic, htable, hargs, hkey, bind, Except.bind]
          rfl

theorem enters_main
    (hc : ∀ key lim, AccessMain.connlimitKey conf rq = .ok (some key) → D.counts key lim)
    (hs : ∀ key, AccessMain.reqlimitKey conf rq = .ok (some key) → D.stores key) :
    D.Enters (AccessMain.main conf rq) := by
  rcases AccessMain.main_cases conf rq with ⟨hmain, -⟩ | ⟨e, hmain⟩ | ⟨basic, hbasic, hmain⟩
  · rw [hmain]
    exact .ret ()
  · rw [hmain]
    exact .stop _
  · rw [hmain]
    exact enters_bind (quiet_denyCheck basic rq) (fun _ =>
      enters_bind (quiet_reqlimitCheck hbasic hs) (fun _ =>
        enters_connlimitCheck hbasic hc))

end Main
end Discipline
end OpenrestyGateway
