import OpenrestyGateway.RuleSelection

/-!
The access phase of a configured domain. A section that is there is applied with its
defaults filled in. A section that is not there is to switch its check off, but the
normaliser assigns to a field of nil instead; and a rate below a thousandth of a
request per second becomes 0, by which the limiter divides.
-/
namespace OpenrestyGateway
open Interleaving

/-- What a GET of a record answers: nothing, or a record the limiter has written. The
other commands answer anything. -/
def Documented (o : Op) : o.Answer → Prop :=
  match o with
  | .redis (.get _) => fun reply : Reply => reply.res = .nil ∨
      ∃ excess time forbidden, 0 ≤ excess ∧
        reply.res = .str (RateLim.record excess time forbidden)
  | _ => fun _ => True

def NoError : Stop → Prop
  | .exit _ => True
  | .error _ => False

theorem refuse_finishes (err : Option String) (dryRun : Val) :
    (refuse err dryRun).StopsIn Documented NoError := by
  simp only [refuse]
  split
  · split
    · trivial
    · trivial
  · trivial

namespace RateLim

/-- The delay of an admitted request is no quotient by 0. -/
def Usable (lim : RateLim) : Prop := 0 < lim.rate ∨ lim.burst < 1000

theorem weigh_documented (lim : RateLim) (now : ℚ) {reply : Reply} {key : String}
    (h : Documented (.redis (.get key)) reply) :
    ∃ v, lim.weigh now reply.res = .ok v ∧
      ∀ x, v = .pass x → x = 0 ∨ (lim.rate = 0 → 1000 ≤ lim.burst) := by
  rcases h with hnil | ⟨excess, time, forbidden, hexcess, hrecord⟩
  · rw [hnil]
    exact ⟨.pass 0, rfl, fun x hx => by cases hx; exact Or.inl rfl⟩
  · rw [hrecord]
    cases forbidden with
    | true => exact ⟨.forbidden, weigh_ban lim now excess time, fun x hx => by cases hx⟩
    | false =>
        rw [weigh_record]
        split
        · exact ⟨_, rfl, fun x hx => by cases hx⟩
        · rename_i hle
          refine ⟨_, rfl, fun x _ => Or.inr (fun hrate => ?_)⟩
          have hlevel : excess - lim.rate * |now - time| / 1000 + 1000 ≤ lim.burst :=
            (le_max_right _ _).trans (not_lt.mp hle)
          rw [hrate] at hlevel
          linarith

theorem delaySleep_finishes {delay : Delay} (h : delay ≠ .infinite) :
    (ReqlimitLogic.delaySleep delay).StopsIn Documented NoError := by
  cases delay with
  | finite seconds =>
      show (if 1 / 1000 ≤ seconds then Lua.sleep seconds else .ret () : Lua Unit).StopsIn _ _
      split
      · exact fun _ _ => trivial
      · trivial
  | infinite => exact absurd rfl h
  | nan => trivial

theorem writeBack_bind (key : String) (answer : Incoming) (f : Incoming → Lua Unit)
    (w : Option (Text × ℚ)) (h : (f answer).StopsIn Documented NoError) :
    (writeBack key answer w >>= f).StopsIn Documented NoError := by
  cases w with
  | none => exact h
  | some w => exact fun _ _ _ _ => h

end RateLim

namespace ReqlimitLogic

theorem limitReq_finishes {lim : RateLim} (husable : lim.Usable)
    (key : String) (dryRun : Val) : (limitReq lim key dryRun).StopsIn Documented NoError := by
  rw [limitReq_eq]
  intro seconds _ reply hreply
  obtain ⟨v, hv, hpass⟩ := lim.weigh_documented (seconds * 1000) hreply
  simp only [RateLim.afterGet, hv]
  refine RateLim.writeBack_bind _ _ _ _ ?_
  cases v with
  | forbidden => exact refuse_finishes _ dryRun
  | busy x => exact refuse_finishes _ dryRun
  | pass x =>
      refine RateLim.delaySleep_finishes ?_
      simp only [RateLim.Delay.divide]
      split
      · simp
      · rename_i hrate
        have hzero : lim.rate = 0 := not_not.mp hrate
        have hx : x = 0 := by
          rcases hpass x rfl with hx | hburst
          · exact hx
          · rcases husable with hpos | hlow
            · linarith
            · linarith [hburst hzero]
        simp [hx]

theorem limitReq_returns (lim : RateLim) (key : String) (dryRun : Val) :
    (limitReq lim key dryRun).MayReturn Documented () := by
  rw [limitReq_eq]
  refine ⟨0, trivial, ⟨.nil, none⟩, Or.inl rfl, ⟨.nil, none⟩, trivial, ⟨.nil, none⟩, trivial, ?_⟩
  have hfree := afterIncoming_no_excess dryRun lim.rate (0 / 1000)
  show (afterIncoming dryRun (.granted (RateLim.Delay.divide 0 lim.rate) (0 / 1000))).MayReturn
    Documented ()
  rw [hfree]
  rfl

theorem limitReq_raises {lim : RateLim} (hlim : lim.Accepted) (h : ¬ lim.Usable) (key : String)
    (dryRun : Val) : ¬ (limitReq lim key dryRun).StopsIn Documented NoError := by
  obtain ⟨hrate, hburst⟩ := not_or.mp h
  have hzero : lim.rate = 0 := le_antisymm (not_lt.mp hrate) hlim.rate_nonneg
  rw [limitReq_eq]
  intro hfin
  have hget := hfin (0 : ℚ) trivial ⟨.str (RateLim.record 0 0 false), none⟩
    (Or.inr ⟨0, 0, false, le_refl 0, rfl⟩)
  have hweigh : lim.weigh (0 * 1000) (.str (RateLim.record 0 0 false)) = .ok (.pass 1000) := by
    rw [RateLim.weigh_record, hzero]
    norm_num
    exact fun hlow => absurd hlow hburst
  simp only [RateLim.afterGet, hweigh] at hget
  have hsleep := hget (⟨.nil, none⟩ : Reply) trivial (⟨.nil, none⟩ : Reply) trivial
  have hdelay : RateLim.Delay.divide 1000 lim.rate = .infinite := by
    simp [RateLim.Delay.divide, hzero]
  have hraised : (delaySleep (RateLim.Delay.divide 1000 lim.rate)).StopsIn Documented NoError :=
    hsleep
  rw [hdelay] at hraised
  exact hraised

/-- What a governing rule holds after the defaults are filled in. -/
structure Proper (r : ReqRule) : Prop where
  key : ∃ k, r.key = .str k
  rate : ∃ t : RateText, r.rate = t.val
  burst : ∃ q, r.burst = .num q ∧ 0 ≤ q
  duration : r.duration = .nil ∨ ∃ q, r.duration = .num q ∧ 0 ≤ q
  limitLocation : ∃ s, r.limitLocation = .str s

def defaultRate : RateText where
  text := "1000r/s"
  accepted := ⟨(1000, 1), by decide +kernel, by norm_num⟩

theorem rate_val (rate : Option RateText) :
    ∃ t : RateText, (rate.map RateText.val).getD (.str "1000r/s") = t.val := by
  cases rate with
  | none => exact ⟨defaultRate, rfl⟩
  | some t => exact ⟨t, rfl⟩

theorem getD_nonneg {a : Option ℚ} {d : ℚ} (h : ∀ q ∈ a, 0 ≤ q) (hd : 0 ≤ d) :
    0 ≤ a.getD d := by
  cases a with
  | none => exact hd
  | some q => exact h q rfl

theorem proper_limits (r : ReqLimits) (k : String) : Proper (r.rule (.str k)) :=
  ⟨⟨k, rfl⟩, rate_val r.rate, ⟨_, rfl, getD_nonneg r.burst_nonneg (le_refl 0)⟩,
    Or.inr ⟨_, rfl, getD_nonneg r.duration_nonneg (by norm_num)⟩, ⟨_, rfl⟩⟩

theorem proper_defaults (r : ReqDefaults) (k : String) :
    Proper { r.rule with key := .str k, duration := .nil } :=
  ⟨⟨k, rfl⟩, rate_val r.rate, ⟨_, rfl, getD_nonneg r.burst_nonneg (le_refl 0)⟩, Or.inl rfl,
    ⟨_, rfl⟩⟩

theorem rateNumber_scale {v : Val} {r : ℚ × ℚ} (h : RateLim.rateNumber v = .ok r) :
    0 < r.2 := by
  cases v with
  | str s =>
      simp only [RateLim.rateNumber] at h
      split at h
      · cases h
        unfold RateLim.splitRate
        dsimp only
        split
        · norm_num
        · split
          · norm_num
          · norm_num
      · cases h
  | arr xs =>
      simp only [RateLim.rateNumber] at h
      split at h <;> cases h
  | _ => cases h

theorem proper_new {r : ReqRule} (h : Proper r) :
    ∃ lim, RateLim.new (some "openresty") r.rate r.burst r.duration = .ok lim := by
  obtain ⟨-, ⟨t, hrate⟩, ⟨b, hburst, hb⟩, hduration, -⟩ := h
  obtain ⟨⟨q, scale⟩, hnumber, hq⟩ := t.accepted
  have hscale := rateNumber_scale hnumber
  have hd : ∃ d, (r.duration.or (.num 0)).toOrdered = .ok d ∧ 0 ≤ d := by
    rcases hduration with hnil | ⟨d, hd, hpos⟩
    · exact ⟨0, by rw [hnil]; rfl, le_refl 0⟩
    · exact ⟨d, by rw [hd]; rfl, hpos⟩
  obtain ⟨d, hdnum, hdpos⟩ := hd
  simp only [RateLim.new, hrate, RateText.val, Val.or_str, hnumber, hburst, Val.or_num,
    Val.toOrdered_num, hdnum, bind, Except.bind]
  rw [dif_pos ⟨hq, hscale⟩, dif_pos hb, dif_pos hdpos]
  exact ⟨_, rfl⟩

theorem proper_recordKey {r : ReqRule} (h : Proper r) (service : String) :
    ∃ key, recordKey (.str service) r = .ok key := by
  obtain ⟨⟨k, hk⟩, -, -, -, s, hs⟩ := h
  simp only [recordKey, hk, hs, Val.concat, Val.text_str, bind, Except.bind]
  exact ⟨_, rfl⟩

theorem ruleAt_proper {s : ReqSection} {rq : RequestVars} {place : Place} {args : ReqRule}
    (h : s.ruleAt rq place = some args) : Proper args := by
  cases place with
  | limitArg i =>
      obtain ⟨r, -, rfl⟩ := Option.map_eq_some_iff.mp h
      exact proper_limits r.2 r.1
  | defaultArg i =>
      obtain ⟨r, -, rfl⟩ := Option.map_eq_some_iff.mp h
      exact proper_defaults r _

theorem getConfig_proper (s : ReqSection) (rq : RequestVars) :
    ∃ o, getConfig s.conf rq = .ok o ∧ ∀ args ∈ o, Proper args := by
  refine ⟨_, governedBy_located s rq, fun args hargs => ?_⟩
  obtain ⟨place, -, hrule⟩ := Option.bind_eq_some_iff.mp hargs
  exact ruleAt_proper hrule

/-- The logic under the section: nothing for an ungoverned request, and else the
limiter of the governing rule. -/
theorem reqLimitLogic_of_governed {s : ReqSection} {rq : RequestVars} {args : ReqRule}
    {lim : { lim : RateLim // lim.Accepted }} (hargs : getConfig s.conf rq = .ok (some args))
    (hlim : RateLim.new (some "openresty") args.rate args.burst args.duration = .ok lim)
    (service : String) :
    ∃ key, reqLimitLogic s.conf (.str service) rq = limitReq lim.1 key s.conf.dryRun := by
  obtain ⟨o, ho, hproper⟩ := getConfig_proper s rq
  rw [hargs] at ho
  cases ho
  obtain ⟨key, hkey⟩ := proper_recordKey (hproper args rfl) service
  refine ⟨key, ?_⟩
  simp only [reqLimitLogic, hargs, hlim, hkey, Lua.lift_ok, Prog.ret_bind]

theorem reqLimitLogic_cases (s : ReqSection) (rq : RequestVars) (service : String) :
    reqLimitLogic s.conf (.str service) rq = .ret () ∨
    ∃ args lim key, getConfig s.conf rq = .ok (some args) ∧
      RateLim.new (some "openresty") args.rate args.burst args.duration = .ok lim ∧
      reqLimitLogic s.conf (.str service) rq = limitReq lim.1 key s.conf.dryRun := by
  obtain ⟨o, ho, hproper⟩ := getConfig_proper s rq
  cases o with
  | none =>
      left
      simp only [reqLimitLogic, ho, Lua.lift_ok, Prog.ret_bind]
      rfl
  | some args =>
      right
      obtain ⟨lim, hlim⟩ := proper_new (hproper args rfl)
      obtain ⟨key, hkey⟩ := reqLimitLogic_of_governed ho hlim service
      exact ⟨args, lim, key, ho, hlim, hkey⟩

end ReqlimitLogic

/-- The limiter of every request that a rule governs is usable. -/
def ReqSection.RatesUsable (s : ReqSection) : Prop :=
  ∀ rq args lim, ReqlimitLogic.getConfig s.conf rq = .ok (some args) →
    RateLim.new (some "openresty") args.rate args.burst args.duration = .ok lim →
    RateLim.Usable lim.1

theorem reqLimitLogic_finishes {s : ReqSection} (h : s.RatesUsable) (rq : RequestVars)
    (service : String) :
    (ReqlimitLogic.reqLimitLogic s.conf (.str service) rq).StopsIn Documented NoError := by
  rcases ReqlimitLogic.reqLimitLogic_cases s rq service with
    hnone | ⟨args, lim, key, hargs, hlim, heq⟩
  · rw [hnone]
    trivial
  · rw [heq]
    exact ReqlimitLogic.limitReq_finishes (h rq args lim hargs hlim) key _

theorem reqLimitLogic_returns (s : ReqSection) (rq : RequestVars) (service : String) :
    (ReqlimitLogic.reqLimitLogic s.conf (.str service) rq).MayReturn Documented () := by
  rcases ReqlimitLogic.reqLimitLogic_cases s rq service with
    hnone | ⟨args, lim, key, -, -, heq⟩
  · rw [hnone]
    rfl
  · rw [heq]
    exact ReqlimitLogic.limitReq_returns lim.1 key _

namespace ConnlimitLogic

structure Proper (r : ConnRule) : Prop where
  key : ∃ k, r.key = .str k
  max : ∃ q, r.max = .num q ∧ 0 < q
  burst : ∃ q, r.burst = .num q ∧ 0 ≤ q
  defaultConnDelay : ∃ q, r.defaultConnDelay = .num q ∧ 0 < q
  limitLocation : ∃ s, r.limitLocation = .str s

theorem getD_pos {a : Option ℚ} {d : ℚ} (h : ∀ q ∈ a, 0 < q) (hd : 0 < d) : 0 < a.getD d := by
  cases a with
  | none => exact hd
  | some q => exact h q rfl

theorem proper_rule (r : ConnLimits) (k : String) (d : Bool) : Proper (r.rule (.str k) d) :=
  ⟨⟨k, rfl⟩, ⟨_, rfl, getD_pos r.max_pos (by norm_num)⟩,
    ⟨_, rfl, ReqlimitLogic.getD_nonneg r.burst_nonneg (le_refl 0)⟩,
    ⟨_, rfl, getD_pos r.delay_pos (by norm_num)⟩, ⟨_, rfl⟩⟩

theorem proper_new {r : ConnRule} (h : Proper r) :
    ∃ lim, ConnLim.new r.max r.burst r.defaultConnDelay = .ok lim := by
  obtain ⟨-, ⟨m, hm, hmpos⟩, ⟨b, hb, hbpos⟩, ⟨d, hd, hdpos⟩, -⟩ := h
  simp only [ConnLim.new, hm, hb, hd, Val.toOrdered_num, bind, Except.bind]
  rw [dif_pos hmpos, dif_pos hbpos, dif_pos hdpos]
  exact ⟨_, rfl⟩

theorem proper_counterKey {r : ConnRule} (h : Proper r) (service : String) :
    ∃ key, counterKey (.str service) r = .ok key := by
  obtain ⟨⟨k, hk⟩, -, -, -, s, hs⟩ := h
  simp only [counterKey, hk, hs, Val.concat, Val.text_str, bind, Except.bind]
  exact ⟨_, rfl⟩

theorem ruleAt_proper {s : ConnSection} {rq : RequestVars} {place : Place} {args : ConnRule}
    (h : s.ruleAt rq place = some args) : Proper args := by
  cases place with
  | limitArg i =>
      obtain ⟨r, -, rfl⟩ := Option.map_eq_some_iff.mp h
      exact proper_rule r.2 r.1 _
  | defaultArg i =>
      obtain ⟨r, -, rfl⟩ := Option.map_eq_some_iff.mp h
      exact proper_rule r _ _

theorem getConfig_proper (s : ConnSection) (rq : RequestVars) :
    ∃ o, getConfig s.conf rq = .ok o ∧ ∀ args ∈ o, Proper args := by
  refine ⟨_, governedBy_governing s rq, fun args hargs => ?_⟩
  obtain ⟨place, -, hrule⟩ := Option.bind_eq_some_iff.mp hargs
  exact ruleAt_proper hrule

theorem limitConn_finishes (connLim : ConnLim) (key : String) (dryRun : Val) :
    (limitConn connLim key dryRun).StopsIn Documented NoError := by
  rw [limitConn_eq]
  intro reply _
  dsimp only
  split
  · exact refuse_finishes _ dryRun
  · split
    · intro undo _
      dsimp only
      split
      · exact refuse_finishes _ dryRun
      · exact refuse_finishes _ dryRun
    · intro _ _
      split
      · exact fun _ _ => trivial
      · trivial

theorem connLimitLogic_finishes (s : ConnSection) (rq : RequestVars) (service : String) :
    (connLimitLogic s.conf (.str service) rq).StopsIn Documented NoError := by
  obtain ⟨o, ho, hproper⟩ := getConfig_proper s rq
  have hlog : Val.concat [.str service, .str " conn limit is start"] =
      .ok (service ++ (" conn limit is start" ++ "")) := rfl
  cases o with
  | none =>
      simp only [connLimitLogic, hlog, ho, Lua.lift_ok, Prog.ret_bind]
      trivial
  | some args =>
      obtain ⟨lim, hlim⟩ := proper_new (hproper args rfl)
      obtain ⟨key, hkey⟩ := proper_counterKey (hproper args rfl) service
      simp only [connLimitLogic, hlog, ho, hlim, hkey, Lua.lift_ok, Prog.ret_bind]
      exact limitConn_finishes lim.1 key args.dryRun

end ConnlimitLogic

namespace AccessMain
open GetConf

theorem denyCheck_finishes (s : BasicSection) (rq : RequestVars) :
    (denyCheck s.conf rq).StopsIn Documented NoError := by
  have hrule : (IpDeny.ipRule s.conf.service rq).StopsIn Documented NoError := by
    intro black _
    show (if ConnLim.intRes (Reply.res black) = some 1 then _ else .ret false : Lua Bool).StopsIn
      _ _
    split
    · intro white _
      show (if ConnLim.intRes (Reply.res white) = some 1 then .ret false else .ret true :
        Lua Bool).StopsIn _ _
      split
      · trivial
      · trivial
    · trivial
  simp only [denyCheck]
  split
  · refine Prog.stopsIn_bind hrule (fun denied => ?_)
    cases denied with
    | true => trivial
    | false => trivial
  · trivial

theorem denyCheck_returns (s : BasicSection) (rq : RequestVars) :
    (denyCheck s.conf rq).MayReturn Documented () := by
  simp only [denyCheck]
  split
  · exact ⟨⟨.nil, none⟩, trivial, rfl⟩
  · rfl

section Entry
variable {conf : Dict} {rq : RequestVars} {v : Val} {entry : DomainEntry}

theorem app_eq {α : Type} {appCheck : Val → Except LuaError α} {x : Val} {name : String} {a : α}
    (hconf : conf rq.host = some (.json v)) (hv : v.isStr "" = false)
    (hx : v.index name = .ok x) (ha : appCheck x = .ok a) :
    app appCheck conf rq.host name = .ok (some a) := by
  simp [app, getDomainconfLocal, hconf, decode, hv, hx, ha, bind, Except.bind, pure, Except.pure]

theorem app_error {α : Type} {appCheck : Val → Except LuaError α} {x : Val} {name : String}
    {e : LuaError} (hconf : conf rq.host = some (.json v)) (hv : v.isStr "" = false)
    (hx : v.index name = .ok x) (he : appCheck x = .error e) :
    app appCheck conf rq.host name = .error e := by
  simp [app, getDomainconfLocal, hconf, decode, hv, hx, he, bind, Except.bind]

theorem getDomainconf_eq (hconf : conf rq.host = some (.json v)) :
    getDomainconf conf rq.host = .ok v := by
  simp [getDomainconf, hconf, decode]

theorem main_no_basic (conf : Dict) (rq : RequestVars) (hconf : conf rq.host = some (.json v))
    (hbasic : v.index "basic" = .ok .nil) : ∃ e, main conf rq = .stop (.error e) := by
  have hnil : v ≠ .nil := by
    rintro rfl
    cases hbasic
  have happ : app appCheckBasic conf rq.host "basic" = .ok none ∨
      ∃ e, app appCheckBasic conf rq.host "basic" = .error e := by
    cases hstr : v.isStr "" with
    | true =>
        exact Or.inl (by simp [app, getDomainconfLocal, hconf, decode, hstr, bind, Except.bind,
          pure, Except.pure])
    | false => exact Or.inr ⟨_, app_error hconf hstr hbasic rfl⟩
  simp only [main, getDomainconf_eq hconf, Lua.lift_ok, Prog.ret_bind]
  rcases happ with hnone | ⟨e, he⟩
  · rw [hnone]
    exact ⟨_, rfl⟩
  · rw [he]
    exact ⟨_, rfl⟩

theorem isStr_false {s : BasicSection} {x : Val} (hx : v.index "basic" = .ok x)
    (hs : s.Describes x) : v.isStr "" = false := by
  cases v with
  | str t =>
      cases hx
      cases hs.service
  | _ => rfl

theorem main_of_basic {s : BasicSection} {x : Val} (hconf : conf rq.host = some (.json v))
    (hx : v.index "basic" = .ok x) (hs : s.Describes x) :
    main conf rq = (do
      denyCheck s.conf rq
      reqlimitCheck conf s.conf.service rq
      connlimitCheck conf s.conf.service rq) := by
  have hnil : v ≠ .nil := by
    rintro rfl
    cases hx
  have happ := app_eq hconf (isStr_false hx hs) hx (appCheckBasic_eq hs)
  simp only [main, getDomainconf_eq hconf, Lua.lift_ok, Prog.ret_bind, happ]

theorem reqlimitCheck_eq {service : Val} (hconf : conf rq.host = some (.json v))
    (hv : v.isStr "" = false) (h : ReadsSection v "reqlimit" ReqSection.Describes entry.reqlimit) :
    reqlimitCheck conf service rq =
      match entry.reqlimit with
      | some s => ReqlimitLogic.reqLimitLogic s.conf service rq
      | none => .stop (.error (.index .nil)) := by
  simp only [reqlimitCheck]
  cases hsection : entry.reqlimit with
  | none =>
      rw [hsection] at h
      rw [app_error hconf hv h (e := .index .nil) rfl]
      rfl
  | some s =>
      rw [hsection] at h
      obtain ⟨x, hx, hs⟩ := h
      rw [app_eq hconf hv hx (appCheckReqlimit_eq hs)]
      rfl

theorem connlimitCheck_eq {service : Val} (hconf : conf rq.host = some (.json v))
    (hv : v.isStr "" = false)
    (h : ReadsSection v "connlimit" ConnSection.Describes entry.connlimit) :
    connlimitCheck conf service rq =
      match entry.connlimit with
      | some s => ConnlimitLogic.connLimitLogic s.conf service rq
      | none => .stop (.error (.index .nil)) := by
  simp only [connlimitCheck]
  cases hsection : entry.connlimit with
  | none =>
      rw [hsection] at h
      rw [app_error hconf hv h (e := .index .nil) rfl]
      rfl
  | some s =>
      rw [hsection] at h
      obtain ⟨x, hx, hs⟩ := h
      rw [app_eq hconf hv hx (appCheckConnlimit_eq hs)]
      rfl

end Entry
end AccessMain

namespace DomainEntry

/-- The checks of the sections that are there, under their defaults. -/
def checks (entry : DomainEntry) (rq : RequestVars) : Lua Unit := do
  let basic := (entry.basic.getD ⟨none, none⟩).conf
  AccessMain.denyCheck basic rq
  match entry.reqlimit with
  | some s => ReqlimitLogic.reqLimitLogic s.conf basic.service rq
  | none => return ()
  match entry.connlimit with
  | some s => ConnlimitLogic.connLimitLogic s.conf basic.service rq
  | none => return ()

/-- Every request to a domain with this entry is checked by exactly the sections that
are there, and its access phase ends without an error. -/
def Meets (entry : DomainEntry) (v : Val) : Prop :=
  ∀ conf rq, conf rq.host = some (.json v) →
    AccessMain.main conf rq = entry.checks rq ∧
      (AccessMain.main conf rq).StopsIn Documented NoError

/-- All three sections are there, and every governing rate is usable. -/
structure Complete (entry : DomainEntry) : Prop where
  basic : entry.basic.isSome
  reqlimit : ∃ s, entry.reqlimit = some s ∧ s.RatesUsable
  connlimit : entry.connlimit.isSome

theorem meets_of_complete {entry : DomainEntry} {v : Val} (h : entry.Describes v)
    (hcomplete : entry.Complete) : entry.Meets v := by
  obtain ⟨basic, reqlimit, connlimit⟩ := entry
  obtain ⟨hbasic, ⟨s, hs, husable⟩, hconn⟩ := hcomplete
  obtain ⟨b, rfl⟩ := Option.isSome_iff_exists.mp hbasic
  obtain ⟨c, rfl⟩ := Option.isSome_iff_exists.mp hconn
  cases hs
  intro conf rq hconf
  obtain ⟨x, hx, hdescribes⟩ := h.basic
  have hv := AccessMain.isStr_false hx hdescribes
  have hmain := AccessMain.main_of_basic hconf hx hdescribes
  rw [AccessMain.reqlimitCheck_eq hconf hv h.reqlimit,
    AccessMain.connlimitCheck_eq hconf hv h.connlimit] at hmain
  refine ⟨hmain, ?_⟩
  rw [hmain]
  exact Prog.stopsIn_bind (AccessMain.denyCheck_finishes b rq) (fun _ =>
    Prog.stopsIn_bind (reqLimitLogic_finishes husable rq _) (fun _ =>
      ConnlimitLogic.connLimitLogic_finishes c rq _))

theorem rest_finishes {entry : DomainEntry} {v x : Val} {b : BasicSection}
    (hmeets : entry.Meets v) (hx : v.index "basic" = .ok x) (hb : b.Describes x)
    (rq : RequestVars) :
    (AccessMain.reqlimitCheck (fun _ => some (.json v)) b.conf.service rq >>= fun _ =>
      AccessMain.connlimitCheck (fun _ => some (.json v)) b.conf.service rq).StopsIn
        Documented NoError := by
  have hfinish := (hmeets (fun _ => some (.json v)) rq rfl).2
  rw [AccessMain.main_of_basic rfl hx hb] at hfinish
  have hrest := Prog.stopsIn_rest hfinish (AccessMain.denyCheck_returns b rq)
  exact hrest

theorem complete_of_meets {entry : DomainEntry} {v : Val} (h : entry.Describes v)
    (hmeets : entry.Meets v) : entry.Complete := by
  obtain ⟨basic, reqlimit, connlimit⟩ := entry
  obtain ⟨hbasic, hreq, hconn⟩ := h
  have rq : RequestVars := ⟨"", none, "", none⟩
  cases basic with
  | none =>
      obtain ⟨e, he⟩ := AccessMain.main_no_basic (fun _ => some (.json v)) rq rfl hbasic
      have hfinish := (hmeets (fun _ => some (.json v)) rq rfl).2
      rw [he] at hfinish
      exact hfinish.elim
  | some b =>
      obtain ⟨x, hx, hb⟩ := hbasic
      have hv := AccessMain.isStr_false hx hb
      have hrest := fun rq => rest_finishes hmeets hx hb rq
      cases reqlimit with
      | none =>
          have hfinish := Prog.stopsIn_of_bind (hrest rq)
          rw [AccessMain.reqlimitCheck_eq rfl hv hreq] at hfinish
          exact hfinish.elim
      | some s =>
          have hlogic : ∀ rq, AccessMain.reqlimitCheck (fun _ => some (.json v))
              b.conf.service rq = ReqlimitLogic.reqLimitLogic s.conf b.conf.service rq :=
            fun rq => AccessMain.reqlimitCheck_eq rfl hv hreq
          refine ⟨rfl, ⟨s, rfl, fun rq args lim hargs hlim => ?_⟩, ?_⟩
          · by_contra husable
            have hfinish := Prog.stopsIn_of_bind (hrest rq)
            obtain ⟨key, hkey⟩ := ReqlimitLogic.reqLimitLogic_of_governed hargs hlim
              (b.service.getD "default")
            rw [hlogic, show b.conf.service = .str (b.service.getD "default") from rfl, hkey]
              at hfinish
            exact ReqlimitLogic.limitReq_raises lim.2 husable key _ hfinish
          · cases connlimit with
            | some c => rfl
            | none =>
                have hfinish := hrest rq
                rw [hlogic] at hfinish
                have hlast := Prog.stopsIn_rest hfinish
                  (reqLimitLogic_returns s rq (b.service.getD "default"))
                rw [AccessMain.connlimitCheck_eq rfl hv hconn] at hlast
                exact hlast.elim

def plainEntry : DomainEntry where
  basic := some ⟨some "gitlab", none⟩
  reqlimit := some plainReqlimit
  connlimit := some ⟨none, none, none, [], none, none⟩

def plainVal : Val :=
  .obj [("domain", .str "a.example"), ("basic", .obj [("service", .str "gitlab")]),
    ("reqlimit", .obj [("limit_args", .arr [.obj [("key", .str "10.0.0.0/8")]])]),
    ("connlimit", .obj [("limit_args", .arr [])])]

theorem plainVal_describes : plainEntry.Describes plainVal where
  basic := ⟨_, rfl, rfl, rfl⟩
  reqlimit := ⟨_, rfl, rfl, rfl, rfl,
    ⟨_, rfl, _, rfl, .cons ⟨rfl, rfl, rfl, rfl, rfl, rfl⟩ .nil⟩, rfl, rfl⟩
  connlimit := ⟨_, rfl, rfl, rfl, rfl, ⟨_, rfl, _, rfl, .nil⟩, rfl, rfl⟩

/-- Under the default burst of 0 every rate is usable. -/
theorem plainReqlimit_usable : plainReqlimit.RatesUsable := by
  intro rq args lim hargs hlim
  have hcode := ReqlimitLogic.governedBy_located plainReqlimit rq
  rw [ReqSection.GovernedBy, hargs] at hcode
  obtain ⟨place, -, hrule⟩ := Option.bind_eq_some_iff.mp (Except.ok.inj hcode).symm
  have hburst : args.burst = .num 0 := by
    cases place with
    | limitArg i =>
        obtain ⟨r, hr, rfl⟩ := Option.map_eq_some_iff.mp hrule
        cases List.mem_singleton.mp (List.mem_of_getElem? hr)
        rfl
    | defaultArg i => cases hrule
  obtain ⟨r, scale, b, d, -, -, -, hb, -, heq⟩ := RateLim.new_ok hlim
  right
  rw [hburst] at hb
  cases hb
  rw [heq]
  norm_num

def basicOnly : Val :=
  .obj [("domain", .str "a.example"), ("basic", .obj [("service", .str "gitlab")])]

end DomainEntry
end OpenrestyGateway
