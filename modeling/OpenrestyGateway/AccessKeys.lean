import OpenrestyGateway.AccessMain

/-!
The Redis keys of a request. They are concatenations, so two keys can be the same
text although they come from different parts; within one service they cannot.
-/
namespace OpenrestyGateway
namespace AccessMain

/-- The service name a request's keys are built from. -/
def ServiceName (conf : Dict) (rq : RequestVars) (s : String) : Prop :=
  ∃ basic, GetConf.app GetConf.appCheckBasic conf rq.host "basic" = .ok (some basic) ∧
    basic.service.text = .ok s

theorem counterKey_eq_ok {service : Val} {args : ConnRule} {key : String}
    (h : ConnlimitLogic.counterKey service args = .ok key) :
    ∃ s k l, service.text = .ok s ∧ args.key.text = .ok k ∧ args.limitLocation.text = .ok l ∧
      key = "openresty:" ++ (s ++ (":connlimit:" ++ (k ++ (":" ++ l)))) := by
  obtain ⟨_, _, hprefix, hservice, rfl⟩ := Val.concat_eq_ok h
  obtain ⟨s, _, hs, hfamily, rfl⟩ := Val.concat_eq_ok hservice
  obtain ⟨_, _, hword, hpair, rfl⟩ := Val.concat_eq_ok hfamily
  obtain ⟨k, _, hk, hlocation, rfl⟩ := Val.concat_eq_ok hpair
  obtain ⟨_, _, hcolon, hlast, rfl⟩ := Val.concat_eq_ok hlocation
  obtain ⟨l, _, hl, hnil, rfl⟩ := Val.concat_eq_ok hlast
  cases hprefix
  cases hword
  cases hcolon
  cases hnil
  exact ⟨s, k, l, hs, hk, hl, by rw [String.append_empty]⟩

theorem recordKey_eq_ok {service : Val} {args : ReqRule} {key : String}
    (h : ReqlimitLogic.recordKey service args = .ok key) :
    ∃ s k l, service.text = .ok s ∧ args.key.text = .ok k ∧ args.limitLocation.text = .ok l ∧
      key = s ++ (":reqlimit:" ++ (k ++ (":" ++ l))) := by
  obtain ⟨s, _, hs, hfamily, rfl⟩ := Val.concat_eq_ok h
  obtain ⟨_, _, hword, hpair, rfl⟩ := Val.concat_eq_ok hfamily
  obtain ⟨k, _, hk, hlocation, rfl⟩ := Val.concat_eq_ok hpair
  obtain ⟨_, _, hcolon, hlast, rfl⟩ := Val.concat_eq_ok hlocation
  obtain ⟨l, _, hl, hnil, rfl⟩ := Val.concat_eq_ok hlast
  cases hword
  cases hcolon
  cases hnil
  exact ⟨s, k, l, hs, hk, hl, by rw [String.append_empty]⟩

theorem connlimitKey_eq_ok {conf : Dict} {rq : RequestVars} {key : String}
    (h : connlimitKey conf rq = .ok (some key)) :
    ∃ s rest, ServiceName conf rq s ∧ key = "openresty:" ++ (s ++ (":connlimit:" ++ rest)) := by
  obtain ⟨basic, hbasic, h⟩ := LuaError.bind_eq_ok h
  cases basic with
  | none => cases h
  | some basic =>
      obtain ⟨table, -, h⟩ := LuaError.bind_eq_ok h
      cases table with
      | none => cases h
      | some table =>
          obtain ⟨args, -, h⟩ := LuaError.bind_eq_ok h
          cases args with
          | none => cases h
          | some args =>
              obtain ⟨k, hk, h⟩ := LuaError.bind_eq_ok h
              cases h
              obtain ⟨s, _, _, hs, -, -, hkey⟩ := counterKey_eq_ok hk
              exact ⟨s, _, ⟨basic, hbasic, hs⟩, hkey⟩

theorem reqlimitKey_eq_ok {conf : Dict} {rq : RequestVars} {key : String}
    (h : reqlimitKey conf rq = .ok (some key)) :
    ∃ s rest, ServiceName conf rq s ∧
      key = "openresty" ++ ":" ++ (s ++ (":reqlimit:" ++ rest)) := by
  obtain ⟨basic, hbasic, h⟩ := LuaError.bind_eq_ok h
  cases basic with
  | none => cases h
  | some basic =>
      obtain ⟨table, -, h⟩ := LuaError.bind_eq_ok h
      cases table with
      | none => cases h
      | some table =>
          obtain ⟨args, -, h⟩ := LuaError.bind_eq_ok h
          cases args with
          | none => cases h
          | some args =>
              obtain ⟨k, hk, h⟩ := LuaError.bind_eq_ok h
              cases h
              obtain ⟨s, _, _, hs, -, -, rfl⟩ := recordKey_eq_ok hk
              exact ⟨s, _, ⟨basic, hbasic, hs⟩, rfl⟩

theorem tail_eq_of_notMem {c : Char} {l l' r r' : List Char} (h : c ∉ l) (h' : c ∉ l')
    (heq : l ++ c :: r = l' ++ c :: r') : r = r' := by
  rcases List.append_eq_append_iff.mp heq with ⟨m, hl', hr⟩ | ⟨m, hl, hr⟩
  · cases m with
    | nil => exact (List.cons.inj hr).2
    | cons d m =>
        rw [← (List.cons.inj hr).1] at hl'
        exact absurd (by simp [hl']) h'
  · cases m with
    | nil => exact (List.cons.inj hr).2.symm
    | cons d m =>
        rw [← (List.cons.inj hr).1] at hl
        exact absurd (by simp [hl]) h

/-- Where a counter's key and a record's key are the same, so is what follows the
prefix. -/
theorem service_tails_eq {s s' rest rest' : String}
    (h : "openresty:" ++ (s ++ (":connlimit:" ++ rest)) =
      "openresty" ++ ":" ++ (s' ++ (":reqlimit:" ++ rest'))) :
    s.toList ++ ':' :: ("connlimit:".toList ++ rest.toList) =
      s'.toList ++ ':' :: ("reqlimit:".toList ++ rest'.toList) := by
  have hchars := congrArg String.toList h
  simpa only [String.toList_append,
    show "openresty:".toList = "openresty".toList ++ ":".toList from rfl,
    show ":connlimit:".toList = ':' :: "connlimit:".toList from rfl,
    show ":reqlimit:".toList = ':' :: "reqlimit:".toList from rfl,
    List.append_assoc, List.append_cancel_left_eq, List.cons_append] using hchars

theorem counter_ne_record (s rest rest' : String) :
    "openresty:" ++ (s ++ (":connlimit:" ++ rest)) ≠
      "openresty" ++ ":" ++ (s ++ (":reqlimit:" ++ rest')) := by
  intro h
  cases (List.cons.inj (List.append_cancel_left (service_tails_eq h))).2

/-- One request is never limited by a record under the key of its own counter. -/
theorem reqlimitKey_ne_connlimitKey {conf : Dict} {rq : RequestVars} {key : String}
    (h : connlimitKey conf rq = .ok (some key)) : reqlimitKey conf rq ≠ .ok (some key) := by
  intro h'
  obtain ⟨s, rest, ⟨basic, hbasic, hs⟩, rfl⟩ := connlimitKey_eq_ok h
  obtain ⟨s', rest', ⟨basic', hbasic', hs'⟩, hkey⟩ := reqlimitKey_eq_ok h'
  cases hbasic.symm.trans hbasic'
  cases hs.symm.trans hs'
  exact counter_ne_record s rest rest' hkey

end AccessMain
end OpenrestyGateway
