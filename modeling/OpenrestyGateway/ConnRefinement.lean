import OpenrestyGateway.Connlimit

/-!
The connection limiter and the library it re-implements, resty.limit.conn.

The library counts in a shared dict of nginx, the limiter in Redis. Run on the same
operations one after the other, they answer alike and keep the same counters, as long as
nothing is uncommitted: the library then takes an increment back, the limiter adds
another one.
-/
namespace OpenrestyGateway
open Interleaving

/-- The counters in a shared dict; a key that was never counted has none. -/
abbrev SharedDict := String → Option Int

/-- `dict:incr(key, value, init)`: a missing key is an error unless there is an init. -/
def SharedDict.incr (dict : SharedDict) (key : String) (value : Int) (init : Option Int) :
    Except String Int × SharedDict :=
  match dict key, init with
  | some n, _ => (.ok (n + value), Function.update dict key (some (n + value)))
  | none, some i => (.ok (i + value), Function.update dict key (some (i + value)))
  | none, none => (.error "not found", dict)

/-- An operation on a limiter object, as both libraries name it. -/
inductive LimitOp where
  | incoming (key : String) (commit : Bool)
  | leaving (key : String) (reqLatency : Option ℚ)
  | uncommit (key : String)
  | setConn (conn : ℚ)
  | setBurst (burst : ℚ)

/-- What an operation returns: the result of `incoming` with is_committed, a new count
or nil and an error, or nothing. -/
inductive LimitAnswer where
  | incoming (r : ConnLim.Incoming)
  | count (n : Option Int) (err : Option String)
  | done
  deriving DecidableEq

namespace RestyLimitConn

def incoming (self : ConnLim) (dict : SharedDict) (key : String) (commit : Bool) :
    ConnLim.Incoming × SharedDict :=
  if commit then
    match dict.incr key 1 (some 0) with
    | (.error err, dict) => (.refused (some err), dict)
    | (.ok conn, dict) =>
        if self.max + self.burst < conn then
          match dict.incr key (-1) none with
          | (.error err, dict) => (.refused (some err), dict)
          | (.ok _, dict) => (.refused (some "rejected"), dict)
        else if self.max < conn then
          (.granted (self.unitDelay * ⌊((conn : ℚ) - 1) / self.max⌋) conn true, dict)
        else (.granted 0 conn true, dict)
  else
    let conn : ℚ := (((dict key).getD 0 : Int) : ℚ) + 1
    if self.max + self.burst < conn then (.refused (some "rejected"), dict)
    else if self.max < conn then
      (.granted (self.unitDelay * ⌊(conn - 1) / self.max⌋) conn false, dict)
    else (.granted 0 conn false, dict)

def leaving (self : ConnLim) (dict : SharedDict) (key : String) (reqLatency : Option ℚ) :
    LimitAnswer × ConnLim × SharedDict :=
  match dict.incr key (-1) none with
  | (.error err, dict) => (.count none (some err), self, dict)
  | (.ok conn, dict) =>
      match reqLatency with
      | some latency =>
          (.count (some conn) none,
            { self with unitDelay := (latency + self.unitDelay) / 2 }, dict)
      | none => (.count (some conn) none, self, dict)

def uncommit (dict : SharedDict) (key : String) : LimitAnswer × SharedDict :=
  match dict.incr key (-1) none with
  | (.error err, dict) => (.count none (some err), dict)
  | (.ok conn, dict) => (.count (some conn) none, dict)

def perform (self : ConnLim) (dict : SharedDict) : LimitOp → LimitAnswer × ConnLim × SharedDict
  | .incoming key commit =>
      (.incoming (incoming self dict key commit).1, self, (incoming self dict key commit).2)
  | .leaving key reqLatency => leaving self dict key reqLatency
  | .uncommit key => ((uncommit dict key).1, self, (uncommit dict key).2)
  | .setConn conn => (.done, { self with max := conn }, dict)
  | .setBurst burst => (.done, { self with burst := burst }, dict)

end RestyLimitConn

namespace ConnLim

def perform (lim : ConnLim) : LimitOp → Lua (LimitAnswer × ConnLim)
  | .incoming key commit => do
      let r ← lim.incoming key commit
      return (.incoming r, lim)
  | .leaving key reqLatency => do
      match ← lim.leaving key reqLatency with
      | (.ok conn, lim) => return (.count (some conn) none, lim)
      | (.error err, lim) => return (.count none err, lim)
  | .uncommit key => do
      let reply ← uncommit key
      return (.count (intRes reply.res) reply.err, lim)
  | .setConn conn => return (.done, lim.setConn conn)
  | .setBurst burst => return (.done, lim.setBurst burst)

/-- One operation against Redis, undisturbed and without failures. -/
def performAlone (lim : ConnLim) (store : RedisStore) (op : LimitOp) :
    Except Stop (LimitAnswer × ConnLim) × RedisStore :=
  Prog.run (fun s o => execOp s none o) store (lim.perform op)

end ConnLim

@[simp] theorem run_redis {α : Type} (s : RedisStore) (c : Command) (k : Reply → Lua α) :
    Prog.run (fun s o => execOp s none o) s (.call (.redis c) k) =
      Prog.run (fun s o => execOp s none o) (Redis.exec s c).2 (k (Redis.exec s c).1) := rfl

/-- Redis holds the counters of the dict. -/
def Mirrors (store : RedisStore) (dict : SharedDict) : Prop :=
  ∀ key, store.lookup key = (dict key).map (fun n => .str (.int n))

def SameCounters (store : RedisStore) (dict : SharedDict) : Prop :=
  ∀ key, Redis.counter store key = some ((dict key).getD 0)

/-- Every operation of the sequence answers alike and leaves the same counters. -/
def Agrees (lim : ConnLim) (store : RedisStore) (self : ConnLim) (dict : SharedDict) :
    List LimitOp → Prop
  | [] => True
  | op :: ops =>
      ∃ lim' store', lim.performAlone store op =
          (.ok ((RestyLimitConn.perform self dict op).1, lim'), store') ∧
        SameCounters store' (RestyLimitConn.perform self dict op).2.2 ∧
        Agrees lim' store' (RestyLimitConn.perform self dict op).2.1
          (RestyLimitConn.perform self dict op).2.2 ops

/-- Nothing is uncommitted, and only a key that was counted is left. -/
def OnlyLeaves (counted : String → Prop) : List LimitOp → Prop
  | [] => True
  | .incoming key true :: ops => OnlyLeaves (fun k => k = key ∨ counted k) ops
  | .leaving key _ :: ops => counted key ∧ OnlyLeaves counted ops
  | .uncommit _ :: _ => False
  | .incoming _ false :: ops | .setConn _ :: ops | .setBurst _ :: ops => OnlyLeaves counted ops

/-! ### One operation -/

section Step
variable {store : RedisStore} {dict : SharedDict}

theorem Mirrors.sameCounters (h : Mirrors store dict) : SameCounters store dict := by
  intro key
  simp only [Redis.counter]
  rw [h key]
  cases dict key <;> rfl

theorem lookup_modify (store : RedisStore) (key other : String) (v : Datum) :
    (store.modify key v).lookup other = if other = key then some v else store.lookup other := by
  simp only [Ttl.Store.lookup]
  split
  · rename_i heq
    rw [heq, Ttl.Store.entry_modify_self]
    rfl
  · rename_i hne
    rw [Ttl.Store.entry_modify_ne store v hne]

theorem Mirrors.modify (h : Mirrors store dict) (key : String) (n : Int) :
    Mirrors (store.modify key (.str (.int n))) (Function.update dict key (some n)) := by
  intro other
  rw [lookup_modify, Function.update_apply]
  split
  · rfl
  · exact h other

theorem Mirrors.incrBy (h : Mirrors store dict) (key : String) (d : Int) :
    (Redis.incrBy store key d).1 = ⟨.int ((dict key).getD 0 + d), none⟩ ∧
      Mirrors (Redis.incrBy store key d).2
        (Function.update dict key (some ((dict key).getD 0 + d))) := by
  have hlookup := h key
  cases hkey : dict key with
  | none =>
      rw [hkey] at hlookup
      simp only [Redis.incrBy, hlookup, Option.map_none, Option.getD_none, Int.zero_add]
      exact ⟨trivial, h.modify key d⟩
  | some n =>
      rw [hkey] at hlookup
      simp only [Redis.incrBy, hlookup, Option.map_some, Option.getD_some]
      exact ⟨trivial, h.modify key (n + d)⟩

theorem Mirrors.incr (h : Mirrors store dict) (key : String) :
    (Redis.exec store (.incr key)).1 = ⟨.int ((dict key).getD 0 + 1), none⟩ ∧
      Mirrors (Redis.exec store (.incr key)).2
        (Function.update dict key (some ((dict key).getD 0 + 1))) :=
  h.incrBy key 1

theorem Mirrors.decr (h : Mirrors store dict) (key : String) :
    (Redis.exec store (.decr key)).1 = ⟨.int ((dict key).getD 0 + -1), none⟩ ∧
      Mirrors (Redis.exec store (.decr key)).2
        (Function.update dict key (some ((dict key).getD 0 + -1))) :=
  h.incrBy key (-1)

theorem Mirrors.expire (h : Mirrors store dict) (key : String) :
    (∃ n, (Redis.exec store (.expire key 60)).1 = ⟨.int n, none⟩) ∧
      Mirrors (Redis.exec store (.expire key 60)).2 dict := by
  have hsame : ∀ other, (store.expire key 60).lookup other = store.lookup other := by
    intro other
    simp only [Ttl.Store.lookup]
    by_cases heq : other = key
    · subst heq
      cases he : store.entry other with
      | none => rw [Ttl.Store.entry_expire_none store other 60 he, he]
      | some e =>
          rw [Ttl.Store.entry_expire_self store other 60 e.1 e.2 he (by linarith)]
          rfl
    · rw [Ttl.Store.entry_expire_ne store 60 heq]
  have hden : ((60 : ℚ).den ≠ 1) = False := by decide +kernel
  simp only [Redis.exec, hden, if_false]
  split
  · exact ⟨⟨0, rfl⟩, h⟩
  · exact ⟨⟨1, rfl⟩, fun other => (hsame other).trans (h other)⟩

theorem SharedDict.incr_init (dict : SharedDict) (key : String) :
    dict.incr key 1 (some 0) = (.ok ((dict key).getD 0 + 1),
      Function.update dict key (some ((dict key).getD 0 + 1))) := by
  simp only [incr]
  cases dict key <;> rfl

theorem SharedDict.incr_counted {key : String} (h : dict key ≠ none) (value : Int) :
    dict.incr key value none = (.ok ((dict key).getD 0 + value),
      Function.update dict key (some ((dict key).getD 0 + value))) := by
  simp only [incr]
  cases hkey : dict key with
  | none => exact absurd hkey h
  | some n => rfl

theorem incoming_agrees (h : Mirrors store dict) (lim : ConnLim) (key : String)
    (commit : Bool) :
    ∃ store', Prog.run (fun s o => execOp s none o) store (lim.incoming key commit) =
        (.ok (RestyLimitConn.incoming lim dict key commit).1, store') ∧
      Mirrors store' (RestyLimitConn.incoming lim dict key commit).2 := by
  cases commit with
  | true =>
      obtain ⟨hreply, hincr⟩ := h.incr key
      obtain ⟨hundone, hdecr⟩ := hincr.decr key
      have hcounted : Function.update dict key (some ((dict key).getD 0 + 1)) key ≠ none := by
        simp
      simp only [ConnLim.incoming, RestyLimitConn.incoming, if_true, Lua.redis_bind, run_redis,
        hreply, ConnLim.intRes, dict.incr_init, SharedDict.incr_counted hcounted]
      by_cases hover : lim.max + lim.burst < (((dict key).getD 0 + 1 : Int) : ℚ)
      · have hlim : lim.Over ((dict key).getD 0 + 1 : Int) := hover
        simp only [hover, hlim, if_true, run_redis, hundone]
        exact ⟨_, rfl, hdecr⟩
      · have hlim : ¬ lim.Over ((dict key).getD 0 + 1 : Int) := hover
        simp only [hover, hlim, if_false]
        by_cases hmax : lim.max < (((dict key).getD 0 + 1 : Int) : ℚ)
        · simp only [hmax, if_true, ConnLim.delayOf]
          exact ⟨_, rfl, hincr⟩
        · simp only [hmax, if_false, ConnLim.delayOf]
          exact ⟨_, rfl, hincr⟩
  | false =>
      have hget : ∃ reply : Reply, Redis.exec store (.get key) = (reply, store) ∧
          ConnLim.storedConn reply.res = .ok (((dict key).getD 0 : Int) : ℚ) := by
        have hlookup := h key
        cases hkey : dict key with
        | none =>
            rw [hkey] at hlookup
            exact ⟨⟨.nil, none⟩, by simp [Redis.exec, hlookup], by simp [ConnLim.storedConn]⟩
        | some n =>
            rw [hkey] at hlookup
            exact ⟨⟨.str (.int n), none⟩, by simp [Redis.exec, hlookup], rfl⟩
      obtain ⟨reply, hexec, hstored⟩ := hget
      simp only [ConnLim.incoming, RestyLimitConn.incoming, Bool.false_eq_true, if_false,
        Lua.redis_bind, run_redis, hexec, hstored, Lua.lift_ok, Prog.ret_bind]
      by_cases hover : lim.max + lim.burst < (((dict key).getD 0 : Int) : ℚ) + 1
      · have hlim : lim.Over ((((dict key).getD 0 : Int) : ℚ) + 1) := hover
        simp only [hover, hlim, if_true]
        exact ⟨store, rfl, h⟩
      · have hlim : ¬ lim.Over ((((dict key).getD 0 : Int) : ℚ) + 1) := hover
        simp only [hover, hlim, if_false]
        by_cases hmax : lim.max < (((dict key).getD 0 : Int) : ℚ) + 1
        · simp only [hmax, if_true, ConnLim.delayOf]
          exact ⟨store, rfl, h⟩
        · simp only [hmax, if_false, ConnLim.delayOf]
          exact ⟨store, rfl, h⟩

theorem leaving_agrees (h : Mirrors store dict) (lim : ConnLim) {key : String}
    (hkey : dict key ≠ none) (reqLatency : Option ℚ) :
    ∃ store', lim.performAlone store (.leaving key reqLatency) =
        (.ok ((RestyLimitConn.leaving lim dict key reqLatency).1,
          (RestyLimitConn.leaving lim dict key reqLatency).2.1), store') ∧
      Mirrors store' (RestyLimitConn.leaving lim dict key reqLatency).2.2 := by
  obtain ⟨hreply, hdecr⟩ := h.decr key
  obtain ⟨⟨n, hexpired⟩, hexpire⟩ := hdecr.expire key
  simp only [ConnLim.performAlone, ConnLim.perform, ConnLim.leaving, RestyLimitConn.leaving,
    Lua.redis_bind, Prog.call_bind, run_redis, hreply, ConnLim.intRes,
    SharedDict.incr_counted hkey]
  by_cases hzero : (dict key).getD 0 + -1 = 0
  · simp only [hzero, if_true, Prog.call_bind, run_redis, hexpired]
    rw [hzero] at hexpire
    cases reqLatency with
    | none => exact ⟨_, rfl, hexpire⟩
    | some latency => exact ⟨_, rfl, hexpire⟩
  · simp only [hzero, if_false]
    cases reqLatency with
    | none => exact ⟨_, rfl, hdecr⟩
    | some latency => exact ⟨_, rfl, hdecr⟩

/-- The operations on which limiter and library agree. -/
def Shared (dict : SharedDict) : LimitOp → Prop
  | .uncommit _ => False
  | .leaving key _ => dict key ≠ none
  | .incoming _ _ | .setConn _ | .setBurst _ => True

theorem perform_agrees (h : Mirrors store dict) (lim : ConnLim) {op : LimitOp}
    (hop : Shared dict op) :
    ∃ store', lim.performAlone store op =
        (.ok ((RestyLimitConn.perform lim dict op).1,
          (RestyLimitConn.perform lim dict op).2.1), store') ∧
      Mirrors store' (RestyLimitConn.perform lim dict op).2.2 := by
  cases op with
  | incoming key commit =>
      obtain ⟨store', hrun, hmirrors⟩ := incoming_agrees h lim key commit
      refine ⟨store', ?_, hmirrors⟩
      simp only [ConnLim.performAlone, ConnLim.perform, Prog.run_bind, hrun]
      rfl
  | leaving key reqLatency => exact leaving_agrees h lim hop reqLatency
  | uncommit key => exact hop.elim
  | setConn conn | setBurst burst => exact ⟨store, rfl, h⟩

/-- On every other operation they answer differently. -/
theorem perform_differs (h : Mirrors store dict) (lim : ConnLim) {op : LimitOp}
    (hop : ¬ Shared dict op) (lim' : ConnLim) (store' : RedisStore) :
    lim.performAlone store op ≠ (.ok ((RestyLimitConn.perform lim dict op).1, lim'), store') := by
  cases op with
  | incoming key commit | setConn conn | setBurst burst => exact absurd trivial hop
  | leaving key reqLatency =>
      have hnone : dict key = none := not_not.mp hop
      obtain ⟨hreply, -⟩ := h.decr key
      rw [hnone, Option.getD_none] at hreply
      intro heq
      simp only [ConnLim.performAlone, ConnLim.perform, ConnLim.leaving, RestyLimitConn.perform,
        RestyLimitConn.leaving, SharedDict.incr, hnone, Lua.redis_bind, Prog.call_bind,
        run_redis, hreply, ConnLim.intRes] at heq
      cases reqLatency <;> simp at heq
  | uncommit key =>
      obtain ⟨hreply, -⟩ := h.incr key
      intro heq
      simp only [ConnLim.performAlone, ConnLim.perform, ConnLim.uncommit, RestyLimitConn.perform,
        RestyLimitConn.uncommit, SharedDict.incr, Lua.redis_bind, run_redis, hreply,
        ConnLim.intRes] at heq
      cases hkey : dict key <;> simp [hkey] at heq

end Step

/-! ### Sequences of operations -/

theorem incoming_dict (lim : ConnLim) (dict : SharedDict) (key : String) :
    ∃ n, (RestyLimitConn.incoming lim dict key true).2 = Function.update dict key (some n) := by
  have hcounted : Function.update dict key (some ((dict key).getD 0 + 1)) key ≠ none := by simp
  simp only [RestyLimitConn.incoming, if_true, dict.incr_init, SharedDict.incr_counted hcounted]
  split
  · exact ⟨_, Function.update_idem _ _ _⟩
  · split <;> exact ⟨_, rfl⟩

/-- The keys that are counted after an operation. -/
theorem perform_counted (lim : ConnLim) {dict : SharedDict} {op : LimitOp}
    (hop : Shared dict op) (k : String) :
    (RestyLimitConn.perform lim dict op).2.2 k ≠ none ↔
      op = .incoming k true ∨ dict k ≠ none := by
  cases op with
  | incoming key commit =>
      cases commit with
      | true =>
          obtain ⟨n, hn⟩ := incoming_dict lim dict key
          simp only [RestyLimitConn.perform, hn, LimitOp.incoming.injEq, and_true]
          by_cases hk : k = key
          · simp [hk]
          · simp [hk, Ne.symm hk]
      | false =>
          have hsame : (RestyLimitConn.incoming lim dict key false).2 = dict := by
            simp only [RestyLimitConn.incoming, Bool.false_eq_true, if_false]
            split
            · rfl
            · split <;> rfl
          simp [RestyLimitConn.perform, hsame]
  | leaving key reqLatency =>
      have hleft : (RestyLimitConn.leaving lim dict key reqLatency).2.2 =
          Function.update dict key (some ((dict key).getD 0 + -1)) := by
        simp only [RestyLimitConn.leaving, SharedDict.incr_counted hop]
        cases reqLatency <;> rfl
      simp only [RestyLimitConn.perform, hleft, reduceCtorEq, false_or]
      by_cases hk : k = key
      · subst hk
        exact ⟨fun _ => hop, fun _ => by simp⟩
      · simp [hk]
  | uncommit key => exact hop.elim
  | setConn conn | setBurst burst => simp [RestyLimitConn.perform]

theorem onlyLeaves_cons (lim : ConnLim) (dict : SharedDict) (op : LimitOp)
    (ops : List LimitOp) :
    OnlyLeaves (fun k => dict k ≠ none) (op :: ops) ↔ Shared dict op ∧
      OnlyLeaves (fun k => (RestyLimitConn.perform lim dict op).2.2 k ≠ none) ops := by
  have hcounted : Shared dict op →
      (fun k => (RestyLimitConn.perform lim dict op).2.2 k ≠ none) =
        fun k => op = .incoming k true ∨ dict k ≠ none :=
    fun hop => funext (fun k => propext (perform_counted lim hop k))
  cases op with
  | incoming key commit =>
      rw [hcounted trivial, Shared, true_and]
      cases commit with
      | true => simp only [OnlyLeaves, LimitOp.incoming.injEq, and_true, eq_comm]
      | false => simp only [OnlyLeaves, LimitOp.incoming.injEq, Bool.false_eq_true, and_false,
          false_or]
  | leaving key reqLatency =>
      refine and_congr_right (fun hop => ?_)
      rw [hcounted hop]
      simp only [reduceCtorEq, false_or]
  | uncommit key => exact ⟨False.elim, fun h => h.1.elim⟩
  | setConn conn | setBurst burst =>
      rw [hcounted trivial, Shared, true_and]
      simp only [OnlyLeaves, reduceCtorEq, false_or]

/-- Limiter and library, started from the same counters, agree on a sequence of
operations exactly if nothing is uncommitted and only counted keys are left. -/
theorem agrees_iff {store : RedisStore} {dict : SharedDict} (h : Mirrors store dict)
    (lim : ConnLim) (ops : List LimitOp) :
    Agrees lim store lim dict ops ↔ OnlyLeaves (fun k => dict k ≠ none) ops := by
  induction ops generalizing lim store dict with
  | nil => exact Iff.rfl
  | cons op ops ih =>
      rw [onlyLeaves_cons lim]
      constructor
      · rintro ⟨lim', store', hrun, -, hrest⟩
        by_cases hop : Shared dict op
        · obtain ⟨store'', hrun', hmirrors⟩ := perform_agrees h lim hop
          cases hrun.symm.trans hrun'
          exact ⟨hop, (ih hmirrors _).mp hrest⟩
        · exact absurd hrun (perform_differs h lim hop lim' store')
      · rintro ⟨hop, hrest⟩
        obtain ⟨store', hrun, hmirrors⟩ := perform_agrees h lim hop
        exact ⟨_, store', hrun, hmirrors.sameCounters, (ih hmirrors _).mpr hrest⟩

theorem agrees_iff_empty : Agrees ⟨200, 100, 1 / 2⟩ .empty ⟨200, 100, 1 / 2⟩ (fun _ => none)
    [.incoming "gitlab" true, .incoming "gitlab" false, .leaving "gitlab" (some (1 / 4))] :=
  (agrees_iff (fun _ => rfl) ⟨200, 100, 1 / 2⟩ _).mpr ⟨.inl rfl, trivial⟩

/-- An admitted request that is uncommitted is counted twice. -/
theorem uncommit_counts_again : ¬ Agrees ⟨200, 100, 1 / 2⟩ .empty ⟨200, 100, 1 / 2⟩
    (fun _ => none) [.incoming "gitlab" true, .uncommit "gitlab"] := by
  intro h
  have hmirrors : Mirrors .empty (fun _ => none) := fun _ => rfl
  obtain ⟨lim, store, hrun, -, lim', store', hrun', -⟩ := h
  obtain ⟨store₁, hrun₁, hmirrors₁⟩ := perform_agrees hmirrors ⟨200, 100, 1 / 2⟩
    (show Shared (fun _ => none) (.incoming "gitlab" true) from trivial)
  cases hrun.symm.trans hrun₁
  have hnot : ∀ dict, ¬ Shared dict (.uncommit "gitlab") := fun _ hshared => hshared
  exact perform_differs hmirrors₁ _ (hnot _) lim' store' hrun'

end OpenrestyGateway
