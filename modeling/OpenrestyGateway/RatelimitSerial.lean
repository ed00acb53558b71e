import OpenrestyGateway.RatelimitBan

/-!
Calls on one key at once, against the same calls one after the other.

Each call has read the clock; its GET, SET and EXPIRE are interleaved with those
of the others. A call takes effect at its SET, or at its GET if it writes nothing.
The order of these points is the sequential order, as long as no SET writes what
a fresh GET would no longer lead to.
-/
namespace OpenrestyGateway
open Interleaving

namespace RateLim

def afterClock {α : Type} (now : ℚ) : Lua α → Lua α
  | .call .now k => k now
  | p => p

def requests (lim : RateLim) (key : String) (nows : List ℚ) : List (Lua Incoming) :=
  nows.map (fun now => afterClock now (lim.incoming key))

def runAlone (lim : RateLim) (key : String) (now : ℚ) (s : RedisStore) :
    Except Stop Incoming × RedisStore :=
  Prog.run (fun s o => execOp s none o) s (afterClock now (lim.incoming key))

/-- The calls one after the other, in the given order, with their answers. -/
def serial (lim : RateLim) (key : String) (nows : List ℚ) (s : RedisStore)
    (order : List Nat) : List (Except Stop Incoming) × RedisStore :=
  order.foldl (fun acc i =>
    (acc.1 ++ [(runAlone lim key (nows.getD i 0) acc.2).1],
      (runAlone lim key (nows.getD i 0) acc.2).2)) ([], s)

theorem serial_append (lim : RateLim) (key : String) (nows : List ℚ) (s : RedisStore)
    (order : List Nat) (i : Nat) :
    serial lim key nows s (order ++ [i]) =
      ((serial lim key nows s order).1 ++
          [(runAlone lim key (nows.getD i 0) (serial lim key nows s order).2).1],
        (runAlone lim key (nows.getD i 0) (serial lim key nows s order).2).2) :=
  List.foldl_append

def readRes : Option Datum → Res
  | some (.str t) => .str t
  | _ => .nil

theorem get_eq (s : RedisStore) (key : String) :
    (Redis.exec s (.get key)).1.res = readRes (s.lookup key) ∧
      (Redis.exec s (.get key)).2 = s := by
  simp only [Redis.exec]
  cases s.lookup key with
  | none => exact ⟨rfl, rfl⟩
  | some d => cases d <;> exact ⟨rfl, rfl⟩

/-- The verdict behind the record a call is about to SET. -/
def pendingVerdict : Lua Incoming → Option Verdict
  | .call (.redis (.set _ (.json (.arr [.num excess, _, .num forbidden])))) _ =>
      some (if forbidden = 1 then .busy excess else .pass excess)
  | _ => none

/-- What a call has been answered, from the point on where it took effect. -/
def answered : Lua Incoming → Option (Except Stop Incoming)
  | .ret a => some (.ok a)
  | .stop e => some (.error e)
  | .call (.redis (.expire _ _)) k =>
      match k ⟨.int 1, none⟩ with
      | .ret a => some (.ok a)
      | _ => none
  | .call _ _ => none

/-- No command fails, and a call that executes its SET would come to the same
verdict if it read the record now. -/
def UpToDate (lim : RateLim) (key : String) (nows : List ℚ) (q : LimitPool) :
    Label (Option Fault) ℚ≥0 → Prop
  | .run i fault => fault.isNone ∧ ∀ v ∈ (q.procs[i]?).bind pendingVerdict,
      weigh lim (nows.getD i 0 * 1000) (readRes (q.store.lookup (lim.recordKey key))) = .ok v
  | .outside _ => False

instance (lim : RateLim) (key : String) (nows : List ℚ) (q : LimitPool)
    (l : Label (Option Fault) ℚ≥0) : Decidable (UpToDate lim key nows q l) :=
  match l with
  | .run i fault => inferInstanceAs (Decidable (fault.isNone ∧
      ∀ v ∈ (q.procs[i]?).bind pendingVerdict,
        weigh lim (nows.getD i 0 * 1000)
          (readRes (q.store.lookup (lim.recordKey key))) = .ok v))
  | .outside _ => .isFalse id

/-- Where a call stands that read the clock at `now` (in milliseconds). -/
inductive Point (lim : RateLim) (key : String) (now : ℚ) : Lua Incoming → Prop where
  | reading : Point lim key now
      (.call (.redis (.get key)) (fun reply : Reply => afterGet lim key now reply.res))
  | writing (v : Verdict) (t : Text) (seconds : ℚ) : v.write lim now = some (t, seconds) →
      Point lim key now (.call (.redis (.set key t)) (fun _ =>
        .call (.redis (.expire key seconds)) (fun _ => .ret (v.answer lim))))
  | expiring (seconds : ℚ) (a : Incoming) : 0 < seconds →
      Point lim key now (.call (.redis (.expire key seconds)) (fun _ => .ret a))
  | returned (a : Incoming) : Point lim key now (.ret a)
  | raised (e : Stop) : Point lim key now (.stop e)

theorem afterClock_incoming (lim : RateLim) (key : String) (now : ℚ) :
    afterClock now (lim.incoming key) =
      .call (.redis (.get (lim.recordKey key))) (fun reply : Reply =>
        afterGet lim (lim.recordKey key) (now * 1000) reply.res) := by
  rw [incoming_eq]
  rfl

theorem write_lifetime_pos {lim : RateLim} {now : ℚ} {v : Verdict} {t : Text} {seconds : ℚ}
    (h : v.write lim now = some (t, seconds)) : 0 < seconds := by
  cases v with
  | forbidden => cases h
  | busy x =>
      simp only [Verdict.write] at h
      split at h
      · cases h
        assumption
      · cases h
  | pass x =>
      cases h
      norm_num

theorem pendingVerdict_writing {lim : RateLim} {key : String} {now : ℚ} {v : Verdict}
    {t : Text} {seconds : ℚ} (h : v.write lim now = some (t, seconds))
    (k : Reply → Lua Incoming) :
    pendingVerdict (.call (.redis (.set key t)) k) = some v := by
  cases v with
  | forbidden => cases h
  | busy x =>
      simp only [Verdict.write] at h
      split at h
      · cases h
        simp [pendingVerdict, record]
      · cases h
  | pass x =>
      cases h
      simp [pendingVerdict, record]

section Value
variable {lim : RateLim} {key : String} {s : RedisStore}

theorem lookup_put (s : RedisStore) (key : String) (t : Text) :
    (execOp s none (.redis (.set key t))).2.lookup key = some (.str t) := by
  simp [execOp, Redis.exec, Ttl.Store.lookup]

theorem lookup_expire (s : RedisStore) (key : String) {seconds : ℚ} (h : 0 < seconds) :
    (execOp s none (.redis (.expire key seconds))).2.lookup key = s.lookup key := by
  rw [execOp_expire]
  split
  · cases he : s.entry key with
    | none => rw [Ttl.Store.entry_expire_none s key seconds he]
    | some e =>
        have hnew := Ttl.Store.entry_expire_self s key seconds e.1 e.2 he (by linarith)
        simp only [Ttl.Store.lookup, he, hnew, Option.map_some]
  · rfl

/-- Alone on the server, a call answers by the verdict from the record it finds,
and leaves the record of that verdict. -/
theorem runAlone_eq (now : ℚ) {v : Verdict}
    (h : weigh lim (now * 1000) (readRes (s.lookup (lim.recordKey key))) = .ok v) :
    (runAlone lim key now s).1 = .ok (v.answer lim) ∧
      (runAlone lim key now s).2.lookup (lim.recordKey key) =
        match v.write lim (now * 1000) with
        | none => s.lookup (lim.recordKey key)
        | some (t, _) => some (.str t) := by
  obtain ⟨hres, hsame⟩ := get_eq s (lim.recordKey key)
  simp only [runAlone, afterClock_incoming, Prog.run_call, execOp, hres, hsame, afterGet, h]
  cases hw : v.write lim (now * 1000) with
  | none => exact ⟨rfl, rfl⟩
  | some w =>
      refine ⟨rfl, ?_⟩
      simp only [writeBack, Prog.run_call, Prog.run_ret]
      exact (lookup_expire _ _ (write_lifetime_pos hw)).trans (lookup_put s _ w.1)

theorem runAlone_error (now : ℚ) {e : LuaError}
    (h : weigh lim (now * 1000) (readRes (s.lookup (lim.recordKey key))) = .error e) :
    (runAlone lim key now s).1 = .error (.error e) ∧
      (runAlone lim key now s).2.lookup (lim.recordKey key) =
        s.lookup (lim.recordKey key) := by
  obtain ⟨hres, hsame⟩ := get_eq s (lim.recordKey key)
  simp only [runAlone, afterClock_incoming, Prog.run_call, execOp, hres, hsame, afterGet, h]
  exact ⟨rfl, rfl⟩

end Value

/-- The calls that have taken effect, in the order in which they did, one after
the other: the same answers and the same value under the key. -/
structure Linearized (lim : RateLim) (key : String) (nows : List ℚ) (store : RedisStore)
    (q : LimitPool) (order : List Nat) : Prop where
  length : q.procs.length = nows.length
  nodup : order.Nodup
  effective : ∀ i, i ∈ order ↔ ((q.procs[i]?).bind answered).isSome
  point : ∀ (i : Nat) p, q.procs[i]? = some p →
    Point lim (lim.recordKey key) (nows.getD i 0 * 1000) p
  answers : (serial lim key nows store order).1.map some =
    order.map (fun i => (q.procs[i]?).bind answered)
  value : (serial lim key nows store order).2.lookup (lim.recordKey key) =
    q.store.lookup (lim.recordKey key)

section Steps
variable {lim : RateLim} {key : String} {nows : List ℚ} {store : RedisStore}
  {q q' : LimitPool} {order : List Nat} {i : Nat} {p p' : Lua Incoming}

theorem answered_set (hp : q.procs[i]? = some p) (j : Nat) :
    ((q.procs.set i p')[j]?).bind answered =
      if i = j then answered p' else (q.procs[j]?).bind answered := by
  by_cases hij : i = j
  · subst hij
    have hlt : i < q.procs.length := (List.getElem?_eq_some_iff.mp hp).1
    simp [hlt]
  · simp [hij]

theorem point_set (hp : q.procs[i]? = some p)
    (h : ∀ (j : Nat) r, q.procs[j]? = some r →
      Point lim (lim.recordKey key) (nows.getD j 0 * 1000) r)
    (hp' : Point lim (lim.recordKey key) (nows.getD i 0 * 1000) p') :
    ∀ (j : Nat) r, (q.procs.set i p')[j]? = some r →
      Point lim (lim.recordKey key) (nows.getD j 0 * 1000) r := by
  intro j r hr
  by_cases hij : i = j
  · subst hij
    have hlt : i < q.procs.length := (List.getElem?_eq_some_iff.mp hp).1
    simp only [List.getElem?_set_self hlt, Option.some.injEq] at hr
    exact hr ▸ hp'
  · rw [List.getElem?_set_ne hij] at hr
    exact h j r hr

theorem linearized_silent (h : Linearized lim key nows store q order)
    (hp : q.procs[i]? = some p) (hprocs : q'.procs = q.procs.set i p')
    (hp' : Point lim (lim.recordKey key) (nows.getD i 0 * 1000) p')
    (hanswer : answered p' = answered p)
    (hvalue : q'.store.lookup (lim.recordKey key) = q.store.lookup (lim.recordKey key)) :
    Linearized lim key nows store q' order := by
  have hsame : ∀ j : Nat, ((q.procs.set i p')[j]?).bind answered = (q.procs[j]?).bind answered := by
    intro j
    rw [answered_set hp]
    split
    · rename_i hij
      subst hij
      rw [hanswer, hp]
      rfl
    · rfl
  constructor
  · rw [hprocs, List.length_set]
    exact h.length
  · exact h.nodup
  · intro j
    rw [hprocs, hsame]
    exact h.effective j
  · rw [hprocs]
    exact point_set hp h.point hp'
  · simp only [hprocs, hsame]
    exact h.answers
  · rw [hvalue]
    exact h.value

/-- The step in which a call takes effect: it does what it does alone on the
server after those before it. -/
theorem linearized_effect (h : Linearized lim key nows store q order)
    (hp : q.procs[i]? = some p) (hprocs : q'.procs = q.procs.set i p')
    (hp' : Point lim (lim.recordKey key) (nows.getD i 0 * 1000) p')
    (hbefore : answered p = none)
    (hanswer : answered p' =
      some (runAlone lim key (nows.getD i 0) (serial lim key nows store order).2).1)
    (hvalue : (runAlone lim key (nows.getD i 0) (serial lim key nows store order).2).2.lookup
      (lim.recordKey key) = q'.store.lookup (lim.recordKey key)) :
    Linearized lim key nows store q' (order ++ [i]) := by
  have hnew : i ∉ order := by
    intro hmem
    have hsome := (h.effective i).mp hmem
    rw [hp, Option.bind_some, hbefore] at hsome
    cases hsome
  constructor
  · rw [hprocs, List.length_set]
    exact h.length
  · exact List.nodup_append.mpr ⟨h.nodup, by simp, by
      intro a ha b hb hab
      rw [List.mem_singleton.mp hb] at hab
      exact hnew (hab ▸ ha)⟩
  · intro j
    rw [hprocs, answered_set hp, List.mem_append, List.mem_singleton, h.effective j]
    split
    · rename_i hij
      simp [hij, hanswer]
    · rename_i hij
      simp [Ne.symm hij]
  · rw [hprocs]
    exact point_set hp h.point hp'
  · have hold : order.map (fun j => ((q.procs.set i p')[j]?).bind answered) =
        order.map (fun j => (q.procs[j]?).bind answered) := by
      refine List.map_congr_left (fun j hj => ?_)
      rw [answered_set hp]
      have hne : i ≠ j := fun hij => hnew (hij ▸ hj)
      exact if_neg hne
    rw [serial_append, hprocs, List.map_append, List.map_append, h.answers, hold]
    simp only [List.map_cons, List.map_nil, answered_set hp, if_true, hanswer]
  · rw [serial_append]
    exact hvalue

/-- Every up-to-date step keeps the calls in a sequential order. -/
theorem linearized_step {l : Label (Option Fault) ℚ≥0}
    (h : Linearized lim key nows store q order) (hok : UpToDate lim key nows q l)
    (hstep : limiters.step q l = some q') : ∃ order', Linearized lim key nows store q' order' := by
  obtain ⟨i, fault, p, o, k, rfl, hp, hk, rfl⟩ | ⟨dt, rfl, rfl⟩ := limiters.step_cases hstep
  · obtain ⟨hfault, hverdict⟩ := hok
    obtain rfl : fault = none := Option.isNone_iff_eq_none.mp hfault
    rw [hp, Option.bind_some] at hverdict
    have hvalue := h.value
    cases h.point i p hp with
    | returned _ | raised _ => cases hk
    | reading =>
        cases hk
        obtain ⟨hres, hsame⟩ := get_eq q.store (lim.recordKey key)
        simp only [limiters, execOp, hres, hsame, afterGet]
        cases hweigh : weigh lim (nows.getD i 0 * 1000)
            (readRes (q.store.lookup (lim.recordKey key))) with
        | error e =>
            obtain ⟨hanswer, hkeep⟩ := runAlone_error (nows.getD i 0) (hvalue ▸ hweigh)
            exact ⟨_, linearized_effect h hp rfl (.raised _) rfl
              (by rw [hanswer]; rfl) (hkeep.trans hvalue)⟩
        | ok v =>
            obtain ⟨hanswer, hkeep⟩ := runAlone_eq (nows.getD i 0) (hvalue ▸ hweigh)
            cases hw : v.write lim (nows.getD i 0 * 1000) with
            | none =>
                rw [hw] at hkeep
                exact ⟨_, linearized_effect h hp rfl (by simp only [hw]; exact .returned _) rfl
                  (by rw [hanswer]; simp only [hw]; rfl) (hkeep.trans hvalue)⟩
            | some w =>
                exact ⟨order, linearized_silent h hp rfl
                  (by simpa only [hw] using .writing v w.1 w.2 hw) (by simp only [hw]; rfl) rfl⟩
    | writing v t seconds hw =>
        cases hk
        have hweigh := hverdict v (pendingVerdict_writing hw _)
        obtain ⟨hanswer, hkeep⟩ := runAlone_eq (nows.getD i 0) (hvalue ▸ hweigh)
        rw [hw] at hkeep
        exact ⟨_, linearized_effect h hp rfl (.expiring seconds _ (write_lifetime_pos hw)) rfl
          (by rw [hanswer]; rfl) (hkeep.trans (lookup_put q.store _ t).symm)⟩
    | expiring seconds a hpos =>
        cases hk
        exact ⟨order, linearized_silent h hp rfl (.returned a) rfl
          (lookup_expire q.store _ hpos)⟩
  · exact hok.elim

end Steps

theorem linearized_start (lim : RateLim) (key : String) (nows : List ℚ) (store : RedisStore) :
    Linearized lim key nows store (Pool.start (requests lim key nows) store) [] := by
  have hcall : ∀ (i : Nat) p, (requests lim key nows)[i]? = some p →
      p = afterClock (nows.getD i 0) (lim.incoming key) := by
    intro i p hp
    simp only [requests, List.getElem?_map, Option.map_eq_some_iff] at hp
    obtain ⟨now, hnow, rfl⟩ := hp
    rw [List.getD_eq_getElem?_getD, hnow]
    rfl
  constructor
  · simp [Pool.start, requests]
  · exact List.nodup_nil
  · intro i
    cases hp : (requests lim key nows)[i]? with
    | none => simp [Pool.start, hp]
    | some p =>
        simp [Pool.start, hp, hcall i p hp, afterClock_incoming, answered]
  · intro i p hp
    rw [hcall i p hp, afterClock_incoming]
    exact .reading
  · rfl
  · rfl

/-- Serializability: if no SET writes what a fresh GET would no longer lead to,
then some sequential order of the calls gives each of them the same answer and
leaves the same record. -/
theorem serializable (lim : RateLim) (key : String) (nows : List ℚ) (store : RedisStore)
    (q : LimitPool)
    (hq : limiters.Reaches (UpToDate lim key nows) (Pool.start (requests lim key nows) store) q)
    (finished : ∀ p ∈ q.procs, callNext p = none) :
    ∃ order : List Nat, order.Perm (List.range nows.length) ∧
      (serial lim key nows store order).1.map some =
        order.map (fun i => (q.procs[i]?).bind answered) ∧
      (serial lim key nows store order).2.lookup (lim.recordKey key) =
        q.store.lookup (lim.recordKey key) := by
  obtain ⟨order, h⟩ := hq.invariant
    (I := fun r => ∃ order, Linearized lim key nows store r order)
    ⟨[], linearized_start lim key nows store⟩
    (fun _ _ _ ⟨_, hI⟩ hok hstep => linearized_step hI hok hstep)
  refine ⟨order, (List.perm_ext_iff_of_nodup h.nodup List.nodup_range).mpr ?_,
    h.answers, h.value⟩
  intro i
  rw [h.effective i, List.mem_range, ← h.length]
  by_cases hi : i < q.procs.length
  · have hdone := finished q.procs[i] (List.getElem_mem hi)
    rw [List.getElem?_eq_getElem hi, Option.bind_some]
    cases hp : q.procs[i] with
    | ret _ | stop _ => simp [answered, hi]
    | call _ _ =>
        rw [hp] at hdone
        cases hdone
  · simp [hi]

theorem serializable_in_turn : ∃ (q : LimitPool) (order : List Nat),
    limiters.Reaches (UpToDate ⟨"openresty", 1000, 0, 0⟩ "gitlab:reqlimit:alice:" [0, 1 / 2])
      (Pool.start (requests ⟨"openresty", 1000, 0, 0⟩ "gitlab:reqlimit:alice:" [0, 1 / 2])
        .empty) q ∧
    order.Perm (List.range 2) ∧
    (serial ⟨"openresty", 1000, 0, 0⟩ "gitlab:reqlimit:alice:" [0, 1 / 2] .empty order).1.map
      some = order.map (fun i => (q.procs[i]?).bind answered) := by
  obtain ⟨q, hq, hrun⟩ := limiters.exists_reaches_if
    (C := UpToDate ⟨"openresty", 1000, 0, 0⟩ "gitlab:reqlimit:alice:" [0, 1 / 2])
    (p := Pool.start (requests ⟨"openresty", 1000, 0, 0⟩ "gitlab:reqlimit:alice:" [0, 1 / 2])
      .empty)
    (fun q : LimitPool => q.procs.all (fun p => (callNext p).isNone)) (b := true)
    [.run 0 none, .run 0 none, .run 0 none, .run 1 none] (by decide +kernel)
  have finished : ∀ p ∈ q.procs, callNext p = none :=
    fun p hp => Option.isNone_iff_eq_none.mp (List.all_eq_true.mp hrun p hp)
  obtain ⟨order, hperm, hanswers, -⟩ := serializable _ _ _ _ q hq finished
  exact ⟨q, order, hq, hperm, hanswers⟩

theorem perm_pair {order : List Nat} (h : order.Perm (List.range 2)) :
    order = [0, 1] ∨ order = [1, 0] := by
  obtain ⟨a, b, rfl⟩ := List.length_eq_two.mp h.length_eq
  have hnodup : [a, b].Nodup := h.nodup_iff.mpr List.nodup_range
  have ha := h.mem_iff.mp (List.mem_cons_self : a ∈ [a, b])
  have hb := h.mem_iff.mp (List.mem_cons_of_mem a List.mem_cons_self : b ∈ [a, b])
  simp only [List.mem_range, List.nodup_cons, List.mem_singleton] at ha hb hnodup
  have hne := hnodup.1
  have : (a = 0 ∧ b = 1) ∨ (a = 1 ∧ b = 0) := by omega
  rcases this with ⟨rfl, rfl⟩ | ⟨rfl, rfl⟩
  · exact .inl rfl
  · exact .inr rfl

/-- Two calls at the same time, one request a second allowed and no burst: both
read that there is no record yet, both write one, and both are admitted. -/
theorem both_admitted : ∃ lim,
    RateLim.new (some "openresty") (.str "1r/s") (.num 0) (.num 0) = .ok lim ∧
    ¬ ∀ q : LimitPool,
      limiters.Reaches (fun _ l => l = .run 0 none ∨ l = .run 1 none)
        (Pool.start (requests lim.1 "gitlab:reqlimit:alice:" [1730000000, 1730000000]) .empty) q →
      (∀ p ∈ q.procs, callNext p = none) →
      ∃ order : List Nat, order.Perm (List.range 2) ∧
        (serial lim.1 "gitlab:reqlimit:alice:" [1730000000, 1730000000] .empty order).1.map some =
          order.map (fun i => (q.procs[i]?).bind answered) := by
  refine ⟨⟨⟨"openresty", 1000, 0, 0⟩, by norm_num, by norm_num, by norm_num⟩,
    by decide +kernel, ?_⟩
  intro h
  obtain ⟨q, hq, hrun⟩ := limiters.exists_reaches
    (P := fun l => l = .run 0 none ∨ l = .run 1 none)
    (p := Pool.start (requests ⟨"openresty", 1000, 0, 0⟩ "gitlab:reqlimit:alice:"
      [1730000000, 1730000000]) .empty)
    (fun q : LimitPool => (q.procs.all (fun p => (callNext p).isNone),
      [0, 1].map (fun i => ((q.procs[i]?).bind answered).map isGranted)))
    (b := (true, [some true, some true]))
    [.run 0 none, .run 1 none, .run 0 none, .run 1 none, .run 0 none, .run 1 none]
    (by simp) (by decide +kernel)
  obtain ⟨hall, hboth⟩ := Prod.mk.inj hrun
  obtain ⟨order, hperm, hanswers⟩ := h q hq
    (fun p hp => Option.isNone_iff_eq_none.mp (List.all_eq_true.mp hall p hp))
  -- in either order the second call is rejected
  have hfirst : ((serial ⟨"openresty", 1000, 0, 0⟩ "gitlab:reqlimit:alice:"
      [1730000000, 1730000000] .empty [0, 1]).1.map some).map (Option.map isGranted) =
        [some true, some false] := by decide +kernel
  have hsecond : ((serial ⟨"openresty", 1000, 0, 0⟩ "gitlab:reqlimit:alice:"
      [1730000000, 1730000000] .empty [1, 0]).1.map some).map (Option.map isGranted) =
        [some true, some false] := by decide +kernel
  simp only [List.map_cons, List.map_nil, List.cons.injEq, and_true] at hboth
  rcases perm_pair hperm with rfl | rfl
  · rw [hanswers] at hfirst
    simp [hboth] at hfirst
  · rw [hanswers] at hsecond
    simp [hboth] at hsecond

end RateLim
end OpenrestyGateway
