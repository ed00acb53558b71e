import OpenrestyGateway.ConnDiscipline

/-!
The connection counters over whole runs of the server.

Two invariants carry the results. The ledger holds under any failures: what a
request has added to a counter is its share plus the increments whose DECR
failed. The accounting needs commands that succeed and counters whose lifetime
does not run out while they are not zero: then each counter is the sum of all
shares.
-/
namespace OpenrestyGateway
open Interleaving

def Share.count (s : Share) (key : String) : Int :=
  (if s.held = some key then 1 else 0) + (if s.undoing = some key then 1 else 0)

namespace Server
open Request

def opNet (key : String) : (o : Op) → o.Answer → Int
  | .redis (.incr k), reply =>
      if k = key ∧ (ConnLim.intRes (Reply.res reply)).isSome then 1 else 0
  | .redis (.decr k), reply =>
      if k = key ∧ (ConnLim.intRes (Reply.res reply)).isSome then -1 else 0
  | _, _ => 0

def FailedDecr : (o : Op) → o.Answer → Prop
  | .redis (.decr _), reply => ConnLim.intRes (Reply.res reply) = none
  | _, _ => False

def opLeak (key : String) : (o : Op) → o.Answer → Int
  | .redis (.decr k), reply =>
      if k = key ∧ ConnLim.intRes (Reply.res reply) = none then 1 else 0
  | _, _ => 0

abbrev History := List (Event Op Op.Answer)

def eventsOf (log : History) (i : Nat) : History := log.filter (fun e => e.who == i)

/-- The net contribution of request `i` to a counter so far. -/
def net (log : History) (i : Nat) (key : String) : Int :=
  ((eventsOf log i).map (fun e => opNet key e.op e.answer)).sum

/-- The increments of request `i` whose DECR failed. -/
def leaked (log : History) (i : Nat) (key : String) : Int :=
  ((eventsOf log i).map (fun e => opLeak key e.op e.answer)).sum

def counterOps (log : History) (i : Nat) : List Command :=
  ((eventsOf log i).map (fun e => counterOp e.op)).flatten

theorem eventsOf_append_self (log : History) (i : Nat) (o : Op) (a : o.Answer) :
    eventsOf (log ++ [⟨i, o, a⟩]) i = eventsOf log i ++ [⟨i, o, a⟩] := by
  simp [eventsOf, List.filter_append]

theorem eventsOf_append_other (log : History) {i j : Nat} (o : Op) (a : o.Answer)
    (h : i ≠ j) : eventsOf (log ++ [⟨i, o, a⟩]) j = eventsOf log j := by
  simp [eventsOf, List.filter_append, h]

variable {D : Discipline}

theorem ledger_of_moves {b b' : Share} {o : Op} {a : o.Answer} (h : Moves D b o a b')
    (key : String) : opNet key o a + b.count key = opLeak key o a + b'.count key := by
  cases h with
  | calm s o a ho =>
      have hnone : opNet key o a = 0 ∧ opLeak key o a = 0 := by
        cases o with
        | redis c => cases c <;> first | exact ⟨rfl, rfl⟩ | exact ho.elim
        | now | sleep _ | setCtx _ | yield => exact ⟨rfl, rfl⟩
      rw [hnone.1, hnone.2]
  | ttl | handOver => rfl
  | enter key' lim reply n hkey hres hover | excess key' lim reply n hkey hres hover =>
      simp [opNet, opLeak, Share.count, hres]
  | lost key' lim reply hkey hres =>
      simp [opNet, opLeak, Share.count, hres]
  | undo key' reply hkey | leave key' reply hkey =>
      by_cases hk : key' = key <;> cases hres : ConnLim.intRes reply.res <;>
        simp [opNet, opLeak, Share.count, hres, hk]

/-- Every request stands at a stage that its commands on counters explain, and
its net contribution is its share and what it leaked. -/
structure Ledger (D : Discipline) (s : Server) : Prop where
  stage : ∀ (i : Nat) r, s.procs[i]? = some r → Stage D r (counterOps s.log i)
  balance : ∀ (i : Nat) r, s.procs[i]? = some r → ∀ key,
    net s.log i key = leaked s.log i key + r.share.count key

theorem ledger_start {handlers : List (Lua Unit)} {store : RedisStore}
    (h : ∀ p ∈ handlers, D.Enters p) : Ledger D (Server.start handlers store) := by
  have arrived : ∀ (i : Nat) r, (Server.start handlers store).procs[i]? = some r →
      ∃ p ∈ handlers, r = Request.arrive p := by
    intro i r hr
    simp only [Server.start, Pool.start, List.getElem?_map, Option.map_eq_some_iff] at hr
    obtain ⟨p, hp, rfl⟩ := hr
    exact ⟨p, List.mem_of_getElem? hp, rfl⟩
  constructor
  · intro i r hr
    obtain ⟨p, hp, rfl⟩ := arrived i r hr
    exact .entering p (h p hp)
  · intro i r hr key
    obtain ⟨p, hp, rfl⟩ := arrived i r hr
    have hshare : (Request.arrive p).share = ⟨none, none⟩ := share_of_enters (h p hp)
    rw [hshare]
    rfl

/-- Any step keeps the ledger, whatever fails and however much time passes. -/
theorem ledger_step {q q' : Server} {l : ServerLabel} (h : Ledger D q)
    (hstep : server.step q l = some q') : Ledger D q' := by
  obtain ⟨i, fault, t, o, k, rfl, ht, hk, rfl⟩ | ⟨dt, rfl, rfl⟩ := server.step_cases hstep
  · generalize (server.exec q.store fault o).1 = a
    generalize (server.exec q.store fault o).2 = store
    obtain ⟨hstage, hmoves⟩ := stage_next (h.stage i t ht) hk a
    constructor
    · intro j r hr
      by_cases hij : i = j
      · subst hij
        have hlt : i < q.procs.length := (List.getElem?_eq_some_iff.mp ht).1
        simp only [List.getElem?_set_self hlt, Option.some.injEq] at hr
        subst hr
        simpa [counterOps, eventsOf_append_self] using hstage
      · simp only [List.getElem?_set_ne hij] at hr
        simpa only [counterOps, eventsOf_append_other _ _ _ hij] using h.stage j r hr
    · intro j r hr key
      by_cases hij : i = j
      · subst hij
        have hlt : i < q.procs.length := (List.getElem?_eq_some_iff.mp ht).1
        simp only [List.getElem?_set_self hlt, Option.some.injEq] at hr
        subst hr
        have hbal := h.balance i t ht key
        have hmove := ledger_of_moves hmoves key
        simp only [net, leaked, eventsOf_append_self, List.map_append, List.sum_append,
          List.map_cons, List.map_nil, List.sum_cons, List.sum_nil] at hbal ⊢
        linarith
      · simp only [List.getElem?_set_ne hij] at hr
        simpa only [net, leaked, eventsOf_append_other _ _ _ hij] using
          h.balance j r hr key
  · exact ⟨h.stage, h.balance⟩

theorem ledger_reaches {ok : Server → ServerLabel → Prop} {handlers : List (Lua Unit)}
    {store : RedisStore} {s : Server} (h : ∀ p ∈ handlers, D.Enters p)
    (hs : server.Reaches ok (Server.start handlers store) s) : Ledger D s :=
  hs.invariant (ledger_start h) (fun _ _ _ hq _ hstep => ledger_step hq hstep)

/-! ### The counters -/

theorem counter_of_calm {o : Op} (ho : D.Calm o) {s : RedisStore} {key : String}
    (hk : ¬ D.stores key) :
    Redis.counter (execOp s none o).2 key = Redis.counter s key := by
  cases o with
  | redis c =>
      have hne : ∀ k, D.stores k → key ≠ k := fun k hs he => hk (he ▸ hs)
      cases c with
      | get k | sismember k m => simp only [execOp, Redis.exec]; split <;> rfl
      | set k t =>
          exact Redis.counter_eq_of_entry (Ttl.Store.entry_put_ne s _ (hne k ho))
      | expire k seconds =>
          simp only [execOp, Redis.exec]
          split
          · rfl
          · split
            · rfl
            · exact Redis.counter_eq_of_entry (Ttl.Store.entry_expire_ne s _ (hne k ho))
      | incr _ | decr _ => exact ho.elim
  | now | sleep _ | setCtx _ | yield => rfl

theorem counter_ttl (s : RedisStore) (k key : String) :
    Redis.counter (execOp s none (.redis (.expire k 60))).2 key = Redis.counter s key := by
  simp only [execOp, Redis.exec]
  split
  · rfl
  · split
    · rfl
    · exact Redis.counter_expire s k key (by norm_num)

/-- A successful operation changes a counter as it changes the request's share. -/
theorem counter_of_moves (apart : ∀ key, D.Counter key → ¬ D.stores key) {b b' : Share}
    {o : Op} {a : o.Answer} {s s' : RedisStore} (h : Moves D b o a b')
    (hx : execOp s none o = (a, s'))
    (hint : ∀ key, D.Counter key → ∃ n, Redis.counter s key = some n)
    {key : String} (hk : D.Counter key) {n : Int} (hn : Redis.counter s key = some n) :
    Redis.counter s' key = some (n + b'.count key - b.count key) := by
  cases h with
  | calm b o a ho =>
      have hsame := counter_of_calm (s := s) ho (apart key hk)
      rw [hx] at hsame
      rw [hsame, hn]
      simp
  | ttl b k reply =>
      have hsame := counter_ttl s k key
      rw [hx] at hsame
      rw [hsame, hn]
      simp
  | handOver k c hc =>
      cases hx
      rw [hn]
      simp
  | enter k lim reply m hkey hres hover | excess k lim reply m hkey hres hover =>
      have hnew := @Redis.counter_incrBy s k key n 1 hn
      simp only [execOp, Redis.exec] at hx
      rw [hx] at hnew
      rw [hnew]
      simp [Share.count, eq_comm]
  | lost k lim reply hkey hres =>
      obtain ⟨m, hm⟩ := hint k ⟨lim, hkey⟩
      have hreply := (Redis.incrBy_counter 1 hm).1
      simp only [execOp, Redis.exec] at hx
      rw [hx] at hreply
      simp only at hreply
      rw [hreply] at hres
      cases hres
  | undo k reply hkey | leave k reply hkey =>
      have hnew := @Redis.counter_incrBy s k key n (-1) hn
      simp only [execOp, Redis.exec] at hx
      rw [hx] at hnew
      rw [hnew]
      by_cases hkk : key = k
      · simp [Share.count, hkk, sub_eq_add_neg]
      · simp [Share.count, hkk, Ne.symm hkk]

/-- If the key is missing after the time `dt`, its counter stood at 0. -/
def LapsesAtZero (s : RedisStore) (dt : ℚ≥0) (key : String) : Prop :=
  (s.advance dt).lookup key = none → Redis.counter s key = some 0

/-- No command fails, and no counter's lifetime runs out while it is not zero. -/
def KeepsCounters (D : Discipline) (q : Server) : ServerLabel → Prop
  | .run _ fault => fault = none
  | .outside dt => ∀ key, D.Counter key → LapsesAtZero q.store dt key

/-- Each counter is the number of requests admitted under it and of requests
about to undo their increment. -/
def Accounted (D : Discipline) (s : Server) : Prop :=
  ∀ key, D.Counter key → Redis.counter s.store key = some (held s key + undoing s key : Int)

theorem share_count (r : Request) (key : String) :
    r.share.count key =
      (if Request.holds key r then 1 else 0) + (if Request.undoes key r then 1 else 0) := by
  by_cases hh : r.heldKey = some key <;> by_cases hu : r.undoingKey = some key <;>
    simp [Share.count, Request.share, Request.holds, Request.undoes, hh, hu]

theorem counter_advance {s : RedisStore} {dt : ℚ≥0} {key : String}
    (h : LapsesAtZero s dt key) : Redis.counter (s.advance dt) key = Redis.counter s key := by
  have hadv := Ttl.Store.entry_advance s key dt.2
  cases he : s.entry key with
  | none =>
      rw [he] at hadv
      exact Redis.counter_eq_of_entry (hadv.trans he.symm)
  | some e =>
      rw [he, Option.filter_some] at hadv
      split at hadv
      · exact Redis.counter_eq_of_entry (hadv.trans he.symm)
      · have hnone : (s.advance dt).lookup key = none := by
          simpa [Ttl.Store.lookup] using hadv
        rw [h hnone]
        simp only [Redis.counter, hnone]

theorem decr_answered {b b' : Share} {o : Op} {a : o.Answer} {s s' : RedisStore}
    (h : Moves D b o a b') (hx : execOp s none o = (a, s'))
    (hint : ∀ key, D.Counter key → ∃ n, Redis.counter s key = some n) :
    ¬ FailedDecr o a := by
  cases h with
  | calm b o a ho =>
      cases o with
      | redis c => cases c <;> first | exact fun hf => hf | exact ho.elim
      | now | sleep _ | setCtx _ | yield => exact fun hf => hf
  | ttl | handOver | enter | excess | lost => exact fun hf => hf
  | undo k reply hkey | leave k reply hkey =>
      obtain ⟨m, hm⟩ := hint k hkey
      have hreply := (Redis.incrBy_counter (-1) hm).1
      simp only [execOp, Redis.exec] at hx
      rw [hx] at hreply
      simp only at hreply
      simp [FailedDecr, hreply, ConnLim.intRes]

/-- A request that comes to hold a key has just read a count within its limit. -/
theorem held_of_moves {b b' : Share} {o : Op} {a : o.Answer} {s s' : RedisStore}
    (h : Moves D b o a b') (hx : execOp s none o = (a, s')) {key : String} {n : Int}
    (hn : Redis.counter s key = some n) :
    (b'.held = some key → b.held = some key) ∨
      ∃ lim m, D.counts key lim ∧ Redis.counter s' key = some m ∧ ¬ lim.Over m := by
  cases h with
  | enter k lim reply m hkey hres hover =>
      by_cases hk : k = key
      · subst hk
        simp only [execOp, Redis.exec] at hx
        obtain ⟨hreply, hnew⟩ := Redis.incrBy_counter 1 hn
        rw [hx] at hreply hnew
        simp only at hreply
        rw [hreply] at hres
        cases hres
        exact .inr ⟨lim, n + 1, hkey, hnew, hover⟩
      · exact .inl (fun hb => absurd (Option.some.inj hb) hk)
  | calm | ttl | handOver => exact .inl (fun hb => hb)
  | excess | lost | undo | leave => exact .inl (fun hb => by cases hb)

theorem accounted_step (apart : ∀ key, D.Counter key → ¬ D.stores key) {q q' : Server}
    {l : ServerLabel} (hl : Ledger D q) (h : Accounted D q) (hok : KeepsCounters D q l)
    (hstep : server.step q l = some q') : Accounted D q' := by
  obtain ⟨i, fault, t, o, k, rfl, ht, hk, rfl⟩ | ⟨dt, rfl, rfl⟩ := server.step_cases hstep
  · cases hok
    intro key hkey
    obtain ⟨-, hmoves⟩ := stage_next (hl.stage i t ht) hk (execOp q.store none o).1
    have hnew := counter_of_moves apart hmoves rfl (fun j hj => ⟨_, h j hj⟩) hkey (h key hkey)
    refine hnew.trans ?_
    have hheld := countP_set_add (Request.holds key) q.procs i t
      (k (execOp q.store none o).1) ht
    have hundo := countP_set_add (Request.undoes key) q.procs i t
      (k (execOp q.store none o).1) ht
    rw [share_count, share_count]
    simp only [held, undoing, server]
    congr 1
    split_ifs at * <;> omega
  · intro key hkey
    exact (counter_advance (hok key hkey)).trans (h key hkey)

theorem held_eq_zero {s : Server} (h : ∀ r ∈ s.procs, r.share = ⟨none, none⟩) (key : String) :
    held s key = 0 := by
  refine List.countP_eq_zero.mpr (fun r hr => ?_)
  have hheld : r.heldKey = none := congrArg Share.held (h r hr)
  simp [Request.holds, hheld]

theorem undoing_eq_zero {s : Server} (h : ∀ r ∈ s.procs, r.share = ⟨none, none⟩)
    (key : String) : undoing s key = 0 := by
  refine List.countP_eq_zero.mpr (fun r hr => ?_)
  have hundoing : r.undoingKey = none := congrArg Share.undoing (h r hr)
  simp [Request.undoes, hundoing]

theorem accounted_start {handlers : List (Lua Unit)} {store : RedisStore}
    (h : ∀ p ∈ handlers, D.Enters p)
    (fresh : ∀ key, D.Counter key → Redis.counter store key = some 0) :
    Accounted D (Server.start handlers store) := by
  intro key hkey
  have hnone : ∀ r ∈ (Server.start handlers store).procs, r.share = ⟨none, none⟩ := by
    intro r hr
    obtain ⟨p, hp, rfl⟩ := List.mem_map.mp hr
    exact share_of_enters (h p hp)
  rw [held_eq_zero hnone, undoing_eq_zero hnone]
  exact fresh key hkey

theorem accounted_reaches (apart : ∀ key, D.Counter key → ¬ D.stores key)
    {handlers : List (Lua Unit)} {store : RedisStore} {s : Server}
    (h : ∀ p ∈ handlers, D.Enters p)
    (fresh : ∀ key, D.Counter key → Redis.counter store key = some 0)
    (hs : server.Reaches (KeepsCounters D) (Server.start handlers store) s) :
    Ledger D s ∧ Accounted D s :=
  hs.invariant (I := fun q => Ledger D q ∧ Accounted D q)
    ⟨ledger_start h, accounted_start h fresh⟩
    (fun _ _ _ hq hok hstep =>
      ⟨ledger_step hq.1 hstep, accounted_step apart hq.1 hq.2 hok hstep⟩)

end Server
end OpenrestyGateway
