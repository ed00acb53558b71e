import OpenrestyGateway.ConnSafety

/-!
When the connection limiter rejects.

A request over the limit has incremented the counter before it is turned away, and
takes its increment back with a second command. Until then it counts against the
others: a request can be rejected although the connections admitted under the key
are fewer than max + burst. Without that the limiter rejects only when it is full.
-/
namespace OpenrestyGateway
open Interleaving

namespace Server
open Request

variable {lim : ConnLim} {key : String}

/-- `incoming` has answered "rejected" to the request. -/
def Rejected (lim : ConnLim) (key : String) (log : History) (i : Nat) : Prop :=
  (lim.incoming key true).replay (eventsOf log i) = some (.ok (.refused (some "rejected")))

/-- The last command of a request on the key admitted it. -/
def admission (lim : ConnLim) (key : String) (b : Bool) : (o : Op) → o.Answer → Bool
  | .redis (.incr k), reply =>
      match ConnLim.intRes (Reply.res reply) with
      | some n => if k = key then decide (¬ lim.Over n) else b
      | none => b
  | .redis (.decr k), _ => if k = key then false else b
  | _, _ => b

def admitted (lim : ConnLim) (key : String) (log : History) (i : Nat) : Bool :=
  (eventsOf log i).foldl (fun b e => admission lim key b e.op e.answer) false

/-- How many of `n` requests are admitted under the key and have not been taken off. -/
def heldIn (lim : ConnLim) (key : String) (n : Nat) (log : History) : Nat :=
  (List.range n).countP (admitted lim key log)

/-- Whoever was rejected found max + burst others at the moment of its INCR. -/
def RejectsWhenFull (lim : ConnLim) (key : String) (s : Server) : Prop :=
  ∀ (j : Nat) e, s.log[j]? = some e → e.op = .redis (.incr key) → Rejected lim key s.log e.who →
    lim.max + lim.burst ≤ heldIn lim key s.procs.length (s.log.take j)

/-- While there is a place left, the increments to be taken back leave one too. -/
def LeavesRoom (lim : ConnLim) (key : String) (q : Server) : Prop :=
  (held q key : ℚ) < lim.max + lim.burst →
    (held q key + undoing q key + 1 : ℚ) ≤ lim.max + lim.burst

def Increments (key : String) (q : Server) (l : ServerLabel) : Prop :=
  ∃ i fault t k, l = .run i fault ∧ q.procs[i]? = some t ∧
    t.next = some ⟨.redis (.incr key), k⟩

/-- No command fails and no key expires, and every INCR of the key finds room. -/
def KeepsRoom (lim : ConnLim) (key : String) (q : Server) (l : ServerLabel) : Prop :=
  NothingExpires q l ∧ (Increments key q l → LeavesRoom lim key q)

/-! ### What the history says -/

theorem admitted_append_self (log : History) (i : Nat) (o : Op) (a : o.Answer) :
    admitted lim key (log ++ [⟨i, o, a⟩]) i = admission lim key (admitted lim key log i) o a := by
  simp only [admitted, eventsOf_append_self, List.foldl_append, List.foldl_cons, List.foldl_nil]

theorem admitted_append_other (log : History) {i j : Nat} (o : Op) (a : o.Answer) (h : i ≠ j) :
    admitted lim key (log ++ [⟨i, o, a⟩]) j = admitted lim key log j := by
  simp only [admitted, eventsOf_append_other log o a h]

/-- Each request holds the key exactly if its commands have admitted it. -/
def Admissions (lim : ConnLim) (key : String) (s : Server) : Prop :=
  ∀ (i : Nat) r, s.procs[i]? = some r → (r.heldKey = some key ↔ admitted lim key s.log i = true)

theorem admission_of_moves {b b' : Share} {o : Op} {a : o.Answer}
    (h : Moves (singleKey key lim) b o a b') {was : Bool} (hwas : b.held = some key ↔ was = true) :
    b'.held = some key ↔ admission lim key was o a = true := by
  cases h with
  | calm b o a ho =>
      have hsame : admission lim key was o a = was := by
        cases o with
        | redis c => cases c <;> first | rfl | exact ho.elim
        | now | sleep _ | setCtx _ | yield => rfl
      rw [hsame]
      exact hwas
  | ttl | handOver => exact hwas
  | enter k l reply n hkey hres hover =>
      obtain ⟨rfl, rfl⟩ := hkey
      simp [admission, hres, hover]
  | excess k l reply n hkey hres hover =>
      obtain ⟨rfl, rfl⟩ := hkey
      simp [admission, hres, hover]
  | lost k l reply hkey hres =>
      simp only [admission, hres]
      exact hwas
  | undo k reply hkey | leave k reply hkey =>
      obtain ⟨-, rfl, -⟩ := hkey
      simp [admission]

theorem admissions_start {handlers : List (Lua Unit)} {store : RedisStore}
    (h : ∀ p ∈ handlers, (singleKey key lim).Enters p) :
    Admissions lim key (Server.start handlers store) := by
  intro i r hr
  simp only [Server.start, Pool.start, List.getElem?_map, Option.map_eq_some_iff] at hr
  obtain ⟨p, hp, rfl⟩ := hr
  have hheld : (Request.arrive p).heldKey = none :=
    congrArg Share.held (share_of_enters (h p (List.mem_of_getElem? hp)))
  rw [hheld]
  exact ⟨fun hkey => (by cases hkey), fun hkey => (by cases hkey)⟩

theorem admissions_step {q q' : Server} {l : ServerLabel} (hl : Ledger (singleKey key lim) q)
    (h : Admissions lim key q) (hstep : server.step q l = some q') : Admissions lim key q' := by
  obtain ⟨i, fault, t, o, k, rfl, ht, hk, rfl⟩ | ⟨dt, rfl, rfl⟩ := server.step_cases hstep
  · intro j r hr
    obtain ⟨-, hmoves⟩ := stage_next (hl.stage i t ht) hk (execOp q.store fault o).1
    by_cases hij : i = j
    · subst hij
      have hlt : i < q.procs.length := (List.getElem?_eq_some_iff.mp ht).1
      simp only [List.getElem?_set_self hlt, Option.some.injEq] at hr
      subst hr
      rw [admitted_append_self]
      exact admission_of_moves hmoves (h i t ht)
    · simp only [List.getElem?_set_ne hij] at hr
      rw [admitted_append_other _ _ _ hij]
      exact h j r hr
  · exact h

theorem heldIn_eq_held {s : Server} (h : Admissions lim key s) :
    heldIn lim key s.procs.length s.log = held s key := by
  have hmap : (List.range s.procs.length).map (admitted lim key s.log) =
      s.procs.map (Request.holds key) := by
    apply List.ext_getElem?
    intro i
    rcases lt_or_ge i s.procs.length with hi | hi
    · have hr := List.getElem?_eq_getElem hi
      have hiff := h i _ hr
      simp only [List.getElem?_map, List.getElem?_range hi, hr, Option.map_some,
        Option.some.injEq, Request.holds]
      by_cases hheld : (s.procs[i]).heldKey = some key
      · simp [hheld, hiff.mp hheld]
      · simp only [hheld, decide_false]
        exact Bool.eq_false_iff.mpr (fun ht => hheld (hiff.mpr ht))
    · simp [hi]
  have hcount := congrArg (List.countP id) hmap
  rw [List.countP_map, List.countP_map] at hcount
  exact hcount

/-! ### Who is rejected -/

def AnsweredOver (lim : ConnLim) : (o : Op) → o.Answer → Prop
  | .redis (.incr _), reply => ∃ n, ConnLim.intRes (Reply.res reply) = some n ∧ lim.Over n
  | _, _ => False

/-- The texts of failed commands are never the limiter's own. -/
def Foreign : (o : Op) → o.Answer → Prop
  | .redis _, reply => (Reply.err reply) ≠ some "rejected"
  | _, _ => True

theorem foreign_execOp (s : RedisStore) (fault : Option Fault) (o : Op) :
    Foreign o (execOp s fault o).1 := by
  cases o with
  | redis c =>
      cases fault with
      | some f => exact f.foreign
      | none =>
          have hexec : (Redis.exec s c).1.err ≠ some "rejected" := by
            cases c <;> simp only [Redis.exec, Redis.incrBy] <;> (repeat' split) <;>
              simp [Redis.wrongType, Redis.notInteger]
          exact hexec
  | now | sleep _ | setCtx _ | yield => trivial

theorem rejected_answers {es : History} (hforeign : ∀ e ∈ es, Foreign e.op e.answer)
    (h : (lim.incoming key true).replay es = some (.ok (.refused (some "rejected")))) :
    ∃ e rest, es = e :: rest ∧ e.op = .redis (.incr key) ∧ AnsweredOver lim e.op e.answer := by
  simp only [ConnLim.incoming, if_true, Lua.redis_bind] at h
  obtain ⟨i, reply, rest, rfl, hrest⟩ := Prog.replay_call h
  refine ⟨_, rest, rfl, rfl, ?_⟩
  cases hres : ConnLim.intRes (Reply.res reply) with
  | none =>
      rw [hres] at hrest
      have herr : (Reply.err reply) = some "rejected" := by simpa [Prog.replay] using hrest
      exact absurd herr (hforeign _ (.head rest))
  | some n =>
      rw [hres] at hrest
      by_cases hover : lim.Over n
      · exact ⟨n, hres, hover⟩
      · simp [hover, Prog.replay] at hrest

theorem incr_once {D : Discipline} {r : Request} {c : Command} {cs : List Command}
    (h : Stage D r (c :: cs)) : Command.incr key ∉ cs := by
  have hrest : Unadmitted (c :: cs) → Command.incr key ∉ cs := by
    rintro (h | ⟨k, h⟩ | ⟨k, h⟩) <;> cases h <;> simp
  generalize hops : c :: cs = ops at h hrest
  cases h with
  | entering _ _ => cases hops
  | undoing _ _ _ _ | admitted _ _ _ _ | served _ _ _ _ _ | contentSome _ _
  | leaving _ _ _ _ | leftSome _ _ _ =>
      cases hops
      simp
  | refused _ _ _ hops | contentNone _ hops | leftNone _ _ _ hops => exact hrest hops

/-- A request increments once: where its first command is an INCR, no other is. -/
theorem eq_first_of_incr {D : Discipline} {r : Request} {log : History} {i : Nat}
    (h : Stage D r (counterOps log i)) {e first : Event Op Op.Answer} {rest : History}
    (hfirst : eventsOf log i = first :: rest) (hincr : first.op = .redis (.incr key))
    (he : e ∈ eventsOf log i) (hop : e.op = .redis (.incr key)) : e = first := by
  rw [hfirst] at he
  rcases List.mem_cons.mp he with rfl | hrest
  · rfl
  · have hops : counterOps log i =
        .incr key :: (rest.map (fun e => counterOp e.op)).flatten := by
      simp [counterOps, hfirst, hincr, counterOp]
    have hagain : Command.incr key ∈ (rest.map (fun e => counterOp e.op)).flatten :=
      List.mem_flatten.mpr ⟨_, List.mem_map_of_mem hrest, by simp [hop, counterOp]⟩
    rw [hops] at h
    exact absurd hagain (incr_once h)

/-! ### Rejections in a run -/

/-- Every answer over the limit was given while max + burst requests were admitted. -/
def OverWhenFull (lim : ConnLim) (key : String) (s : Server) : Prop :=
  ∀ (j : Nat) e, s.log[j]? = some e → e.op = .redis (.incr key) →
    AnsweredOver lim e.op e.answer →
      lim.max + lim.burst ≤ heldIn lim key s.procs.length (s.log.take j)

/-- With the counter in order, room for the increments to be taken back is all that is
needed at an INCR. -/
theorem over_iff_full {q : Server} (ha : Accounted (singleKey key lim) q) :
    (AnsweredOver lim (.redis (.incr key)) (execOp q.store none (.redis (.incr key))).1 →
      lim.max + lim.burst ≤ held q key) ↔ LeavesRoom lim key q := by
  have hreply := (Redis.incrBy_counter 1 (ha key ⟨lim, rfl, rfl⟩)).1
  have hanswer : AnsweredOver lim (.redis (.incr key))
      (execOp q.store none (.redis (.incr key))).1 ↔
        lim.max + lim.burst < held q key + undoing q key + 1 := by
    simp only [AnsweredOver, execOp, Redis.exec, hreply, ConnLim.intRes, Option.some.injEq,
      exists_eq_left', ConnLim.Over]
    push_cast
    rfl
  rw [hanswer, LeavesRoom, ← not_lt, ← not_lt]
  exact ⟨fun h hfree hover => h hover hfree, fun h hover hfree => h hfree hover⟩

theorem overWhenFull_step {q q' : Server} {l : ServerLabel}
    (ha : Accounted (singleKey key lim) q) (hadm : Admissions lim key q)
    (h : OverWhenFull lim key q) (hok : KeepsRoom lim key q l)
    (hstep : server.step q l = some q') : OverWhenFull lim key q' := by
  obtain ⟨i, fault, t, o, k, rfl, ht, hk, rfl⟩ | ⟨dt, rfl, rfl⟩ := server.step_cases hstep
  · obtain ⟨rfl, hroom⟩ := hok
    intro j e he hop hover
    simp only [List.length_set]
    rcases Nat.lt_or_ge j q.log.length with hj | hj
    · rw [List.getElem?_append_left hj] at he
      rw [List.take_append_of_le_length hj.le]
      exact h j e he hop hover
    · have hj' : j = q.log.length := by
        have hlt := (List.getElem?_eq_some_iff.mp he).1
        simp only [List.length_append, List.length_singleton] at hlt
        omega
      subst hj'
      simp only [List.getElem?_concat_length, Option.some.injEq] at he
      subst he
      subst hop
      rw [List.take_left, heldIn_eq_held hadm]
      exact (over_iff_full ha).mpr (hroom ⟨i, none, t, k, rfl, ht, hk⟩) hover
  · exact h

theorem foreign_step {q q' : Server} {l : ServerLabel}
    (h : ∀ e ∈ q.log, Foreign e.op e.answer) (hstep : server.step q l = some q') :
    ∀ e ∈ q'.log, Foreign e.op e.answer := by
  obtain ⟨i, fault, t, o, k, rfl, ht, hk, rfl⟩ | ⟨dt, rfl, rfl⟩ := server.step_cases hstep
  · intro e he
    rcases List.mem_append.mp he with hold | hnew
    · exact h e hold
    · cases List.mem_singleton.mp hnew
      exact foreign_execOp q.store fault o
  · exact h

theorem who_step {q q' : Server} {l : ServerLabel} (h : ∀ e ∈ q.log, e.who < q.procs.length)
    (hstep : server.step q l = some q') : ∀ e ∈ q'.log, e.who < q'.procs.length := by
  obtain ⟨i, fault, t, o, k, rfl, ht, hk, rfl⟩ | ⟨dt, rfl, rfl⟩ := server.step_cases hstep
  · intro e he
    simp only [List.length_set]
    rcases List.mem_append.mp he with hold | hnew
    · exact h e hold
    · cases List.mem_singleton.mp hnew
      exact (List.getElem?_eq_some_iff.mp ht).1
  · exact h

theorem rejectsWhenFull_of_over {D : Discipline} {s : Server} (hl : Ledger D s)
    (hforeign : ∀ e ∈ s.log, Foreign e.op e.answer) (h : OverWhenFull lim key s)
    (hwho : ∀ e ∈ s.log, e.who < s.procs.length) : RejectsWhenFull lim key s := by
  intro j e he hop hrejected
  have hmem : e ∈ s.log := List.mem_of_getElem? he
  have hmine : e ∈ eventsOf s.log e.who := List.mem_filter.mpr ⟨hmem, by simp⟩
  obtain ⟨first, rest, hfirst, hincr, hover⟩ := rejected_answers
    (fun e he => hforeign e (List.mem_filter.mp he).1) hrejected
  have hstage := hl.stage e.who _ (List.getElem?_eq_getElem (hwho e hmem))
  cases eq_first_of_incr hstage hfirst hincr hmine hop
  exact h j e he hop hover

structure Rejections (lim : ConnLim) (key : String) (s : Server) : Prop where
  ledger : Ledger (singleKey key lim) s
  accounted : Accounted (singleKey key lim) s
  admissions : Admissions lim key s
  overfull : OverWhenFull lim key s
  foreign : ∀ e ∈ s.log, Foreign e.op e.answer
  who : ∀ e ∈ s.log, e.who < s.procs.length

/-- In every run in which no command fails and no key expires, and in which every INCR
finds room for the increments to be taken back, only a full limiter rejects. -/
theorem rejectsWhenFull_of_room (lim : { lim : ConnLim // lim.Accepted }) (key : String)
    (dryRuns : List Val) (store : RedisStore) (fresh : Redis.counter store key = some 0)
    (s : Server)
    (hs : server.Reaches (KeepsRoom lim.1 key)
      (Server.start (limited lim.1 key dryRuns) store) s) :
    RejectsWhenFull lim.1 key s := by
  have henters := enters_limited lim.1 key dryRuns
  have hfresh : ∀ k, (singleKey key lim.1).Counter k → Redis.counter store k = some 0 := by
    rintro k ⟨-, rfl, rfl⟩
    exact fresh
  have hall : Rejections lim.1 key s := by
    refine hs.invariant ⟨ledger_start henters, accounted_start henters hfresh,
      admissions_start henters, ?_, ?_, ?_⟩ ?_
    · intro j e he
      cases he
    · intro e he
      cases he
    · intro e he
      cases he
    · intro q l q' h hok hstep
      refine ⟨ledger_step h.ledger hstep, ?_, admissions_step h.ledger h.admissions hstep,
        overWhenFull_step h.accounted h.admissions h.overfull hok hstep,
        foreign_step h.foreign hstep, ?_⟩
      · exact accounted_step (fun _ _ h => h) h.ledger h.accounted
          (keepsCounters_of_nothingExpires _ hok.1) hstep
      · exact who_step h.who hstep
  exact rejectsWhenFull_of_over hall.ledger hall.foreign hall.overfull hall.who

instance (lim : ConnLim) (key : String) (q : Server) : Decidable (LeavesRoom lim key q) :=
  inferInstanceAs (Decidable ((held q key : ℚ) < lim.max + lim.burst → _))

instance (lim : ConnLim) (key : String) (log : History) (i : Nat) :
    Decidable (Rejected lim key log i) :=
  inferInstanceAs (Decidable (_ = _))

theorem rejectsWhenFull_of_room_second : ∃ s,
    server.Reaches (KeepsRoom ⟨1, 0, 1 / 2⟩ "openresty:gitlab:connlimit:alice:")
      (Server.start (limited ⟨1, 0, 1 / 2⟩ "openresty:gitlab:connlimit:alice:" [.nil, .nil])
        .empty) s ∧
    Rejected ⟨1, 0, 1 / 2⟩ "openresty:gitlab:connlimit:alice:" s.log 1 ∧
    RejectsWhenFull ⟨1, 0, 1 / 2⟩ "openresty:gitlab:connlimit:alice:" s := by
  obtain ⟨s, hs, hrejected⟩ := server.exists_reaches_if
    (C := fun q l => l matches .run _ none ∧
      LeavesRoom ⟨1, 0, 1 / 2⟩ "openresty:gitlab:connlimit:alice:" q)
    (p := Server.start (limited ⟨1, 0, 1 / 2⟩ "openresty:gitlab:connlimit:alice:" [.nil, .nil])
      .empty)
    (fun s : Server => decide
      (Rejected ⟨1, 0, 1 / 2⟩ "openresty:gitlab:connlimit:alice:" s.log 1)) (b := true)
    [.run 0 none, .run 0 none, .run 1 none, .run 1 none] (by decide +kernel)
  have hok : server.Reaches (KeepsRoom ⟨1, 0, 1 / 2⟩ "openresty:gitlab:connlimit:alice:")
      (Server.start (limited ⟨1, 0, 1 / 2⟩ "openresty:gitlab:connlimit:alice:" [.nil, .nil])
        .empty) s := by
    refine hs.mono ?_
    rintro q l ⟨hl, hroom⟩
    refine ⟨?_, fun _ => hroom⟩
    cases l with
    | run i fault =>
        cases fault with
        | none => rfl
        | some f => cases hl
    | outside dt => cases hl
  exact ⟨s, hok, of_decide_eq_true hrejected,
    rejectsWhenFull_of_room ⟨⟨1, 0, 1 / 2⟩, by norm_num, by norm_num, by norm_num⟩ _ _ _ rfl s hok⟩

/-- One connection at a time. The second request is over the limit; before it takes its
increment back the first one leaves, and the third is rejected with none admitted. -/
theorem rejected_while_free : ¬ ∀ s,
    server.Reaches NothingExpires
      (Server.start (limited ⟨1, 0, 1 / 2⟩ "openresty:gitlab:connlimit:alice:"
        [.nil, .nil, .nil]) .empty) s →
    RejectsWhenFull ⟨1, 0, 1 / 2⟩ "openresty:gitlab:connlimit:alice:" s := by
  intro h
  obtain ⟨s, hs, hrun⟩ := server.exists_reaches (P := fun l => ∃ i, l = .run i none)
    (p := Server.start (limited ⟨1, 0, 1 / 2⟩ "openresty:gitlab:connlimit:alice:"
      [.nil, .nil, .nil]) .empty)
    (fun s : Server => (s.log[6]?.map (fun e => (e.who, e.op)),
      decide (Rejected ⟨1, 0, 1 / 2⟩ "openresty:gitlab:connlimit:alice:" s.log 2),
      heldIn ⟨1, 0, 1 / 2⟩ "openresty:gitlab:connlimit:alice:" s.procs.length (s.log.take 6)))
    (b := (some (2, .redis (.incr "openresty:gitlab:connlimit:alice:")), true, 0))
    [.run 0 none, .run 0 none, .run 0 none, .run 0 none, .run 1 none, .run 0 none,
      .run 2 none, .run 2 none] (by simp) (by decide +kernel)
  simp only [Prod.mk.injEq, decide_eq_true_eq] at hrun
  obtain ⟨hevent, hrejected, hheld⟩ := hrun
  obtain ⟨e, he, hwho⟩ := Option.map_eq_some_iff.mp hevent
  obtain ⟨hwho, hop⟩ := Prod.mk.inj hwho
  have hfull := h s (hs.mono (by rintro q l ⟨i, rfl⟩; rfl)) 6 e he hop (hwho ▸ hrejected)
  rw [hheld] at hfull
  norm_num at hfull

end Server
end OpenrestyGateway
