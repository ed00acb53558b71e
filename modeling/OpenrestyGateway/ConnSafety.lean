import OpenrestyGateway.AccessKeys
import OpenrestyGateway.ConnAccounting
import Mathlib.Algebra.Order.BigOperators.Group.List

/-!
What the accounting says about the connection limiter: how many requests one key
can hold at a time, what a request that failed half way leaves behind, and what
the counters read when all requests are over.
-/
namespace OpenrestyGateway
open Interleaving

namespace Server
open Request

/-! ### One key under one limiter -/

def singleKey (key : String) (lim : ConnLim) : Discipline where
  counts := fun k l => k = key ∧ l = lim
  stores := fun _ => False

def limited (lim : ConnLim) (key : String) (dryRuns : List Val) : List (Lua Unit) :=
  dryRuns.map (ConnlimitLogic.limitConn lim key)

/-- No command fails, and the lifetime of the key does not run out while its
counter is not zero. -/
def KeepsCounter (key : String) (q : Server) : ServerLabel → Prop
  | .run _ fault => fault = none
  | .outside dt => LapsesAtZero q.store dt key

theorem keepsCounters_singleKey {key : String} (lim : ConnLim) {q : Server} {l : ServerLabel}
    (h : KeepsCounter key q l) : KeepsCounters (singleKey key lim) q l := by
  cases l with
  | run i fault => exact h
  | outside dt =>
      rintro k ⟨-, rfl, rfl⟩
      exact h

theorem enters_limited (lim : ConnLim) (key : String) (dryRuns : List Val) :
    ∀ p ∈ limited lim key dryRuns, (singleKey key lim).Enters p := by
  intro p hp
  obtain ⟨dryRun, -, rfl⟩ := List.mem_map.mp hp
  exact Discipline.enters_limitConn dryRun ⟨rfl, rfl⟩

/-- With the counters in order, an admission reads a count within the limit, and
that count covers every request that is still held. -/
theorem held_step {key : String} {lim : ConnLim} {q q' : Server} {l : ServerLabel}
    (hl : Ledger (singleKey key lim) q) (ha : Accounted (singleKey key lim) q)
    (hok : KeepsCounters (singleKey key lim) q l) (hstep : server.step q l = some q')
    (h : (held q key : ℚ) ≤ lim.max + lim.burst) :
    (held q' key : ℚ) ≤ lim.max + lim.burst := by
  have hkey : (singleKey key lim).Counter key := ⟨lim, rfl, rfl⟩
  have ha' := accounted_step (fun _ _ h => h) hl ha hok hstep
  obtain ⟨i, fault, t, o, k, rfl, ht, hk, rfl⟩ | ⟨dt, rfl, rfl⟩ := server.step_cases hstep
  · cases hok
    obtain ⟨-, hmoves⟩ := stage_next (hl.stage i t ht) hk (execOp q.store none o).1
    rcases held_of_moves hmoves rfl (ha key hkey) with hsame | ⟨lim', m, ⟨-, rfl⟩, hm, hover⟩
    · have hcount := countP_set_add (Request.holds key) q.procs i t
        (k (execOp q.store none o).1) ht
      have hholds : Request.holds key (k (execOp q.store none o).1) = true →
          Request.holds key t = true := by
        simpa only [Request.holds, decide_eq_true_eq, Request.share] using hsame
      have hle : (q.procs.set i (k (execOp q.store none o).1)).countP (Request.holds key) ≤
          q.procs.countP (Request.holds key) := by
        split_ifs at hcount with h1 h2 h2 <;> first | omega | exact absurd (hholds h2) h1
      exact le_trans (Nat.cast_le.mpr hle) h
    · have hread := ha' key hkey
      have heq := Option.some.inj (hm.symm.trans hread)
      have hlim : (m : ℚ) ≤ lim'.max + lim'.burst := not_lt.mp hover
      refine le_trans ?_ hlim
      rw [heq]
      push_cast
      exact le_add_of_nonneg_right (Nat.cast_nonneg _)
  · exact h

/-- As long as the counter's lifetime never runs out under a count, the requests
admitted under the key and not yet taken off stay within max + burst. -/
theorem held_le_limit (lim : { lim : ConnLim // lim.Accepted }) (key : String)
    (dryRuns : List Val) (store : RedisStore) (fresh : Redis.counter store key = some 0)
    (s : Server)
    (hs : server.Reaches (KeepsCounter key)
      (Server.start (limited lim.1 key dryRuns) store) s) :
    (held s key : ℚ) ≤ lim.1.max + lim.1.burst := by
  have hfresh : ∀ k, (singleKey key lim.1).Counter k → Redis.counter store k = some 0 := by
    rintro k ⟨-, rfl, rfl⟩
    exact fresh
  have henters := enters_limited lim.1 key dryRuns
  have hstart := accounted_start henters hfresh
  have hzero : held (Server.start (limited lim.1 key dryRuns) store) key = 0 := by
    have hread := hstart key ⟨lim.1, rfl, rfl⟩
    have hsum := Option.some.inj (fresh.symm.trans hread)
    omega
  refine (hs.invariant (I := fun q => (Ledger (singleKey key lim.1) q ∧
    Accounted (singleKey key lim.1) q) ∧ (held q key : ℚ) ≤ lim.1.max + lim.1.burst)
    ⟨⟨ledger_start henters, hstart⟩, ?_⟩ ?_).2
  · rw [hzero]
    exact add_nonneg lim.2.max_pos.le lim.2.burst_nonneg
  · rintro q l q' ⟨⟨hl, ha⟩, h⟩ hok hstep
    have hok' := keepsCounters_singleKey lim.1 hok
    exact ⟨⟨ledger_step hl hstep, accounted_step (fun _ _ h => h) hl ha hok' hstep⟩,
      held_step hl ha hok' hstep h⟩

theorem held_le_limit_documented : ∃ s,
    server.Reaches (KeepsCounter "openresty:gitlab:connlimit:alice:")
      (Server.start (limited ⟨200, 100, 1 / 2⟩ "openresty:gitlab:connlimit:alice:" [.nil, .nil])
        .empty) s ∧
    held s "openresty:gitlab:connlimit:alice:" = 2 ∧
    (held s "openresty:gitlab:connlimit:alice:" : ℚ) ≤ 200 + 100 := by
  obtain ⟨s, hs, hheld⟩ := server.exists_reaches
    (P := fun l => ∃ i, l = .run i none)
    (p := Server.start
      (limited ⟨200, 100, 1 / 2⟩ "openresty:gitlab:connlimit:alice:" [.nil, .nil]) .empty)
    (fun s : Server => held s "openresty:gitlab:connlimit:alice:") (b := 2)
    [.run 0 none, .run 1 none, .run 0 none, .run 1 none] (by simp) (by decide +kernel)
  have hok : server.Reaches (KeepsCounter "openresty:gitlab:connlimit:alice:") _ s :=
    hs.mono (by rintro q l ⟨i, rfl⟩; rfl)
  exact ⟨s, hok, hheld, held_le_limit ⟨⟨200, 100, 1 / 2⟩, by norm_num, by norm_num, by norm_num⟩
    _ _ _ rfl s hok⟩

/-- Without that provision the limit does not hold. One connection at a time is
allowed. The first request comes and goes, which puts 60 seconds on the counter;
the second comes within them and stays longer; the third finds no counter. -/
theorem limit_exceeded : ¬ ∀ s,
    server.Reaches (fun _ l => NoFault l)
      (Server.start (limited ⟨1, 0, 1 / 2⟩ "openresty:gitlab:connlimit:alice:"
        [.nil, .nil, .nil]) .empty) s →
    (held s "openresty:gitlab:connlimit:alice:" : ℚ) ≤ 1 + 0 := by
  intro h
  obtain ⟨s, hs, hheld⟩ := server.exists_reaches (P := NoFault)
    (p := Server.start (limited ⟨1, 0, 1 / 2⟩ "openresty:gitlab:connlimit:alice:"
      [.nil, .nil, .nil]) .empty)
    (fun s : Server => held s "openresty:gitlab:connlimit:alice:") (b := 2)
    [.run 0 none, .run 0 none, .run 0 none, .run 0 none, .run 0 none, .run 0 none,
      .run 1 none, .run 1 none, .outside 61, .run 2 none, .run 2 none]
    (by simp [NoFault]) (by decide +kernel)
  have hle := h s hs
  rw [hheld] at hle
  norm_num at hle

/-! ### Requests under their domain configurations -/

abbrev Arrivals := List (Dict × RequestVars)

def handlers (arrivals : Arrivals) : List (Lua Unit) :=
  arrivals.map (fun a => AccessMain.main a.1 a.2)

def CounterKey (arrivals : Arrivals) (key : String) : Prop :=
  ∃ a ∈ arrivals, AccessMain.connlimitKey a.1 a.2 = .ok (some key)

def RecordKey (arrivals : Arrivals) (key : String) : Prop :=
  ∃ a ∈ arrivals, AccessMain.reqlimitKey a.1 a.2 = .ok (some key)

def ownKeys (arrivals : Arrivals) : Discipline where
  counts := fun key _ => CounterKey arrivals key
  stores := RecordKey arrivals

theorem enters_handlers (arrivals : Arrivals) :
    ∀ p ∈ handlers arrivals, (ownKeys arrivals).Enters p := by
  intro p hp
  obtain ⟨a, ha, rfl⟩ := List.mem_map.mp hp
  exact Discipline.enters_main (fun _ _ h => ⟨a, ha, h⟩) (fun _ h => ⟨a, ha, h⟩)

theorem opLeak_nonneg (key : String) (o : Op) (a : o.Answer) : 0 ≤ opLeak key o a := by
  simp only [opLeak]
  split
  · split <;> decide
  · exact le_rfl

theorem leaked_eq_zero_iff (log : History) (i : Nat) :
    (∀ key, leaked log i key = 0) ↔
      ∀ e ∈ eventsOf log i, ¬ FailedDecr e.op e.answer := by
  constructor
  · rintro h ⟨who, o, a⟩ he hfail
    cases o with
    | redis c =>
        cases c with
        | decr key =>
            have hnone : ConnLim.intRes (Reply.res a) = none := hfail
            have hone : opLeak key (.redis (.decr key)) a = 1 := by simp [opLeak, hnone]
            have hle : opLeak key (.redis (.decr key)) a ≤ leaked log i key := by
              refine List.single_le_sum ?_ _ (List.mem_map_of_mem he)
              intro x hx
              obtain ⟨e, -, rfl⟩ := List.mem_map.mp hx
              exact opLeak_nonneg key e.op e.answer
            have hzero := h key
            omega
        | get _ | set _ _ | expire _ _ | incr _ | sismember _ _ => exact hfail
    | now | sleep _ | setCtx _ | yield => exact hfail
  · intro h key
    refine List.sum_eq_zero ?_
    intro x hx
    obtain ⟨⟨who, o, a⟩, he, rfl⟩ := List.mem_map.mp hx
    cases o with
    | redis c =>
        cases c with
        | decr k =>
            have hsome : ConnLim.intRes (Reply.res a) ≠ none := h _ he
            simp [opLeak, hsome]
        | get _ | set _ _ | expire _ _ | incr _ | sismember _ _ => rfl
    | now | sleep _ | setCtx _ | yield => rfl

theorem share_of_finished {r : Request} (h : r.Finished) : r.share = ⟨none, none⟩ := by
  obtain ⟨phase, ctx⟩ := r
  cases phase with
  | access p => cases p <;> cases h
  | content => cases h
  | log p =>
      cases p with
      | ret _ | stop _ => rfl
      | call _ _ => cases h

def oneAtATime : Dict
  | "gitlab.example" => some (.json (.obj
      [("domain", .str "gitlab.example"),
       ("basic", .obj [("service", .str "gitlab")]),
       ("reqlimit", .obj [("limit_args", .arr [])]),
       ("connlimit", .obj [("limit_args",
         .arr [.obj [("key", .str "10.0.0.0/8"), ("max", .num 1)]])])]))
  | _ => none

def twoClients : Arrivals :=
  [(oneAtATime, ⟨"gitlab.example", none, "10.0.0.7", none⟩),
   (oneAtATime, ⟨"gitlab.example", none, "10.0.0.8", none⟩)]

def KeysApart (arrivals : Arrivals) : Prop :=
  ∀ key, CounterKey arrivals key → ¬ RecordKey arrivals key

/-- Service names without a colon keep the keys apart. -/
theorem keysApart_of_plain_services {arrivals : Arrivals}
    (plain : ∀ a ∈ arrivals, ∀ s, AccessMain.ServiceName a.1 a.2 s → ':' ∉ s.toList) :
    KeysApart arrivals := by
  rintro key ⟨a, ha, hcounter⟩ ⟨b, hb, hrecord⟩
  obtain ⟨s, rest, hs, rfl⟩ := AccessMain.connlimitKey_eq_ok hcounter
  obtain ⟨s', rest', hs', hkey⟩ := AccessMain.reqlimitKey_eq_ok hrecord
  cases AccessMain.tail_eq_of_notMem (plain a ha s hs) (plain b hb s' hs')
    (AccessMain.service_tails_eq hkey)

/-- No command fails and no key expires. -/
def NothingExpires (q : Server) : ServerLabel → Prop
  | .run _ fault => fault = none
  | .outside dt => ∀ key, q.store.lookup key ≠ none → (q.store.advance dt).lookup key ≠ none

theorem keepsCounters_of_nothingExpires (D : Discipline) {q : Server} {l : ServerLabel}
    (h : NothingExpires q l) : KeepsCounters D q l := by
  cases l with
  | run i fault => exact h
  | outside dt =>
      intro key _ hnone
      have hmissing : q.store.lookup key = none := by
        by_contra hpresent
        exact h key hpresent hnone
      simp only [Redis.counter, hmissing]

def AccessOver (r : Request) : Prop :=
  match r.phase with
  | .access (.call _ _) => False
  | _ => True

theorem share_of_accessOver {D : Discipline} {r : Request} {ops : List Command}
    (h : Stage D r ops) (hover : AccessOver r) (notAdmitted : r.ctx = none) :
    r.share = ⟨none, none⟩ := by
  cases h with
  | entering p hp => exact share_of_enters hp
  | undoing key p _ hp | admitted key p _ hp =>
      cases hp
      exact hover.elim
  | refused p ops hp _ => exact share_access_of_quiet none hp
  | served _ _ _ _ _ | contentSome _ _ | leaving _ _ _ _ | leftSome _ _ _ => cases notAdmitted
  | contentNone _ _ => rfl
  | leftNone p ops hp _ => exact share_of_tail none hp

/-- A request whose handler was cut short, by an exit or an error, was not admitted. -/
theorem ctx_of_stopped {D : Discipline} {e : Stop} {ctx : Option ConnCtx}
    {ops : List Command} (h : Stage D ⟨.access (.stop e), ctx⟩ ops) : ctx = none := by
  cases h with
  | entering _ _ | refused _ _ _ _ | undoing _ _ _ _ | admitted _ _ _ _ => rfl
  | served c p _ _ hreturns => exact hreturns.elim

theorem counterOps_of_finished {D : Discipline} {r : Request} {ops : List Command}
    {c : ConnCtx} (h : Stage D r ops) (finished : r.Finished) (admitted : r.ctx = some c) :
    ops = [.incr c.limitConnKey, .decr c.limitConnKey] := by
  cases h with
  | entering _ _ | undoing _ _ _ _ | admitted _ _ _ _ | refused _ _ _ _ | contentNone _ _
  | leftNone _ _ _ _ => cases admitted
  | served c p _ hp _ => cases p <;> cases finished
  | contentSome _ _ | leaving _ _ _ _ => cases finished
  | leftSome c p _ =>
      cases admitted
      rfl

theorem decrs_answered {D : Discipline} (apart : ∀ key, D.Counter key → ¬ D.stores key)
    {handlers : List (Lua Unit)} {store : RedisStore} {s : Server}
    (h : ∀ p ∈ handlers, D.Enters p)
    (fresh : ∀ key, D.Counter key → Redis.counter store key = some 0)
    (hs : server.Reaches (KeepsCounters D) (Server.start handlers store) s) :
    ∀ e ∈ s.log, ¬ FailedDecr e.op e.answer := by
  refine (hs.invariant (I := fun q => (Ledger D q ∧ Accounted D q) ∧
    ∀ e ∈ q.log, ¬ FailedDecr e.op e.answer)
    ⟨⟨ledger_start h, accounted_start h fresh⟩, fun e he => nomatch he⟩ ?_).2
  rintro q l q' ⟨⟨hl, ha⟩, hlog⟩ hok hstep
  refine ⟨⟨ledger_step hl hstep, accounted_step apart hl ha hok hstep⟩, ?_⟩
  obtain ⟨i, fault, t, o, k, rfl, ht, hk, rfl⟩ | ⟨dt, rfl, rfl⟩ := server.step_cases hstep
  · cases hok
    intro e he
    rcases List.mem_append.mp he with hold | hnew
    · exact hlog e hold
    · cases List.mem_singleton.mp hnew
      obtain ⟨-, hmoves⟩ := stage_next (hl.stage i t ht) hk (execOp q.store none o).1
      exact decr_answered hmoves rfl (fun key hkey => ⟨_, ha key hkey⟩)
  · exact hlog

theorem twoClients_keysApart : KeysApart twoClients := by
  refine keysApart_of_plain_services ?_
  rintro a ha s ⟨basic, hbasic, hs⟩
  have hsection : GetConf.app GetConf.appCheckBasic a.1 a.2.host "basic" =
      .ok (some ⟨.str "gitlab", .bool false⟩) := by
    rcases List.mem_pair.mp ha with rfl | rfl <;> rfl
  cases hbasic.symm.trans hsection
  cases hs
  decide

/-- Two domains whose names run into each other: the counter of the first and the
record of the second are one key. -/
def runTogether : Dict
  | "a.example" => some (.json (.obj
      [("basic", .obj [("service", .str "a")]),
       ("reqlimit", .obj [("limit_args", .arr [])]),
       ("connlimit", .obj [("limit_type", .str "user"), ("limit_args",
         .arr [.obj [("key", .str "x"), ("limit_location", .str "reqlimit:y:z")]])])]))
  | "b.example" => some (.json (.obj
      [("basic", .obj [("service", .str "a:connlimit:x")]),
       ("reqlimit", .obj [("limit_type", .str "user"), ("limit_args",
         .arr [.obj [("key", .str "y"), ("limit_location", .str "z")]])]),
       ("connlimit", .obj [("limit_args", .arr [])])]))
  | _ => none

end Server
end OpenrestyGateway
