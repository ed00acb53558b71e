import OpenrestyGateway.WorkerDelivery

/-!
Events that one worker is to handle, and events that are lost.

A unique value is taken at most once within the timeout. An event is only lost where
its number is seen before its data, or the dict fails.
-/
namespace OpenrestyGateway
namespace WorkerEvents
open Interleaving

/-! ### Unique events -/

/-- A key of the dict that a worker has taken for itself. -/
def Op.takes : (o : Op) → o.Answer → Option String
  | .add key _ (some _), .ok _ => some key
  | _, _ => none

/-- The keys that were taken, and when. -/
def noteTakes (taken : List (String × ℚ)) (_ : Server) (l : Label (Option String) Change)
    (q : Server) : List (String × ℚ) :=
  match l, q.log.getLast? with
  | .run _ _, some e =>
      taken ++ ((e.op.takes e.answer).map (fun key => (key, q.store.clock))).toList
  | _, _ => taken

def times (unique : String) (taken : List (String × ℚ)) : List ℚ :=
  (taken.filter (fun t => t.1 == keyOne unique)).map Prod.snd

def Op.handles (unique : String) : Op → Bool
  | .settle _ (.handled e) => e.unique == some unique
  | _ => false

/-- How often an event with this unique value has been handled. -/
def timesHandled (unique : String) (log : List (Interleaving.Event Op Op.Answer)) : Nat :=
  log.countP (fun e => e.op.handles unique)

/-- The unique value has not been evicted. -/
def KeepsOne (unique : String) : Server → Label (Option String) Change → Prop
  | _, .outside (.evict key) => key ≠ keyOne unique
  | _, .outside (.advance _) | _, .run _ _ => True

def Worker.owns (unique : String) (w : Worker) : Bool :=
  match w.phase with
  | .handling _ (.own e) _ => e.unique == some unique
  | _ => false

def Process.owns (unique : String) : Process → Bool
  | .posting _ => false
  | .worker w => w.owns unique

/-- An event is handled once for each time that its unique value was taken. -/
structure Once (cfg : Config) (unique : String) (p : Server) (ts : List ℚ) : Prop where
  spaced : ts.Pairwise (fun t t' => t + cfg.timeout ≤ t')
  past : ∀ t ∈ ts, t ≤ p.store.clock
  free : ts = [] → p.store.cell (keyOne unique) = none
  held : ∀ t, ts.getLast? = some t →
    ∃ v, p.store.cell (keyOne unique) = some (v, some (t + cfg.timeout))
  count : timesHandled unique p.log + p.procs.countP (Process.owns unique) = ts.length

section Once
variable {cfg : Config} {decode : Value → Option Event} {unique : String} {p : Server}

theorem owns_proceed (w : Worker) (expire : ℚ) (cache : List Fetched) :
    (w.proceed expire cache).owns unique = false := by
  obtain hphase | hphase := phase_proceed w expire cache <;> simp [Worker.owns, hphase]

def takesOne (unique : String) (o : Op) (a : o.Answer) : Bool :=
  o.takes a == some (keyOne unique)

/-- What a worker takes it owns until it has handled the event. -/
theorem worker_count {w : Worker} {o : Op} {k : o.Answer → Worker}
    (hnext : w.next cfg decode = some ⟨o, k⟩) (a : o.Answer) :
    ((k a).owns unique).toNat + (o.handles unique).toNat =
      (w.owns unique).toNat + (takesOne unique o a).toNat := by
  revert a
  refine next_cases (P := fun o k => ∀ a, ((k a).owns unique).toNat + (o.handles unique).toNat =
    (w.owns unique).toNat + (takesOne unique o a).toNat) hnext ?_ ?_ ?_ ?_ ?_ ?_ ?_ ?_ ?_
  · intro hphase a
    have howns : (w.configured a).owns unique = false := by
      simp only [Worker.configured]
      split <;> rfl
    have hw : w.owns unique = false := by simp only [Worker.owns, hphase]
    simp [howns, hw, Op.handles, takesOne, Op.takes]
  · intro hphase a
    have hw : w.owns unique = false := by simp only [Worker.owns, hphase]
    have howns : (w.polled a).owns unique = false := by
      simp only [Worker.polled]
      split
      · rfl
      · split
        · exact hw
        · split <;> rfl
    simp [howns, hw, Op.handles, takesOne, Op.takes]
  · intro eventId cache hphase a
    have howns : (w.fetched eventId cache a).owns unique = false := by
      simp only [Worker.fetched, Worker.owns]
      split
      · rename_i h
        split at h <;> cases h
      · rfl
    have hw : w.owns unique = false := by simp only [Worker.owns, hphase]
    simp [howns, hw, Op.handles, takesOne, Op.takes]
  · intro cache hphase a
    have hw : w.owns unique = false := by simp only [Worker.owns, hphase]
    simp [owns_proceed, hw, Op.handles, takesOne, Op.takes]
  · intro expire cache hphase a
    have howns : (w.stage expire (.ok none :: cache)
        (if expire ≤ a then .late else .rest)).owns unique = false := by
      split <;> rfl
    have hw : w.owns unique = false := by simp only [Worker.owns, hphase]
    simp [howns, hw, Op.handles, takesOne, Op.takes]
  · intro expire data cache hphase a
    simp [Worker.stage, Worker.owns, hphase, Op.handles, takesOne, Op.takes]
  · intro expire data cache hphase a
    simp [Worker.stage, Worker.owns, hphase, Op.handles, takesOne, Op.takes]
  · intro expire json cache e u hphase _ hunique a
    cases a with
    | error err =>
        simp [Worker.mineToHave, Worker.stage, Worker.owns, hphase, Op.handles, takesOne, Op.takes]
    | ok _ =>
        have hkey : (some (keyOne u) == some (keyOne unique)) = (some u == some unique) := by
          rw [Bool.eq_iff_iff, beq_iff_eq, beq_iff_eq, Option.some.injEq, Option.some.injEq]
          exact ⟨keyOne_injective, congrArg keyOne⟩
        simp only [Worker.mineToHave, Worker.stage, Worker.owns, hphase, Op.handles, takesOne,
          Op.takes, hunique, hkey]
        simp
  · intro expire stage data cache fate hphase hsettles a
    rw [owns_proceed]
    cases hsettles with
    | own e => simp [Worker.owns, hphase, Op.handles, takesOne, Op.takes]
    | handled _ hunique => simp [Worker.owns, hphase, Op.handles, takesOne, Op.takes, hunique]
    | error | garbled | skip | late =>
        simp [Worker.owns, hphase, Op.handles, takesOne, Op.takes]

theorem posting_takes {q : Posting} {o : Op} {k : o.Answer → Posting}
    (hnext : q.next = some ⟨o, k⟩) :
    (∀ a, o.takes a = none) ∧ (∀ unique, o.handles unique = false) ∧
      ∀ unique, o.writes ≠ some (keyOne unique) := by
  cases q with
  | begun json =>
      cases hnext
      exact ⟨fun a => by cases a <;> rfl, fun _ => rfl,
        fun u h => keyOne_ne_last u (Option.some.inj h).symm⟩
  | numbering json =>
      cases hnext
      exact ⟨fun _ => rfl, fun _ => rfl, fun u h => keyOne_ne_last u (Option.some.inj h).symm⟩
  | storing json id =>
      cases hnext
      exact ⟨fun a => by cases a <;> rfl, fun _ => rfl,
        fun u h => keyOne_ne_data u id (Option.some.inj h).symm⟩
  | posted json id | failed id err => cases hnext

theorem worker_takes {w : Worker} {o : Op} {k : o.Answer → Worker}
    (hnext : w.next cfg decode = some ⟨o, k⟩) :
    ((∀ a, o.takes a = none) ∧ o.writes = none) ∨
      ∃ u v, o = .add (keyOne u) v (some cfg.timeout) := by
  refine next_cases (P := fun o _ => ((∀ a, o.takes a = none) ∧ o.writes = none) ∨
    ∃ u v, o = .add (keyOne u) v (some cfg.timeout)) hnext ?_ ?_ ?_ ?_ ?_ ?_ ?_ ?_ ?_
  · exact fun _ => .inl ⟨fun _ => rfl, rfl⟩
  · exact fun _ => .inl ⟨fun _ => rfl, rfl⟩
  · exact fun _ _ _ => .inl ⟨fun _ => rfl, rfl⟩
  · exact fun _ _ => .inl ⟨fun _ => rfl, rfl⟩
  · exact fun _ _ _ => .inl ⟨fun _ => rfl, rfl⟩
  · exact fun _ _ _ _ => .inl ⟨fun _ => rfl, rfl⟩
  · exact fun _ _ _ _ => .inl ⟨fun _ => rfl, rfl⟩
  · exact fun _ _ _ _ u _ _ _ => .inr ⟨u, _, rfl⟩
  · exact fun _ _ _ _ _ _ _ => .inl ⟨fun _ => rfl, rfl⟩

/-- Of the operations, only that of mine_to_have takes a key. -/
theorem process_takes {t : Process} {o : Op} {k : o.Answer → Process}
    (hnext : t.next cfg decode = some ⟨o, k⟩) :
    ((∀ a, o.takes a = none) ∧ ∀ u, o.writes ≠ some (keyOne u)) ∨
      ∃ u v, o = .add (keyOne u) v (some cfg.timeout) := by
  cases t with
  | posting q =>
      simp only [Process.next, Option.map_eq_some_iff] at hnext
      obtain ⟨⟨o', k'⟩, hq, heq⟩ := hnext
      cases heq
      have htakes := posting_takes hq
      exact .inl ⟨htakes.1, htakes.2.2⟩
  | worker w =>
      simp only [Process.next, Option.map_eq_some_iff] at hnext
      obtain ⟨⟨o', k'⟩, hw, heq⟩ := hnext
      cases heq
      obtain ⟨hnone, hwrites⟩ | hadd := worker_takes hw
      · exact .inl ⟨hnone, fun u h => by cases hwrites.symm.trans h⟩
      · exact .inr hadd

theorem process_count {t : Process} {o : Op} {k : o.Answer → Process}
    (hnext : t.next cfg decode = some ⟨o, k⟩) (a : o.Answer) :
    ((k a).owns unique).toNat + (o.handles unique).toNat =
      (t.owns unique).toNat + (takesOne unique o a).toNat := by
  cases t with
  | posting q =>
      simp only [Process.next, Option.map_eq_some_iff] at hnext
      obtain ⟨⟨o', k'⟩, hq, heq⟩ := hnext
      cases heq
      obtain ⟨hnone, hhandles, -⟩ := posting_takes hq
      simp [Process.owns, hhandles unique, takesOne, hnone a]
  | worker w =>
      simp only [Process.next, Option.map_eq_some_iff] at hnext
      obtain ⟨⟨o', k'⟩, hw, heq⟩ := hnext
      cases heq
      exact worker_count hw a

variable {ts : List ℚ}

theorem Once.expired (h : Once cfg unique p ts) (hlookup : p.store.lookup (keyOne unique) = none) :
    ∀ t ∈ ts, t + cfg.timeout ≤ p.store.clock := by
  obtain rfl | ⟨front, last, rfl⟩ := ts.eq_nil_or_concat'
  · exact fun t ht => absurd ht List.not_mem_nil
  · obtain ⟨v, hcell⟩ := h.held last List.getLast?_concat
    have hlast : last + cfg.timeout ≤ p.store.clock := by
      by_contra hlt
      have hsome : p.store.lookup (keyOne unique) = some v := by
        simp [Ttl.Store.lookup, Ttl.Store.entry, hcell, Ttl.Store.alive, not_le.mp hlt]
      cases hlookup.symm.trans hsome
    intro t ht
    obtain hmem | heq := List.mem_append.mp ht
    · have hspaced := (List.pairwise_append.mp h.spaced).2.2 t hmem last (.head _)
      exact hspaced.trans (h.past last (List.mem_append_right front (.head _)))
    · exact List.mem_singleton.mp heq ▸ hlast

/-- A key is only taken where it has expired, and then for the timeout. -/
theorem Once.exec (h : Once cfg unique p ts) {t : Process} {o : Op} {k : o.Answer → Process}
    (hnext : t.next cfg decode = some ⟨o, k⟩) (fault : Option String) :
    takesOne unique o (exec p.store fault o).1 = false ∧
        (exec p.store fault o).2.cell (keyOne unique) = p.store.cell (keyOne unique) ∨
      takesOne unique o (exec p.store fault o).1 = true ∧
        (∀ t' ∈ ts, t' + cfg.timeout ≤ p.store.clock) ∧
        ∃ v, (exec p.store fault o).2.cell (keyOne unique) =
          some (v, some (p.store.clock + cfg.timeout)) := by
  obtain ⟨hnone, hwrites⟩ | ⟨u, v, rfl⟩ := process_takes hnext
  · exact .inl ⟨by rw [takesOne, hnone]; rfl, exec_cell _ _ _ (hwrites unique)⟩
  · obtain ⟨err, herr⟩ | ⟨s', hok, hlookup, hcells⟩ :=
      exec_add p.store fault (keyOne u) v (some cfg.timeout)
    · rw [herr]
      exact .inl ⟨rfl, rfl⟩
    · rw [hok]
      by_cases hu : u = unique
      · subst hu
        refine .inr ⟨by simp [takesOne, Op.takes], h.expired hlookup, v, ?_⟩
        rw [hcells, if_pos rfl]
        rfl
      · have hne : keyOne u ≠ keyOne unique := fun heq => hu (keyOne_injective heq)
        refine .inl ⟨by simp [takesOne, Op.takes, hne], ?_⟩
        rw [hcells, if_neg (Ne.symm hne)]

theorem times_noteTakes {i : Nat} {fault : Option String} {taken : List (String × ℚ)}
    {procs : List Process} {s : Shm} {o : Op} {a : o.Answer} :
    times unique (noteTakes taken p (.run i fault) ⟨procs, s, p.log ++ [⟨i, o, a⟩]⟩) =
      times unique taken ++ if takesOne unique o a then [s.clock] else [] := by
  simp only [noteTakes, List.getLast?_concat, times, List.filter_append, List.map_append, takesOne]
  obtain hnone | ⟨key, hsome⟩ := Option.eq_none_or_eq_some (o.takes a)
  · simp [hnone]
  · by_cases hkey : key = keyOne unique
    · simp [hsome, hkey]
    · simp [hsome, hkey]

theorem once_run {i : Nat} {t : Process} {taken : List (String × ℚ)}
    (h : Once cfg unique p (times unique taken)) (ht : p.procs[i]? = some t) {o : Op}
    {k : o.Answer → Process} (hnext : t.next cfg decode = some ⟨o, k⟩) (fault : Option String) :
    Once cfg unique
      ⟨p.procs.set i (k (exec p.store fault o).1), (exec p.store fault o).2,
        p.log ++ [⟨i, o, (exec p.store fault o).1⟩]⟩
      (times unique (noteTakes taken p (.run i fault)
        ⟨p.procs.set i (k (exec p.store fault o).1), (exec p.store fault o).2,
          p.log ++ [⟨i, o, (exec p.store fault o).1⟩]⟩)) := by
  rw [times_noteTakes, exec_clock]
  have hprocs := countP_set_add (Process.owns unique) p.procs i t (k (exec p.store fault o).1) ht
  have hone : ((k (exec p.store fault o).1).owns unique).toNat + (o.handles unique).toNat =
      (t.owns unique).toNat + (takesOne unique o (exec p.store fault o).1).toNat :=
    process_count hnext _
  have hlog : timesHandled unique (p.log ++ [⟨i, o, (exec p.store fault o).1⟩]) =
      timesHandled unique p.log + (o.handles unique).toNat := by
    simp only [timesHandled, List.countP_append, List.countP_cons, List.countP_nil]
    cases o.handles unique <;> rfl
  have hcount := h.count
  have htoNat : ∀ b : Bool, (if b then 1 else 0) = b.toNat := fun b => by cases b <;> rfl
  simp only [htoNat] at hprocs
  obtain ⟨htakes, hcell⟩ | ⟨htakes, hexpired, v, hcell⟩ := h.exec hnext fault
  · simp only [htakes, Bool.toNat_false, Bool.false_eq_true, if_false, List.append_nil] at hone ⊢
    refine ⟨h.spaced, ?_, ?_, ?_, ?_⟩
    · simpa only [exec_clock] using h.past
    · exact fun hnil => hcell.trans (h.free hnil)
    · intro t' ht'
      rw [hcell]
      exact h.held t' ht'
    · change timesHandled unique (p.log ++ _) + List.countP _ (p.procs.set i _) = _
      rw [hlog]
      omega
  · simp only [htakes, Bool.toNat_true, if_true] at hone ⊢
    refine ⟨?_, ?_, ?_, ?_, ?_⟩
    · refine List.pairwise_append.mpr ⟨h.spaced, List.pairwise_singleton _ _, ?_⟩
      intro t' ht' t'' ht''
      exact List.mem_singleton.mp ht'' ▸ hexpired t' ht'
    · intro t' ht'
      rw [exec_clock]
      obtain hmem | heq := List.mem_append.mp ht'
      · exact h.past t' hmem
      · exact (List.mem_singleton.mp heq).le
    · exact fun hnil => absurd hnil (by simp)
    · intro t' ht'
      rw [List.getLast?_concat] at ht'
      cases ht'
      exact ⟨v, hcell⟩
    · change timesHandled unique (p.log ++ _) + List.countP _ (p.procs.set i _) = _
      rw [hlog, List.length_append, List.length_singleton]
      omega

theorem once_step {taken : List (String × ℚ)} {l : Label (Option String) Change} {q : Server}
    (h : Once cfg unique p (times unique taken)) (hl : KeepsOne unique p l)
    (hstep : (server cfg decode).step p l = some q) :
    Once cfg unique q (times unique (noteTakes taken p l q)) := by
  obtain ⟨i, fault, t, o, k, rfl, ht, hnext, rfl⟩ | ⟨x, rfl, rfl⟩ := Machine.step_cases _ hstep
  · exact once_run h ht hnext fault
  · cases x with
    | advance d =>
        refine ⟨h.spaced, fun t ht => ?_, h.free, h.held, h.count⟩
        exact (h.past t ht).trans (le_add_of_nonneg_right d.2)
    | evict key =>
        have hcell : Function.update p.store.cell key none (keyOne unique) =
            p.store.cell (keyOne unique) := Function.update_of_ne (Ne.symm hl) _ _
        refine ⟨h.spaced, h.past, fun hnil => hcell.trans (h.free hnil), fun t ht => ?_, h.count⟩
        obtain ⟨v, hv⟩ := h.held t ht
        exact ⟨v, hcell.trans hv⟩

end Once

/-- Over all runs, the workers take events with the same unique value at times that lie the
timeout apart, and handle no more of them than they have taken. -/
theorem unique_handled_once {cfg : Config} {decode : Value → Option Event} (unique : String)
    {procs : List Process} {clock : ℚ} {p : Server} {taken : List (String × ℚ)}
    (hnew : ∀ t ∈ procs, t.New)
    (h : (server cfg decode).Notes noteTakes (KeepsOne unique) (Server.start procs clock) [] p
      taken) :
    (times unique taken).Pairwise (fun t t' => t + cfg.timeout ≤ t') ∧
      timesHandled unique p.log ≤ (times unique taken).length := by
  have honce : Once cfg unique p (times unique taken) := by
    refine h.invariant (I := fun p taken => Once cfg unique p (times unique taken)) ?_
      (fun _ _ _ _ hq hl hstep => once_step hq hl hstep)
    refine ⟨.nil, fun t ht => absurd ht List.not_mem_nil, fun _ => rfl,
      fun t ht => (by cases ht), ?_⟩
    have hnone : procs.countP (Process.owns unique) = 0 := by
      rw [List.countP_eq_zero]
      intro t ht
      cases hnew t ht with
      | posting | worker => exact Bool.false_ne_true
    exact (Nat.zero_add _).trans hnone
  exact ⟨honce.spaced, (Nat.le_add_right _ _).trans honce.count.le⟩

instance (unique : String) (p : Server) (l : Label (Option String) Change) :
    Decidable (KeepsOne unique p l) :=
  match l with
  | .outside (.evict key) => inferInstanceAs (Decidable (key ≠ keyOne unique))
  | .outside (.advance _) => isTrue trivial
  | .run _ _ => isTrue trivial

theorem unique_handled_once_two : ∃ (p : Server) (taken : List (String × ℚ)),
    (timesHandled "a" p.log, times "a" taken) = (1, [100]) ∧
      ((times "a" taken).Pairwise (fun t t' => t + sampleConfig.timeout ≤ t') ∧
        timesHandled "a" p.log ≤ (times "a" taken).length) := by
  obtain ⟨p, taken, hp, hrun⟩ : ∃ p taken,
      (server sampleConfig sampleDecode).Notes noteTakes (KeepsOne "a")
        (Server.start sampleProcs 100) [] p taken ∧
      (timesHandled "a" p.log, times "a" taken) = (1, [100]) :=
    Machine.exists_notes_if _ (fun p taken => (timesHandled "a" p.log, times "a" taken))
      sampleRun (by decide +kernel)
  exact ⟨p, taken, hrun, unique_handled_once "a" sampleProcs_new hp⟩

/-! ### Lost events -/

/-- A call of post_event has its number, and the data are not stored yet. -/
def Process.between : Process → Bool
  | .posting (.storing _ _) => true
  | .posting _ | .worker _ => false

def Process.polls : Process → Bool
  | .worker ⟨_, _, .idle⟩ => true
  | .posting _ | .worker _ => false

/-- The dict neither fails nor is full, and no worker asks for the last number while a post is
between its number and its data. -/
def Quiet (p : Server) : Label (Option String) Change → Prop
  | .outside (.evict _) => False
  | .outside (.advance _) => True
  | .run i fault => fault = none ∧
      ((p.procs[i]?.any Process.polls) = true → p.procs.any Process.between = false)

def Present (data : Fetched) : Prop := ∃ json, data = .ok (some json)

/-- Everything that a worker looks for is there. -/
def Finds (procs : List Process) (w : Worker) : Prop :=
  match w.phase with
  | .fetching eventId cache =>
      (∀ id, 1 ≤ id → id ≤ eventId → ∃ json, Posted procs id json) ∧ ∀ data ∈ cache, Present data
  | .clocking cache => ∀ data ∈ cache, Present data
  | .handling _ stage cache =>
      (stage ≠ .late ∧ stage ≠ .rest ∧ stage ≠ .again) ∧ ∀ data ∈ cache, Present data
  | .configuring | .idle | .raised => True

structure Lossless (p : Server) : Prop where
  unfailed : ∀ (i id : Nat) err, p.procs[i]? ≠ some (Process.posting (.failed (some id) err))
  present : ∀ id json, Posted p.procs id json →
    p.store.cell (keyData id) = some (json, none)
  finds : ∀ (i : Nat) w, p.procs[i]? = some (Process.worker w) → Finds p.procs w
  kept : ∀ i id, (id, Fate.dropped) ∉ trace i p.log

section Lossless
variable {cfg : Config} {decode : Value → Option Event} {n i : Nat} {p : Server}

theorem Finds.mono {procs procs' : List Process} {w : Worker} (h : Finds procs w)
    (hposted : ∀ id json, Posted procs id json → Posted procs' id json) : Finds procs' w := by
  simp only [Finds] at h ⊢
  split
  · simp only [*] at h
    refine ⟨fun id hpos hle => ?_, h.2⟩
    obtain ⟨json, hjson⟩ := h.1 id hpos hle
    exact ⟨json, hposted id json hjson⟩
  · simp only [*] at h
    exact h
  · simp only [*] at h
    exact h
  · trivial
  · trivial
  · trivial

/-- Where no post is between its number and its data, the data of every number are there. -/
theorem Sound.all_posted (hs : Sound decode n p) (h : Lossless p)
    (hquiet : p.procs.any Process.between = false) {id : Nat} (hpos : 1 ≤ id) (hle : id ≤ n) :
    ∃ json, Posted p.procs id json := by
  obtain ⟨j, q, hq, hid⟩ := hs.given id hpos hle
  cases q with
  | begun json | numbering json => cases hid
  | storing json id' =>
      have hany := List.any_eq_false.mp hquiet _ (List.mem_of_getElem? hq)
      exact absurd rfl hany
  | posted json id' =>
      cases hid
      exact ⟨json, j, hq⟩
  | failed id' err =>
      cases hid
      exact absurd hq (h.unfailed j _ err)

theorem Lossless.get (h : Lossless p) {id : Nat} {json : Value} (hpost : Posted p.procs id json) :
    Present (exec p.store none (.get (keyData id))).1 :=
  ⟨json, congrArg Except.ok (lookup_of_cell (h.present id json hpost))⟩

theorem finds_proceed {procs : List Process} {w : Worker} {cache : List Fetched} (expire : ℚ)
    (h : ∀ data ∈ cache, Present data) : Finds procs (w.proceed expire cache) := by
  obtain hphase | hphase := phase_proceed w expire cache
  · simp only [Finds, hphase]
  · simp only [Finds, hphase]
    exact ⟨⟨by simp, by simp, by simp⟩, h⟩

/-- What a worker does next where everything is there. -/
theorem finds_next {w : Worker} (hs : Sound decode n p) (h : Lossless p)
    (hw : p.procs[i]? = some (.worker w)) {o : Op} {k : o.Answer → Worker}
    (hnext : w.next cfg decode = some ⟨o, k⟩)
    (hquiet : w.phase = .idle → p.procs.any Process.between = false) :
    Finds p.procs (k (exec p.store none o).1) ∧ ∀ id, o.settles ≠ some (id, .dropped) := by
  have hfinds := h.finds i w hw
  have htracks := hs.workers i w hw
  refine next_cases (P := fun o k => Finds p.procs (k (exec p.store none o).1) ∧
    ∀ id, o.settles ≠ some (id, .dropped)) hnext ?_ ?_ ?_ ?_ ?_ ?_ ?_ ?_ ?_
  · intro _
    refine ⟨?_, fun id heq => by cases heq⟩
    simp only [Worker.configured]
    split <;> trivial
  · intro hphase
    refine ⟨?_, fun id heq => by cases heq⟩
    obtain ⟨last, hle, hlast⟩ := hs.counter.eventId_le none
    simp only [Worker.polled, hlast]
    split
    · exact hfinds
    · split
      · refine ⟨fun id hpos hid => ?_, fun data hdata => absurd hdata List.not_mem_nil⟩
        exact hs.all_posted h (hquiet hphase) hpos (hid.trans hle)
      · exact fun data hdata => absurd hdata List.not_mem_nil
  · intro eventId cache hphase
    refine ⟨?_, fun id heq => by cases heq⟩
    obtain ⟨hstaged, -, -⟩ := htracks.runs (by simp [hphase]) rfl
    simp only [Staged, hphase] at hstaged
    simp only [Finds, hphase] at hfinds
    obtain ⟨json, hpost⟩ := hfinds.1 (w.lastEvent + 1) (by omega) (by omega)
    have hcache : ∀ data ∈ cache ++ [(exec p.store none (.get (keyData (w.lastEvent + 1)))).1],
        Present data := by
      intro data hdata
      obtain hmem | heq := List.mem_append.mp hdata
      · exact hfinds.2 data hmem
      · exact List.mem_singleton.mp heq ▸ h.get hpost
    simp only [Worker.fetched, Finds]
    split
    · rename_i hphase'
      split at hphase'
      · cases hphase'
        exact ⟨hfinds.1, hcache⟩
      · cases hphase'
    · rename_i hphase'
      split at hphase'
      · cases hphase'
      · cases hphase'
        exact hcache
    · rename_i hphase'
      split at hphase' <;> cases hphase'
    · trivial
    · trivial
    · trivial
  · intro cache hphase
    simp only [Finds, hphase] at hfinds
    exact ⟨finds_proceed _ hfinds, fun id heq => by cases heq⟩
  · intro expire cache hphase
    simp only [Finds, hphase] at hfinds
    obtain ⟨json, hjson⟩ := hfinds.2 _ (.head cache)
    cases hjson
  · intro expire data cache hphase
    simp only [Finds, hphase] at hfinds
    exact absurd rfl hfinds.1.2.1
  · intro expire data cache hphase
    simp only [Finds, hphase] at hfinds
    exact absurd rfl hfinds.1.2.2
  · intro expire json cache e unique hphase _ _
    simp only [Finds, hphase] at hfinds
    refine ⟨?_, fun id heq => by cases heq⟩
    cases (exec p.store none (.add (keyOne unique) (.number w.pid) (some cfg.timeout))).1 with
    | ok _ => exact ⟨⟨by simp, by simp, by simp⟩, hfinds.2⟩
    | error _ => exact ⟨⟨by simp, by simp, by simp⟩, hfinds.2⟩
  · intro expire stage data cache fate hphase hsettles
    simp only [Finds, hphase] at hfinds
    refine ⟨finds_proceed _ (fun d hd => hfinds.2 d (.tail data hd)), fun id heq => ?_⟩
    cases heq
    cases hsettles with
    | error err =>
        obtain ⟨json, hjson⟩ := hfinds.2 _ (.head cache)
        cases hjson
    | late => exact absurd rfl hfinds.1.1

theorem posted_of_set {t' : Process} {id : Nat} {json : Value}
    (h : Posted (p.procs.set i t') id json) :
    Posted p.procs id json ∨ t' = .posting (.posted json id) := by
  obtain ⟨j, hj⟩ := h
  obtain ⟨-, heq⟩ | ⟨-, hold⟩ := getElem?_set_cases hj
  · exact .inr heq.symm
  · exact .inl ⟨j, hold⟩

theorem lossless_set {t t' : Process} (h : Lossless p) (ht : p.procs[i]? = some t)
    (hgoes : ∀ json id, t ≠ .posting (.posted json id))
    (hunfailed : ∀ id err, t' ≠ .posting (.failed (some id) err)) {s' : Shm}
    (hcells : ∀ id json, Posted p.procs id json →
      s'.cell (keyData id) = p.store.cell (keyData id))
    (hnew : ∀ id json, t' = .posting (.posted json id) →
      s'.cell (keyData id) = some (json, none))
    (hfinds : ∀ w, t' = .worker w → Finds p.procs w) (o : Op) (a : o.Answer)
    (hsettles : ∀ id, o.settles ≠ some (id, .dropped)) :
    Lossless ⟨p.procs.set i t', s', p.log ++ [⟨i, o, a⟩]⟩ := by
  have hposted : ∀ id json, Posted p.procs id json → Posted (p.procs.set i t') id json :=
    fun id json hpost => hpost.set ht hgoes
  refine ⟨?_, ?_, ?_, ?_⟩
  · intro j id err hj
    obtain ⟨-, heq⟩ | ⟨-, hold⟩ := getElem?_set_cases hj
    · exact hunfailed id err heq.symm
    · exact h.unfailed j id err hold
  · intro id json hpost
    obtain hold | heq := posted_of_set hpost
    · exact (hcells id json hold).trans (h.present id json hold)
    · exact hnew id json heq
  · intro j w hj
    obtain ⟨-, heq⟩ | ⟨-, hold⟩ := getElem?_set_cases hj
    · exact (hfinds w heq.symm).mono hposted
    · exact (h.finds j w hold).mono hposted
  · intro j id hmem
    rw [trace_append] at hmem
    obtain hold | hnew := List.mem_append.mp hmem
    · exact h.kept j id hold
    · split at hnew
      · exact hsettles id (Option.mem_toList.mp hnew)
      · cases hnew

theorem lossless_post {q : Posting} (hs : Sound decode n p) (h : Lossless p)
    (hq : p.procs[i]? = some (.posting q)) {o : Op} {k : o.Answer → Posting}
    (hnext : q.next = some ⟨o, k⟩) :
    Lossless ⟨p.procs.set i (.posting (k (exec p.store none o).1)), (exec p.store none o).2,
      p.log ++ [⟨i, o, (exec p.store none o).1⟩]⟩ := by
  have hcell : ∀ key, o.writes = some key → (∀ id, key ≠ keyData id) → ∀ id,
      (exec p.store none o).2.cell (keyData id) = p.store.cell (keyData id) :=
    fun key hkey hne id => exec_cell _ _ _ (fun heq =>
      hne id (Option.some.inj (hkey.symm.trans heq)))
  cases q with
  | begun json =>
      cases hnext
      exact lossless_set h hq (by simp) (by simp)
        (fun id _ _ => hcell keyLastId rfl (fun id => (keyData_ne_last id).symm) id)
        (by simp) (by simp) _ _ (by simp [Op.settles])
  | numbering json =>
      cases hnext
      have hnumbered : ∀ answer id err json', Posting.numbered json answer ≠ .failed (some id) err ∧
          Posting.numbered json answer ≠ .posted json' id := by
        intro answer id err json'
        cases answer <;> simp [Posting.numbered]
      exact lossless_set h hq (by simp)
        (fun id err heq => absurd (Process.posting.inj heq) (hnumbered _ id err json).1)
        (fun id _ _ => hcell keyLastId rfl (fun id => (keyData_ne_last id).symm) id)
        (fun id json' heq => absurd (Process.posting.inj heq) (hnumbered _ id "" json').2)
        (by simp) _ _ (by simp [Op.settles])
  | storing json id =>
      cases hnext
      have hunposted : ∀ json', ¬Posted p.procs id json' := by
        intro json' hpost
        obtain ⟨j, hj⟩ := hpost
        have heq := hs.once i j id ⟨_, hq, rfl⟩ ⟨_, hj, rfl⟩
        subst heq
        cases hq.symm.trans hj
      have hlookup : p.store.lookup (keyData id) = none := by
        by_contra hsome
        obtain ⟨v, hv⟩ := Option.ne_none_iff_exists'.mp hsome
        obtain ⟨t, ht⟩ := cell_of_lookup hv
        exact hunposted v (hs.data id v t ht)
      have hadd : exec p.store none (.add (keyData id) json none) =
          (.ok (), p.store.write (keyData id) (json, none)) := by
        simp only [exec, Option.elim, add, hlookup, Option.map_none]
      rw [hadd]
      refine lossless_set h hq (by simp) (by simp [Posting.stored]) (fun id' json' hpost => ?_) ?_
        (by simp) _ _ (by simp [Op.settles])
      · have hne : keyData id' ≠ keyData id :=
          fun heq => hunposted json' (keyData_injective heq ▸ hpost)
        exact if_neg hne
      · intro id' json' heq
        cases heq
        exact if_pos rfl
  | posted json id | failed id err => cases hnext

theorem lossless_step {l : Label (Option String) Change} {q : Server} (hs : Sound decode n p)
    (h : Lossless p) (hl : Quiet p l) (hstep : (server cfg decode).step p l = some q) :
    Lossless q := by
  obtain ⟨i, fault, t, o, k, rfl, ht, hnext, rfl⟩ | ⟨x, rfl, rfl⟩ := Machine.step_cases _ hstep
  · obtain ⟨rfl, hquiet⟩ := hl
    have hc : t.next cfg decode = some ⟨o, k⟩ := hnext
    cases t with
    | posting q =>
        simp only [Process.next, Option.map_eq_some_iff] at hc
        obtain ⟨⟨o', k'⟩, hq, heq⟩ := hc
        cases heq
        exact lossless_post hs h ht hq
    | worker w =>
        simp only [Process.next, Option.map_eq_some_iff] at hc
        obtain ⟨⟨o', k'⟩, hw, heq⟩ := hc
        cases heq
        have hidle : w.phase = .idle → p.procs.any Process.between = false := by
          intro hphase
          obtain ⟨pid, last, phase⟩ := w
          subst hphase
          exact hquiet (by rw [ht]; rfl)
        obtain ⟨hfinds, hsettles⟩ := finds_next hs h ht hw hidle
        refine lossless_set h ht (by simp) (by simp) (fun id _ _ => ?_) (by simp) ?_ _ _ hsettles
        · exact worker_cell hw _ _ (fun u => (keyOne_ne_data u id).symm)
        · intro w' heq
          cases heq
          exact hfinds
  · cases x with
    | advance d => exact ⟨h.unfailed, h.present, h.finds, h.kept⟩
    | evict key => exact hl.elim

theorem Quiet.keepsLast {l : Label (Option String) Change} (h : Quiet p l) : KeepsLast p l := by
  cases l with
  | run i fault => trivial
  | outside x =>
      cases x with
      | advance d => trivial
      | evict key => exact h.elim

end Lossless

/-- No event is lost in a run without failures of the dict in which no worker asks for the
last number while a post is between its number and its data. -/
theorem nothing_dropped {cfg : Config} {decode : Value → Option Event} {procs : List Process}
    {clock : ℚ} {p : Server} (hnew : ∀ t ∈ procs, t.New)
    (h : (server cfg decode).Reaches Quiet (Server.start procs clock) p) :
    ∀ i id, (id, Fate.dropped) ∉ trace i p.log := by
  have hboth : (∃ n, Sound decode n p) ∧ Lossless p := by
    refine h.invariant (I := fun p => (∃ n, Sound decode n p) ∧ Lossless p)
      ⟨⟨0, sound_start hnew⟩, ?_⟩ (fun q l q' hq hl hstep => ?_)
    · refine ⟨fun i id err hi => ?_, fun id json hpost => ?_, fun i w hw => ?_, fun i id hmem => ?_⟩
      · cases hnew _ (List.mem_of_getElem? hi)
      · obtain ⟨j, hj⟩ := hpost
        cases hnew _ (List.mem_of_getElem? hj)
      · cases hnew _ (List.mem_of_getElem? hw)
        trivial
      · cases hmem
    · obtain ⟨⟨n, hs⟩, hlossless⟩ := hq
      exact ⟨sound_step hs hl.keepsLast hstep, lossless_step hs hlossless hl hstep⟩
  exact hboth.2.kept

instance (p : Server) (l : Label (Option String) Change) : Decidable (Quiet p l) :=
  match l with
  | .outside (.evict _) => isFalse id
  | .outside (.advance _) => isTrue trivial
  | .run _ _ => inferInstanceAs (Decidable (_ ∧ _))

theorem nothing_dropped_two : ∃ p : Server,
    trace 2 p.log = [(1, .handled sampleEvent), (2, .garbled)] ∧
      ∀ i id, (id, Fate.dropped) ∉ trace i p.log := by
  obtain ⟨p, hp, htrace⟩ := Machine.exists_reaches_if (server sampleConfig sampleDecode)
    (C := Quiet) (fun p => trace 2 p.log) (p := Server.start sampleProcs 100)
    (.run 2 none :: (List.replicate 3 (.run 0 none) ++ List.replicate 3 (.run 1 none) ++
      List.replicate 7 (.run 2 none)))
    (b := [(1, .handled sampleEvent), (2, .garbled)]) (by decide +kernel)
  exact ⟨p, htrace, nothing_dropped sampleProcs_new hp⟩

end WorkerEvents
end OpenrestyGateway
