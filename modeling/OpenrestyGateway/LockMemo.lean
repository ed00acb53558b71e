import OpenrestyGateway.RestyLock

/-!
memo over the life of all locks of a worker: a reference leads to what it was made for until
it is given back, so that a lock deletes its own key, and places are used again.
-/
namespace OpenrestyGateway
namespace RestyLock

open FreeList

/-! ### References -/

/-- The references that a lock owns. -/
def Lock.refs (o : Lock) : List (Nat × Val) :=
  (if o.collected then [] else [(o.dictId, .dict o.dictName)]) ++
    (if o.keyId = 0 then [] else [(o.keyId, .key o.key)])

def Lock.refsIn (worker : Nat) (o : Lock) : List (Nat × Val) :=
  if o.worker = worker then o.refs else []

def World.refs (W : World) (worker : Nat) : List (Nat × Val) :=
  W.locks.flatMap (Lock.refsIn worker)

theorem refs_set {locks : List Lock} {i : Nat} {o : Lock} (h : locks[i]? = some o)
    (worker : Nat) :
    ∃ ps, (locks.flatMap (Lock.refsIn worker)).Perm (o.refsIn worker ++ ps) ∧
      ∀ o', ((locks.set i o').flatMap (Lock.refsIn worker)).Perm (o'.refsIn worker ++ ps) := by
  induction locks generalizing i with
  | nil => cases h
  | cons a locks ih =>
      cases i with
      | zero =>
          cases h
          exact ⟨locks.flatMap (Lock.refsIn worker), .refl _, fun _ => .refl _⟩
      | succ i =>
          obtain ⟨ps, hold, hnew⟩ := ih h
          refine ⟨a.refsIn worker ++ ps, ?_, fun o' => ?_⟩
          · exact (hold.append_left _).trans (List.perm_append_comm_assoc ..)
          · exact ((hnew o').append_left _).trans (List.perm_append_comm_assoc ..)

section Ops
variable {memo : Memo} {n : Nat} {ps : List (Nat × Val)} {free : List Nat}

theorem refObj_holds (h : Holds memo n ps free) {len : Nat} (hlen : memo.Border len) (v : Val) :
    ∃ n' free', Holds (refObj len memo v).2 n' (((refObj len memo v).1, v) :: ps) free' ∧
      n' ≤ max n (ps.length + 1) := by
  cases free with
  | nil =>
      have hnone : memo 0 = none := h.chain
      have hlength := h.length
      have hend := h.border hlen
      simp only [refObj, hnone, hend]
      refine ⟨_, _, h.grow v, ?_⟩
      rw [List.length_nil] at hlength
      omega
  | cons r free =>
      have hlink : memo 0 = some (.link r) := h.chain.1
      have hpos : r ≠ 0 := Nat.ne_of_gt ((h.places r).mp (List.mem_cons_self ..)).1
      simp only [refObj, hlink, if_pos hpos]
      exact ⟨_, _, h.take v, by omega⟩

theorem unrefObj_holds {r : Nat} {v : Val} (h : Holds memo n ((r, v) :: ps) free) :
    Holds (unrefObj memo r) n ps (r :: free) := h.give

end Ops

/-! ### One step -/

/-- A lock that waits holds nothing; what is collected holds nothing. -/
def Lock.Valid (o : Lock) : Prop :=
  (o.waiting.isSome → o.keyId = 0 ∧ o.collected = false) ∧ (o.collected → o.keyId = 0)

structure Kept (W : World) (size : Nat → Nat) : Prop where
  holds : ∀ worker, ∃ free, Holds (W.memo worker) (size worker) (W.refs worker) free
  valid : ∀ o ∈ W.locks, o.Valid

/-- The table of a worker grows up to what it has in use, not beyond. -/
def Grown (W' : World) (size size' : Nat → Nat) : Prop :=
  ∀ worker, size' worker ≤ max (size worker) (W'.refs worker).length

section Steps
variable {W : World} {size : Nat → Nat} {i : Nat} {o : Lock}

theorem setMemo_self (W : World) (worker : Nat) (memo : Memo) :
    (W.setMemo worker memo).memo worker = memo := if_pos rfl

theorem setMemo_ne (W : World) {worker worker' : Nat} (memo : Memo) (h : worker' ≠ worker) :
    (W.setMemo worker memo).memo worker' = W.memo worker' := if_neg h

theorem idle_eq (h : W.idle i = some o) :
    W.locks[i]? = some o ∧ o.collected = false ∧ o.waiting = none := by
  simp only [World.idle, Option.filter_eq_some_iff, Bool.and_eq_true, Bool.not_eq_true'] at h
  exact ⟨h.1, h.2.1, Option.isNone_iff_eq_none.mp h.2.2⟩

theorem valid_set {locks : List Lock} (h : ∀ o ∈ locks, o.Valid) {o' : Lock} (ho : o'.Valid) :
    ∀ o ∈ locks.set i o', o.Valid := by
  intro o hmem
  cases List.mem_or_eq_of_mem_set hmem with
  | inl hold => exact h o hold
  | inr heq => exact heq ▸ ho

/-- Only one lock has changed. -/
theorem refs_swap (hlock : W.locks[i]? = some o) (o' : Lock) (hworker : o'.worker = o.worker)
    {W' : World} (hlocks : W'.locks = W.locks.set i o') :
    (∃ ps, (W.refs o.worker).Perm (o.refs ++ ps) ∧ (W'.refs o.worker).Perm (o'.refs ++ ps)) ∧
      ∀ worker, worker ≠ o.worker → (W'.refs worker).Perm (W.refs worker) := by
  refine ⟨?_, fun worker hne => ?_⟩
  · obtain ⟨ps, hold, hnew⟩ := refs_set hlock o.worker
    have hin' : o'.refsIn o.worker = o'.refs := if_pos hworker
    have hin : o.refsIn o.worker = o.refs := if_pos rfl
    have hset := hnew o'
    rw [hin] at hold
    rw [hin', ← hlocks] at hset
    exact ⟨ps, hold, hset⟩
  · obtain ⟨ps, hold, hnew⟩ := refs_set hlock worker
    have hin' : o'.refsIn worker = [] := if_neg (fun heq => hne (heq.symm.trans hworker))
    have hin : o.refsIn worker = [] := if_neg (fun heq => hne heq.symm)
    have hset := hnew o'
    rw [hin] at hold
    rw [hin', ← hlocks] at hset
    exact hset.trans hold.symm

/-- Nothing changes about references. -/
theorem Kept.same (h : Kept W size) {W' : World} (hmemo : W'.memo = W.memo)
    (hrefs : ∀ worker, (W'.refs worker).Perm (W.refs worker))
    (hvalid : ∀ o ∈ W'.locks, o.Valid) : Kept W' size := by
  refine ⟨fun worker => ?_, hvalid⟩
  obtain ⟨free, hholds⟩ := h.holds worker
  exact ⟨free, hmemo ▸ hholds.perm (hrefs worker).symm⟩

theorem Kept.same_set (h : Kept W size) {W' : World} (hmemo : W'.memo = W.memo)
    (hlock : W.locks[i]? = some o) (o' : Lock) (hworker : o'.worker = o.worker)
    (hlocks : W'.locks = W.locks.set i o') (hrefs : o'.refs = o.refs) (hvalid : o'.Valid) :
    Kept W' size := by
  obtain ⟨⟨ps, hold, hnew⟩, hother⟩ := refs_swap hlock o' hworker hlocks
  refine h.same hmemo (fun worker => ?_) (hlocks ▸ valid_set h.valid hvalid)
  by_cases hj : worker = o.worker
  · rw [hj]
    exact hnew.trans (hrefs ▸ hold.symm)
  · exact hother worker hj

/-- A reference is made: the table of its worker changes by refObj. -/
theorem Kept.made (h : Kept W size) {worker len : Nat} (hlen : (W.memo worker).Border len)
    {v : Val} {W' : World}
    (hmemo : W'.memo = (W.setMemo worker (refObj len (W.memo worker) v).2).memo)
    (hself : (W'.refs worker).Perm (((refObj len (W.memo worker) v).1, v) :: W.refs worker))
    (hother : ∀ worker', worker' ≠ worker → (W'.refs worker').Perm (W.refs worker'))
    (hvalid : ∀ o ∈ W'.locks, o.Valid) : ∃ size', Kept W' size' ∧ Grown W' size size' := by
  obtain ⟨free, hholds⟩ := h.holds worker
  obtain ⟨n', free', hholds', hle⟩ := refObj_holds hholds hlen v
  refine ⟨fun j => if j = worker then n' else size j, ⟨fun j => ?_, hvalid⟩, fun j => ?_⟩
  · by_cases hj : j = worker
    · subst hj
      refine ⟨free', ?_⟩
      rw [hmemo, setMemo_self]
      simp only [if_true]
      exact hholds'.perm hself.symm
    · obtain ⟨free, hholds⟩ := h.holds j
      refine ⟨free, ?_⟩
      rw [hmemo, setMemo_ne _ _ hj]
      simp only [if_neg hj]
      exact hholds.perm (hother j hj).symm
  · by_cases hj : j = worker
    · subst hj
      have hlength := hself.length_eq
      rw [List.length_cons] at hlength
      simp only [if_true, hlength]
      exact hle
    · simp only [if_neg hj]
      exact le_max_left _ _

/-- A reference is given back. -/
theorem Kept.given (h : Kept W size) {worker r : Nat} {v : Val} {W' : World}
    (hmemo : W'.memo = (W.setMemo worker (unrefObj (W.memo worker) r)).memo)
    (hself : (W.refs worker).Perm ((r, v) :: W'.refs worker))
    (hother : ∀ worker', worker' ≠ worker → (W'.refs worker').Perm (W.refs worker'))
    (hvalid : ∀ o ∈ W'.locks, o.Valid) : Kept W' size := by
  refine ⟨fun j => ?_, hvalid⟩
  obtain ⟨free, hholds⟩ := h.holds j
  by_cases hj : j = worker
  · subst hj
    refine ⟨r :: free, ?_⟩
    rw [hmemo, setMemo_self]
    exact unrefObj_holds (hholds.perm hself)
  · refine ⟨free, ?_⟩
    rw [hmemo, setMemo_ne _ _ hj]
    exact hholds.perm (hother j hj).symm

theorem Kept.given_set (h : Kept W size) (hlock : W.locks[i]? = some o) (o' : Lock) {r : Nat}
    (v : Val) {W' : World} (hmemo : W'.memo =
      (W.setMemo o.worker (unrefObj (W.memo o.worker) r)).memo)
    (hworker : o'.worker = o.worker) (hlocks : W'.locks = W.locks.set i o')
    (hrefs : o.refs.Perm ((r, v) :: o'.refs)) (hvalid : o'.Valid) : Kept W' size := by
  obtain ⟨⟨ps, hold, hnew⟩, hother⟩ := refs_swap hlock o' hworker hlocks
  refine h.given (v := v) hmemo ?_ hother (hlocks ▸ valid_set h.valid hvalid)
  exact (hold.trans (hrefs.append_right ps)).trans (hnew.symm.cons (r, v))

theorem Grown.refl (W' : World) (size : Nat → Nat) : Grown W' size size :=
  fun _ => le_max_left _ _

/-! ### The operations -/

theorem refObj_pos (h : Kept W size) {worker len : Nat} (hlen : (W.memo worker).Border len)
    (v : Val) : 0 < (refObj len (W.memo worker) v).1 := by
  obtain ⟨free, hholds⟩ := h.holds worker
  obtain ⟨n', free', hholds', -⟩ := refObj_holds hholds hlen v
  exact hholds'.pos (List.mem_cons_self ..)

theorem kept_new (h : Kept W size) {worker len : Nat} (hlen : (W.memo worker).Border len)
    (dictName : String) (opts : Options) :
    ∃ size', Kept (W.new worker dictName opts len) size' ∧
      Grown (W.new worker dictName opts len) size size' := by
  have happend : ∀ j, (W.new worker dictName opts len).refs j = W.refs j ++
      if worker = j then [((refObj len (W.memo worker) (.dict dictName)).1, .dict dictName)]
      else [] := by
    intro j
    simp only [World.new, World.refs, List.flatMap_append, List.flatMap_cons, List.flatMap_nil,
      List.append_nil, Lock.refsIn, Lock.refs]
    simp
  refine h.made hlen rfl ?_ (fun j hj => ?_) ?_
  · rw [happend, if_pos rfl]
    exact List.perm_append_comm
  · rw [happend, if_neg (Ne.symm hj), List.append_nil]
  · intro o hmem
    cases List.mem_append.mp hmem with
    | inl hold => exact h.valid o hold
    | inr hnew =>
        rw [List.mem_singleton.mp hnew]
        exact ⟨fun hwait => (by cases hwait), fun _ => rfl⟩

theorem kept_acquired (h : Kept W size) (hlock : W.locks[i]? = some o) (hkey : o.keyId = 0)
    (hlive : o.collected = false) {len : Nat} (hlen : (W.memo o.worker).Border len)
    (key : String) : ∃ size', Kept (W.acquired i o key len) size' ∧
      Grown (W.acquired i o key len) size size' := by
  have hpos := refObj_pos h hlen (.key key)
  let o' : Lock :=
    { o with
      keyId := (refObj len (W.memo o.worker) (.key key)).1, key, waiting := none
      untilTime := expiry W.dicts.clock o.settings.exptime }
  have hlocks : (W.acquired i o key len).locks = W.locks.set i o' := rfl
  obtain ⟨⟨ps, hold, hnew⟩, hother⟩ := refs_swap hlock o' rfl hlocks
  refine h.made hlen rfl ?_ hother (hlocks ▸ valid_set h.valid ?_)
  · refine hnew.trans (.trans ?_ (hold.symm.cons _))
    have hrefs : o.refs = [(o.dictId, .dict o.dictName)] := by
      simp [Lock.refs, hlive, hkey]
    have hrefs' : o'.refs = [(o.dictId, .dict o.dictName), (o'.keyId, .key key)] := by
      simp only [Lock.refs, o', hlive, if_neg (Nat.ne_of_gt hpos), Bool.false_eq_true, if_false]
      rfl
    rw [hrefs, hrefs']
    exact .swap _ _ _
  · exact ⟨fun hwait => (by cases hwait), fun hcollected => (by cases hlive.symm.trans hcollected)⟩

@[simp] theorem deleteKey_memo (W : World) (dictName : String) (slot : Option (Slot Val)) :
    (W.deleteKey dictName slot).memo = W.memo := by
  simp only [World.deleteKey]
  split <;> rfl

@[simp] theorem deleteKey_locks (W : World) (dictName : String) (slot : Option (Slot Val)) :
    (W.deleteKey dictName slot).locks = W.locks := by
  simp only [World.deleteKey]
  split <;> rfl

theorem refs_held (hlive : o.collected = false) (hkey : o.keyId ≠ 0) :
    o.refs.Perm ((o.keyId, .key o.key) :: { o with keyId := 0 }.refs) := by
  simp only [Lock.refs, hlive, if_neg hkey, Bool.false_eq_true, if_false, if_true]
  exact .swap _ _ _

theorem kept_unlock (h : Kept W size) (hidle : W.idle i = some o) :
    Kept (W.unlock i o).1 size := by
  obtain ⟨hlock, hlive, hwaiting⟩ := idle_eq hidle
  simp only [World.unlock]
  split
  · exact h
  · rename_i hkey
    refine h.given_set hlock { o with keyId := 0 } (.key o.key) ?_ rfl ?_
      (refs_held hlive hkey) ⟨fun _ => ⟨rfl, hlive⟩, fun _ => rfl⟩
    · simp only [World.setLock, deleteKey_memo]
    · simp only [World.setLock, deleteKey_locks, World.setMemo]

theorem gcKey_memo (W : World) (o : Lock) (hkey : 0 < o.keyId) :
    (W.gcKey o).memo = (W.setMemo o.worker (unrefObj (W.memo o.worker) o.keyId)).memo := by
  simp only [World.gcKey, if_pos hkey]
  split
  · exact deleteKey_memo _ _ _
  · rfl
  · rfl
  · rfl

theorem gcKey_locks (W : World) (o : Lock) : (W.gcKey o).locks = W.locks := by
  simp only [World.gcKey]
  split
  · split
    · exact deleteKey_locks _ _ _
    · rfl
    · rfl
    · rfl
  · rfl

theorem kept_gcLock (h : Kept W size) (hidle : W.idle i = some o) :
    Kept (W.gcLock i o) size := by
  obtain ⟨hlock, hlive, hwaiting⟩ := idle_eq hidle
  have hrefs : ({ o with keyId := 0 } : Lock).refs.Perm
      ((o.dictId, .dict o.dictName) :: { o with keyId := 0, collected := true }.refs) := by
    simp [Lock.refs, hlive]
  by_cases hkey : 0 < o.keyId
  · -- first the key is given back, then the dict
    let o' : Lock := { o with keyId := 0 }
    have hmid : Kept ((W.gcKey o).setLock i o') size :=
      h.given_set hlock o' (.key o.key) (gcKey_memo W o hkey) rfl
        (congrArg (fun locks => locks.set i o') (gcKey_locks W o))
        (refs_held hlive (Nat.ne_of_gt hkey)) ⟨fun _ => ⟨rfl, hlive⟩, fun _ => rfl⟩
    have hlock' : ((W.gcKey o).setLock i o').locks[i]? = some o' := by
      obtain ⟨hlt, -⟩ := List.getElem?_eq_some_iff.mp hlock
      simp only [World.setLock, gcKey_locks]
      exact List.getElem?_set_self hlt
    refine hmid.given_set hlock' { o with keyId := 0, collected := true }
      (.dict o.dictName) rfl rfl ?_ hrefs ⟨fun hwait => ?_, fun _ => rfl⟩
    · simp only [World.gcLock, World.setLock, World.setMemo, List.set_set]
    · rw [hwaiting] at hwait
      cases hwait
  · have hzero : o.keyId = 0 := by omega
    have hgc : W.gcKey o = W := if_neg hkey
    have hsame : o.refs = ({ o with keyId := 0 } : Lock).refs := by
      simp only [Lock.refs, hzero, if_true]
    refine h.given_set hlock { o with keyId := 0, collected := true } (.dict o.dictName)
      ?_ rfl ?_ (hsame ▸ hrefs) ⟨fun hwait => ?_, fun _ => rfl⟩
    · simp only [World.gcLock, World.setLock, hgc]
    · simp only [World.gcLock, World.setLock, World.setMemo, hgc]
    · rw [hwaiting] at hwait
      cases hwait

theorem kept_tryAdd (h : Kept W size) (hlock : W.locks[i]? = some o) (hkey : o.keyId = 0)
    (hlive : o.collected = false) {len : Nat} (hlen : (W.memo o.worker).Border len)
    (key : String) (fault : Option String) (elapsed : ℚ) (next : Option Wait) :
    ∃ size', Kept (W.tryAdd i o key len fault elapsed next).1 size' ∧
      Grown (W.tryAdd i o key len fault elapsed next).1 size size' := by
  have hset : ∀ waiting, Kept (W.setLock i { o with waiting }) size := by
    intro waiting
    exact h.same_set rfl hlock { o with waiting } rfl rfl rfl
      ⟨fun _ => ⟨hkey, hlive⟩, fun _ => hkey⟩
  simp only [World.tryAdd]
  split
  · exact ⟨size, hset none, .refl _ _⟩
  · split
    · exact kept_acquired h hlock hkey hlive hlen key
    · split
      · exact ⟨size, hset none, .refl _ _⟩
      · exact ⟨size, hset _, .refl _ _⟩

theorem kept_step (h : Kept W size) {l : Label} {W' : World} {a : Answer}
    (hstep : W.step l = some (W', a)) : ∃ size', Kept W' size' ∧ Grown W' size size' := by
  cases l with
  | new worker dictName opts len =>
      simp only [World.step] at hstep
      split at hstep
      · rename_i hlen
        cases hstep
        exact kept_new h hlen dictName opts
      · cases hstep
  | lock j key len fault =>
      obtain ⟨o, hidle, hstep⟩ := Option.bind_eq_some_iff.mp hstep
      obtain ⟨hlock, hlive, -⟩ := idle_eq hidle
      split at hstep
      · rename_i hlen
        have heq : (W.lock j o key len fault).1 = W' := congrArg Prod.fst (Option.some.inj hstep)
        rw [← heq, World.lock]
        split
        · exact ⟨size, h, .refl _ _⟩
        · exact kept_tryAdd h hlock (by omega) hlive hlen key fault 0 _
      · cases hstep
  | retry j len fault =>
      obtain ⟨o, hlock, hstep⟩ := Option.bind_eq_some_iff.mp hstep
      obtain ⟨w, hwaiting, hstep⟩ := Option.bind_eq_some_iff.mp hstep
      split at hstep
      · rename_i hlen
        have heq : (W.retry j o w.1 w.2.1 len fault).1 = W' :=
          congrArg Prod.fst (Option.some.inj hstep)
        rw [← heq]
        have hvalid := (h.valid o (List.mem_of_getElem? hlock)).1 (by rw [hwaiting]; rfl)
        exact kept_tryAdd h hlock hvalid.1 hvalid.2 hlen.1 w.1 fault _ _
      · cases hstep
  | unlock j =>
      obtain ⟨o, hidle, hstep⟩ := Option.map_eq_some_iff.mp hstep
      have hunlock := kept_unlock h hidle
      rw [hstep] at hunlock
      exact ⟨size, hunlock, .refl _ _⟩
  | expire j time =>
      obtain ⟨o, hidle, hstep⟩ := Option.map_eq_some_iff.mp hstep
      obtain ⟨hlock, hlive, hwaiting⟩ := idle_eq hidle
      have hvalid := h.valid o (List.mem_of_getElem? hlock)
      refine ⟨size, ?_, .refl _ _⟩
      simp only [World.expire] at hstep
      split at hstep
      · cases hstep
        exact h
      · split at hstep
        · cases hstep
          exact h
        · cases hstep
          exact h.same_set rfl hlock
            { o with untilTime := expiry W.dicts.clock (time.getD o.settings.exptime) }
            rfl rfl rfl hvalid
  | collect j =>
      obtain ⟨o, hidle, hstep⟩ := Option.map_eq_some_iff.mp hstep
      obtain ⟨rfl, -⟩ := Prod.mk.inj hstep
      exact ⟨size, kept_gcLock h hidle, .refl _ _⟩
  | pass d =>
      simp only [World.step] at hstep
      split at hstep
      · cases hstep
        exact ⟨size, h.same rfl (fun _ => .refl _) h.valid, .refl _ _⟩
      · cases hstep
  | evict dictName key =>
      cases hstep
      exact ⟨size, h.same rfl (fun _ => .refl _) h.valid, .refl _ _⟩

end Steps

/-! ### Runs -/

theorem kept_start : Kept .start (fun _ => 0) :=
  ⟨fun _ => ⟨[], holds_empty⟩, fun _ h => absurd h (List.not_mem_nil)⟩

theorem kept_run {ok : World → Label → Prop} {W : World} (h : Reaches ok W) :
    ∃ size, Kept W size := by
  induction h with
  | start => exact ⟨_, kept_start⟩
  | step _ _ hstep ih =>
      obtain ⟨size, hkept⟩ := ih
      obtain ⟨size', hkept', -⟩ := kept_step hkept hstep
      exact ⟨size', hkept'⟩

section Owned
variable {W : World} {size : Nat → Nat} {i : Nat} {o : Lock}

theorem refs_mem (hlock : W.locks[i]? = some o) {p : Nat × Val} (hp : p ∈ o.refs) :
    p ∈ W.refs o.worker := by
  refine List.mem_flatMap.mpr ⟨o, List.mem_of_getElem? hlock, ?_⟩
  rw [Lock.refsIn, if_pos rfl]
  exact hp

theorem Kept.key (h : Kept W size) (hlock : W.locks[i]? = some o) (hkey : o.keyId ≠ 0) :
    W.memo o.worker o.keyId = some (.obj (.key o.key)) := by
  obtain ⟨free, hholds⟩ := h.holds o.worker
  refine hholds.values (o.keyId, .key o.key) (refs_mem hlock ?_)
  rw [Lock.refs, if_neg hkey]
  exact List.mem_append_right _ (List.mem_singleton_self _)

/-- The dict of a lock is still found when its key has been given back. -/
theorem Kept.dict (h : Kept W size) (hlock : W.locks[i]? = some o) (hlive : o.collected = false)
    (hkey : o.keyId ≠ 0) :
    unrefObj (W.memo o.worker) o.keyId o.dictId = some (.obj (.dict o.dictName)) := by
  obtain ⟨free, hholds⟩ := h.holds o.worker
  have hlocks : (W.setLock i { o with keyId := 0 }).locks =
      W.locks.set i { o with keyId := 0 } := rfl
  obtain ⟨⟨ps, hold, -⟩, -⟩ := refs_swap hlock { o with keyId := 0 } rfl hlocks
  have hperm := hold.trans ((refs_held hlive hkey).append_right ps)
  have hgiven := unrefObj_holds (hholds.perm hperm)
  refine hgiven.values (o.dictId, .dict o.dictName) (List.mem_append_left _ ?_)
  simp [Lock.refs, hlive]

theorem Kept.unlock_dicts (h : Kept W size) (hidle : W.idle i = some o) :
    (W.unlock i o).1.dicts =
      if o.keyId = 0 then W.dicts else W.dicts.remove (o.dictName, o.key) := by
  obtain ⟨hlock, hlive, -⟩ := idle_eq hidle
  by_cases hkey : o.keyId = 0
  · rw [if_pos hkey, World.unlock, if_pos hkey]
  · rw [if_neg hkey, World.unlock, if_neg hkey]
    simp only [h.key hlock hkey, World.deleteKey]
    rfl

theorem Kept.gcLock_dicts (h : Kept W size) (hidle : W.idle i = some o) :
    (W.gcLock i o).dicts =
      if o.keyId = 0 then W.dicts else W.dicts.remove (o.dictName, o.key) := by
  obtain ⟨hlock, hlive, -⟩ := idle_eq hidle
  by_cases hkey : o.keyId = 0
  · rw [if_pos hkey, World.gcLock, World.gcKey, if_neg (by omega)]
    rfl
  · rw [if_neg hkey, World.gcLock, World.gcKey, if_pos (Nat.pos_of_ne_zero hkey)]
    simp only [h.key hlock hkey, setMemo_self, h.dict hlock hlive hkey, World.deleteKey]
    rfl

end Owned

/-- Whatever locks the workers have made, used and lost: a lock that is released or collected
deletes the key that it has locked, in its dict, and nothing else. -/
theorem deletes_own {ok : World → Label → Prop} {W : World} (h : Reaches ok W) (i : Nat)
    (o : Lock) (hidle : W.idle i = some o) :
    (W.unlock i o).1.dicts =
        (if o.keyId = 0 then W.dicts else W.dicts.remove (o.dictName, o.key)) ∧
      (W.gcLock i o).dicts =
        (if o.keyId = 0 then W.dicts else W.dicts.remove (o.dictName, o.key)) := by
  obtain ⟨size, hkept⟩ := kept_run h
  exact ⟨hkept.unlock_dicts hidle, hkept.gcLock_dicts hidle⟩

theorem deletes_own_one : ∃ W o, Reaches (fun _ _ => True) W ∧ W.idle 0 = some o ∧
    o.keyId = 2 ∧ (W.unlock 0 o).1.dicts = W.dicts.remove ("conf", "k") := by
  have hnew := Reaches.step (l := .new 0 "conf" ⟨none, none, none, none, none⟩ 0)
    (@Reaches.start (fun _ _ => True)) trivial rfl
  have hlock := Reaches.step (l := .lock 0 "k" 1 none) hnew trivial rfl
  exact ⟨_, _, hlock, rfl, rfl, (deletes_own hlock 0 _ rfl).1⟩

/-- The table of a worker never grows beyond the references that it has had at once. -/
theorem memo_bounded {worker p : Nat} {W : World}
    (h : Reaches (fun W l => ∀ W' a, W.step l = some (W', a) → (W'.refs worker).length ≤ p) W)
    (i : Nat) (hi : p < i) : W.memo worker i = none := by
  suffices hbound : ∃ size, Kept W size ∧ size worker ≤ p by
    obtain ⟨size, hkept, hle⟩ := hbound
    obtain ⟨free, hholds⟩ := hkept.holds worker
    exact hholds.past i (lt_of_le_of_lt hle hi)
  induction h with
  | start => exact ⟨_, kept_start, Nat.zero_le _⟩
  | step _ hok hstep ih =>
      obtain ⟨size, hkept, hle⟩ := ih
      obtain ⟨size', hkept', hgrown⟩ := kept_step hkept hstep
      exact ⟨size', hkept', (hgrown worker).trans (max_le hle (hok _ _ hstep))⟩

theorem memo_bounded_one :
    (World.start.new 0 "conf" ⟨none, none, none, none, none⟩ 0).memo 0 2 = none := by
  refine memo_bounded (p := 1) (.step (l := .new 0 "conf" ⟨none, none, none, none, none⟩ 0)
    .start (fun W' a hstep => ?_) rfl) 2 (by decide)
  cases hstep
  exact le_refl 1

end RestyLock
end OpenrestyGateway
