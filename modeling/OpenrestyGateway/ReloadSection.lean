import OpenrestyGateway.ReloadRun

/-!
The section of read_conf_file between the lock and freelock, for any number of worker
processes over one dict. lock() does not keep a process out: a process that fails to
obtain the lock goes on all the same. Where that never happens while another process is
inside, the section is exclusive, and a process only stores what was read last.
-/
namespace OpenrestyGateway
open Interleaving
open InitWorker

namespace ConfOp

/-- The calls between `lock:lock` and the end of freelock. -/
def inside : ConfOp → Bool
  | .attributes | .readFile | .get _ | .set _ _ | .deleteLock => true
  | .addLock | .timerAt | .tick => false

def isRead : ConfOp → Bool
  | .readFile => true
  | _ => false

end ConfOp

namespace InitWorker

def Outside : Conf Unit → Prop
  | .ret _ | .stop _ => True
  | .call o _ => o.inside = false

/-- What is left of a run meets `step` at every call up to the reading of the file. -/
def UntilRead (step : (o : ConfOp) → (o.Answer → Conf Unit) → Prop) : Conf Unit → Prop
  | .ret _ | .stop _ => True
  | .call o k => step o k ∧ (o.isRead = false → ∀ a, UntilRead step (k a))

/-- No configuration is stored before the file is read. -/
def ReadsFirst : Conf Unit → Prop := UntilRead (fun o _ => storedKey o = none)

/-- What holds of a call for the one who makes it: the lock is only given back by its
holder, who is outside then, and so is who has armed the timer. -/
def Allowed (keyId : Bool) : (o : ConfOp) → (o.Answer → Conf Unit) → Prop
  | .deleteLock, k => keyId = true ∧ ∀ a, Outside (k a)
  | .timerAt, k => ∀ a, Outside (k a)
  | .tick, _ => False
  | _, _ => True

/-- Every call is allowed, and whoever is outside has to read the file before it stores
anything. -/
def Guarded : Bool → Conf Unit → Prop
  | _, .ret _ | _, .stop _ => True
  | keyId, .call o k =>
      Allowed keyId o k ∧ (o.inside = false → ReadsFirst (.call o k)) ∧
      ∀ a, Guarded (WorkerZero.noteLock keyId o a) (k a)

/-- A call inside that leaves the lock alone. -/
def Plain (o : ConfOp) : Prop := o.inside = true ∧ o ≠ .deleteLock

section Guarded
variable {keyId : Bool}

theorem noteLock_plain {o : ConfOp} (h : Plain o) (a : o.Answer) :
    WorkerZero.noteLock keyId o a = keyId := by
  cases o with
  | addLock => cases h.1
  | deleteLock => exact absurd rfl h.2
  | attributes | readFile | get _ | set _ _ | timerAt | tick => rfl

theorem allowed_plain {o : ConfOp} {k : o.Answer → Conf Unit} (h : Plain o) :
    Allowed keyId o k := by
  cases o with
  | deleteLock => exact absurd rfl h.2
  | addLock | timerAt | tick => cases h.1
  | attributes | readFile | get _ | set _ _ => trivial

theorem guarded_plain_bind {α : Type} {p : Conf α} {f : α → Conf Unit} (hp : p.Uses Plain)
    (hf : ∀ a, Guarded keyId (f a)) : Guarded keyId (p >>= f) := by
  induction p with
  | ret a => exact hf a
  | stop e => trivial
  | call o k ih =>
      refine ⟨allowed_plain hp.1, fun h => ?_, fun a => ?_⟩
      · cases hp.1.1.symm.trans h
      · rw [noteLock_plain hp.1]
        exact ih a (hp.2 a)

theorem untilRead_bind {α : Type} {step : (o : ConfOp) → (o.Answer → Conf Unit) → Prop}
    {p : Conf α} {f : α → Conf Unit} (hp : p.Uses (fun o => ∀ k, step o k))
    (hf : ∀ a, UntilRead step (f a)) : UntilRead step (p >>= f) := by
  induction p with
  | ret a => exact hf a
  | stop e => trivial
  | call o k ih => exact ⟨hp.1 _, fun _ a => ih a (hp.2 a)⟩

theorem ReadsFirst.bind {p : Conf Unit} {f : Unit → Conf Unit} (hp : ReadsFirst p)
    (hf : ∀ u, ReadsFirst (f u)) : ReadsFirst (p >>= f) := by
  induction p with
  | ret u => exact hf u
  | stop e => trivial
  | call o k ih => exact ⟨hp.1, fun hread a => ih a (hp.2 hread a)⟩

theorem Outside.bind {p : Conf Unit} {f : Unit → Conf Unit} (hp : Outside p)
    (hf : ∀ u, Outside (f u)) : Outside (p >>= f) := by
  cases p with
  | ret u => exact hf u
  | stop e => trivial
  | call o k => exact hp

theorem Allowed.bind {o : ConfOp} {k : o.Answer → Conf Unit} {f : Unit → Conf Unit}
    (h : Allowed keyId o k) (hf : ∀ u, Outside (f u)) :
    Allowed keyId o (fun a => k a >>= f) := by
  cases o with
  | deleteLock => exact ⟨h.1, fun a => (h.2 a).bind hf⟩
  | timerAt => exact fun a => (h a).bind hf
  | tick => exact h
  | addLock | attributes | readFile | get _ | set _ _ => trivial

theorem Guarded.bind {p : Conf Unit} {f : Unit → Conf Unit} (hp : Guarded keyId p)
    (hguarded : ∀ keyId u, Guarded keyId (f u)) (houtside : ∀ u, Outside (f u))
    (hreads : ∀ u, ReadsFirst (f u)) : Guarded keyId (p >>= f) := by
  induction p generalizing keyId with
  | ret u => exact hguarded keyId u
  | stop e => trivial
  | call o k ih =>
      obtain ⟨hallowed, hfirst, hrest⟩ := hp
      exact ⟨hallowed.bind houtside, fun h => (hfirst h).bind hreads, fun a => ih a (hrest a)⟩

theorem uses_get {allowed : ConfOp → Prop} (key : Val) (h : ∀ k, allowed (.get k)) :
    (get key).Uses allowed := by
  simp only [get]
  split
  · exact ⟨h _, fun _ => trivial⟩
  · trivial

theorem uses_set {allowed : ConfOp → Prop} (key : Val) {v : DictVal}
    (h : ∀ k, dictKey key = some k → allowed (.set k v)) : (set key v).Uses allowed := by
  simp only [set]
  split
  · rename_i k hk
    exact ⟨h k hk, fun _ => trivial⟩
  · trivial

theorem uses_lift {α : Type} {allowed : ConfOp → Prop} (x : Except LuaError α) :
    (lift x : Conf α).Uses allowed := by
  cases x <;> trivial

/-- Looking at the modification time stores the time alone. -/
theorem uses_isconfread {allowed : ConfOp → Prop} (luaconf : String)
    (hattributes : allowed .attributes) (hget : ∀ k, allowed (.get k))
    (hset : ∀ k (m : Nat), dictKey (.str (lastmod ++ luaconf)) = some k →
      allowed (.set k (.json (.num m)))) : (isconfread luaconf).Uses allowed := by
  refine ⟨hattributes, fun modification => ?_⟩
  cases modification with
  | none => trivial
  | some m =>
      have hrecord : (set (.str (lastmod ++ luaconf)) (.json (.num m))).Uses allowed :=
        uses_set _ (fun k hk => hset k m hk)
      show (get (.str (lastmod ++ luaconf)) >>= _ : Conf Bool).Uses _
      refine Prog.uses_bind (uses_get _ hget) (fun cacheTime => ?_)
      cases cacheTime with
      | none => exact Prog.uses_bind hrecord (fun _ => trivial)
      | some c =>
          show (if c = .json (.num m) then _ else _ : Conf Bool).Uses _
          split
          · trivial
          · exact Prog.uses_bind hrecord (fun _ => trivial)

theorem plain_isconfread (luaconf : String) :
    (isconfread luaconf).Uses (fun o => Plain o ∧ storedKey o = none) :=
  uses_isconfread luaconf ⟨⟨rfl, by simp⟩, rfl⟩ (fun _ => ⟨⟨rfl, by simp⟩, rfl⟩)
    (fun _ _ _ => ⟨⟨rfl, by simp⟩, rfl⟩)

theorem uses_freelock {allowed : ConfOp → Prop} (h : allowed .deleteLock) (elapsed : Bool) :
    (freelock elapsed).Uses allowed := by
  cases elapsed with
  | false => trivial
  | true => exact ⟨h, fun _ => trivial⟩

theorem dictKey_key {domain : Val} {k : String} (h : dictKey domain = some k) :
    dictKey (.str k) = some k := by
  have hsize := (Option.filter_eq_some_iff.mp h).2
  unfold dictKey
  exact Option.filter_eq_some_iff.mpr ⟨rfl, hsize⟩

section Loads
variable {allowed : ConfOp → Prop} (hget : ∀ k, allowed (.get k))
  (hset : ∀ k fs, dictKey (.str k) = some k → allowed (.set k (.json (.obj fs))))
include hget hset

/-- A load stores the entries of the text, which are objects, under their domains. -/
theorem uses_loadEntry (v : Val) : (loadEntry v).Uses allowed := by
  simp only [loadEntry]
  cases hdomain : v.index "domain" with
  | error e => trivial
  | ok domain =>
      show (get domain >>= _ : Conf Unit).Uses _
      refine Prog.uses_bind (uses_get domain hget) (fun stored => ?_)
      split
      · trivial
      · refine Prog.uses_bind (uses_set domain (fun k hk => ?_))
          (fun _ => Prog.uses_bind (uses_lift _) (fun _ => trivial))
        have hkey : entryKey v = some k := by simp only [entryKey, hdomain, hk]
        obtain ⟨fs, rfl⟩ := entryKey_obj hkey
        exact hset k fs (dictKey_key hk)

theorem uses_loadEntries (vs : List Val) : (loadEntries vs).Uses allowed := by
  induction vs with
  | nil => trivial
  | cons v vs ih => exact Prog.uses_bind (uses_loadEntry hget hset v) (fun _ => ih)

theorem uses_loadText (hdelete : allowed .deleteLock) (elapsed : Bool)
    (text : Option FileText) : (loadText elapsed text).Uses allowed := by
  have hload : ∀ v : Val, (do
      let entries ← lift v.pairs
      loadEntries entries
      freelock elapsed : Conf Unit).Uses allowed := fun v =>
    Prog.uses_bind (uses_lift _) (fun entries =>
      Prog.uses_bind (uses_loadEntries hget hset entries) (fun _ => uses_freelock hdelete elapsed))
  match text with
  | none => exact uses_freelock hdelete elapsed
  | some .malformed => trivial
  | some (.json v) =>
      cases v with
      | nil => exact uses_freelock hdelete elapsed
      | _ => exact hload _

end Loads

theorem plain_loadEntries (vs : List Val) : (loadEntries vs).Uses Plain :=
  uses_loadEntries (fun _ => ⟨rfl, by simp⟩) (fun _ _ _ => ⟨rfl, by simp⟩) vs

theorem guarded_freelock {elapsed : Bool} (h : elapsed = true → keyId = true) :
    Guarded keyId (freelock elapsed) := by
  cases elapsed with
  | false => trivial
  | true => exact ⟨⟨h rfl, fun _ => trivial⟩, fun hout => (by cases hout), fun _ => trivial⟩

theorem guarded_loadText {elapsed : Bool} (h : elapsed = true → keyId = true)
    (text : Option FileText) : Guarded keyId (loadText elapsed text) := by
  have hload : ∀ v : Val, Guarded keyId (do
      let entries ← lift v.pairs
      loadEntries entries
      freelock elapsed) := fun v =>
    guarded_plain_bind (uses_lift _) (fun entries =>
      guarded_plain_bind (plain_loadEntries entries) (fun _ => guarded_freelock h))
  match text with
  | none => exact guarded_freelock h
  | some .malformed => trivial
  | some (.json v) =>
      cases v with
      | nil => exact guarded_freelock h
      | _ => exact hload _

theorem readsFirst_freelock (elapsed : Bool) : ReadsFirst (freelock elapsed) := by
  cases elapsed with
  | false => trivial
  | true => exact ⟨rfl, fun _ _ => trivial⟩

/-- After the lock: the file is looked at, and read where it has changed. -/
def afterLock (luaconf : String) (elapsed : Bool) : Conf Unit := do
  let lcf ← isconfread luaconf
  if !lcf then freelock elapsed else .call .readFile (loadText elapsed)

theorem readsFirst_afterLock (luaconf : String) (elapsed : Bool) :
    ReadsFirst (afterLock luaconf elapsed) := by
  refine untilRead_bind ((plain_isconfread luaconf).mono (fun _ ho _ => ho.2)) (fun lcf => ?_)
  cases lcf with
  | false => exact readsFirst_freelock elapsed
  | true => exact ⟨rfl, fun hread => (by cases hread)⟩

theorem guarded_afterLock (luaconf : String) {elapsed : Bool}
    (h : elapsed = true → keyId = true) : Guarded keyId (afterLock luaconf elapsed) := by
  refine guarded_plain_bind ((plain_isconfread luaconf).mono (fun _ ho => ho.1)) (fun lcf => ?_)
  cases lcf with
  | false => exact guarded_freelock h
  | true =>
      exact ⟨trivial, fun hout => (by cases hout), guarded_loadText h⟩

theorem guarded_readConfFile (luaconf : String) (keyId : Bool) :
    Guarded keyId (readConfFile luaconf keyId) ∧ ReadsFirst (readConfFile luaconf keyId) := by
  rw [readConfFile_eq]
  cases keyId with
  | true =>
      exact ⟨guarded_afterLock luaconf (fun h => by cases h), readsFirst_afterLock luaconf false⟩
  | false =>
      have hreads : ReadsFirst (.call .addLock (afterLock luaconf)) :=
        ⟨rfl, fun _ => readsFirst_afterLock luaconf⟩
      refine ⟨⟨trivial, fun _ => hreads, fun obtained => ?_⟩, hreads⟩
      exact guarded_afterLock luaconf (fun h => by simp [WorkerZero.noteLock, h])

theorem guarded_handler (luaconf : String) (keyId : Bool) :
    Guarded keyId (handler luaconf keyId) ∧ ReadsFirst (handler luaconf keyId) := by
  have hreads : ∀ u : Unit, ReadsFirst (do let _ ← (.call .timerAt .ret : Conf Bool); return ()) :=
    fun _ => ⟨rfl, fun _ _ => trivial⟩
  obtain ⟨hguarded, hfirst⟩ := guarded_readConfFile luaconf keyId
  refine ⟨hguarded.bind (fun keyId u => ?_) (fun u => rfl) hreads, hfirst.bind hreads⟩
  exact ⟨fun _ => trivial, fun _ => hreads u, fun _ => trivial⟩

end Guarded

end InitWorker

namespace WorkerZero

/-- The process is between lock and freelock. -/
def inSection (w : WorkerZero) : Bool :=
  match w.body with
  | .call o _ => o.inside
  | .ret _ | .stop _ => false

/-- The next step is, or begins with, a call of lock() that returns nil. -/
def missesLock (w : WorkerZero) (dict : Dict) : Bool :=
  match w.body with
  | .call .addLock _ => (dict confKey).isSome
  | .call _ _ => false
  | .ret _ | .stop _ => w.armed && w.keyId

theorem inSection_call {w : WorkerZero} {o : ConfOp} {k : o.Answer → Conf Unit}
    (h : w.body = .call o k) : w.inSection = o.inside := by
  simp only [inSection, h]

theorem Ended.outside {w : WorkerZero} (h : w.Ended) : w.inSection = false := by
  simp only [inSection]
  cases hbody : w.body with
  | ret _ | stop _ => rfl
  | call o k => exact absurd hbody (h o k)

theorem Ended.missesLock_eq {w : WorkerZero} (h : w.Ended) (dict : Dict) :
    w.missesLock dict = (w.armed && w.keyId) := by
  simp only [missesLock]
  cases hbody : w.body with
  | ret _ | stop _ => rfl
  | call o k => exact absurd hbody (h o k)

end WorkerZero

/-- The process that has read the file last. -/
def lastReader (log : List (Event ConfOp ConfOp.Answer)) : Option Nat :=
  ((log.filter (fun e => e.op.isRead)).getLast?).map Event.who

theorem lastReader_append (log : List (Event ConfOp ConfOp.Answer))
    (e : Event ConfOp ConfOp.Answer) :
    lastReader (log ++ [e]) = if e.op.isRead then some e.who else lastReader log := by
  simp only [lastReader]
  rw [getLast?_filter_append]
  split <;> rfl

/-- The invariant of all processes. -/
structure Sectioned (p : Reload) : Prop where
  guarded : ∀ (i : Nat) (w : WorkerZero), p.procs[i]? = some w → Guarded w.keyId w.body
  alone : AtMostOne WorkerZero.inSection p.procs
  present : ∀ (i : Nat) (w : WorkerZero), p.procs[i]? = some w →
    w.inSection = true ∨ w.keyId = true → p.store.dict confKey ≠ none
  holder : AtMostOne WorkerZero.keyId p.procs
  reader : ∀ (i : Nat) (w : WorkerZero), p.procs[i]? = some w →
    ReadsFirst w.body ∨ lastReader p.log = some i

theorem readsFirst_of_outside {keyId armed : Bool} {body : Conf Unit}
    (h : Guarded keyId body) (hout : WorkerZero.inSection ⟨keyId, armed, body⟩ = false) :
    ReadsFirst body := by
  cases body with
  | ret _ | stop _ => trivial
  | call o k => exact h.2.1 hout

/-- One process moves on; what has to hold of it and of the others then. -/
theorem Sectioned.moved {p : Reload} (h : Sectioned p) (i : Nat) {w' : WorkerZero}
    {s : ConfStore} {log : List (Event ConfOp ConfOp.Answer)} (hguarded : Guarded w'.keyId w'.body)
    (halone : w'.inSection = true → ∀ (j : Nat) (v : WorkerZero), j ≠ i →
      p.procs[j]? = some v → v.inSection = false)
    (hpresent : w'.inSection = true ∨ w'.keyId = true → s.dict confKey ≠ none)
    (hothers : ∀ (j : Nat) (v : WorkerZero), j ≠ i → p.procs[j]? = some v →
      v.inSection = true ∨ v.keyId = true → s.dict confKey ≠ none)
    (hholder : w'.keyId = true → ∀ (j : Nat) (v : WorkerZero), j ≠ i →
      p.procs[j]? = some v → v.keyId = false)
    (hreader : ReadsFirst w'.body ∨ lastReader log = some i)
    (hreaders : ∀ (j : Nat) (v : WorkerZero), j ≠ i → p.procs[j]? = some v →
      ReadsFirst v.body ∨ lastReader log = some j) :
    Sectioned ⟨p.procs.set i w', s, log⟩ := by
  refine ⟨fun j v hv => ?_, h.alone.set halone, fun j v hv hin => ?_, h.holder.set hholder,
    fun j v hv => ?_⟩
  · rcases getElem?_set_cases hv with ⟨-, rfl⟩ | ⟨-, hv'⟩
    · exact hguarded
    · exact h.guarded j v hv'
  · rcases getElem?_set_cases hv with ⟨rfl, rfl⟩ | ⟨hj, hv'⟩
    · exact hpresent hin
    · exact hothers j v hj hv' hin
  · rcases getElem?_set_cases hv with ⟨rfl, rfl⟩ | ⟨hj, hv'⟩
    · exact hreader
    · exact hreaders j v hj hv'

/-- A call inside that leaves the lock alone. -/
theorem Sectioned.plain {p : Reload} (h : Sectioned p) {i : Nat} {w : WorkerZero} {o : ConfOp}
    {k : o.Answer → Conf Unit} (refused : Bool) (hw : p.procs[i]? = some w)
    (hbody : w.body = .call o k) (ho : Plain o) (a : o.Answer) (armed : Bool) :
    Sectioned ⟨p.procs.set i ⟨WorkerZero.noteLock w.keyId o a, armed, k a⟩,
      (p.store.exec refused o).2, p.log ++ [⟨i, o, a⟩]⟩ := by
  have hin : w.inSection = true := (WorkerZero.inSection_call hbody).trans ho.1
  have hothers := h.alone.others hw hin
  have hlock : (p.store.exec refused o).2.dict confKey ≠ none := by
    have hbefore := h.present i w hw (.inl hin)
    cases o with
    | addLock => cases ho.1
    | deleteLock => exact absurd rfl ho.2
    | attributes | readFile | get _ | timerAt | tick => exact hbefore
    | set key v =>
        by_cases hkey : confKey = key
        · simp [ConfStore.exec, hkey]
        · simpa [ConfStore.exec, hkey] using hbefore
  have hguarded := h.guarded i w hw
  rw [hbody] at hguarded
  have hkeyId : WorkerZero.noteLock w.keyId o a = w.keyId := noteLock_plain ho a
  refine h.moved i ?_ (fun _ => hothers) (fun _ => hlock) (fun _ _ _ _ _ => hlock) ?_ ?_ ?_
  · exact hguarded.2.2 a
  · exact fun hkey => h.holder.others hw (hkeyId.symm.trans hkey)
  · rw [lastReader_append]
    rcases h.reader i w hw with hfirst | hlast
    · cases hread : o.isRead with
      | true => exact .inr rfl
      | false =>
          rw [hbody] at hfirst
          exact .inl (hfirst.2 hread a)
    · exact .inr (by rw [hlast]; simp)
  · intro j v hj hv
    -- whoever is outside has to read the file before it stores anything
    exact .inl (readsFirst_of_outside (h.guarded j v hv) (hothers j v hj hv))

/-- What is left to check where nothing is read. -/
theorem Sectioned.unread {p : Reload} (h : Sectioned p) {i : Nat} {w w' : WorkerZero}
    {s : ConfStore} (o : ConfOp) (a : o.Answer) (hw : p.procs[i]? = some w)
    (hread : o.isRead = false) (hguarded : Guarded w'.keyId w'.body)
    (hreads : ReadsFirst w.body → ReadsFirst w'.body)
    (halone : w'.inSection = true → ∀ (j : Nat) (v : WorkerZero), j ≠ i →
      p.procs[j]? = some v → v.inSection = false)
    (hpresent : w'.inSection = true ∨ w'.keyId = true → s.dict confKey ≠ none)
    (hothers : ∀ (j : Nat) (v : WorkerZero), j ≠ i → p.procs[j]? = some v →
      v.inSection = true ∨ v.keyId = true → s.dict confKey ≠ none)
    (hholder : w'.keyId = true → ∀ (j : Nat) (v : WorkerZero), j ≠ i →
      p.procs[j]? = some v → v.keyId = false) :
    Sectioned ⟨p.procs.set i w', s, p.log ++ [⟨i, o, a⟩]⟩ := by
  have hlast : lastReader (p.log ++ [⟨i, o, a⟩]) = lastReader p.log := by
    rw [lastReader_append, if_neg (by simp [hread])]
  refine h.moved i hguarded halone hpresent hothers hholder ?_ (fun j v _ hv => ?_)
  · rw [hlast]
    exact (h.reader i w hw).imp_left hreads
  · rw [hlast]
    exact h.reader j v hv

theorem inSection_of_outside (keyId armed : Bool) {body : Conf Unit} (h : Outside body) :
    WorkerZero.inSection ⟨keyId, armed, body⟩ = false := by
  cases body with
  | ret _ | stop _ => rfl
  | call o k => exact h

theorem Sectioned.delete {p : Reload} (h : Sectioned p) {i : Nat} {w : WorkerZero}
    {k : Unit → Conf Unit} (refused : Bool) (hw : p.procs[i]? = some w)
    (hbody : w.body = .call .deleteLock k) (armed : Bool) :
    Sectioned ⟨p.procs.set i ⟨false, armed, k ()⟩, (p.store.exec refused .deleteLock).2,
      p.log ++ [⟨i, .deleteLock, ()⟩]⟩ := by
  have hin : w.inSection = true := WorkerZero.inSection_call hbody
  have hguarded := h.guarded i w hw
  rw [hbody] at hguarded
  obtain ⟨⟨hkeyId, hout⟩, -, hrest⟩ := hguarded
  have houtside := inSection_of_outside false armed (hout ())
  have hothers : ∀ (j : Nat) (v : WorkerZero), j ≠ i → p.procs[j]? = some v →
      v.inSection = true ∨ v.keyId = true → False := by
    rintro j v hj hv (hvin | hvkey)
    · exact hj (h.alone j i v w hv hw hvin hin)
    · exact hj (h.holder j i v w hv hw hvkey hkeyId)
  refine h.unread .deleteLock () hw rfl ?_ (fun hfirst => ?_) ?_ ?_ ?_ ?_
  · exact hrest ()
  · rw [hbody] at hfirst
    exact hfirst.2 rfl ()
  · intro hin'
    cases houtside.symm.trans hin'
  · rintro (hin' | hkey)
    · cases houtside.symm.trans hin'
    · cases hkey
  · exact fun j v hj hv hor => (hothers j v hj hv hor).elim
  · intro hkey
    cases hkey

theorem Sectioned.add {p : Reload} (h : Sectioned p) {i : Nat} {w : WorkerZero}
    {k : Bool → Conf Unit} (refused : Bool) (hw : p.procs[i]? = some w)
    (hbody : w.body = .call .addLock k) (armed : Bool)
    (hmiss : p.store.dict confKey ≠ none → ∀ v ∈ p.procs, v.inSection = false) :
    Sectioned ⟨p.procs.set i ⟨WorkerZero.noteLock w.keyId .addLock
        (p.store.exec refused .addLock).1, armed, k (p.store.exec refused .addLock).1⟩,
      (p.store.exec refused .addLock).2,
      p.log ++ [⟨i, .addLock, (p.store.exec refused .addLock).1⟩]⟩ := by
  have hguarded := h.guarded i w hw
  rw [hbody] at hguarded
  have hreads : ∀ a, ReadsFirst w.body → ReadsFirst (k a) := by
    intro a hfirst
    rw [hbody] at hfirst
    exact hfirst.2 rfl a
  cases hlock : p.store.dict confKey with
  | none =>
      have hexec : p.store.exec refused .addLock = (true, { p.store with
          dict := Function.update p.store.dict confKey (some (.bool true)) }) := by
        simp [ConfStore.exec, hlock]
      have hnobody : ∀ (j : Nat) (v : WorkerZero), p.procs[j]? = some v →
          v.inSection = false ∧ v.keyId = false := by
        intro j v hv
        have hfree := fun hor => h.present j v hv hor hlock
        simpa using hfree
      rw [hexec]
      refine h.unread .addLock true hw rfl (hguarded.2.2 true) (hreads true)
        (fun _ j v _ hv => (hnobody j v hv).1) (fun _ => ?_) (fun _ _ _ _ _ => ?_)
        (fun _ j v _ hv => (hnobody j v hv).2)
      · simp
      · simp
  | some lock =>
      have hheld : p.store.dict confKey ≠ none := by
        rw [hlock]
        exact Option.some_ne_none lock
      have hexec : p.store.exec refused .addLock = (false, p.store) := by
        simp [ConfStore.exec, hlock]
      rw [hexec]
      refine h.unread .addLock false hw rfl (hguarded.2.2 false) (hreads false)
        (fun _ j v _ hv => hmiss hheld v (List.mem_of_getElem? hv)) (fun _ => hheld)
        (fun _ _ _ _ _ => hheld) (fun hkey => h.holder.others hw ?_)
      simpa [WorkerZero.noteLock] using hkey

theorem Sectioned.arm {p : Reload} (h : Sectioned p) {i : Nat} {w : WorkerZero}
    {k : Bool → Conf Unit} (refused : Bool) (hw : p.procs[i]? = some w)
    (hbody : w.body = .call .timerAt k) (armed : Bool) :
    Sectioned ⟨p.procs.set i ⟨w.keyId, armed, k (!refused)⟩, p.store,
      p.log ++ [⟨i, .timerAt, !refused⟩]⟩ := by
  have hguarded := h.guarded i w hw
  rw [hbody] at hguarded
  have houtside := inSection_of_outside w.keyId armed
    (hguarded.1 (!refused))
  refine h.unread .timerAt (!refused) hw rfl (hguarded.2.2 (!refused)) (fun hfirst => ?_) ?_ ?_
    (fun j v _ hv => h.present j v hv) (fun hkey => h.holder.others hw hkey)
  · rw [hbody] at hfirst
    exact hfirst.2 rfl _
  · intro hin
    cases houtside.symm.trans hin
  · rintro (hin | hkey)
    · cases houtside.symm.trans hin
    · exact h.present i w hw (.inr hkey)

theorem Sectioned.start {p : Reload} (h : Sectioned p) {i : Nat} {w : WorkerZero}
    (luaconf : String) (hw : p.procs[i]? = some w)
    (hmiss : w.keyId = true → ∀ v ∈ p.procs, v.inSection = false) :
    Sectioned ⟨p.procs.set i ⟨w.keyId, false, handler luaconf w.keyId⟩, p.store,
      p.log ++ [⟨i, .tick, ()⟩]⟩ := by
  obtain ⟨hguarded, hfirst⟩ := guarded_handler luaconf w.keyId
  have hin : WorkerZero.inSection ⟨w.keyId, false, handler luaconf w.keyId⟩ = true →
      w.keyId = true := by
    cases w.keyId with
    | true => exact fun _ => rfl
    | false => exact fun hin => (by cases hin)
  refine h.unread .tick () hw rfl hguarded (fun _ => hfirst)
    (fun hin' j v _ hv => hmiss (hin hin') v (List.mem_of_getElem? hv)) ?_
    (fun j v _ hv => h.present j v hv) (fun hkey => h.holder.others hw hkey)
  rintro (hin' | hkey)
  · exact h.present i w hw (.inr (hin hin'))
  · exact h.present i w hw (.inr hkey)

/-- No process calls lock() in vain while another one is inside, and the lock does not
run out. -/
def StartsAlone (p : Reload) : ReloadLabel → Prop
  | .run i _ => ∀ w, p.procs[i]? = some w → w.missesLock p.store.dict = true →
      ∀ v ∈ p.procs, v.inSection = false
  | .outside .lockExpires => False
  | .outside _ => True

instance (p : Reload) (l : ReloadLabel) : Decidable (StartsAlone p l) :=
  match l with
  | .run i _ => inferInstanceAs (Decidable (∀ w ∈ p.procs[i]?,
      w.missesLock p.store.dict = true → ∀ v ∈ p.procs, v.inSection = false))
  | .outside .lockExpires => isFalse id
  | .outside (.edit _) | .outside (.initPhase _ _ _ _) => isTrue trivial

theorem change_confKey {p : Reload} {s : ConfStore} {x : ConfChange}
    (hx : StartsAlone p (.outside x)) :
    (s.change x).dict confKey = s.dict confKey := by
  cases x with
  | edit file => rfl
  | lockExpires => exact hx.elim
  | initPhase ruleConfPath mmdb redis healthchecktable =>
      have hhealth : confKey ≠ "healthcheck" := by decide
      have hdefault : confKey ≠ "default" := by decide
      simp [ConfStore.change, InitConf.initPhase, hhealth, hdefault]

theorem sectioned_step {luaconf : String} {p q : Reload} {l : ReloadLabel} (h : Sectioned p)
    (hl : StartsAlone p l) (hstep : (reload luaconf).step p l = some q) : Sectioned q := by
  rcases Machine.step_cases _ hstep with ⟨i, refused, w, o, k, rfl, hw, hnext, rfl⟩ | ⟨x, rfl, rfl⟩
  · rcases WorkerZero.next_cases hnext with ⟨k', hbody, hk⟩ | ⟨rfl, hended, harmed, hk⟩
    · rw [hk]
      cases o with
      | attributes | readFile | get _ | set _ _ =>
          exact h.plain refused hw hbody ⟨rfl, by simp⟩ _ _
      | addLock =>
          refine h.add refused hw hbody _ (fun hheld => hl w hw ?_)
          simp only [WorkerZero.missesLock, hbody]
          exact Option.isSome_iff_ne_none.mpr hheld
      | deleteLock => exact h.delete refused hw hbody _
      | timerAt => exact h.arm refused hw hbody _
      | tick =>
          have hguarded := h.guarded i w hw
          rw [hbody] at hguarded
          exact hguarded.1.elim
    · rw [hk]
      refine h.start luaconf hw (fun hkey => hl w hw ?_)
      rw [hended.missesLock_eq, harmed, hkey]
      rfl
  · have hlock : (p.store.change x).dict confKey = p.store.dict confKey :=
      change_confKey hl
    exact ⟨h.guarded, h.alone, fun i w hw hor => hlock ▸ h.present i w hw hor, h.holder,
      h.reader⟩

theorem sectioned_start (luaconf : String) (n : Nat) (ruleConfPath mmdb redis : Val)
    (healthchecktable : List Val) (file : Option RuleFile) :
    Sectioned (Reload.start luaconf n ruleConfPath mmdb redis healthchecktable file) := by
  obtain ⟨hguarded, hfirst⟩ := guarded_readConfFile luaconf false
  have hstart : ∀ (i : Nat) (w : WorkerZero),
      (List.replicate n (WorkerZero.start luaconf))[i]? = some w →
      w = WorkerZero.start luaconf := by
    intro i w hw
    exact List.eq_of_mem_replicate (List.mem_of_getElem? hw)
  refine ⟨fun i w hw => ?_, fun i j v w hv hw hin => ?_, fun i w hw hor => ?_,
    fun i j v w hv hw hkey => ?_, fun i w hw => ?_⟩
  · rw [hstart i w hw]
    exact hguarded
  · rw [hstart i v hv] at hin
    cases hin
  · rw [hstart i w hw] at hor
    rcases hor with hin | hkey
    · cases hin
    · cases hkey
  · rw [hstart i v hv] at hkey
    cases hkey
  · rw [hstart i w hw]
    exact .inl hfirst

/-- At most one process is inside, and whoever is about to store a configuration was the
last to read the file. -/
structure SectionSafe (p : Reload) : Prop where
  exclusive : ∀ (i j : Nat) (v w : WorkerZero), p.procs[i]? = some v → p.procs[j]? = some w →
    v.inSection = true → w.inSection = true → i = j
  newest : ∀ (i : Nat) (w : WorkerZero) (o : ConfOp) (k : o.Answer → Conf Unit),
    p.procs[i]? = some w → w.body = .call o k → storedKey o ≠ none →
    lastReader p.log = some i

theorem Sectioned.safe {p : Reload} (h : Sectioned p) : SectionSafe p := by
  refine ⟨h.alone, fun i w o k hw hbody hstores => ?_⟩
  rcases h.reader i w hw with hfirst | hlast
  · rw [hbody] at hfirst
    exact absurd hfirst.1 hstores
  · exact hlast

/-- In every run in which no process calls lock() in vain while another one is inside, the
section is exclusive, and nothing stored is older than what was stored before. -/
theorem sectionSafe_of_startsAlone (luaconf : String) (n : Nat) (ruleConfPath mmdb redis : Val)
    (healthchecktable : List Val) (file : Option RuleFile) (p : Reload)
    (h : (reload luaconf).Reaches StartsAlone
      (Reload.start luaconf n ruleConfPath mmdb redis healthchecktable file) p) :
    SectionSafe p := by
  have hsectioned : Sectioned p :=
    h.invariant (sectioned_start luaconf n ruleConfPath mmdb redis healthchecktable file)
      (fun _ _ _ hq hl hstep => sectioned_step hq hl hstep)
  exact hsectioned.safe

theorem sectionSafe_second_waits : ∃ p : Reload,
    p.procs.map WorkerZero.inSection = [true, false] ∧ SectionSafe p := by
  obtain ⟨p, hp, hinside⟩ := Machine.exists_reaches_if (reload "/etc/lua.conf")
    (C := StartsAlone) (fun p => p.procs.map WorkerZero.inSection)
    (p := Reload.start "/etc/lua.conf" 2 (.str "/etc/lua.conf") .null .null [] oneDomain)
    (List.replicate 6 (.run 0 false)) (b := [true, false]) (by decide +kernel)
  exact ⟨p, hinside, sectionSafe_of_startsAlone "/etc/lua.conf" 2 (.str "/etc/lua.conf") .null
    .null [] oneDomain p hp⟩

/-- The second process fails to obtain the lock, loads a newer file all the same, and the
first one then puts its older configuration back. -/
theorem lock_is_ignored : ∃ p q : Reload,
    (reload "/etc/lua.conf").Reaches (fun _ l => ¬ l matches .outside .lockExpires)
      (Reload.start "/etc/lua.conf" 2 (.str "/etc/lua.conf") .null .null [] oneDomain) p ∧
    ¬ SectionSafe p ∧
    (reload "/etc/lua.conf").steps p [.run 1 false, .run 0 false] = some q ∧
    recorded "/etc/lua.conf" q.store.dict = some (.json (.num 1700000060)) ∧
    q.store.dict "a.example" = some (.json (.obj [("domain", .str "a.example")])) := by
  obtain ⟨p, hp, hrun⟩ := Machine.exists_reaches (reload "/etc/lua.conf")
    (P := fun l => ¬ l matches .outside .lockExpires)
    (fun p => (p.procs.map WorkerZero.inSection,
      ((reload "/etc/lua.conf").steps p [.run 1 false, .run 0 false]).map (fun q =>
        decide (recorded "/etc/lua.conf" q.store.dict = some (.json (.num 1700000060)) ∧
          q.store.dict "a.example" = some (.json (.obj [("domain", .str "a.example")]))))))
    (p := Reload.start "/etc/lua.conf" 2 (.str "/etc/lua.conf") .null .null [] oneDomain)
    (List.replicate 6 (.run 0 false) ++
      .outside (.edit (some ⟨1700000060, some (.json (.arr
        [.obj [("domain", .str "a.example"), ("basic", .obj [])]]))⟩)) ::
      List.replicate 6 (.run 1 false))
    (by decide +kernel) (b := ([true, true], some true)) (by decide +kernel)
  obtain ⟨hinside, hend⟩ := Prod.mk.inj hrun
  obtain ⟨q, hq, hlast⟩ := Option.map_eq_some_iff.mp hend
  obtain ⟨hrecorded, hold⟩ := of_decide_eq_true hlast
  refine ⟨p, q, hp, fun hsafe => ?_, hq, hrecorded, hold⟩
  obtain ⟨v, rest, hprocs, hv, hrest⟩ := List.map_eq_cons_iff.mp hinside
  obtain ⟨w, rest', rfl, hw, -⟩ := List.map_eq_cons_iff.mp hrest
  have hsame := hsafe.exclusive 0 1 v w (by rw [hprocs]; rfl) (by rw [hprocs]; rfl) hv hw
  cases hsame

end OpenrestyGateway
