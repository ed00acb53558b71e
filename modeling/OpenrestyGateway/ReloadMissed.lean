import OpenrestyGateway.ReloadSection

/-!
Whether a change of the rule file can be missed. The time of a change is recorded before
the file is opened and decoded, and in whole seconds. So a text that cannot be loaded, or a
second change in the same second, is never looked at again. Where neither happens, the
content last applied is the file's current one whenever its time is the recorded one.
-/
namespace OpenrestyGateway
open Interleaving
open InitWorker

namespace InitWorker

/-- The calls of a run that has read the file. -/
def Late : ConfOp → Prop
  | .get _ | .set _ (.json (.obj _)) | .deleteLock | .timerAt => True
  | _ => False

/-- The program ends without an error if nothing comes between. -/
def Finishes (p : Conf Unit) (dict : Dict) : Prop :=
  ∀ refused file, (Prog.run (fun s o => ConfStore.exec s refused o) ⟨dict, file⟩ p).1 = .ok ()

def pendingRead : Conf Unit → Bool
  | .call o _ => o.isRead
  | .ret _ | .stop _ => false

/-- Once a time is recorded the file is read next, and what has been read is loaded. -/
def ReadStep : (o : ConfOp) → (o.Answer → Conf Unit) → Prop
  | .readFile, k => ∀ text, (k text).Uses Late ∧
      ∀ dict, Loadable dict text → Finishes (k text) dict
  | .set _ _, k => ∀ a, pendingRead (k a) = true
  | _, _ => True

/-- What is left of a run that has not read the file. -/
def Unread : Conf Unit → Prop := UntilRead ReadStep

section Programs

theorem unread_get_bind {α : Type} {key : Val} {f : Option DictVal → Conf α}
    {g : α → Conf Unit} (h : ∀ v, Unread (f v >>= g)) : Unread ((get key >>= f) >>= g) := by
  simp only [get]
  split
  · exact ⟨trivial, fun _ v => h v⟩
  · exact h none

theorem unread_set_bind {key : Val} {v : DictVal} {f : Unit → Conf Bool}
    {g : Bool → Conf Unit} (hread : pendingRead (f () >>= g) = true) (h : Unread (f () >>= g)) :
    Unread ((set key v >>= f) >>= g) := by
  simp only [set]
  split
  · exact ⟨fun _ => hread, fun _ _ => h⟩
  · exact h

theorem unread_isconfread {luaconf : String} {f : Bool → Conf Unit} (hfalse : Unread (f false))
    (hread : pendingRead (f true) = true) (htrue : Unread (f true)) :
    Unread (isconfread luaconf >>= f) := by
  refine ⟨trivial, fun _ modification => ?_⟩
  cases modification with
  | none => exact hfalse
  | some m =>
      refine unread_get_bind (fun cacheTime => ?_)
      cases cacheTime with
      | none => exact unread_set_bind hread htrue
      | some c =>
          show Unread ((if c = .json (.num m) then _ else _ : Conf Bool) >>= f)
          split
          · exact hfalse
          · exact unread_set_bind hread htrue

theorem late_loadText (elapsed : Bool) (text : Option FileText) :
    (loadText elapsed text).Uses Late :=
  uses_loadText (fun _ => trivial) (fun _ _ _ => trivial) trivial elapsed text

/-- The worker's own state does not change how a program ends. -/
theorem run_store (refused : Bool) (p : Conf Unit) :
    ∀ s : Solo, (Prog.run (fun s o => ConfStore.exec s refused o) s.store p).1 =
      (s.run refused p).1 := by
  induction p with
  | ret u => exact fun s => rfl
  | stop e => exact fun s => rfl
  | call o k ih => exact fun s => ih _ (s.exec refused o).2

theorem finishes_loadText {elapsed : Bool} {text : Option FileText} {dict : Dict}
    {f : Unit → Conf Unit} (h : Loadable dict text) (hf : ∀ dict, Finishes (f ()) dict) :
    Finishes (loadText elapsed text >>= f) dict := by
  intro refused file
  obtain ⟨res, t, hrun, -, hloadable, -⟩ :=
    run_loadText refused ⟨⟨dict, file⟩, false, false⟩ elapsed text
  cases hloadable.mpr h
  have hwhole := run_store refused (loadText elapsed text >>= f) ⟨⟨dict, file⟩, false, false⟩
  rw [run_bind_ok hrun] at hwhole
  rw [hwhole, ← run_store]
  exact hf t.store.dict refused t.store.file

theorem unread_afterLock (luaconf : String) (elapsed : Bool) {f : Unit → Conf Unit}
    (hf : Unread (f ())) (hlate : (f ()).Uses Late) (hends : ∀ dict, Finishes (f ()) dict) :
    Unread (afterLock luaconf elapsed >>= f) := by
  have hfree : Unread (freelock elapsed >>= f) := by
    cases elapsed with
    | false => exact hf
    | true => exact ⟨trivial, fun _ _ => hf⟩
  have hread : Unread (.call .readFile (fun text => loadText elapsed text >>= f)) :=
    ⟨fun text => ⟨Prog.uses_bind (late_loadText elapsed text) (fun _ => hlate),
      fun dict h => finishes_loadText h hends⟩, fun hop => (by cases hop)⟩
  simp only [afterLock]
  rw [Prog.bind_assoc]
  exact unread_isconfread hfree rfl hread

theorem unread_readConfFile (luaconf : String) (keyId : Bool) {f : Unit → Conf Unit}
    (hf : Unread (f ())) (hlate : (f ()).Uses Late) (hends : ∀ dict, Finishes (f ()) dict) :
    Unread (readConfFile luaconf keyId >>= f) := by
  rw [readConfFile_eq]
  cases keyId with
  | true => exact unread_afterLock luaconf false hf hlate hends
  | false => exact ⟨trivial, fun _ elapsed => unread_afterLock luaconf elapsed hf hlate hends⟩

theorem unread_start (luaconf : String) : Unread (readConfFile luaconf false) := by
  rw [← Prog.bind_ret (readConfFile luaconf false)]
  exact unread_readConfFile luaconf false trivial trivial (fun _ _ _ => rfl)

theorem unread_handler (luaconf : String) (keyId : Bool) : Unread (handler luaconf keyId) :=
  unread_readConfFile luaconf keyId ⟨trivial, fun _ _ => trivial⟩ ⟨trivial, fun _ => trivial⟩
    (fun _ _ _ => rfl)

end Programs

end InitWorker
/-! ### What has been read and applied -/

def readOf (e : Event ConfOp ConfOp.Answer) : Option (Option FileText) :=
  match e with
  | ⟨_, .readFile, text⟩ => some text
  | _ => none

def lastRead (log : List (Event ConfOp ConfOp.Answer)) : Option (Option FileText) :=
  ((log.filter (fun e => e.op.isRead)).getLast?).bind readOf

/-- The process has read the file or starts a new run. -/
def ownRead (i : Nat) (e : Event ConfOp ConfOp.Answer) : Bool :=
  e.who == i && (e.op.isRead || e.op matches .tick)

/-- What a process has read in its present run. -/
def currentRead (log : List (Event ConfOp ConfOp.Answer)) (i : Nat) :
    Option (Option FileText) :=
  ((log.filter (ownRead i)).getLast?).bind readOf

theorem lastRead_append {log : List (Event ConfOp ConfOp.Answer)}
    {e : Event ConfOp ConfOp.Answer} (h : e.op.isRead = false) :
    lastRead (log ++ [e]) = lastRead log := by
  simp only [lastRead]
  rw [getLast?_filter_append, if_neg (by simp [h])]

theorem lastRead_readFile (log : List (Event ConfOp ConfOp.Answer)) (i : Nat)
    (text : Option FileText) : lastRead (log ++ [⟨i, .readFile, text⟩]) = some text := by
  simp only [lastRead]
  rw [getLast?_filter_append]
  rfl

theorem currentRead_append {log : List (Event ConfOp ConfOp.Answer)}
    {e : Event ConfOp ConfOp.Answer} {i : Nat} (h : ownRead i e = false) :
    currentRead (log ++ [e]) i = currentRead log i := by
  simp only [currentRead]
  rw [getLast?_filter_append, if_neg (by simp [h])]

theorem currentRead_own {log : List (Event ConfOp ConfOp.Answer)}
    {e : Event ConfOp ConfOp.Answer} {i : Nat} (h : ownRead i e = true) :
    currentRead (log ++ [e]) i = readOf e := by
  simp only [currentRead]
  rw [getLast?_filter_append, if_pos h]
  rfl

def raised : Conf Unit → Bool
  | .stop _ => true
  | .ret _ | .call _ _ => false

def jsonOf : Option (Option FileText) → Option Val
  | some (some (.json v)) => some v
  | _ => none

/-- The content last applied: a process that comes out of the section without an error
has applied what it has read in its run. -/
def noteApplied (applied : Option Val) (p : Reload) (l : ReloadLabel) (q : Reload) :
    Option Val :=
  match l with
  | .outside _ => applied
  | .run i _ =>
      match p.procs[i]?, q.procs[i]? with
      | some w, some w' =>
          if w.inSection && !w'.inSection && !raised w'.body then
            (jsonOf (currentRead q.log i)).or applied
          else applied
      | _, _ => applied

/-- Nobody is inside, so what has been applied is what the file has, if its time is the
recorded one. -/
def UpToDate (luaconf : String) (p : Reload) (applied : Option Val) : Prop :=
  (∀ w ∈ p.procs, w.inSection = false) →
    ∀ f, p.store.file = some f →
      recorded luaconf p.store.dict = some (.json (.num f.modification)) →
        ∃ v, f.content = some (.json v) ∧ applied = some v

/-- A text that is read can be loaded, and an edit brings a time that is not the recorded
one, unless a process is yet to read it or it is what was read last. -/
def Mindful (luaconf : String) (p : Reload) : ReloadLabel → Prop
  | .run i refused => StartsAlone p (.run i refused) ∧
      ∀ w, p.procs[i]? = some w → pendingRead w.body = true →
        p.store.file.bind RuleFile.content ≠ none ∧
        Loadable p.store.dict (p.store.file.bind RuleFile.content)
  | .outside (.edit (some f)) =>
      recorded luaconf p.store.dict = some (.json (.num f.modification)) →
        (∃ w ∈ p.procs, pendingRead w.body = true) ∨ lastRead p.log = some f.content
  | .outside (.edit none) => True
  | .outside _ => False

/-- Where a process is in its run. -/
inductive Staged (p : Reload) (i : Nat) (w : WorkerZero) : Prop where
  | unread : currentRead p.log i = none → Unread w.body → Staged p i w
  | read (v : Val) : currentRead p.log i = some (some (.json v)) → w.body.Uses Late →
      (w.inSection = true → lastRead p.log = some (some (.json v)) ∧
        Finishes w.body p.store.dict) → Staged p i w

structure Followed (luaconf : String) (p : Reload) (applied : Option Val) : Prop where
  sectioned : Sectioned p
  staged : ∀ (i : Nat) (w : WorkerZero), p.procs[i]? = some w → Staged p i w
  json : ∀ text, lastRead p.log = some text → ∃ v, text = some (.json v)
  current : (∀ w ∈ p.procs, pendingRead w.body = false) → ∀ f, p.store.file = some f →
    recorded luaconf p.store.dict = some (.json (.num f.modification)) →
      lastRead p.log = some f.content
  settled : (∀ (i : Nat) (w : WorkerZero), p.procs[i]? = some w → w.inSection = true →
    currentRead p.log i = none) → ∀ v, lastRead p.log = some (some (.json v)) → applied = some v

theorem pendingRead_of_outside {w : WorkerZero} (h : w.inSection = false) :
    pendingRead w.body = false := by
  simp only [WorkerZero.inSection] at h
  cases hbody : w.body with
  | ret _ | stop _ => rfl
  | call o k =>
      rw [hbody] at h
      cases o with
      | attributes | readFile | get _ | set _ _ | deleteLock => cases h
      | addLock | timerAt | tick => rfl

theorem Followed.upToDate {luaconf : String} {p : Reload} {applied : Option Val}
    (h : Followed luaconf p applied) : UpToDate luaconf p applied := by
  intro hidle f hf hrecorded
  have hlast := h.current (fun w hw => pendingRead_of_outside (hidle w hw)) f hf hrecorded
  obtain ⟨v, hv⟩ := h.json f.content hlast
  rw [hv] at hlast
  refine ⟨v, hv, h.settled (fun i w hw hin => ?_) v hlast⟩
  cases (hidle w (List.mem_of_getElem? hw)).symm.trans hin

section Step
variable {luaconf : String} {p : Reload} {applied : Option Val} {i : Nat} {w w' : WorkerZero}
  {o : ConfOp} {a : o.Answer} {s : ConfStore} {refused : Bool}

theorem noteApplied_run (hw : p.procs[i]? = some w) (s : ConfStore)
    (log : List (Event ConfOp ConfOp.Answer)) :
    noteApplied applied p (.run i refused) ⟨p.procs.set i w', s, log⟩ =
      if w.inSection && !w'.inSection && !raised w'.body then
        (jsonOf (currentRead log i)).or applied
      else applied := by
  have hlt : i < p.procs.length := (List.getElem?_eq_some_iff.mp hw).1
  have hw' : (p.procs.set i w')[i]? = some w' := List.getElem?_set_self hlt
  simp only [noteApplied, hw, hw']

theorem ownRead_other {i j : Nat} (h : j ≠ i) (o : ConfOp) (a : o.Answer) :
    ownRead j ⟨i, o, a⟩ = false := by
  simp [ownRead, Ne.symm h]

/-- The stages of the processes that do not move. -/
theorem Staged.others {j : Nat} {v : WorkerZero} (h : Staged p j v) (hj : j ≠ i)
    (procs : List WorkerZero)
    (hsame : v.inSection = true → s.dict = p.store.dict ∧ o.isRead = false) :
    Staged ⟨procs, s, p.log ++ [⟨i, o, a⟩]⟩ j v := by
  have hcurrent : currentRead (p.log ++ [⟨i, o, a⟩]) j = currentRead p.log j :=
    currentRead_append (ownRead_other hj o a)
  cases h with
  | unread hnone hunread => exact .unread (hcurrent.trans hnone) hunread
  | read x hread hlate hin =>
      refine .read x (hcurrent.trans hread) hlate (fun hvin => ?_)
      obtain ⟨hdict, hop⟩ := hsame hvin
      obtain ⟨hlast, hends⟩ := hin hvin
      refine ⟨(lastRead_append hop).trans hlast, ?_⟩
      rw [hdict]
      exact hends

theorem staged_set (h : Followed luaconf p applied)
    (hstaged : Staged ⟨p.procs.set i w', s, p.log ++ [⟨i, o, a⟩]⟩ i w')
    (hothers : ∀ (j : Nat) (v : WorkerZero), j ≠ i → p.procs[j]? = some v →
      v.inSection = true → s.dict = p.store.dict ∧ o.isRead = false) :
    ∀ (j : Nat) (v : WorkerZero), (p.procs.set i w')[j]? = some v →
      Staged ⟨p.procs.set i w', s, p.log ++ [⟨i, o, a⟩]⟩ j v := by
  intro j v hv
  rcases getElem?_set_cases hv with ⟨rfl, rfl⟩ | ⟨hj, hv'⟩
  · exact hstaged
  · exact (h.staged j v hv').others hj _ (hothers j v hj hv')

/-- A step that is no reading, in a run that has not read: the process, too, has nothing
to have applied. -/
theorem Followed.unread (h : Followed luaconf p applied) (hw : p.procs[i]? = some w)
    (hop : o.isRead = false) (hpending : pendingRead w.body = false)
    (hnone : w.inSection = true → currentRead p.log i = none)
    (hsectioned : Sectioned ⟨p.procs.set i w', s, p.log ++ [⟨i, o, a⟩]⟩)
    (hstaged : Staged ⟨p.procs.set i w', s, p.log ++ [⟨i, o, a⟩]⟩ i w')
    (hafter : w.inSection = true → currentRead (p.log ++ [⟨i, o, a⟩]) i = none)
    (hothers : ∀ (j : Nat) (v : WorkerZero), j ≠ i → p.procs[j]? = some v →
      v.inSection = true → s.dict = p.store.dict ∧ o.isRead = false)
    (hfile : s.file = p.store.file)
    (hrecorded : pendingRead w'.body = false → recorded luaconf s.dict =
      recorded luaconf p.store.dict) :
    Followed luaconf ⟨p.procs.set i w', s, p.log ++ [⟨i, o, a⟩]⟩
      (noteApplied applied p (.run i refused)
        ⟨p.procs.set i w', s, p.log ++ [⟨i, o, a⟩]⟩) := by
  have hlt : i < p.procs.length := (List.getElem?_eq_some_iff.mp hw).1
  have hnote : noteApplied applied p (.run i refused)
      ⟨p.procs.set i w', s, p.log ++ [⟨i, o, a⟩]⟩ = applied := by
    rw [noteApplied_run hw]
    cases hin : w.inSection with
    | false => rfl
    | true =>
        rw [hafter hin]
        split <;> rfl
  rw [hnote]
  refine ⟨hsectioned, staged_set h hstaged hothers, ?_, ?_, ?_⟩
  · rw [lastRead_append hop]
    exact h.json
  · intro hcalm f hf hrec
    have hcalm' : ∀ v ∈ p.procs, pendingRead v.body = false := by
      intro v hv
      obtain ⟨j, hj⟩ := List.getElem?_of_mem hv
      by_cases hji : j = i
      · subst hji
        cases hw.symm.trans hj
        exact hpending
      · have hmem : (p.procs.set i w')[j]? = some v := by
          rw [List.getElem?_set_ne (Ne.symm hji)]
          exact hj
        exact hcalm v (List.mem_of_getElem? hmem)
    rw [lastRead_append hop]
    refine h.current hcalm' f (hfile ▸ hf) ?_
    rw [← hrecorded (hcalm w' (List.mem_of_getElem? (List.getElem?_set_self hlt)))]
    exact hrec
  · intro hnobody v hv
    rw [lastRead_append hop] at hv
    refine h.settled (fun j u hu hin => ?_) v hv
    by_cases hj : j = i
    · subst hj
      cases hw.symm.trans hu
      exact hnone hin
    · have hmem : (p.procs.set i w')[j]? = some u := by
        rw [List.getElem?_set_ne (Ne.symm hj)]
        exact hu
      have hcurrent : currentRead (p.log ++ [⟨i, o, a⟩]) j = currentRead p.log j :=
        currentRead_append (ownRead_other hj o a)
      rw [← hcurrent]
      exact hnobody j u hmem hin

/-- A call that is no reading leaves the dict to the process inside. -/
theorem Sectioned.others_same {k : o.Answer → Conf Unit} (h : Sectioned p) (refused : Bool)
    (hw : p.procs[i]? = some w) (hbody : w.body = .call o k) (hop : o.isRead = false) (j : Nat)
    (v : WorkerZero) (hj : j ≠ i) (hv : p.procs[j]? = some v) (hvin : v.inSection = true) :
    (p.store.exec refused o).2.dict = p.store.dict ∧ o.isRead = false := by
  have hinside : o.inside = true → w.inSection = true :=
    fun hin => (WorkerZero.inSection_call hbody).trans hin
  cases o with
  | attributes | readFile | get _ | set _ _ | deleteLock =>
      cases (h.alone.others hw (hinside rfl) j v hj hv).symm.trans hvin
  | addLock =>
      -- somebody is inside, so the key is taken and nothing is added
      obtain ⟨lock, hlock⟩ := Option.ne_none_iff_exists'.mp (h.present j v hv (.inl hvin))
      exact ⟨by simp [ConfStore.exec, hlock], rfl⟩
  | timerAt | tick => exact ⟨rfl, rfl⟩

/-- The process has read the file, now or before, and is in the section. -/
theorem Followed.late (v : Val) (h : Followed luaconf p applied) (hw : p.procs[i]? = some w)
    (hin : w.inSection = true)
    (hsectioned : Sectioned ⟨p.procs.set i w', s, p.log ++ [⟨i, o, a⟩]⟩)
    (hread : currentRead (p.log ++ [⟨i, o, a⟩]) i = some (some (.json v)))
    (hlast : lastRead (p.log ++ [⟨i, o, a⟩]) = some (some (.json v)))
    (hlate : w'.body.Uses Late) (hends : Finishes w'.body s.dict)
    (hcurrent : ∀ f, s.file = some f →
      recorded luaconf s.dict = some (.json (.num f.modification)) →
        f.content = some (.json v)) :
    Followed luaconf ⟨p.procs.set i w', s, p.log ++ [⟨i, o, a⟩]⟩
      (noteApplied applied p (.run i refused)
        ⟨p.procs.set i w', s, p.log ++ [⟨i, o, a⟩]⟩) := by
  have hlt : i < p.procs.length := (List.getElem?_eq_some_iff.mp hw).1
  have hothers := h.sectioned.alone.others hw hin
  refine ⟨hsectioned, staged_set h ?_ (fun j u hj hu huin => ?_), ?_, ?_, ?_⟩
  · exact .read v hread hlate (fun _ => ⟨hlast, hends⟩)
  · cases (hothers j u hj hu).symm.trans huin
  · intro text htext
    exact ⟨v, Option.some.inj (htext.symm.trans hlast)⟩
  · intro _ f hf hrec
    rw [hlast, hcurrent f hf hrec]
  · intro hnobody x hx
    cases hx.symm.trans hlast
    -- the premise excludes a reader that is still inside
    have hout : w'.inSection = false := by
      by_contra hstill
      have hnone := hnobody i w' (List.getElem?_set_self hlt) (by simpa using hstill)
      cases hnone.symm.trans hread
    have hcalm : raised w'.body = false := by
      cases hbody : w'.body with
      | ret _ | call _ _ => rfl
      | stop e =>
          rw [hbody] at hends
          cases hends false none
    rw [noteApplied_run hw, hin, hout, hcalm, hread]
    rfl

theorem recorded_set_obj {dict : Dict} {key : String} {fs : List (String × Val)} {m : Nat}
    (h : recorded luaconf (Function.update dict key (some (.json (.obj fs)))) =
      some (.json (.num m))) : recorded luaconf dict = some (.json (.num m)) := by
  simp only [recorded] at h ⊢
  cases hkey : dictKey (.str (lastmod ++ luaconf)) with
  | none =>
      rw [hkey] at h
      cases h
  | some k =>
      rw [hkey] at h
      by_cases hk : k = key
      · subst hk
        rw [Option.bind_some, Function.update_self] at h
        cases h
      · rw [Option.bind_some, Function.update_of_ne hk] at h
        exact h

end Step

/-- The pool after a call of the process `i`, which is `w'` then. -/
abbrev Reload.called (p : Reload) (i : Nat) (refused : Bool) (o : ConfOp) (w' : WorkerZero) :
    Reload :=
  ⟨p.procs.set i w', (p.store.exec refused o).2,
    p.log ++ [⟨i, o, (p.store.exec refused o).1⟩]⟩

section Calls
variable {luaconf : String} {p : Reload} {applied : Option Val} {i : Nat} {w w' : WorkerZero}
  {refused : Bool} {o : ConfOp} {k : o.Answer → Conf Unit}

theorem ownRead_call (hread : o.isRead = false) (htick : o ≠ .tick) (a : o.Answer) :
    ownRead i ⟨i, o, a⟩ = false := by
  cases o with
  | readFile => cases hread
  | tick => exact absurd rfl htick
  | attributes | get _ | set _ _ | addLock | deleteLock | timerAt =>
      simp [ownRead, ConfOp.isRead]

theorem followed_readFile {k : Option FileText → Conf Unit} (h : Followed luaconf p applied)
    (hl : Mindful luaconf p (.run i refused)) (hw : p.procs[i]? = some w)
    (hbody : w.body = .call .readFile k)
    (hbody' : w'.body = k (p.store.file.bind RuleFile.content))
    (hsectioned : Sectioned (p.called i refused .readFile w')) :
    Followed luaconf (p.called i refused .readFile w')
      (noteApplied applied p (.run i refused) (p.called i refused .readFile w')) := by
  have hin : w.inSection = true := WorkerZero.inSection_call hbody
  obtain ⟨hopen, hloadable⟩ := hl.2 w hw (by rw [hbody]; rfl)
  cases hcontent : p.store.file.bind RuleFile.content with
  | none => exact absurd hcontent hopen
  | some text =>
      rw [hcontent] at hloadable hbody'
      cases text with
      | malformed => exact hloadable.elim
      | json v =>
          have hanswer : (p.store.exec refused .readFile).1 = some (.json v) := hcontent
          cases h.staged i w hw with
          | read x _ hlate _ =>
              rw [hbody] at hlate
              exact hlate.1.elim
          | unread _ hunread =>
              rw [hbody] at hunread
              obtain ⟨hlate, hends⟩ := hunread.1 (some (.json v))
              refine h.late v hw hin hsectioned ?_ ?_ ?_ ?_ (fun f hf _ => ?_)
              · rw [hanswer]
                exact currentRead_own (by simp [ownRead, ConfOp.isRead])
              · rw [hanswer]
                exact lastRead_readFile _ _ _
              · rw [hbody']
                exact hlate
              · rw [hbody']
                exact hends _ hloadable
              · have hfile : p.store.file = some f := hf
                rw [hfile] at hcontent
                exact hcontent

/-- A call of a run that has not read the file yet. -/
theorem followed_unread (h : Followed luaconf p applied) (hw : p.procs[i]? = some w)
    (hbody : w.body = .call o k) (hread : o.isRead = false) (htick : o ≠ .tick)
    (hnone : currentRead p.log i = none) (hunread : Unread w.body)
    (hbody' : w'.body = k (p.store.exec refused o).1)
    (hsectioned : Sectioned (p.called i refused o w')) :
    Followed luaconf (p.called i refused o w')
      (noteApplied applied p (.run i refused) (p.called i refused o w')) := by
  have hnone' : currentRead (p.called i refused o w').log i = none :=
    (currentRead_append (ownRead_call hread htick _)).trans hnone
  rw [hbody] at hunread
  refine h.unread hw hread ?_ (fun _ => hnone) hsectioned (.unread hnone' ?_) (fun _ => hnone')
    (h.sectioned.others_same refused hw hbody hread) (exec_file _ _ _) (fun hpending => ?_)
  · rw [hbody]
    exact hread
  · rw [hbody']
    exact hunread.2 hread _
  · rw [hbody'] at hpending
    cases o with
    -- the time has just been recorded, and the file is read next
    | set key v => cases (hunread.1 _).symm.trans hpending
    | addLock =>
        simp only [ConfStore.exec]
        split
        · exact recorded_update_confKey _ _ _
        · rfl
    | deleteLock => exact recorded_update_confKey _ _ _
    | attributes | readFile | get _ | timerAt | tick => rfl

/-- A call inside, of a run that has read the file. -/
theorem followed_inside {v : Val} (h : Followed luaconf p applied) (hw : p.procs[i]? = some w)
    (hbody : w.body = .call o k) (hinside : o.inside = true) (hread : o.isRead = false)
    (hcurrent : currentRead p.log i = some (some (.json v))) (hlate : w.body.Uses Late)
    (hstage : w.inSection = true → lastRead p.log = some (some (.json v)) ∧
      Finishes w.body p.store.dict)
    (hbody' : w'.body = k (p.store.exec refused o).1)
    (hsectioned : Sectioned (p.called i refused o w'))
    (hends : Finishes (.call o k) p.store.dict →
      Finishes (k (p.store.exec refused o).1) (p.store.exec refused o).2.dict)
    (hrecorded : ∀ m : Nat,
      recorded luaconf (p.store.exec refused o).2.dict = some (.json (.num m)) →
        recorded luaconf p.store.dict = some (.json (.num m))) :
    Followed luaconf (p.called i refused o w')
      (noteApplied applied p (.run i refused) (p.called i refused o w')) := by
  have hin : w.inSection = true := (WorkerZero.inSection_call hbody).trans hinside
  obtain ⟨hlast, hfin⟩ := hstage hin
  have hcalm : ∀ u ∈ p.procs, pendingRead u.body = false := by
    intro u hu
    obtain ⟨j, hj⟩ := List.getElem?_of_mem hu
    by_cases hji : j = i
    · subst hji
      cases hw.symm.trans hj
      rw [hbody]
      exact hread
    · exact pendingRead_of_outside (h.sectioned.alone.others hw hin j u hji hj)
  have htick : o ≠ .tick := by
    rintro rfl
    cases hinside
  rw [hbody] at hlate hfin
  refine h.late v hw hin hsectioned ?_ ?_ ?_ ?_ (fun f hf hrec => ?_)
  · exact (currentRead_append (ownRead_call hread htick _)).trans hcurrent
  · exact (lastRead_append hread).trans hlast
  · rw [hbody']
    exact hlate.2 _
  · rw [hbody']
    exact hends hfin
  · have hfile : p.store.file = some f := (exec_file p.store refused o).symm.trans hf
    exact Option.some.inj ((h.current hcalm f hfile (hrecorded _ hrec)).symm.trans hlast)

/-- The timer is armed after the section. -/
theorem followed_timerAt {k : Bool → Conf Unit} {v : Val} (h : Followed luaconf p applied)
    (hw : p.procs[i]? = some w) (hbody : w.body = .call .timerAt k)
    (hcurrent : currentRead p.log i = some (some (.json v))) (hlate : w.body.Uses Late)
    (hbody' : w'.body = k (!refused))
    (hsectioned : Sectioned (p.called i refused .timerAt w')) :
    Followed luaconf (p.called i refused .timerAt w')
      (noteApplied applied p (.run i refused) (p.called i refused .timerAt w')) := by
  have hout : w.inSection = true → False := by
    intro hin
    cases (WorkerZero.inSection_call hbody).symm.trans hin
  have hguarded := h.sectioned.guarded i w hw
  rw [hbody] at hguarded hlate
  have hout' : w'.inSection = false := by
    have houtside : Outside w'.body := by
      rw [hbody']
      exact hguarded.1 _
    exact inSection_of_outside _ _ houtside
  refine h.unread hw rfl ?_ (fun hin => (hout hin).elim) hsectioned ?_
    (fun hin => (hout hin).elim) (fun _ _ _ _ _ => ⟨rfl, rfl⟩) rfl (fun _ => rfl)
  · rw [hbody]
    rfl
  · refine .read v ((currentRead_append ?_).trans hcurrent) ?_ (fun hin => ?_)
    · exact ownRead_call rfl (by simp) _
    · rw [hbody']
      exact hlate.2 _
    · cases hout'.symm.trans hin

theorem followed_call (h : Followed luaconf p applied) (hl : Mindful luaconf p (.run i refused))
    (hw : p.procs[i]? = some w) (hbody : w.body = .call o k)
    (hbody' : w'.body = k (p.store.exec refused o).1)
    (hsectioned : Sectioned (p.called i refused o w')) :
    Followed luaconf (p.called i refused o w')
      (noteApplied applied p (.run i refused) (p.called i refused o w')) := by
  have htick : o ≠ .tick := by
    rintro rfl
    have hguarded := h.sectioned.guarded i w hw
    rw [hbody] at hguarded
    exact hguarded.1
  cases hread : o.isRead with
  | true =>
      cases o with
      | readFile => exact followed_readFile h hl hw hbody hbody' hsectioned
      | _ => cases hread
  | false =>
      cases h.staged i w hw with
      | unread hnone hunread =>
          exact followed_unread h hw hbody hread htick hnone hunread hbody' hsectioned
      | read v hcurrent hlate hstage =>
          have hop : Late o := by
            rw [hbody] at hlate
            exact hlate.1
          cases o with
          | attributes | readFile | addLock | tick => exact hop.elim
          | get key =>
              exact followed_inside h hw hbody rfl rfl hcurrent hlate hstage hbody' hsectioned
                (fun hends refused file => hends refused file) (fun _ hrec => hrec)
          | deleteLock =>
              refine followed_inside h hw hbody rfl rfl hcurrent hlate hstage hbody' hsectioned
                (fun hends refused file => hends refused file) (fun m hrec => ?_)
              exact (recorded_update_confKey luaconf p.store.dict none).symm.trans hrec
          | set key stored =>
              match stored, hop with
              | .json (.obj fs), _ =>
                  exact followed_inside h hw hbody rfl rfl hcurrent hlate hstage hbody' hsectioned
                    (fun hends refused file => hends refused file)
                    (fun _ hrec => recorded_set_obj hrec)
          | timerAt => exact followed_timerAt h hw hbody hcurrent hlate hbody' hsectioned

theorem followed_tick (h : Followed luaconf p applied) (hw : p.procs[i]? = some w)
    (hidle : w.inSection = false) (hbody' : w'.body = handler luaconf w.keyId)
    (hsectioned : Sectioned (p.called i refused .tick w')) :
    Followed luaconf (p.called i refused .tick w')
      (noteApplied applied p (.run i refused) (p.called i refused .tick w')) := by
  have hout : w.inSection = true → False := by
    intro hin
    cases hidle.symm.trans hin
  refine h.unread hw rfl (pendingRead_of_outside hidle) (fun hin => (hout hin).elim) hsectioned
    (.unread ?_ ?_) (fun hin => (hout hin).elim) (fun _ _ _ _ _ => ⟨rfl, rfl⟩) rfl (fun _ => rfl)
  · exact currentRead_own (by simp [ownRead])
  · rw [hbody']
    exact unread_handler luaconf w.keyId

end Calls

theorem followed_edit {luaconf : String} {p : Reload} {applied : Option Val}
    {file : Option RuleFile} (h : Followed luaconf p applied)
    (hl : Mindful luaconf p (.outside (.edit file))) :
    Followed luaconf { p with store := p.store.change (.edit file) } applied := by
  refine ⟨⟨h.sectioned.guarded, h.sectioned.alone, h.sectioned.present, h.sectioned.holder,
    h.sectioned.reader⟩, fun i w hw => ?_, h.json, ?_, h.settled⟩
  · cases h.staged i w hw with
    | unread hnone hunread => exact .unread hnone hunread
    | read v hread hlate hin => exact .read v hread hlate hin
  · rintro hcalm f hf hrec
    cases hf
    rcases hl hrec with ⟨w, hw, hpending⟩ | hlast
    · cases (hcalm w hw).symm.trans hpending
    · exact hlast

theorem followed_step {luaconf : String} {p q : Reload} {applied : Option Val} {l : ReloadLabel}
    (h : Followed luaconf p applied) (hl : Mindful luaconf p l)
    (hstep : (reload luaconf).step p l = some q) :
    Followed luaconf q (noteApplied applied p l q) := by
  rcases Machine.step_cases _ hstep with ⟨i, refused, w, o, k, rfl, hw, hnext, rfl⟩ | ⟨x, rfl, rfl⟩
  · have hsectioned := sectioned_step h.sectioned hl.1 hstep
    rcases WorkerZero.next_cases hnext with ⟨k', hbody, hk⟩ | ⟨rfl, hended, -, hk⟩
    · exact followed_call h hl hw hbody (congrArg WorkerZero.body (hk _)) hsectioned
    · exact followed_tick h hw hended.outside (congrArg WorkerZero.body (hk _)) hsectioned
  · cases x with
    | edit file => exact followed_edit h hl
    | lockExpires | initPhase _ _ _ _ => exact hl.elim

theorem recorded_initPhase (luaconf : String) (dict : Dict) (ruleConfPath mmdb redis : Val)
    (healthchecktable : List Val) :
    recorded luaconf (InitConf.initPhase dict ruleConfPath mmdb redis healthchecktable) =
      recorded luaconf dict := by
  have hne : ∀ key : String, key.toList.head? ≠ some 'c' → lastmod ++ luaconf ≠ key := by
    rintro key hkey rfl
    rw [String.toList_append] at hkey
    exact hkey rfl
  simp only [recorded, InitConf.initPhase]
  cases hkey : dictKey (.str (lastmod ++ luaconf)) with
  | none => rfl
  | some k =>
      rw [dictKey_str_eq hkey, Option.bind_some, Option.bind_some,
        Function.update_of_ne (hne _ (by decide)), Function.update_of_ne (hne _ (by decide))]

theorem followed_start (luaconf : String) (n : Nat) (ruleConfPath mmdb redis : Val)
    (healthchecktable : List Val) (file : Option RuleFile) :
    Followed luaconf
      (Reload.start luaconf n ruleConfPath mmdb redis healthchecktable file) none := by
  refine ⟨sectioned_start luaconf n ruleConfPath mmdb redis healthchecktable file,
    fun i w hw => ?_, fun text htext => (by cases htext), fun _ f _ hrec => ?_,
    fun _ v hv => (by cases hv)⟩
  · cases List.eq_of_mem_replicate (List.mem_of_getElem? hw)
    exact .unread rfl (unread_start luaconf)
  · have hnone : recorded luaconf (Reload.start luaconf n ruleConfPath mmdb redis
        healthchecktable file).store.dict = none := by
      have hinit := recorded_initPhase luaconf (fun _ => none) ruleConfPath mmdb redis
        healthchecktable
      refine hinit.trans ?_
      simp only [recorded]
      cases dictKey (.str (lastmod ++ luaconf)) <;> rfl
    cases hnone.symm.trans hrec

instance (luaconf : String) (p : Reload) (l : ReloadLabel) : Decidable (Mindful luaconf p l) :=
  match l with
  | .run i refused => inferInstanceAs (Decidable (StartsAlone p (.run i refused) ∧
      ∀ w ∈ p.procs[i]?, pendingRead w.body = true →
        p.store.file.bind RuleFile.content ≠ none ∧
        Loadable p.store.dict (p.store.file.bind RuleFile.content)))
  | .outside (.edit (some f)) => inferInstanceAs (Decidable
      (recorded luaconf p.store.dict = some (.json (.num f.modification)) →
        (∃ w ∈ p.procs, pendingRead w.body = true) ∨ lastRead p.log = some f.content))
  | .outside (.edit none) => isTrue trivial
  | .outside .lockExpires | .outside (.initPhase _ _ _ _) => isFalse id

def rules (domain : String) : FileText := .json (.arr [.obj [("domain", .str domain)]])

instance (luaconf : String) (p : Reload) (applied : Option Val) :
    Decidable (UpToDate luaconf p applied) :=
  have (f : RuleFile) : Decidable (∃ v, f.content = some (.json v) ∧ applied = some v) :=
    match applied with
    | none => isFalse (fun ⟨_, _, hnone⟩ => by cases hnone)
    | some v => decidable_of_iff (f.content = some (.json v))
        ⟨fun hv => ⟨v, hv, rfl⟩, fun ⟨_, hv, hsame⟩ => Option.some.inj hsame ▸ hv⟩
  inferInstanceAs (Decidable ((∀ w ∈ p.procs, w.inSection = false) →
    ∀ f ∈ p.store.file, recorded luaconf p.store.dict = some (.json (.num f.modification)) →
      ∃ v, f.content = some (.json v) ∧ applied = some v))

def RunsAndEdits (_ : Reload) : ReloadLabel → Prop
  | .run _ _ | .outside (.edit _) => True
  | .outside _ => False

instance (p : Reload) (l : ReloadLabel) : Decidable (RunsAndEdits p l) :=
  match l with
  | .run _ _ | .outside (.edit _) => isTrue trivial
  | .outside .lockExpires | .outside (.initPhase _ _ _ _) => isFalse id

/-- The file is read with `first` in it and edited within the same second, and the next run
ends without looking at it. -/
def MissesEdit (first : FileText) : Prop :=
  ∃ (p : Reload) (applied : Option Val),
    (reload "/etc/lua.conf").Notes noteApplied RunsAndEdits
      (Reload.start "/etc/lua.conf" 1 (.str "/etc/lua.conf") .null .null []
        (some ⟨1700000000, some first⟩)) none p applied ∧
    p.store.file.bind RuleFile.content = some (rules "b.example") ∧
    p.procs.map (fun w => w.body matches .ret _) = [true] ∧
    ¬ UpToDate "/etc/lua.conf" p applied

theorem missesEdit_of_run {first : FileText} (ls : List ReloadLabel)
    (h : ((reload "/etc/lua.conf").notesIf noteApplied RunsAndEdits
      (Reload.start "/etc/lua.conf" 1 (.str "/etc/lua.conf") .null .null []
        (some ⟨1700000000, some first⟩)) none ls).map (fun r =>
      (decide (r.1.store.file.bind RuleFile.content = some (rules "b.example")),
        r.1.procs.map (fun w => w.body matches .ret _),
        decide (UpToDate "/etc/lua.conf" r.1 r.2))) = some (true, [true], false)) :
    MissesEdit first := by
  obtain ⟨p, applied, hp, hend⟩ := Machine.exists_notes_if (reload "/etc/lua.conf")
    (fun (p : Reload) applied =>
      (decide (p.store.file.bind RuleFile.content = some (rules "b.example")),
        p.procs.map (fun w => w.body matches .ret _),
        decide (UpToDate "/etc/lua.conf" p applied))) ls h
  obtain ⟨hfile, hend⟩ := Prod.mk.inj hend
  obtain ⟨hprocs, hstale⟩ := Prod.mk.inj hend
  exact ⟨p, applied, hp, of_decide_eq_true hfile, hprocs, of_decide_eq_false hstale⟩

def editWithinSecond : ReloadLabel :=
  .outside (.edit (some ⟨1700000000, some (rules "b.example")⟩))

end OpenrestyGateway
