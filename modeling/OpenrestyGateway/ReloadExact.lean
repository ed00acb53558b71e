import OpenrestyGateway.ReloadMissed

/-!
What get_domainconf finds after a run that loads the file. A load writes the entries of the
file and deletes nothing, so what earlier loads have stored is found as long as the dict
lives, and a host without an entry in the file has no configuration only if nothing has ever
been stored under it.
-/
namespace OpenrestyGateway
open Interleaving
open InitWorker

namespace InitWorker

/-- The dict alone, while the file is edited and timers are refused. -/
def dictExec (dict : Dict) (fault : Bool × Option RuleFile) (o : ConfOp) : o.Answer × Dict :=
  ((ConfStore.exec ⟨dict, fault.2⟩ fault.1 o).1, (ConfStore.exec ⟨dict, fault.2⟩ fault.1 o).2.dict)

/-- The entry is one for the host. -/
def names (host : String) (v : Val) : Bool :=
  match v.index "domain" with
  | .error _ => false
  | .ok domain =>
      match domain.text with
      | .ok text => text == host
      | .error _ => false

/-- The file's entry for a host, the last of several. -/
def entryFor (v : Val) (host : String) : Option Val :=
  match v.pairs with
  | .ok entries => (entries.filter (names host)).getLast?
  | .error _ => none

/-- What a whole load of `v` makes of the dict. -/
def Loaded (v : Val) (dict dict' : Dict) : Prop :=
  ∃ (entries : List Val) (elapsed : Bool), v.pairs = .ok entries ∧ Loads dict entries ∧
    dict' = if elapsed then Function.update (entries.foldl storeEntry dict) confKey none
      else entries.foldl storeEntry dict

/-- A host for which get_domainconf answers as the file says. -/
def Exact (v : Val) (conf : Dict) (host : String) : Prop :=
  GetConf.getDomainconf conf host = .ok ((entryFor v host).getD .nil)

section Load
variable {dict : Dict}

theorem ensures_get (key : Val) :
    (get key).Ensures dictExec (fun v d => v = (dictKey key).bind dict ∧ d = dict) dict := by
  simp only [get]
  cases dictKey key with
  | none => exact ⟨rfl, rfl⟩
  | some k => exact fun _ => ⟨rfl, rfl⟩

theorem ensures_set (key : Val) (v : DictVal) :
    (set key v).Ensures dictExec (fun _ d => d = put dict key v) dict := by
  simp only [set, put]
  cases dictKey key with
  | none => rfl
  | some k => exact fun _ => rfl

theorem ensures_lift {α : Type} (x : Except LuaError α) :
    (lift x).Ensures dictExec (fun a d => x = .ok a ∧ d = dict) dict := by
  cases x with
  | ok a => exact ⟨rfl, rfl⟩
  | error e => trivial

theorem ensures_loadEntry (v : Val) :
    (loadEntry v).Ensures dictExec (fun _ d => Passes dict v ∧ d = storeEntry dict v) dict := by
  refine Prog.ensures_bind (ensures_lift _) ?_
  rintro domain _ ⟨hdomain, rfl⟩
  refine Prog.ensures_bind (ensures_get domain) ?_
  rintro stored _ ⟨rfl, rfl⟩
  rw [storeEntry_eq hdomain]
  split
  · rename_i hstored
    rw [put_stored hstored]
    obtain ⟨k, hk, hv⟩ := Option.bind_eq_some_iff.mp hstored
    exact ⟨⟨domain, hdomain, .inr ⟨k, hk, hv⟩⟩, rfl⟩
  · refine Prog.ensures_bind (ensures_set domain _) ?_
    rintro _ _ rfl
    refine Prog.ensures_bind (ensures_lift _) ?_
    rintro line _ ⟨hline, rfl⟩
    cases htext : domain.text with
    | ok text => exact ⟨⟨domain, hdomain, .inl ⟨text, htext⟩⟩, rfl⟩
    | error e =>
        rw [loadLine_eq, htext] at hline
        cases hline

theorem ensures_loadEntries (vs : List Val) : ∀ dict : Dict,
    (loadEntries vs).Ensures dictExec
      (fun _ d => Loads dict vs ∧ d = vs.foldl storeEntry dict) dict := by
  induction vs with
  | nil => exact fun dict => ⟨trivial, rfl⟩
  | cons v vs ih =>
      intro dict
      refine Prog.ensures_bind (ensures_loadEntry v) ?_
      rintro _ _ ⟨hpasses, rfl⟩
      exact (ih _).mono (fun _ _ hrest => ⟨⟨hpasses, hrest.1⟩, hrest.2⟩)

theorem ensures_loadText (elapsed : Bool) {v : Val} (hv : v ≠ .nil) :
    (loadText elapsed (some (.json v))).Ensures dictExec (fun _ d => Loaded v dict d) dict := by
  have hload : (do
      let entries ← lift v.pairs
      loadEntries entries
      freelock elapsed : Conf Unit).Ensures dictExec (fun _ d => Loaded v dict d) dict := by
    refine Prog.ensures_bind (ensures_lift _) ?_
    rintro entries _ ⟨hpairs, rfl⟩
    refine Prog.ensures_bind (ensures_loadEntries entries _) ?_
    rintro _ _ ⟨hloads, rfl⟩
    cases elapsed with
    | false => exact ⟨entries, false, hpairs, hloads, rfl⟩
    | true => exact fun _ => ⟨entries, true, hpairs, hloads, rfl⟩
  cases v with
  | nil => exact absurd rfl hv
  | _ => exact hload

/-! ### What a load leaves behind -/

theorem dictKey_text {domain : Val} {text : String} (h : domain.text = .ok text) :
    dictKey domain = dictKey (.str text) := by
  cases domain with
  | num q | str s =>
      cases h
      rfl
  | nil | null | bool _ | arr _ | obj _ => cases h

theorem storeEntry_passes {v : Val} {host : String} (h : Passes dict v)
    (husable : dictKey (.str host) = some host) :
    storeEntry dict v host = if names host v then some (.json v) else dict host := by
  obtain ⟨domain, hdomain, hpass⟩ := h
  have hentry : entryKey v = dictKey domain := by simp only [entryKey, hdomain]
  cases htext : domain.text with
  | ok text =>
      have hkey : entryKey v = dictKey (.str text) := hentry.trans (dictKey_text htext)
      have hnames : names host v = (text == host) := by simp only [names, hdomain, htext]
      rw [hnames]
      by_cases hhost : text = host
      · subst hhost
        simp [storeEntry, hkey, husable]
      · rw [storeEntry_other, if_neg (by simpa using hhost)]
        rw [hkey]
        exact fun hsome => hhost (dictKey_str_eq hsome).symm
  | error e =>
      have hnames : names host v = false := by simp only [names, hdomain, htext]
      have hodd : ∃ k, dictKey domain = some k ∧ dict k = some (.json v) := by
        refine hpass.resolve_left ?_
        rintro ⟨text, hok⟩
        cases htext.symm.trans hok
      rw [storeEntry_eq hdomain, put_stored (Option.bind_eq_some_iff.mpr hodd), hnames]
      rfl

/-- After a load that ends well the last entry for a host is the one stored. -/
theorem loads_lookup {vs : List Val} {host : String} (h : Loads dict vs)
    (husable : dictKey (.str host) = some host) :
    vs.foldl storeEntry dict host =
      (((vs.filter (names host)).getLast?).map DictVal.json).or (dict host) := by
  induction vs generalizing dict with
  | nil => rfl
  | cons v vs ih =>
      rw [List.foldl_cons, ih h.2, storeEntry_passes h.1 husable, List.filter_cons]
      cases names host v with
      | false => rfl
      | true =>
          rw [if_pos rfl, if_pos rfl, List.getLast?_cons]
          cases (vs.filter (names host)).getLast? <;> rfl

end Load

/-! ### The run of a process -/

/-- From the reading of the file on, the run is a load. -/
def ReadLoads : (o : ConfOp) → (o.Answer → Conf Unit) → Prop
  | .readFile, k => ∀ text, (k text).Uses (fun o => o.isRead = false) ∧
      ∀ v dict, text = some (.json v) → v ≠ .nil →
        (k text).Ensures dictExec (fun _ d => Loaded v dict d) dict
  | _, _ => True

def Unloaded : Conf Unit → Prop := UntilRead ReadLoads

/-- What is stored is found, under a key that the dict takes. -/
def Stores : ConfOp → Prop
  | .set k v => v ≠ .json .nil ∧ dictKey (.str k) = some k
  | _ => True

section Programs

/-- The rest of the run after read_conf_file leaves the dict alone. -/
structure Quiet (p : Conf Unit) : Prop where
  unloaded : Unloaded p
  unread : p.Uses (fun o => o.isRead = false)
  ensures : ∀ (post : Dict → Prop) dict, post dict → p.Ensures dictExec (fun _ d => post d) dict
  stores : p.Uses Stores

theorem quiet_ret : Quiet (.ret ()) := ⟨trivial, trivial, fun _ _ h => h, trivial⟩

theorem quiet_timerAt : Quiet (do let _ ← (.call .timerAt .ret : Conf Bool); return ()) :=
  ⟨⟨trivial, fun _ _ => trivial⟩, ⟨rfl, fun _ => trivial⟩, fun _ _ h _ => h,
    ⟨trivial, fun _ => trivial⟩⟩

theorem isRead_of_late {o : ConfOp} (h : Late o) : o.isRead = false := by
  cases o with
  | readFile => exact h.elim
  | _ => rfl

theorem unloaded_readConfFile (luaconf : String) (keyId : Bool) {f : Unit → Conf Unit}
    (hf : Quiet (f ())) : Unloaded (readConfFile luaconf keyId >>= f) := by
  have hafter : ∀ elapsed, Unloaded (afterLock luaconf elapsed >>= f) := by
    intro elapsed
    simp only [afterLock]
    rw [Prog.bind_assoc]
    refine untilRead_bind (uses_isconfread luaconf (fun _ => trivial) (fun _ _ => trivial)
      (fun _ _ _ _ => trivial)) (fun lcf => ?_)
    cases lcf with
    | false =>
        exact untilRead_bind (uses_freelock (fun _ => trivial) elapsed) (fun _ => hf.unloaded)
    | true =>
        refine ⟨fun text => ⟨Prog.uses_bind ?_ (fun _ => hf.unread), ?_⟩,
          fun hread => (by cases hread)⟩
        · exact (late_loadText elapsed text).mono (fun o ho => isRead_of_late ho)
        · rintro v dict rfl hv
          exact Prog.ensures_bind (ensures_loadText elapsed hv)
            (fun _ _ hloaded => hf.ensures _ _ hloaded)
  rw [readConfFile_eq]
  cases keyId with
  | true => exact hafter false
  | false => exact ⟨trivial, fun _ elapsed => hafter elapsed⟩

theorem stores_readConfFile (luaconf : String) (keyId : Bool) :
    (readConfFile luaconf keyId).Uses Stores := by
  have hafter : ∀ elapsed, (afterLock luaconf elapsed).Uses Stores := by
    intro elapsed
    refine Prog.uses_bind (uses_isconfread luaconf trivial (fun _ => trivial)
      (fun k m hk => ⟨by simp, dictKey_key hk⟩)) (fun lcf => ?_)
    cases lcf with
    | false => exact uses_freelock trivial elapsed
    | true =>
        exact ⟨trivial, fun text => uses_loadText (fun _ => trivial)
          (fun k fs hk => ⟨by simp, hk⟩) trivial elapsed text⟩
  rw [readConfFile_eq]
  cases keyId with
  | true => exact hafter false
  | false => exact ⟨trivial, hafter⟩

end Programs

end InitWorker

/-! ### The dict of one process -/
def setKey : ConfOp → Option String
  | .set k _ => some k
  | _ => none

/-- Every key under which something has been stored: the records of the init phase, and what
the loads have written. -/
def Reload.written (p : Reload) : List String :=
  "default" :: "healthcheck" :: p.log.filterMap (fun e => setKey e.op)

/-- The dict holds a record, and not that of nothing, for the keys written, and for no others
but the lock's. -/
structure Kept (dict : Dict) (written : List String) : Prop where
  held : ∀ k v, dict k = some v →
    v ≠ .json .nil ∧ (k = confKey ∨ dictKey (.str k) = some k ∧ k ∈ written)
  stays : ∀ k ∈ written, k ≠ confKey → dict k ≠ none

theorem Kept.exec {s : ConfStore} {written : List String} (h : Kept s.dict written)
    (refused : Bool) {o : ConfOp} (ho : Stores o) :
    Kept (s.exec refused o).2.dict (written ++ (setKey o).toList) := by
  have hlock : ∀ v, v ≠ some (.json .nil) →
      Kept (Function.update s.dict confKey v) (written ++ []) := by
    intro v hv
    rw [List.append_nil]
    refine ⟨fun k x hx => ?_, fun k hk hne => ?_⟩
    · by_cases hkey : k = confKey
      · subst hkey
        rw [Function.update_self] at hx
        exact ⟨fun hnil => hv (hx.trans (congrArg some hnil)), .inl rfl⟩
      · rw [Function.update_of_ne hkey] at hx
        exact h.held k x hx
    · rw [Function.update_of_ne hne]
      exact h.stays k hk hne
  have hsame : Kept s.dict (written ++ []) := by
    rw [List.append_nil]
    exact h
  cases o with
  | attributes | readFile | get _ | timerAt | tick => exact hsame
  | deleteLock => exact hlock none (by simp)
  | addLock =>
      simp only [ConfStore.exec]
      split
      · exact hlock _ (by simp)
      · exact hsame
  | set key v =>
      refine ⟨fun k x hx => ?_, fun k hk hne => ?_⟩
      · by_cases hkey : k = key
        · subst hkey
          rw [show (s.exec refused (.set k v)).2.dict k = some v from Function.update_self ..] at hx
          cases hx
          exact ⟨ho.1, .inr ⟨ho.2, by simp [setKey]⟩⟩
        · have hx' : s.dict k = some x := (Function.update_of_ne hkey _ _).symm.trans hx
          obtain ⟨hnil, hor⟩ := h.held k x hx'
          exact ⟨hnil, hor.imp_right (fun hmem => ⟨hmem.1, List.mem_append_left _ hmem.2⟩)⟩
      · rcases List.mem_append.mp hk with hmem | hmem
        · exact exec_keeps refused (.set key v) hne (h.stays k hmem hne)
        · cases List.mem_singleton.mp hmem
          simp [ConfStore.exec]

/-- Where the process is in its run. -/
inductive LoadProgress (p : Reload) (w : WorkerZero) : Prop where
  | before : currentRead p.log 0 = none → Unloaded w.body → LoadProgress p w
  | after (text : Option FileText) : currentRead p.log 0 = some text →
      w.body.Uses (fun o => o.isRead = false) → (∀ v, text = some (.json v) → v ≠ .nil → ∃ dict,
        w.body.Ensures dictExec (fun _ d => Loaded v dict d) p.store.dict) → LoadProgress p w

structure Tracked (p : Reload) (w : WorkerZero) : Prop where
  procs : p.procs = [w]
  sectioned : Sectioned p
  lock : p.store.dict confKey ≠ none → w.keyId = true
  kept : Kept p.store.dict p.written
  stores : w.body.Uses Stores
  progress : LoadProgress p w

section Step
variable {luaconf : String} {p : Reload} {w : WorkerZero} {refused : Bool}

theorem startsAlone_single {l : ReloadLabel} (hprocs : p.procs = [w]) (hl : RunsAndEdits p l) :
    StartsAlone p l := by
  cases l with
  | run i refused =>
      intro u hu hmiss v hv
      have hsame : ∀ x ∈ p.procs, x = w := by
        intro x hx
        rw [hprocs] at hx
        exact List.mem_singleton.mp hx
      rw [hsame v hv, ← hsame u (List.mem_of_getElem? hu)]
      simp only [WorkerZero.missesLock] at hmiss
      simp only [WorkerZero.inSection]
      cases hbody : u.body with
      | ret _ | stop _ => rfl
      | call o k =>
          rw [hbody] at hmiss
          cases o with
          | addLock | timerAt | tick => rfl
          | attributes | readFile | get _ | set _ _ | deleteLock => cases hmiss
  | outside x =>
      cases x with
      | edit file => trivial
      | lockExpires | initPhase _ _ _ _ => exact hl.elim

theorem LoadProgress.call {o : ConfOp} {k : o.Answer → Conf Unit} {w' : WorkerZero}
    (h : LoadProgress p w) (hbody : w.body = .call o k) (htick : o ≠ .tick)
    (hbody' : w'.body = k (p.store.exec refused o).1) :
    LoadProgress (p.called 0 refused o w') w' := by
  cases h with
  | before hnone hunloaded =>
      rw [hbody] at hunloaded
      cases hread : o.isRead with
      | false =>
          refine .before ((currentRead_append (ownRead_call hread htick _)).trans hnone) ?_
          rw [hbody']
          exact hunloaded.2 hread _
      | true =>
          cases o with
          | readFile =>
              obtain ⟨hunread, hloads⟩ := hunloaded.1 (p.store.exec refused .readFile).1
              refine .after _ (currentRead_own rfl) ?_ (fun v hv hnil => ⟨p.store.dict, ?_⟩)
              · rw [hbody']
                exact hunread
              · rw [hbody']
                exact hloads v _ hv hnil
          | _ => cases hread
  | after text hcurrent hunread hloads =>
      rw [hbody] at hunread
      refine .after text ((currentRead_append (ownRead_call hunread.1 htick _)).trans hcurrent) ?_
        (fun v hv hnil => ?_)
      · rw [hbody']
        exact hunread.2 _
      · obtain ⟨dict, hensures⟩ := hloads v hv hnil
        rw [hbody] at hensures
        refine ⟨dict, ?_⟩
        rw [hbody']
        exact hensures (refused, p.store.file)

theorem written_called (o : ConfOp) (w' : WorkerZero) :
    (p.called 0 refused o w').written = p.written ++ (setKey o).toList := by
  simp only [Reload.written]
  rw [List.filterMap_append]
  cases hkey : setKey o with
  | none => simp [hkey]
  | some k => simp [hkey]

theorem noteLock_held {o : ConfOp} {k : o.Answer → Conf Unit} (h : Tracked p w)
    (hbody : w.body = .call o k)
    (hheld : (p.store.exec refused o).2.dict confKey ≠ none) :
    WorkerZero.noteLock w.keyId o (p.store.exec refused o).1 = true := by
  cases o with
  | attributes | readFile | get _ | timerAt | tick => exact h.lock hheld
  | deleteLock => simp [ConfStore.exec] at hheld
  | addLock =>
      cases hlock : p.store.dict confKey with
      | none => simp [ConfStore.exec, hlock, WorkerZero.noteLock]
      | some lock =>
          have hkeyId : w.keyId = true := h.lock (by simp [hlock])
          simp [WorkerZero.noteLock, hkeyId]
  | set key v =>
      have hw : p.procs[0]? = some w := by
        rw [h.procs]
        rfl
      have hin : w.inSection = true := WorkerZero.inSection_call hbody
      exact h.lock (h.sectioned.present 0 w hw (.inl hin))

theorem quiet_handler (luaconf : String) (keyId : Bool) :
    Unloaded (handler luaconf keyId) ∧ (handler luaconf keyId).Uses Stores :=
  ⟨unloaded_readConfFile luaconf keyId quiet_timerAt,
    Prog.uses_bind (stores_readConfFile luaconf keyId) (fun _ => quiet_timerAt.stores)⟩

theorem Tracked.called {o : ConfOp} {w' : WorkerZero} (h : Tracked p w) (refused : Bool)
    (ho : Stores o)
    (hsectioned : Sectioned (p.called 0 refused o w'))
    (hlock : (p.store.exec refused o).2.dict confKey ≠ none → w'.keyId = true)
    (hstores : w'.body.Uses Stores) (hprogress : LoadProgress (p.called 0 refused o w') w') :
    Tracked (p.called 0 refused o w') w' := by
  refine ⟨?_, hsectioned, hlock, ?_, hstores, hprogress⟩
  · show p.procs.set 0 w' = [w']
    rw [h.procs]
    rfl
  · rw [written_called]
    exact h.kept.exec refused ho

theorem tracked_step {p q : Reload} {l : ReloadLabel} (h : Tracked p w) (hl : RunsAndEdits p l)
    (hstep : (reload luaconf).step p l = some q) : ∃ w', Tracked q w' := by
  have hsectioned := sectioned_step h.sectioned (startsAlone_single h.procs hl) hstep
  rcases Machine.step_cases _ hstep with ⟨i, refused, u, o, k, rfl, hu, hnext, rfl⟩ | ⟨x, rfl, rfl⟩
  · have hsame : i = 0 ∧ u = w := by
      rw [h.procs] at hu
      cases i with
      | zero => exact ⟨rfl, (Option.some.inj hu).symm⟩
      | succ i => cases hu
    obtain ⟨rfl, rfl⟩ := hsame
    rcases WorkerZero.next_cases hnext with ⟨k', hbody, hk⟩ | ⟨rfl, -, -, hk⟩
    · have hstores := h.stores
      rw [hbody] at hstores
      have htick : o ≠ .tick := by
        rintro rfl
        have hguarded := h.sectioned.guarded 0 u hu
        rw [hbody] at hguarded
        exact hguarded.1
      have hbody' : ∀ a, (k a).body = k' a := fun a => congrArg WorkerZero.body (hk a)
      refine ⟨_, h.called refused hstores.1 hsectioned (fun hheld => ?_) ?_
        (h.progress.call hbody htick (hbody' _))⟩
      · rw [hk]
        exact noteLock_held h hbody hheld
      · rw [hbody']
        exact hstores.2 _
    · obtain ⟨hunloaded, hstores⟩ := quiet_handler luaconf u.keyId
      have hbody' : ∀ a, (k a).body = handler luaconf u.keyId :=
        fun a => congrArg WorkerZero.body (hk a)
      refine ⟨_, h.called refused trivial hsectioned (fun hheld => ?_) ?_ (.before ?_ ?_)⟩
      · rw [hk]
        exact h.lock hheld
      · rw [hbody']
        exact hstores
      · exact currentRead_own rfl
      · rw [hbody']
        exact hunloaded
  · cases x with
    | edit file =>
        refine ⟨w, h.procs, hsectioned, h.lock, h.kept, h.stores, ?_⟩
        cases h.progress with
        | before hnone hunloaded => exact .before hnone hunloaded
        | after text hcurrent hunread hloads => exact .after text hcurrent hunread hloads
    | lockExpires | initPhase _ _ _ _ => exact hl.elim

theorem kept_initPhase (ruleConfPath mmdb redis : Val) (healthchecktable : List Val) :
    Kept (InitConf.initPhase (fun _ => none) ruleConfPath mmdb redis healthchecktable)
      ["default", "healthcheck"] := by
  refine ⟨fun k v hv => ?_, fun k hk _ => ?_⟩
  · simp only [InitConf.initPhase] at hv
    by_cases hhealth : k = "healthcheck"
    · subst hhealth
      rw [Function.update_self] at hv
      cases hv
      refine ⟨?_, .inr ⟨by decide, by simp⟩⟩
      simp only [InitConf.healthcheckstr]
      split <;> simp
    · rw [Function.update_of_ne hhealth] at hv
      by_cases hdefault : k = "default"
      · subst hdefault
        rw [Function.update_self] at hv
        cases hv
        exact ⟨by simp [InitConf.defaultConf], .inr ⟨by decide, by simp⟩⟩
      · rw [Function.update_of_ne hdefault] at hv
        cases hv
  · rcases List.mem_pair.mp hk with rfl | rfl
    · simp [InitConf.initPhase]
    · simp [InitConf.initPhase]

theorem tracked_start (luaconf : String) (ruleConfPath mmdb redis : Val)
    (healthchecktable : List Val) (file : Option RuleFile) :
    Tracked (Reload.start luaconf 1 ruleConfPath mmdb redis healthchecktable file)
      (WorkerZero.start luaconf) := by
  have hunloaded : Unloaded (readConfFile luaconf false) := by
    rw [← Prog.bind_ret (readConfFile luaconf false)]
    exact unloaded_readConfFile luaconf false quiet_ret
  refine ⟨rfl, sectioned_start luaconf 1 ruleConfPath mmdb redis healthchecktable file,
    fun hheld => absurd rfl hheld, kept_initPhase ruleConfPath mmdb redis healthchecktable,
    stores_readConfFile luaconf false, .before rfl hunloaded⟩

end Step

/-- The process has read `v` and come to the end of its run without an error. -/
structure HasLoaded (p : Reload) (w : WorkerZero) (v : Val) : Prop where
  procs : p.procs = [w]
  read : currentRead p.log 0 = some (some (.json v))
  content : v ≠ .nil
  ended : w.body = .ret ()

/-- A host of the file is a key that the dict takes, and under any other host nothing has
ever been stored. Under the lock's key an entry is found if and only if a run that has
raised an error still holds the lock. -/
def Clean (p : Reload) (w : WorkerZero) (v : Val) (host : String) : Prop :=
  if host = confKey then (entryFor v host ≠ none ↔ w.keyId = true)
  else if entryFor v host ≠ none then dictKey (.str host) ≠ none
  else host ∉ p.written

section Lookup
variable {p : Reload} {w : WorkerZero} {v : Val} {host : String}

theorem getDomainconf_nil_iff (h : Kept p.store.dict p.written) :
    GetConf.getDomainconf p.store.dict host = .ok .nil ↔ p.store.dict host = none := by
  simp only [GetConf.getDomainconf]
  cases hstored : p.store.dict host with
  | none => exact ⟨fun _ => rfl, fun _ => rfl⟩
  | some x =>
      refine ⟨fun hnil => ?_, fun hnone => by cases hnone⟩
      cases x with
      | bool b => cases hnil
      | json y =>
          cases hnil
          exact absurd rfl (h.held host _ hstored).1

theorem entryFor_ne_nil {e : Val} (h : entryFor v host = some e) : e ≠ .nil := by
  rintro rfl
  simp only [entryFor] at h
  cases hpairs : v.pairs with
  | error err =>
      rw [hpairs] at h
      cases h
  | ok entries =>
      rw [hpairs] at h
      have hnames := (List.mem_filter.mp (List.mem_of_getLast? h)).2
      cases hnames

/-- What the dict has for a host after a load. -/
theorem Tracked.lookup (h : Tracked p w) (hv : HasLoaded p w v) (host : String) :
    ∃ dict : Dict, (host ≠ confKey ∨ p.store.dict confKey ≠ none) →
      dictKey (.str host) = some host →
      p.store.dict host = ((entryFor v host).map DictVal.json).or (dict host) := by
  cases h.progress with
  | before hnone _ => cases hnone.symm.trans hv.read
  | after text hcurrent _ hloads =>
      obtain ⟨dict, hensures⟩ := hloads v (Option.some.inj (hcurrent.symm.trans hv.read)) hv.content
      rw [hv.ended] at hensures
      obtain ⟨entries, elapsed, hpairs, hload, hdict⟩ := hensures
      refine ⟨dict, fun hhost husable => ?_⟩
      have hentry : entryFor v host = (entries.filter (names host)).getLast? := by
        simp only [entryFor, hpairs]
      rw [hentry, ← loads_lookup hload husable, hdict]
      cases elapsed with
      | false => rfl
      | true =>
          -- freelock has deleted the lock's record, and no other
          rcases hhost with hne | hheld
          · exact Function.update_of_ne hne _ _
          · rw [hdict] at hheld
            simp at hheld

theorem Tracked.free_iff (h : Tracked p w) :
    p.store.dict confKey = none ↔ w.keyId = false := by
  have hw : p.procs[0]? = some w := by
    rw [h.procs]
    rfl
  constructor
  · intro hnone
    by_contra hkeyId
    exact h.sectioned.present 0 w hw (.inr (by simpa using hkeyId)) hnone
  · intro hkeyId
    by_contra hheld
    cases hkeyId.symm.trans (h.lock hheld)

theorem Kept.absent_iff {dict : Dict} {written : List String} (h : Kept dict written)
    (hhost : host ≠ confKey) : dict host = none ↔ host ∉ written := by
  constructor
  · intro hnone hmem
    exact h.stays host hmem hhost hnone
  · intro hmem
    by_contra hsome
    obtain ⟨x, hx⟩ := Option.ne_none_iff_exists'.mp hsome
    rcases (h.held host x hx).2 with hkey | ⟨-, hwritten⟩
    · exact hhost hkey
    · exact hmem hwritten

theorem Kept.usable {dict : Dict} {written : List String} (h : Kept dict written)
    (hsome : dict host ≠ none) : dictKey (.str host) = some host := by
  obtain ⟨x, hx⟩ := Option.ne_none_iff_exists'.mp hsome
  rcases (h.held host x hx).2 with rfl | ⟨husable, -⟩
  · decide
  · exact husable

/-- The entry of a host of the file is found if anything is. -/
theorem Tracked.exact_named {e : Val} (h : Tracked p w) (hv : HasLoaded p w v)
    (hentry : entryFor v host = some e) : Exact v p.store.dict host ↔ p.store.dict host ≠ none := by
  have hexact : Exact v p.store.dict host ↔
      GetConf.getDomainconf p.store.dict host = .ok e := by
    simp only [Exact]
    rw [hentry]
    rfl
  rw [hexact]
  constructor
  · intro hfound hnone
    have hnil : e = .nil :=
      Except.ok.inj (hfound.symm.trans ((getDomainconf_nil_iff h.kept).mpr hnone))
    exact entryFor_ne_nil hentry hnil
  · intro hsome
    obtain ⟨dict, hlookup⟩ := h.lookup hv host
    have hhost : host ≠ confKey ∨ p.store.dict confKey ≠ none := by
      by_cases hkey : host = confKey
      · exact .inr (hkey ▸ hsome)
      · exact .inl hkey
    have hstored := hlookup hhost (h.kept.usable hsome)
    rw [hentry] at hstored
    simp only [GetConf.getDomainconf]
    rw [hstored]
    rfl

theorem Tracked.exact_iff (h : Tracked p w) (hv : HasLoaded p w v) :
    Exact v p.store.dict host ↔ Clean p w v host := by
  simp only [Clean]
  cases hentry : entryFor v host with
  | none =>
      have hexact : Exact v p.store.dict host ↔ p.store.dict host = none := by
        simp only [Exact]
        rw [hentry]
        exact getDomainconf_nil_iff h.kept
      rw [hexact]
      by_cases hhost : host = confKey
      · subst hhost
        rw [if_pos rfl, h.free_iff]
        simp
      · rw [if_neg hhost, if_neg (by simp), h.kept.absent_iff hhost]
  | some e =>
      rw [h.exact_named hv hentry]
      by_cases hhost : host = confKey
      · subst hhost
        rw [if_pos rfl, ne_eq, h.free_iff]
        simp
      · rw [if_neg hhost, if_pos (by simp)]
        constructor
        · intro hsome
          rw [h.kept.usable hsome]
          simp
        · intro husable
          obtain ⟨k, hk⟩ := Option.ne_none_iff_exists'.mp husable
          cases dictKey_str_eq hk
          obtain ⟨dict, hlookup⟩ := h.lookup hv host
          rw [hlookup (.inl hhost) hk, hentry]
          simp

end Lookup

def bExample : Val := .arr [.obj [("domain", .str "b.example")]]

/-- The first load ends well, then the domain is renamed, and the next run loads the file. -/
def renameRun : List ReloadLabel :=
  List.replicate 8 (.run 0 false) ++
    .outside (.edit (some ⟨1700000060, some (.json bExample)⟩)) ::
    List.replicate 10 (.run 0 false)

def returned : Conf Unit → Bool
  | .ret _ => true
  | .stop _ | .call _ _ => false

theorem exists_renamed : ∃ (p : Reload) (w : WorkerZero),
    (reload "/etc/lua.conf").Reaches RunsAndEdits
      (Reload.start "/etc/lua.conf" 1 (.str "/etc/lua.conf") .null .null [] oneDomain) p ∧
    HasLoaded p w bExample ∧
    p.store.dict "a.example" = some (.json (.obj [("domain", .str "a.example")])) := by
  obtain ⟨p, hp, hend⟩ := Machine.exists_reaches_if (reload "/etc/lua.conf") (C := RunsAndEdits)
    (fun p => (p.procs.map (fun w => returned w.body),
      decide (currentRead p.log 0 = some (some (.json bExample))),
      decide (p.store.dict "a.example" = some (.json (.obj [("domain", .str "a.example")])))))
    (p := Reload.start "/etc/lua.conf" 1 (.str "/etc/lua.conf") .null .null [] oneDomain)
    renameRun (b := ([true], true, true)) (by decide +kernel)
  obtain ⟨hdone, hend⟩ := Prod.mk.inj hend
  obtain ⟨hread, hold⟩ := Prod.mk.inj hend
  obtain ⟨w, hprocs, hbody⟩ := List.map_eq_singleton_iff.mp hdone
  refine ⟨p, w, hp, ⟨hprocs, of_decide_eq_true hread, by simp [bExample], ?_⟩,
    of_decide_eq_true hold⟩
  cases hw : w.body with
  | ret u => rfl
  | stop _ | call _ _ =>
      rw [hw] at hbody
      cases hbody

end OpenrestyGateway
