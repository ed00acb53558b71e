import OpenrestyGateway.AccessMain
import OpenrestyGateway.ConfReload

/-!
Domain configurations and internal records share the keys of the dict conf. As long
as no rule file names an internal key, no load touches the internal records, and
every other key is free exactly if no load has stored a configuration under it.
The readers, access_main.lua and content/domain_conf.lua, do not tell the two
kinds of record apart.
-/
namespace OpenrestyGateway
open Interleaving

namespace DomainConf

/-- `string.match(uri, "/([^/]+)$")` -/
def domain (uri : String) : Option String :=
  let segment := (uri.toList.reverse.takeWhile (fun c => c != '/')).reverse
  if segment.isEmpty || !uri.toList.contains '/' then none
  else some (String.ofList segment)

def domainConf (conf : Dict) (uri : String) : Option DictVal := (domain uri).bind conf

end DomainConf

/-- What a reader is to do with a name that has no configuration. -/
structure NothingFound (conf : Dict) (d : String) : Prop where
  lookup : GetConf.getDomainconf conf d = .ok .nil
  skipped : ∀ rq : RequestVars, rq.host = d → AccessMain.main conf rq = .ret ()
  unprinted : ∀ uri, DomainConf.domain uri = some d → DomainConf.domainConf conf uri = none

theorem nothingFound_iff {conf : Dict} {d : String} (h : conf d ≠ some (.json .nil)) :
    NothingFound conf d ↔ conf d = none := by
  constructor
  · intro hd
    have hlookup := hd.lookup
    simp only [GetConf.getDomainconf] at hlookup
    cases hconf : conf d with
    | none => rfl
    | some v =>
        rw [hconf] at hlookup
        cases v with
        | bool b => cases hlookup
        | json v =>
            have hnil : v = .nil := Except.ok.inj hlookup
            exact absurd (hconf.trans (by rw [hnil])) h
  · intro hd
    refine ⟨by simp [GetConf.getDomainconf, hd], ?_, ?_⟩
    · rintro rq rfl
      have hlookup : GetConf.getDomainconf conf rq.host = .ok .nil := by
        simp [GetConf.getDomainconf, hd]
      simp only [AccessMain.main, hlookup, Lua.lift_ok, Prog.ret_bind]
      rfl
    · intro uri huri
      simp [DomainConf.domainConf, huri, hd]

namespace InitWorker

/-- The keys of the records that are no domain configurations. -/
def InternalKey (luaconf k : String) : Prop :=
  k = "default" ∨ k = "healthcheck" ∨ k = confKey ∨ k = lastmod ++ luaconf

def entryKey (v : Val) : Option String :=
  match v.index "domain" with
  | .ok domain => dictKey domain
  | .error _ => none

/-- Every key an entry of the text is stored under is in `Named`. -/
def TextNames (Named : String → Prop) (text : Option FileText) : Prop :=
  ∀ v entries, text = some (.json v) → v.pairs = .ok entries →
    ∀ entry ∈ entries, ∀ k, entryKey entry = some k → Named k

def FileNames (Named : String → Prop) (file : Option RuleFile) : Prop :=
  TextNames Named (file.bind RuleFile.content)

def Rely (Named : String → Prop) (o : ConfOp) : o.Answer → Prop :=
  match o with
  | .readFile => fun text => TextNames Named text
  | _ => fun _ => True

/-- What a load stores: a modification time under its own key, and configurations
under keys in `Named`. -/
def Grant (luaconf : String) (Named : String → Prop) : ConfOp → Prop
  | .set k v =>
      (k = lastmod ++ luaconf ∧ ∃ m : Nat, v = .json (.num m)) ∨
        (Named k ∧ ∃ fs, v = .json (.obj fs))
  | _ => True

section Loads
variable {luaconf : String} {Named : String → Prop}

theorem dictKey_str_eq {s k : String} (h : dictKey (.str s) = some k) : k = s := by
  unfold dictKey at h
  have hs : some s = some k := (Option.filter_eq_some_iff.mp h).1
  exact (Option.some.inj hs).symm

theorem entryKey_obj {v : Val} {k : String} (h : entryKey v = some k) :
    ∃ fs, v = .obj fs := by
  cases v with
  | obj fs => exact ⟨fs, rfl⟩
  | _ => cases h

theorem lift_obeys {α : Type} {rely : (o : ConfOp) → o.Answer → Prop} {grant : ConfOp → Prop}
    (x : Except LuaError α) : (lift x).Obeys rely grant := by
  cases x <;> trivial

theorem get_obeys (key : Val) : (get key).Obeys (Rely Named) (Grant luaconf Named) := by
  simp only [get]
  split
  · exact ⟨trivial, fun _ _ => trivial⟩
  · trivial

theorem set_obeys {key : Val} {v : DictVal}
    (h : ∀ k, dictKey key = some k → Grant luaconf Named (.set k v)) :
    (set key v).Obeys (Rely Named) (Grant luaconf Named) := by
  simp only [set]
  split
  · rename_i k hk
    exact ⟨h k hk, fun _ _ => trivial⟩
  · trivial

theorem freelock_obeys (elapsed : Bool) :
    (freelock elapsed).Obeys (Rely Named) (Grant luaconf Named) := by
  simp only [freelock]
  split
  · exact ⟨trivial, fun _ _ => trivial⟩
  · trivial

theorem isconfread_obeys :
    (isconfread luaconf).Obeys (Rely Named) (Grant luaconf Named) := by
  have hset : ∀ m : Nat, (set (.str (lastmod ++ luaconf)) (.json (.num m))).Obeys
      (Rely Named) (Grant luaconf Named) :=
    fun m => set_obeys (fun k hk => Or.inl ⟨dictKey_str_eq hk, m, rfl⟩)
  refine ⟨trivial, fun modification _ => ?_⟩
  cases modification with
  | none => trivial
  | some m =>
      show (get (.str (lastmod ++ luaconf)) >>= _ : Conf Bool).Obeys _ _
      refine Prog.obeys_bind (get_obeys _) (fun cacheTime => ?_)
      cases cacheTime with
      | none => exact Prog.obeys_bind (hset m) (fun _ => trivial)
      | some c =>
          show (if c = .json (.num m) then _ else _ : Conf Bool).Obeys _ _
          split
          · trivial
          · exact Prog.obeys_bind (hset m) (fun _ => trivial)

theorem loadEntry_obeys {v : Val} (h : ∀ k, entryKey v = some k → Named k) :
    (loadEntry v).Obeys (Rely Named) (Grant luaconf Named) := by
  simp only [loadEntry]
  cases hdomain : v.index "domain" with
  | error e => trivial
  | ok domain =>
      show (get domain >>= _ : Conf Unit).Obeys _ _
      refine Prog.obeys_bind (get_obeys domain) (fun stored => ?_)
      split
      · trivial
      · refine Prog.obeys_bind (set_obeys (fun k hk => ?_))
          (fun _ => Prog.obeys_bind (lift_obeys _) (fun _ => trivial))
        have hkey : entryKey v = some k := by simp only [entryKey, hdomain, hk]
        obtain ⟨fs, rfl⟩ := entryKey_obj hkey
        exact Or.inr ⟨h k hkey, fs, rfl⟩

theorem loadEntries_obeys {vs : List Val} (h : ∀ v ∈ vs, ∀ k, entryKey v = some k → Named k) :
    (loadEntries vs).Obeys (Rely Named) (Grant luaconf Named) := by
  induction vs with
  | nil => trivial
  | cons v vs ih =>
      exact Prog.obeys_bind (loadEntry_obeys (h v (.head vs)))
        (fun _ => ih (fun v' hv' => h v' (.tail v hv')))

theorem readConfFile_obeys (keyId : Bool) :
    (readConfFile luaconf keyId).Obeys (Rely Named) (Grant luaconf Named) := by
  have hlock : (lock keyId).Obeys (Rely Named) (Grant luaconf Named) := by
    simp only [lock]
    split
    · trivial
    · exact ⟨trivial, fun _ _ => trivial⟩
  refine Prog.obeys_bind hlock (fun elapsed => Prog.obeys_bind isconfread_obeys (fun lcf => ?_))
  cases lcf with
  | false => exact freelock_obeys elapsed
  | true =>
      refine ⟨trivial, fun text htext => ?_⟩
      have hload : ∀ v, text = some (.json v) → (do
          let entries ← lift v.pairs
          loadEntries entries
          freelock elapsed : Conf Unit).Obeys (Rely Named) (Grant luaconf Named) := by
        intro v hv
        cases hpairs : v.pairs with
        | error e => trivial
        | ok entries =>
            show (loadEntries entries >>= _ : Conf Unit).Obeys _ _
            exact Prog.obeys_bind (loadEntries_obeys (htext v entries hv hpairs))
              (fun _ => freelock_obeys elapsed)
      match text with
      | none => exact freelock_obeys elapsed
      | some .malformed => trivial
      | some (.json v) =>
          cases v with
          | nil => exact freelock_obeys elapsed
          | _ => exact hload _ rfl

theorem handler_obeys (keyId : Bool) :
    (handler luaconf keyId).Obeys (Rely Named) (Grant luaconf Named) :=
  Prog.obeys_bind (readConfFile_obeys keyId) (fun _ => ⟨trivial, fun _ _ => trivial⟩)

end Loads

/-! What a load stores: every entry under its domain, the last of equal ones in the
end, whatever was there before. -/

def WellNamed (v : Val) : Prop := ∃ d, v.index "domain" = .ok (.str d) ∧ dictKey (.str d) = some d

def storeEntry (dict : Dict) (v : Val) : Dict :=
  match entryKey v with
  | some k => Function.update dict k (some (.json v))
  | none => dict

theorem run_loadEntry (s : ConfStore) {v : Val} (h : WellNamed v) :
    Prog.run (fun s o => s.exec false o) s (loadEntry v) =
      (.ok (), { s with dict := storeEntry s.dict v }) := by
  obtain ⟨d, hdomain, hkey⟩ := h
  have hentry : entryKey v = some d := by simp only [entryKey, hdomain, hkey]
  simp only [loadEntry, hdomain, lift, get, hkey, Prog.ret_bind, Prog.call_bind, Prog.run_call,
    ConfStore.exec, storeEntry, hentry]
  split
  · rename_i hstored
    simp [← hstored, Function.update_eq_self]
  · simp only [set, hkey, Prog.call_bind, Prog.run_call, Val.concat, Val.text_str]
    rfl

theorem run_loadEntries (s : ConfStore) {vs : List Val} (h : ∀ v ∈ vs, WellNamed v) :
    Prog.run (fun s o => s.exec false o) s (loadEntries vs) =
      (.ok (), { s with dict := vs.foldl storeEntry s.dict }) := by
  induction vs generalizing s with
  | nil => rfl
  | cons v vs ih =>
      rw [loadEntries, Prog.run_bind, run_loadEntry s (h v (.head vs))]
      exact ih _ (fun v' hv' => h v' (.tail v hv'))

theorem storeEntry_other {dict : Dict} {v : Val} {k : String} (h : entryKey v ≠ some k) :
    storeEntry dict v k = dict k := by
  simp only [storeEntry]
  cases hkey : entryKey v with
  | none => rfl
  | some key => exact Function.update_of_ne (fun heq => h (hkey.trans (congrArg some heq.symm))) _ _

theorem foldl_storeEntry_named {dict : Dict} {vs : List Val} {k : String}
    (h : (∃ v ∈ vs, entryKey v = some k) ∨ ∃ v, dict k = some (.json v) ∧ entryKey v = some k) :
    ∃ v, vs.foldl storeEntry dict k = some (.json v) ∧ entryKey v = some k := by
  induction vs generalizing dict with
  | nil =>
      rcases h with ⟨v, hv, -⟩ | hdict
      · cases hv
      · exact hdict
  | cons v vs ih =>
      refine ih ?_
      by_cases hkey : entryKey v = some k
      · exact Or.inr ⟨v, by simp [storeEntry, hkey], hkey⟩
      · rcases h with ⟨w, hw, hwk⟩ | ⟨w, hdict, hwk⟩
        · rcases List.mem_cons.mp hw with rfl | hw
          · exact absurd hwk hkey
          · exact Or.inl ⟨w, hw, hwk⟩
        · exact Or.inr ⟨w, by rw [storeEntry_other hkey]; exact hdict, hwk⟩

/-- An entry whose domain is an internal key replaces the internal record. -/
theorem loadEntries_replaces (s : ConfStore) {vs : List Val} (h : ∀ v ∈ vs, WellNamed v)
    {v : Val} {k : String} (hv : v ∈ vs) (hk : entryKey v = some k) :
    ∃ w, (Prog.run (fun s o => s.exec false o) s (loadEntries vs)).2.dict k = some (.json w) ∧
      entryKey w = some k := by
  rw [run_loadEntries s h]
  exact foldl_storeEntry_named (Or.inl ⟨v, hv, hk⟩)

def storedKey : ConfOp → Option String
  | .set k (.json (.obj _)) => some k
  | _ => none

end InitWorker

open InitWorker

def Reload.loaded (p : Reload) : List String := p.log.filterMap (fun e => storedKey e.op)

section Records
variable {luaconf : String} {Named : String → Prop}

/-- What the others do to a record: nothing, unless it is an internal one. -/
def Spared (luaconf k : String) (old new : Option DictVal) : Prop :=
  new = old ∨ InternalKey luaconf k ∧ new ≠ some (.json .nil)

theorem spared_update {dict : Dict} {key : String} {v : Option DictVal}
    (hkey : InternalKey luaconf key) (hv : v ≠ some (.json .nil)) (k : String) :
    Spared luaconf k (dict k) (Function.update dict key v k) := by
  by_cases hk : k = key
  · subst hk
    exact Or.inr ⟨hkey, by rwa [Function.update_self]⟩
  · exact Or.inl (Function.update_of_ne hk v dict)

theorem Spared.trans {k : String} {a b c : Option DictVal} (hab : Spared luaconf k a b)
    (hbc : Spared luaconf k b c) : Spared luaconf k a c := by
  rcases hbc with rfl | hinternal
  · exact hab
  · exact Or.inr hinternal

theorem change_spares (s : ConfStore) (x : ConfChange) (k : String) :
    Spared luaconf k (s.dict k) ((s.change x).dict k) := by
  cases x with
  | edit file => exact Or.inl rfl
  | lockExpires =>
      simp only [ConfStore.change]
      split
      · exact spared_update (Or.inr (Or.inr (Or.inl rfl))) (by simp) k
      · exact Or.inl rfl
  | initPhase ruleConfPath mmdb redis healthchecktable =>
      refine (spared_update (Or.inl rfl) (by simp [InitConf.defaultConf]) k).trans
        (spared_update (Or.inr (Or.inl rfl)) ?_ k)
      simp only [InitConf.healthcheckstr]
      split <;> simp

/-- A call of a load stores a configuration, or spares every record. -/
theorem exec_spares (s : ConfStore) (refused : Bool) {o : ConfOp}
    (h : Grant luaconf Named o) :
    (∃ key fs, storedKey o = some key ∧ Named key ∧
      (s.exec refused o).2.dict = Function.update s.dict key (some (.json (.obj fs)))) ∨
    (storedKey o = none ∧
      ∀ k, Spared luaconf k (s.dict k) ((s.exec refused o).2.dict k)) := by
  cases o with
  | attributes | readFile | get key | timerAt | tick =>
      exact Or.inr ⟨rfl, fun k => Or.inl rfl⟩
  | addLock =>
      refine Or.inr ⟨rfl, fun k => ?_⟩
      simp only [ConfStore.exec]
      split
      · exact spared_update (Or.inr (Or.inr (Or.inl rfl))) (by simp) k
      · exact Or.inl rfl
  | deleteLock =>
      exact Or.inr ⟨rfl, spared_update (Or.inr (Or.inr (Or.inl rfl))) (by simp)⟩
  | set key v =>
      rcases h with ⟨rfl, m, rfl⟩ | ⟨hkey, fs, rfl⟩
      · exact Or.inr ⟨rfl, spared_update (Or.inr (Or.inr (Or.inr rfl))) (by simp)⟩
      · exact Or.inl ⟨key, fs, rfl, hkey, rfl⟩

/-- Only the lock's record is ever deleted. -/
theorem exec_keeps {s : ConfStore} (refused : Bool) (o : ConfOp) {k : String}
    (hk : k ≠ confKey) (h : s.dict k ≠ none) : (s.exec refused o).2.dict k ≠ none := by
  cases o with
  | attributes | readFile | get key | timerAt | tick => exact h
  | addLock =>
      simp only [ConfStore.exec]
      split
      · simpa [hk] using h
      · exact h
  | deleteLock => simpa [ConfStore.exec, hk] using h
  | set key v =>
      by_cases hkey : k = key
      · simp [ConfStore.exec, hkey]
      · simpa [ConfStore.exec, hkey] using h

theorem change_keeps {s : ConfStore} (x : ConfChange) {k : String} (hk : k ≠ confKey)
    (h : s.dict k ≠ none) : (s.change x).dict k ≠ none := by
  cases x with
  | edit file => exact h
  | lockExpires =>
      simp only [ConfStore.change]
      split
      · simpa [hk] using h
      · exact h
  | initPhase ruleConfPath mmdb redis healthchecktable =>
      by_cases hhealth : k = "healthcheck"
      · simp [ConfStore.change, InitConf.initPhase, hhealth]
      · by_cases hdefault : k = "default"
        · simp [ConfStore.change, InitConf.initPhase, hdefault]
        · simpa [ConfStore.change, InitConf.initPhase, hhealth, hdefault] using h

/-- The invariant: the internal records apart, the dict holds exactly what the loads
have stored. -/
structure Records (luaconf : String) (Named : String → Prop) (p : Reload) : Prop where
  file : FileNames Named p.store.file
  procs : ∀ w ∈ p.procs, w.body.Obeys (Rely Named) (Grant luaconf Named)
  held : ∀ k v, p.store.dict k = some v →
    v ≠ .json .nil ∧ (InternalKey luaconf k ∨ k ∈ p.loaded)
  stored : ∀ k ∈ p.loaded, Named k ∧ p.store.dict k ≠ none
  initial : ∀ k, k = "default" ∨ k = "healthcheck" → p.store.dict k ≠ none

theorem ne_confKey {k : String} (h : k = "default" ∨ k = "healthcheck") : k ≠ confKey := by
  rcases h with rfl | rfl
  · decide
  · decide

theorem Records.spared {p q : Reload} (h : Records luaconf Named p)
    (hnamed : ∀ k, Named k → ¬ InternalKey luaconf k) (hloaded : q.loaded = p.loaded)
    (hspared : ∀ k, Spared luaconf k (p.store.dict k) (q.store.dict k)) :
    (∀ k v, q.store.dict k = some v →
      v ≠ .json .nil ∧ (InternalKey luaconf k ∨ k ∈ q.loaded)) ∧
    ∀ k ∈ q.loaded, Named k ∧ q.store.dict k ≠ none := by
  rw [hloaded]
  constructor
  · intro k v hv
    rcases hspared k with hsame | ⟨hinternal, hnotnil⟩
    · exact h.held k v (hsame ▸ hv)
    · exact ⟨fun hnil => hnotnil (hnil ▸ hv), Or.inl hinternal⟩
  · intro k hk
    obtain ⟨hname, hsome⟩ := h.stored k hk
    rcases hspared k with hsame | ⟨hinternal, -⟩
    · exact ⟨hname, hsame ▸ hsome⟩
    · exact absurd hinternal (hnamed k hname)

theorem Records.store {p q : Reload} (h : Records luaconf Named p) {key : String}
    {fs : List (String × Val)} (hkey : Named key) (hloaded : q.loaded = p.loaded ++ [key])
    (hdict : q.store.dict = Function.update p.store.dict key (some (.json (.obj fs)))) :
    (∀ k v, q.store.dict k = some v →
      v ≠ .json .nil ∧ (InternalKey luaconf k ∨ k ∈ q.loaded)) ∧
    ∀ k ∈ q.loaded, Named k ∧ q.store.dict k ≠ none := by
  rw [hloaded, hdict]
  constructor
  · intro k v hv
    by_cases hk : k = key
    · subst hk
      rw [Function.update_self] at hv
      cases hv
      exact ⟨by simp, Or.inr (by simp)⟩
    · rw [Function.update_of_ne hk] at hv
      obtain ⟨hnotnil, hplace⟩ := h.held k v hv
      exact ⟨hnotnil, hplace.imp_right (fun hold => List.mem_append_left [key] hold)⟩
  · intro k hk
    by_cases heq : k = key
    · subst heq
      exact ⟨hkey, by simp⟩
    · rw [Function.update_of_ne heq]
      rcases List.mem_append.mp hk with hold | hnew
      · exact h.stored k hold
      · exact absurd (List.mem_singleton.mp hnew) heq

/-- The rule file is only edited so that its entries are stored under keys in
`Named`. -/
def EditsName (Named : String → Prop) : ReloadLabel → Prop
  | .outside (.edit file) => FileNames Named file
  | _ => True

theorem body_obeys_next {w w' : WorkerZero} {o : ConfOp} {k : o.Answer → WorkerZero}
    (hw : w.body.Obeys (Rely Named) (Grant luaconf Named))
    (hnext : w.next luaconf = some ⟨o, k⟩) {a : o.Answer} (ha : Rely Named o a)
    (hw' : w' = k a) :
    Grant luaconf Named o ∧ w'.body.Obeys (Rely Named) (Grant luaconf Named) := by
  subst hw'
  rcases WorkerZero.next_cases hnext with ⟨k', hbody, hk⟩ | ⟨rfl, -, -, hk⟩
  · rw [hbody] at hw
    rw [hk]
    exact ⟨hw.1, hw.2 a ha⟩
  · rw [hk]
    exact ⟨trivial, handler_obeys w.keyId⟩

theorem exec_rely {s : ConfStore} (refused : Bool) (o : ConfOp)
    (h : FileNames Named s.file) : Rely Named o (s.exec refused o).1 := by
  cases o with
  | readFile => exact h
  | _ => trivial

theorem exec_file (s : ConfStore) (refused : Bool) (o : ConfOp) :
    (s.exec refused o).2.file = s.file := by
  cases o with
  | addLock =>
      simp only [ConfStore.exec]
      split <;> rfl
  | _ => rfl

theorem change_file {s : ConfStore} {x : ConfChange} (h : FileNames Named s.file)
    (hx : EditsName Named (.outside x : ReloadLabel)) :
    FileNames Named (s.change x).file := by
  cases x with
  | edit file => exact hx
  | lockExpires =>
      simp only [ConfStore.change]
      split
      · exact h
      · exact h
  | initPhase ruleConfPath mmdb redis healthchecktable => exact h

theorem records_step {p q : Reload} {l : ReloadLabel}
    (hnamed : ∀ k, Named k → ¬ InternalKey luaconf k) (h : Records luaconf Named p)
    (hl : EditsName Named l) (hstep : (reload luaconf).step p l = some q) :
    Records luaconf Named q := by
  rcases Machine.step_cases _ hstep with ⟨i, refused, w, o, k, rfl, hw, hnext, rfl⟩ | ⟨x, rfl, rfl⟩
  · obtain ⟨hgrant, hbody⟩ := body_obeys_next (h.procs w (List.mem_of_getElem? hw)) hnext
      (exec_rely refused o h.file) rfl
    have hfile : FileNames Named (p.store.exec refused o).2.file := by
      rw [exec_file]
      exact h.file
    have hinitial : ∀ k, k = "default" ∨ k = "healthcheck" →
        (p.store.exec refused o).2.dict k ≠ none :=
      fun k hk => exec_keeps refused o (ne_confKey hk) (h.initial k hk)
    rcases exec_spares p.store refused hgrant with ⟨key, fs, hkey, hname, hdict⟩ | ⟨hkey, hspared⟩
    · obtain ⟨hheld, hstored⟩ := h.store
        (q := ⟨p.procs.set i (k (p.store.exec refused o).1), (p.store.exec refused o).2,
          p.log ++ [⟨i, o, (p.store.exec refused o).1⟩]⟩)
        hname (by simp [Reload.loaded, hkey]) hdict
      exact ⟨hfile, forall_mem_set h.procs hbody, hheld, hstored, hinitial⟩
    · obtain ⟨hheld, hstored⟩ := h.spared
        (q := ⟨p.procs.set i (k (p.store.exec refused o).1), (p.store.exec refused o).2,
          p.log ++ [⟨i, o, (p.store.exec refused o).1⟩]⟩)
        hnamed (by simp [Reload.loaded, hkey]) hspared
      exact ⟨hfile, forall_mem_set h.procs hbody, hheld, hstored, hinitial⟩
  · obtain ⟨hheld, hstored⟩ := h.spared (q := { p with store := p.store.change x }) hnamed rfl
      (fun k => change_spares p.store x k)
    exact ⟨change_file h.file hl, h.procs, hheld, hstored,
      fun k hk => change_keeps x (ne_confKey hk) (h.initial k hk)⟩

theorem records_start (n : Nat) (ruleConfPath mmdb redis : Val) (healthchecktable : List Val)
    {file : Option RuleFile} (h : FileNames Named file) :
    Records luaconf Named
      (Reload.start luaconf n ruleConfPath mmdb redis healthchecktable file) := by
  refine ⟨h, ?_, ?_, ?_, ?_⟩
  · intro w hw
    cases List.eq_of_mem_replicate hw
    exact readConfFile_obeys false
  · intro k v hv
    have hspared : Spared luaconf k none _ := change_spares ⟨fun _ => none, file⟩
      (.initPhase ruleConfPath mmdb redis healthchecktable) k
    have hv' : ((⟨fun _ => none, file⟩ : ConfStore).change
      (.initPhase ruleConfPath mmdb redis healthchecktable)).dict k = some v := hv
    rw [hv'] at hspared
    rcases hspared with hnone | ⟨hinternal, hnotnil⟩
    · cases hnone
    · exact ⟨fun hnil => hnotnil (congrArg some hnil), Or.inl hinternal⟩
  · intro k hk
    cases hk
  · rintro k (rfl | rfl)
    · simp [Reload.start, Pool.start, InitConf.initPhase]
    · simp [Reload.start, Pool.start, InitConf.initPhase]

structure Apart (luaconf : String) (Named : String → Prop) (p : Reload) : Prop where
  intact : ∀ k ∈ p.loaded, Named k ∧ ¬ InternalKey luaconf k
  found : ∀ d, NothingFound p.store.dict d ↔
    d ≠ "default" ∧ d ≠ "healthcheck" ∧
      (d = confKey ∨ d = lastmod ++ luaconf → p.store.dict d = none) ∧ d ∉ p.loaded

theorem Records.apart {p : Reload} (h : Records luaconf Named p)
    (hnamed : ∀ k, Named k → ¬ InternalKey luaconf k) : Apart luaconf Named p := by
  refine ⟨fun k hk => ⟨(h.stored k hk).1, hnamed k (h.stored k hk).1⟩, fun d => ?_⟩
  rw [nothingFound_iff (fun hnil => (h.held d _ hnil).1 rfl)]
  constructor
  · intro hnone
    exact ⟨fun hd => h.initial d (Or.inl hd) hnone, fun hd => h.initial d (Or.inr hd) hnone,
      fun _ => hnone, fun hd => (h.stored d hd).2 hnone⟩
  · rintro ⟨hdefault, hhealth, hrest, hloaded⟩
    by_contra hsome
    obtain ⟨v, hv⟩ := Option.ne_none_iff_exists'.mp hsome
    rcases (h.held d v hv).2 with hinternal | hmem
    · rcases hinternal with hd | hd | hd | hd
      · exact hdefault hd
      · exact hhealth hd
      · exact hsome (hrest (Or.inl hd))
      · exact hsome (hrest (Or.inr hd))
    · exact hloaded hmem

end Records

/-- In every run whose rule files name no internal key, no load overwrites an internal
record, and a name is found only if it is an internal key with a record or a load
has stored a configuration under it. -/
theorem records_apart (luaconf : String) (Named : String → Prop)
    (hnamed : ∀ k, Named k → ¬ InternalKey luaconf k) (n : Nat)
    (ruleConfPath mmdb redis : Val) (healthchecktable : List Val) (file : Option RuleFile)
    (hfile : FileNames Named file) (p : Reload)
    (h : (reload luaconf).Reaches (fun _ l => EditsName Named l)
      (Reload.start luaconf n ruleConfPath mmdb redis healthchecktable file) p) :
    Apart luaconf Named p := by
  have hrecords : Records luaconf Named p :=
    h.invariant (records_start n ruleConfPath mmdb redis healthchecktable hfile)
      (fun _ _ _ hq hl hstep => records_step hnamed hq hl hstep)
  exact hrecords.apart hnamed

def oneDomain : Option RuleFile :=
  some ⟨1700000000, some (.json (.arr [.obj [("domain", .str "a.example")]]))⟩

theorem oneDomain_names : FileNames (fun k => k = "a.example") oneDomain := by
  intro v entries hv hpairs entry hentry k hk
  cases hv
  cases hpairs
  cases List.mem_singleton.mp hentry
  exact dictKey_str_eq hk

theorem records_apart_oneDomain : ∃ p : Reload, p.loaded = ["a.example"] ∧
    Apart "/etc/lua.conf" (fun k => k = "a.example") p := by
  obtain ⟨p, hp, hloaded⟩ := Machine.exists_reaches (reload "/etc/lua.conf")
    (P := EditsName (fun k => k = "a.example")) Reload.loaded
    (p := Reload.start "/etc/lua.conf" 1 (.str "/etc/lua.conf") .null .null [] oneDomain)
    (List.replicate 8 (.run 0 false))
    (fun l hl => by cases List.eq_of_mem_replicate hl; trivial)
    (b := ["a.example"]) (by decide +kernel)
  refine ⟨p, hloaded, records_apart "/etc/lua.conf" (fun k => k = "a.example") ?_ 1
    (.str "/etc/lua.conf") .null .null [] oneDomain oneDomain_names p hp⟩
  rintro k rfl (hk | hk | hk | hk)
  · exact absurd hk (by decide)
  · exact absurd hk (by decide)
  · exact absurd hk (by decide)
  · exact absurd hk (by decide)

/-- The rule file is an empty array, and a request for the host default fails. -/
theorem default_is_found : ∃ p : Reload,
    (reload "/etc/lua.conf").Reaches (fun _ l => EditsName (fun _ => False) l)
      (Reload.start "/etc/lua.conf" 1 (.str "/etc/lua.conf") .null .null []
        (some ⟨1700000000, some (.json (.arr []))⟩)) p ∧
    p.procs.map (fun w => w.body matches .ret _) = [true] ∧
    ¬ NothingFound p.store.dict "default" := by
  obtain ⟨p, hp, hrun⟩ := Machine.exists_reaches (reload "/etc/lua.conf")
    (P := EditsName (fun _ => False))
    (fun p => (p.procs.map (fun w => w.body matches .ret _),
      AccessMain.main p.store.dict ⟨"default", none, "10.0.0.7", none⟩ matches .stop _))
    (p := Reload.start "/etc/lua.conf" 1 (.str "/etc/lua.conf") .null .null []
      (some ⟨1700000000, some (.json (.arr []))⟩))
    (List.replicate 6 (.run 0 false))
    (fun l hl => by cases List.eq_of_mem_replicate hl; trivial)
    (b := ([true], true)) (by decide +kernel)
  obtain ⟨hfinished, hraised⟩ := Prod.mk.inj hrun
  refine ⟨p, hp, hfinished, fun h => ?_⟩
  rw [h.skipped _ rfl] at hraised
  cases hraised

end OpenrestyGateway
