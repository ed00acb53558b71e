import OpenrestyGateway.ConfKeys

/-!
One run of the timer's callback that nothing comes between: what it does to the dict,
the lock and the timer, for every text of the rule file. A run that raises an error
neither releases the lock nor arms the next timer.
-/
namespace OpenrestyGateway
open Interleaving

/-- A worker 0 and the store it works on. -/
structure Solo where
  store : ConfStore
  keyId : Bool
  armed : Bool

namespace Solo

def exec (refused : Bool) (s : Solo) (o : ConfOp) : o.Answer × Solo :=
  ((s.store.exec refused o).1,
    ⟨(s.store.exec refused o).2, WorkerZero.noteLock s.keyId o (s.store.exec refused o).1,
      WorkerZero.noteTimer s.armed o (s.store.exec refused o).1⟩)

def run (refused : Bool) (s : Solo) (p : Conf Unit) : Except LuaError Unit × Solo :=
  Prog.run (exec refused) s p

def withDict (s : Solo) (dict : Dict) : Solo := { s with store := { s.store with dict := dict } }

/-- Whether `lock:lock` obtains the lock. -/
def obtains (s : Solo) : Bool := !s.keyId && (s.store.dict InitWorker.confKey).isNone

def locked (s : Solo) : Solo :=
  if s.obtains then
    { s.withDict (Function.update s.store.dict InitWorker.confKey (some (.bool true))) with
      keyId := true }
  else s

def freed (s : Solo) (elapsed : Bool) : Solo :=
  if elapsed then
    { s.withDict (Function.update s.store.dict InitWorker.confKey none) with keyId := false }
  else s

end Solo

namespace InitWorker

def ended : Except LuaError Unit → Conf Unit
  | .ok u => .ret u
  | .error e => .stop e

/-- The steps of one process alone are a run of what is left of its code. -/
theorem steps_alone (luaconf : String) (refused : Bool) (i : Nat) (body : Conf Unit) :
    ∀ (s : Solo) (p : Reload), p.store = s.store →
      p.procs[i]? = some ⟨s.keyId, s.armed, body⟩ →
      ∃ n q, (reload luaconf).steps p (List.replicate n (.run i refused)) = some q ∧
        q.store = (s.run refused body).2.store ∧
        q.procs[i]? = some ⟨(s.run refused body).2.keyId, (s.run refused body).2.armed,
          ended (s.run refused body).1⟩ := by
  induction body with
  | ret u => exact fun s p hstore hi => ⟨0, p, rfl, hstore, hi⟩
  | stop e => exact fun s p hstore hi => ⟨0, p, rfl, hstore, hi⟩
  | call o k ih =>
      intro s p hstore hi
      have hlt : i < p.procs.length := (List.getElem?_eq_some_iff.mp hi).1
      let q : Reload :=
        ⟨p.procs.set i ⟨(s.exec refused o).2.keyId, (s.exec refused o).2.armed,
            k (s.exec refused o).1⟩,
          (s.exec refused o).2.store, p.log ++ [⟨i, o, (s.exec refused o).1⟩]⟩
      have hstep : (reload luaconf).step p (.run i refused) = some q := by
        simp only [Machine.step, hi]
        simp only [reload, WorkerZero.next, hstore]
        rfl
      obtain ⟨n, r, hsteps, hrest⟩ := ih (s.exec refused o).1 (s.exec refused o).2 q rfl
        (List.getElem?_set_self hlt)
      refine ⟨n + 1, r, ?_, hrest⟩
      rw [List.replicate_succ, Machine.steps, hstep]
      exact hsteps

/-- Loading the entry raises no error: it has a domain that can be written into the log,
or it is stored already and not written there. -/
def Passes (dict : Dict) (v : Val) : Prop :=
  ∃ domain, v.index "domain" = .ok domain ∧
    ((∃ text, domain.text = .ok text) ∨
      ∃ k, dictKey domain = some k ∧ dict k = some (.json v))

/-- Every entry passes when its turn comes. -/
def Loads (dict : Dict) : List Val → Prop
  | [] => True
  | v :: vs => Passes dict v ∧ Loads (storeEntry dict v) vs

def Loadable (dict : Dict) : Option FileText → Prop
  | none => True
  | some .malformed => False
  | some (.json v) => v = .nil ∨ ∃ entries, v.pairs = .ok entries ∧ Loads dict entries

instance (dict : Dict) (v : Val) : Decidable (Passes dict v) :=
  match h : v.index "domain" with
  | .error e => isFalse (fun ⟨_, hok, _⟩ => by cases h.symm.trans hok)
  | .ok domain =>
      decidable_of_iff ((domain.text matches .ok _) = true ∨
        (dictKey domain).bind dict = some (.json v)) (by
          rw [Option.bind_eq_some_iff]
          constructor
          · rintro (htext | hstored)
            · cases hdomain : domain.text with
              | ok text => exact ⟨domain, h, .inl ⟨text, hdomain⟩⟩
              | error e =>
                  rw [hdomain] at htext
                  cases htext
            · exact ⟨domain, h, .inr hstored⟩
          · rintro ⟨domain', hok, ⟨text, htext⟩ | hstored⟩
            · cases h.symm.trans hok
              exact .inl (by rw [htext])
            · cases h.symm.trans hok
              exact .inr hstored)

instance decidableLoads : ∀ (vs : List Val) (dict : Dict), Decidable (Loads dict vs)
  | [], _ => isTrue trivial
  | v :: vs, dict =>
      have := decidableLoads vs (storeEntry dict v)
      inferInstanceAs (Decidable (Passes dict v ∧ Loads (storeEntry dict v) vs))

instance (dict : Dict) : ∀ text, Decidable (Loadable dict text)
  | none => isTrue trivial
  | some .malformed => isFalse id
  | some (.json v) =>
      match h : v.pairs with
      | .error e => decidable_of_iff (v = .nil) ⟨.inl, fun hor => hor.resolve_right
          (fun ⟨_, hok, _⟩ => by cases h.symm.trans hok)⟩
      | .ok entries => decidable_of_iff (v = .nil ∨ Loads dict entries)
          (or_congr_right ⟨fun hloads => ⟨entries, h, hloads⟩, fun ⟨entries', hok, hloads⟩ => by
            cases h.symm.trans hok
            exact hloads⟩)

/-- The modification time of the last recorded change of the file. -/
def recorded (luaconf : String) (dict : Dict) : Option DictVal :=
  (dictKey (.str (lastmod ++ luaconf))).bind dict

/-- The dict after `conf:set(key, v)`. -/
def put (dict : Dict) (key : Val) (v : DictVal) : Dict :=
  match dictKey key with
  | some k => Function.update dict k (some v)
  | none => dict

/-- The file is missing, not to be read again, or what it has can be loaded. -/
def Digests (luaconf : String) (s : ConfStore) : Prop :=
  ∀ f, s.file = some f → recorded luaconf s.dict ≠ some (.json (.num f.modification)) →
    Loadable s.dict f.content

/-- What read_conf_file does with the text it has read. -/
def loadText (elapsed : Bool) : Option FileText → Conf Unit
  | none => freelock elapsed
  | some .malformed => .stop .json
  | some (.json .nil) => freelock elapsed
  | some (.json domainconfTable) => do
      let entries ← lift domainconfTable.pairs
      loadEntries entries
      freelock elapsed

theorem readConfFile_eq (luaconf : String) (keyId : Bool) :
    readConfFile luaconf keyId = (do
      let elapsed ← lock keyId
      let lcf ← isconfread luaconf
      if !lcf then freelock elapsed else .call .readFile (loadText elapsed)) := rfl

/-! ### The run of each part -/

section Run
variable {refused : Bool} {s : Solo}

theorem run_get (key : Val) (f : Option DictVal → Conf Unit) :
    s.run refused (get key >>= f) = s.run refused (f ((dictKey key).bind s.store.dict)) := by
  simp only [get]
  cases dictKey key <;> rfl

theorem run_set (refused : Bool) (s : Solo) (key : Val) (v : DictVal) (f : Unit → Conf Unit) :
    s.run refused (set key v >>= f) =
      (s.withDict (put s.store.dict key v)).run refused (f ()) := by
  simp only [set, put]
  cases dictKey key <;> rfl

theorem run_bind_ok {s' : Solo} {p : Conf Unit} {f : Unit → Conf Unit}
    (h : s.run refused p = (.ok (), s')) : s.run refused (p >>= f) = s'.run refused (f ()) := by
  simp only [Solo.run] at h ⊢
  rw [Prog.run_bind, h]

theorem run_bind_error {s' : Solo} {p : Conf Unit} {f : Unit → Conf Unit} {e : LuaError}
    (h : s.run refused p = (.error e, s')) : s.run refused (p >>= f) = (.error e, s') := by
  simp only [Solo.run] at h ⊢
  rw [Prog.run_bind, h]

theorem exec_addLock (h : s.keyId = false) :
    s.exec refused .addLock = (s.obtains, s.locked) := by
  obtain ⟨⟨dict, file⟩, keyId, armed⟩ := s
  cases h
  cases hlock : dict confKey with
  | none =>
      simp only [Solo.exec, Solo.obtains, Solo.locked, ConfStore.exec, hlock]
      rfl
  | some v =>
      simp only [Solo.exec, Solo.obtains, Solo.locked, ConfStore.exec, hlock]
      rfl

theorem run_lock (f : Bool → Conf Unit) :
    s.run refused (lock s.keyId >>= f) = s.locked.run refused (f s.obtains) := by
  cases hkeyId : s.keyId with
  | true =>
      simp only [lock, Solo.locked, Solo.obtains, hkeyId]
      rfl
  | false =>
      show Prog.run _ s (.call .addLock f : Conf Unit) = _
      rw [Prog.run_call, exec_addLock hkeyId]
      rfl

theorem run_isconfread (luaconf : String) (f : Bool → Conf Unit) :
    s.run refused (isconfread luaconf >>= f) =
      match s.store.file with
      | none => s.run refused (f false)
      | some file =>
          if recorded luaconf s.store.dict = some (.json (.num file.modification)) then
            s.run refused (f false)
          else
            (s.withDict (put s.store.dict (.str (lastmod ++ luaconf))
              (.json (.num file.modification)))).run refused (f true) := by
  have hattributes : s.exec refused .attributes = (s.store.file.map RuleFile.modification, s) :=
    rfl
  simp only [isconfread]
  rw [Prog.bind_assoc]
  show Prog.run _ s (.call .attributes _ : Conf Unit) = _
  rw [Prog.run_call, hattributes]
  cases s.store.file with
  | none => rfl
  | some file =>
      have hset := run_set refused s (.str (lastmod ++ luaconf))
        (.json (.num file.modification)) (fun _ => f true)
      show s.run refused ((get (.str (lastmod ++ luaconf)) >>= _) >>= f) = _
      rw [Prog.bind_assoc, run_get]
      have hrecorded : (dictKey (.str (lastmod ++ luaconf))).bind s.store.dict =
          recorded luaconf s.store.dict := rfl
      rw [hrecorded]
      dsimp only
      rw [← hset]
      cases recorded luaconf s.store.dict with
      | none =>
          simp only [reduceCtorEq, if_false, Prog.bind_assoc]
          rfl
      | some cacheTime =>
          by_cases hsame : cacheTime = .json (.num file.modification)
          · simp only [hsame, if_true]
            rfl
          · simp only [hsame, if_false, Option.some.injEq, Prog.bind_assoc]
            rfl

theorem run_lift {α : Type} (x : Except LuaError α) (f : α → Conf Unit) :
    s.run refused (lift x >>= f) =
      match x with
      | .ok a => s.run refused (f a)
      | .error e => (.error e, s) := by
  cases x <;> rfl

theorem put_stored {dict : Dict} {domain v : Val}
    (h : (dictKey domain).bind dict = some (.json v)) : put dict domain (.json v) = dict := by
  obtain ⟨k, hk, hstored⟩ := Option.bind_eq_some_iff.mp h
  simp only [put, hk]
  rw [← hstored, Function.update_eq_self]

theorem storeEntry_eq {dict : Dict} {v domain : Val} (h : v.index "domain" = .ok domain) :
    storeEntry dict v = put dict domain (.json v) := by
  simp only [storeEntry, entryKey, h]
  rfl

/-- The line that is logged for an entry needs the domain's text. -/
theorem loadLine_eq (domain : Val) :
    Val.concat [.str "Load: ", domain, .str ":conf : "] =
      domain.text.map (fun text => "Load: " ++ (text ++ (":conf : " ++ ""))) := by
  simp only [Val.concat, Val.text_str]
  cases domain.text <;> rfl

/-- An entry is stored, whether or not it passes. -/
theorem run_loadEntry_any (refused : Bool) (s : Solo) (v : Val) :
    ∃ res, s.run refused (loadEntry v) = (res, s.withDict (storeEntry s.store.dict v)) ∧
      (res = .ok () ↔ Passes s.store.dict v) := by
  simp only [loadEntry]
  rw [run_lift]
  cases hdomain : v.index "domain" with
  | error e =>
      have hsame : storeEntry s.store.dict v = s.store.dict := by
        simp only [storeEntry, entryKey, hdomain]
      rw [hsame]
      refine ⟨.error e, rfl, fun h => (by cases h), ?_⟩
      rintro ⟨domain, hok, -⟩
      cases hdomain.symm.trans hok
  | ok domain =>
      dsimp only
      rw [run_get, storeEntry_eq hdomain]
      split
      · rename_i hstored
        rw [put_stored hstored]
        obtain ⟨k, hk, hv⟩ := Option.bind_eq_some_iff.mp hstored
        exact ⟨.ok (), rfl, fun _ => ⟨domain, hdomain, .inr ⟨k, hk, hv⟩⟩, fun _ => rfl⟩
      · rename_i hnew
        rw [run_set, run_lift, loadLine_eq]
        cases htext : domain.text with
        | ok text =>
            exact ⟨.ok (), rfl, fun _ => ⟨domain, hdomain, .inl ⟨text, htext⟩⟩, fun _ => rfl⟩
        | error e =>
            refine ⟨.error e, rfl, fun h => (by cases h), ?_⟩
            rintro ⟨domain', hok, hpass⟩
            cases hdomain.symm.trans hok
            rcases hpass with ⟨text, hok⟩ | ⟨k, hk, hv⟩
            · cases htext.symm.trans hok
            · exact absurd (Option.bind_eq_some_iff.mpr ⟨k, hk, hv⟩) hnew

theorem run_loadEntries_any (refused : Bool) (vs : List Val) :
    ∀ s : Solo, ∃ res dict, s.run refused (loadEntries vs) = (res, s.withDict dict) ∧
      (res = .ok () ↔ Loads s.store.dict vs) ∧
      (res = .ok () → dict = vs.foldl storeEntry s.store.dict) := by
  induction vs with
  | nil => exact fun s => ⟨.ok (), s.store.dict, rfl, by simp [Loads], fun _ => rfl⟩
  | cons v vs ih =>
      intro s
      obtain ⟨res, hrun, hpass⟩ := run_loadEntry_any refused s v
      cases res with
      | error e =>
          refine ⟨.error e, _, run_bind_error hrun, ⟨fun h => (by cases h), fun h => ?_⟩,
            fun h => (by cases h)⟩
          cases hpass.mpr h.1
      | ok u =>
          obtain ⟨res, dict, hrest, hloads, hdict⟩ := ih (s.withDict (storeEntry s.store.dict v))
          refine ⟨res, dict, (run_bind_ok hrun).trans hrest, hloads.trans ?_, hdict⟩
          exact ⟨fun h => ⟨hpass.mp rfl, h⟩, fun h => h.2⟩

end Run

/-! ### What passes does not depend on the lock and the recorded time -/

section Odd

/-- The names of domains that are no text. -/
def OddKey (k : String) : Prop := k = "true" ∨ k = "false" ∨ k = "userdata: NULL"

def SameOdd (dict dict' : Dict) : Prop := ∀ k, OddKey k → dict k = dict' k

theorem oddKey_of_textless {domain : Val} {k : String} (hk : dictKey domain = some k)
    (h : ∀ text, domain.text ≠ .ok text) : OddKey k := by
  have hname := (Option.filter_eq_some_iff.mp hk).1
  cases domain with
  | nil | arr _ | obj _ => cases hname
  | null => exact .inr (.inr (Option.some.inj hname).symm)
  | bool b =>
      cases b with
      | true => exact .inl (Option.some.inj hname).symm
      | false => exact .inr (.inl (Option.some.inj hname).symm)
  | num q => exact absurd rfl (h (numberText q))
  | str s => exact absurd rfl (h s)

variable {dict dict' : Dict}

theorem Passes.congr (hsame : SameOdd dict dict') {v : Val} (h : Passes dict v) :
    Passes dict' v := by
  obtain ⟨domain, hdomain, hpass⟩ := h
  refine ⟨domain, hdomain, ?_⟩
  by_cases htext : ∃ text, domain.text = .ok text
  · exact .inl htext
  · rcases hpass with htext' | ⟨k, hk, hv⟩
    · exact absurd htext' htext
    · have hodd : OddKey k := oddKey_of_textless hk (fun text hok => htext ⟨text, hok⟩)
      exact .inr ⟨k, hk, (hsame k hodd).symm.trans hv⟩

theorem SameOdd.storeEntry (h : SameOdd dict dict') (v : Val) :
    SameOdd (storeEntry dict v) (storeEntry dict' v) := by
  intro k hk
  simp only [InitWorker.storeEntry]
  cases entryKey v with
  | none => exact h k hk
  | some key =>
      by_cases heq : k = key
      · subst heq
        simp only [Function.update_self]
      · simp only [Function.update_of_ne heq]
        exact h k hk

theorem Loads.congr {vs : List Val} (hsame : SameOdd dict dict') (h : Loads dict vs) :
    Loads dict' vs := by
  induction vs generalizing dict dict' with
  | nil => trivial
  | cons v vs ih => exact ⟨h.1.congr hsame, ih (hsame.storeEntry v) h.2⟩

theorem SameOdd.symm (h : SameOdd dict dict') : SameOdd dict' dict :=
  fun k hk => (h k hk).symm

theorem sameOdd_update {key : String} (hkey : ¬ OddKey key) (v : Option DictVal) :
    SameOdd dict (Function.update dict key v) := by
  intro k hk
  rw [Function.update_of_ne]
  rintro rfl
  exact hkey hk

theorem not_oddKey_confKey : ¬ OddKey confKey := by
  rintro (h | h | h)
  · exact absurd h (by decide)
  · exact absurd h (by decide)
  · exact absurd h (by decide)

theorem not_oddKey_lastmod (luaconf : String) : ¬ OddKey (lastmod ++ luaconf) := by
  have hchars : (lastmod ++ luaconf).toList = "conf:last:modified".toList ++ luaconf.toList :=
    String.toList_append
  rintro (h | h | h)
  · rw [h] at hchars
    cases hchars
  · rw [h] at hchars
    cases hchars
  · rw [h] at hchars
    cases hchars

theorem Loadable.congr (hsame : SameOdd dict dict') {text : Option FileText}
    (h : Loadable dict text) : Loadable dict' text := by
  match text with
  | none => trivial
  | some .malformed => exact h
  | some (.json v) =>
      rcases h with hnil | ⟨entries, hpairs, hloads⟩
      · exact .inl hnil
      · exact .inr ⟨entries, hpairs, hloads.congr hsame⟩

theorem sameOdd_put (luaconf : String) (v : DictVal) :
    SameOdd dict (put dict (.str (lastmod ++ luaconf)) v) := by
  simp only [put]
  split
  · rename_i k hk
    rw [dictKey_str_eq hk]
    exact sameOdd_update (not_oddKey_lastmod luaconf) _
  · exact fun k _ => rfl

end Odd

/-! ### The whole run -/

section Whole
variable {refused : Bool} {s : Solo}

theorem sameOdd_locked : SameOdd s.store.dict s.locked.store.dict := by
  simp only [Solo.locked]
  split
  · exact sameOdd_update not_oddKey_confKey _
  · exact fun k _ => rfl

theorem confKey_ne_lastmod (luaconf : String) : lastmod ++ luaconf ≠ confKey := by
  intro h
  have hchars := congrArg String.toList h
  rw [String.toList_append] at hchars
  cases hchars

theorem recorded_update_confKey (luaconf : String) (dict : Dict) (v : Option DictVal) :
    recorded luaconf (Function.update dict confKey v) = recorded luaconf dict := by
  simp only [recorded]
  cases hkey : dictKey (.str (lastmod ++ luaconf)) with
  | none => rfl
  | some k =>
      rw [dictKey_str_eq hkey]
      exact Function.update_of_ne (confKey_ne_lastmod luaconf) _ _

theorem recorded_locked (luaconf : String) :
    recorded luaconf s.locked.store.dict = recorded luaconf s.store.dict := by
  simp only [Solo.locked]
  split
  · exact recorded_update_confKey luaconf _ _
  · rfl

theorem file_locked : s.locked.store.file = s.store.file := by
  simp only [Solo.locked]
  split <;> rfl

theorem armed_locked : s.locked.armed = s.armed := by
  simp only [Solo.locked]
  split <;> rfl

theorem armed_freed (elapsed : Bool) : (s.freed elapsed).armed = s.armed := by
  cases elapsed <;> rfl

/-- A load ends well exactly if the text can be loaded, and gives the lock back then. -/
theorem run_loadText (refused : Bool) (s : Solo) (elapsed : Bool) (text : Option FileText) :
    ∃ res s', s.run refused (loadText elapsed text) = (res, s') ∧ s'.armed = s.armed ∧
      (res = .ok () ↔ Loadable s.store.dict text) ∧
      (res = .ok () → ∃ dict, s' = (s.withDict dict).freed elapsed) := by
  have hfree : ∀ t : Solo, t.run refused (freelock elapsed) = (.ok (), t.freed elapsed) := by
    intro t
    cases elapsed <;> rfl
  have hnothing : ∀ h : Loadable s.store.dict text, ∃ res s',
      s.run refused (freelock elapsed) = (res, s') ∧ s'.armed = s.armed ∧
      (res = .ok () ↔ Loadable s.store.dict text) ∧
      (res = .ok () → ∃ dict, s' = (s.withDict dict).freed elapsed) :=
    fun h => ⟨.ok (), _, hfree s, armed_freed elapsed, by simp [h], fun _ => ⟨s.store.dict, rfl⟩⟩
  have hload : ∀ v : Val, v ≠ .nil → ∃ res s', s.run refused (do
        let entries ← lift v.pairs
        loadEntries entries
        freelock elapsed) = (res, s') ∧ s'.armed = s.armed ∧
      (res = .ok () ↔ Loadable s.store.dict (some (.json v))) ∧
      (res = .ok () → ∃ dict, s' = (s.withDict dict).freed elapsed) := by
    intro v hv
    rw [run_lift]
    cases hpairs : v.pairs with
    | error e =>
        refine ⟨.error e, s, rfl, rfl, ⟨fun h => (by cases h), ?_⟩, fun h => (by cases h)⟩
        rintro (hnil | ⟨entries, hok, -⟩)
        · exact absurd hnil hv
        · cases hpairs.symm.trans hok
    | ok entries =>
        obtain ⟨res, dict, hrun, hloads, -⟩ := run_loadEntries_any refused entries s
        have hloadable : Loadable s.store.dict (some (.json v)) ↔ Loads s.store.dict entries := by
          constructor
          · rintro (hnil | ⟨entries', hok, h⟩)
            · exact absurd hnil hv
            · cases hpairs.symm.trans hok
              exact h
          · exact fun h => .inr ⟨entries, hpairs, h⟩
        cases res with
        | error e =>
            exact ⟨.error e, _, run_bind_error hrun, rfl, hloads.trans hloadable.symm,
              fun h => (by cases h)⟩
        | ok u =>
            exact ⟨.ok (), _, (run_bind_ok hrun).trans (hfree _), armed_freed elapsed,
              ⟨fun _ => hloadable.mpr (hloads.mp rfl), fun _ => rfl⟩, fun _ => ⟨dict, rfl⟩⟩
  match text with
  | none => exact hnothing trivial
  | some .malformed =>
      exact ⟨.error .json, s, rfl, rfl, ⟨fun h => (by cases h), fun h => h.elim⟩,
        fun h => (by cases h)⟩
  | some (.json v) =>
      cases v with
      | nil => exact hnothing (.inl rfl)
      | _ => exact hload _ (by simp)

theorem run_readConfFile (refused : Bool) (luaconf : String) (s : Solo) :
    ∃ res s', s.run refused (readConfFile luaconf s.keyId) = (res, s') ∧
      s'.armed = s.armed ∧ (res = .ok () ↔ Digests luaconf s.store) ∧
      (res = .ok () → ∃ dict, s' = (s.locked.withDict dict).freed s.obtains) := by
  have hskip : ∀ h : Digests luaconf s.store, ∃ res s', s.locked.run refused
      (freelock s.obtains) = (res, s') ∧ s'.armed = s.armed ∧
      (res = .ok () ↔ Digests luaconf s.store) ∧
      (res = .ok () → ∃ dict, s' = (s.locked.withDict dict).freed s.obtains) := by
    intro h
    refine ⟨.ok (), s.locked.freed s.obtains, ?_, (armed_freed _).trans armed_locked,
      by simp [h], fun _ => ⟨s.locked.store.dict, rfl⟩⟩
    cases s.obtains <;> rfl
  rw [readConfFile_eq, run_lock, run_isconfread, file_locked, recorded_locked]
  cases hfile : s.store.file with
  | none =>
      refine hskip (fun f hf => ?_)
      cases hfile.symm.trans hf
  | some f =>
      dsimp only
      split
      · rename_i hsame
        refine hskip (fun f' hf hne => ?_)
        cases hfile.symm.trans hf
        exact absurd hsame hne
      · rename_i hnew
        let t := s.locked.withDict (put s.locked.store.dict (.str (lastmod ++ luaconf))
          (.json (.num f.modification)))
        obtain ⟨res, s', hrun, harmed, hloadable, hfreed⟩ :=
          run_loadText refused t s.obtains f.content
        have hread : t.exec refused .readFile = (f.content, t) := by
          have hcontent : t.store.file.bind RuleFile.content = f.content := by
            show s.locked.store.file.bind RuleFile.content = f.content
            rw [file_locked, hfile]
            rfl
          rw [← hcontent]
          rfl
        have hodd : SameOdd s.store.dict t.store.dict := by
          intro k hk
          exact (sameOdd_locked k hk).trans (sameOdd_put luaconf _ k hk)
        have hdigests : Digests luaconf s.store ↔ Loadable s.store.dict f.content := by
          constructor
          · exact fun h => h f hfile hnew
          · intro h f' hf' _
            cases hfile.symm.trans hf'
            exact h
        refine ⟨res, s', ?_, harmed.trans armed_locked, hloadable.trans ?_, ?_⟩
        · show Prog.run _ t (.call .readFile _ : Conf Unit) = _
          rw [Prog.run_call, hread]
          exact hrun
        · rw [hdigests]
          exact ⟨fun h => h.congr hodd.symm, fun h => h.congr hodd⟩
        · intro hok
          obtain ⟨dict, hdict⟩ := hfreed hok
          exact ⟨dict, hdict⟩

theorem run_timerAt :
    s.run refused (do let _ ← (.call .timerAt .ret : Conf Bool); return ()) =
      (.ok (), { s with armed := s.armed || !refused }) := rfl

end Whole

end InitWorker

/-- What the run of a timer's callback leaves behind: the next timer, and the lock as it
was, if the lock was free. -/
structure KeepsGoing (before : WorkerZero) (dict : Dict) (after : WorkerZero) (dict' : Dict) :
    Prop where
  armed : after.armed = true
  released : before.keyId = false → dict InitWorker.confKey = none →
    after.keyId = false ∧ dict' InitWorker.confKey = none

open InitWorker

def atTick (file : Option RuleFile) : Reload :=
  ⟨[⟨false, false, handler "/etc/lua.conf" false⟩], ⟨fun _ => none, file⟩, []⟩

end OpenrestyGateway
