import OpenrestyGateway.Library.Prog
import Mathlib.Data.List.Basic

/-!
Pools of processes over one shared state.

A process is anything with a next operation. A step of the pool executes the
next operation of one process atomically, or changes the shared state from
outside (time, a crash of a peer). Every interleaving is a sequence of such
steps, so an invariant of all interleavings is one step lemma and `Reaches`.
-/
namespace Interleaving

/-- How the processes `T` and the shared state `S` move. `F` is what may go
wrong with a single operation and `X` what may happen from outside. -/
structure Machine (O : Type) (A : O → Type) (T S F X : Type) where
  next : T → Option ((o : O) × (A o → T))
  exec : S → F → (o : O) → A o × S
  outside : S → X → S

structure Event (O : Type) (A : O → Type) where
  who : Nat
  op : O
  answer : A op

/-- The result of a program on the answers of a history, if they suffice. -/
def Prog.replay {O : Type} {A : O → Type} {E α : Type} [DecidableEq O] :
    Prog O A E α → List (Event O A) → Option (Except E α)
  | .ret a, _ => some (.ok a)
  | .stop e, _ => some (.error e)
  | .call _ _, [] => none
  | .call o k, e :: es => if h : e.op = o then replay (k (h ▸ e.answer)) es else none

theorem Prog.replay_call {O : Type} {A : O → Type} {E α : Type} [DecidableEq O] {o : O}
    {k : A o → Prog O A E α} {es : List (Event O A)} {r : Except E α}
    (h : Prog.replay (.call o k) es = some r) :
    ∃ i a rest, es = ⟨i, o, a⟩ :: rest ∧ Prog.replay (k a) rest = some r := by
  cases es with
  | nil => cases h
  | cons e es =>
      obtain ⟨i, o', a⟩ := e
      simp only [replay] at h
      split at h
      · rename_i ho
        subst ho
        exact ⟨i, a, es, rfl, h⟩
      · cases h

theorem Prog.replay_bind {O : Type} {A : O → Type} {E α β : Type} [DecidableEq O]
    {p : Prog O A E α} {f : α → Prog O A E β} {es : List (Event O A)} {a : α} {r : Except E β}
    (h : p.replay es = some (.ok a)) (rest : ∀ es', (f a).replay es' = some r) :
    (p >>= f).replay es = some r := by
  induction p generalizing es with
  | ret b =>
      cases h
      exact rest es
  | stop e => cases h
  | call o k ih =>
      obtain ⟨i, a', es', rfl, hk⟩ := Prog.replay_call h
      simp only [Prog.call_bind, replay, dif_pos]
      exact ih a' hk

structure Pool (O : Type) (A : O → Type) (T S : Type) where
  procs : List T
  store : S
  log : List (Event O A)

def Pool.start {O : Type} {A : O → Type} {T S : Type} (procs : List T) (store : S) :
    Pool O A T S := ⟨procs, store, []⟩

inductive Label (F X : Type) where
  | run (i : Nat) (fault : F)
  | outside (x : X)

namespace Machine
variable {O : Type} {A : O → Type} {T S F X : Type} (M : Machine O A T S F X)

def step (p : Pool O A T S) : Label F X → Option (Pool O A T S)
  | .run i fault =>
      match p.procs[i]? with
      | none => none
      | some t =>
          match M.next t with
          | none => none
          | some ⟨o, k⟩ =>
              some ⟨p.procs.set i (k (M.exec p.store fault o).1),
                (M.exec p.store fault o).2,
                p.log ++ [⟨i, o, (M.exec p.store fault o).1⟩]⟩
  | .outside x => some { p with store := M.outside p.store x }

def steps (p : Pool O A T S) : List (Label F X) → Option (Pool O A T S)
  | [] => some p
  | l :: ls => (M.step p l).bind (fun q => steps q ls)

/-- The pools reached by runs in which every step meets `ok`. -/
inductive Reaches (ok : Pool O A T S → Label F X → Prop) (p : Pool O A T S) :
    Pool O A T S → Prop where
  | refl : Reaches ok p p
  | tail {q r : Pool O A T S} {l : Label F X} :
      Reaches ok p q → ok q l → M.step q l = some r → Reaches ok p r

theorem step_cases {p q : Pool O A T S} {l : Label F X} (h : M.step p l = some q) :
    (∃ i fault t o k, l = .run i fault ∧ p.procs[i]? = some t ∧ M.next t = some ⟨o, k⟩ ∧
      q = ⟨p.procs.set i (k (M.exec p.store fault o).1), (M.exec p.store fault o).2,
        p.log ++ [⟨i, o, (M.exec p.store fault o).1⟩]⟩) ∨
    (∃ x, l = .outside x ∧ q = { p with store := M.outside p.store x }) := by
  cases l with
  | run i fault =>
      left
      simp only [step] at h
      split at h
      · cases h
      · rename_i t ht
        split at h
        · cases h
        · rename_i o k hk
          exact ⟨i, fault, t, o, k, rfl, ht, hk, (Option.some.inj h).symm⟩
  | outside x =>
      right
      exact ⟨x, rfl, (Option.some.inj h).symm⟩

theorem reaches_of_steps {P : Label F X → Prop} {p : Pool O A T S} (ls : List (Label F X))
    (h : ∀ l ∈ ls, P l) :
    ∀ {q r : Pool O A T S}, M.Reaches (fun _ l => P l) p q → M.steps q ls = some r →
      M.Reaches (fun _ l => P l) p r := by
  induction ls with
  | nil =>
      intro q r hq hr
      cases hr
      exact hq
  | cons l ls ih =>
      intro q r hq hr
      obtain ⟨q', hstep, hrest⟩ := Option.bind_eq_some_iff.mp hr
      exact ih (fun l' hl' => h l' (.tail l hl')) (.tail hq (h l (.head ls)) hstep) hrest

theorem exists_reaches {P : Label F X → Prop} {β : Type} (f : Pool O A T S → β) {b : β}
    {p : Pool O A T S} (ls : List (Label F X)) (h : ∀ l ∈ ls, P l)
    (hf : (M.steps p ls).map f = some b) :
    ∃ r, M.Reaches (fun _ l => P l) p r ∧ f r = b := by
  obtain ⟨r, hr, hb⟩ := Option.map_eq_some_iff.mp hf
  exact ⟨r, M.reaches_of_steps ls h .refl hr, hb⟩

/-- The steps of a run as long as each meets a condition on the pool before it. -/
def stepsIf (C : Pool O A T S → Label F X → Prop) [∀ p l, Decidable (C p l)]
    (p : Pool O A T S) : List (Label F X) → Option (Pool O A T S)
  | [] => some p
  | l :: ls => if C p l then (M.step p l).bind (fun q => stepsIf C q ls) else none

theorem reaches_of_stepsIf {C : Pool O A T S → Label F X → Prop}
    [∀ p l, Decidable (C p l)] {p : Pool O A T S} (ls : List (Label F X)) :
    ∀ {q r : Pool O A T S}, M.Reaches C p q → M.stepsIf C q ls = some r →
      M.Reaches C p r := by
  induction ls with
  | nil =>
      intro q r hq hr
      cases hr
      exact hq
  | cons l ls ih =>
      intro q r hq hr
      simp only [stepsIf] at hr
      split at hr
      · rename_i hok
        obtain ⟨q', hstep, hrest⟩ := Option.bind_eq_some_iff.mp hr
        exact ih (.tail hq hok hstep) hrest
      · cases hr

theorem exists_reaches_if {C : Pool O A T S → Label F X → Prop}
    [∀ p l, Decidable (C p l)] {β : Type} (f : Pool O A T S → β) {b : β}
    {p : Pool O A T S} (ls : List (Label F X)) (hf : (M.stepsIf C p ls).map f = some b) :
    ∃ r, M.Reaches C p r ∧ f r = b := by
  obtain ⟨r, hr, hb⟩ := Option.map_eq_some_iff.mp hf
  exact ⟨r, M.reaches_of_stepsIf ls .refl hr, hb⟩

/-- The pools reached by runs in which every step meets `ok`, with what an observer of the
run has noted down. -/
inductive Notes {N : Type} (note : N → Pool O A T S → Label F X → Pool O A T S → N)
    (ok : Pool O A T S → Label F X → Prop) (p : Pool O A T S) (n : N) :
    Pool O A T S → N → Prop where
  | refl : Notes note ok p n p n
  | tail {q r : Pool O A T S} {m : N} {l : Label F X} :
      Notes note ok p n q m → ok q l → M.step q l = some r →
        Notes note ok p n r (note m q l r)

section Notes
variable {N : Type} {note : N → Pool O A T S → Label F X → Pool O A T S → N}

def notesIf (note : N → Pool O A T S → Label F X → Pool O A T S → N)
    (C : Pool O A T S → Label F X → Prop) [∀ p l, Decidable (C p l)]
    (p : Pool O A T S) (n : N) : List (Label F X) → Option (Pool O A T S × N)
  | [] => some (p, n)
  | l :: ls =>
      if C p l then (M.step p l).bind (fun q => notesIf note C q (note n p l q) ls) else none

theorem notes_of_notesIf {C : Pool O A T S → Label F X → Prop}
    [∀ p l, Decidable (C p l)] {p : Pool O A T S} {n : N} (ls : List (Label F X)) :
    ∀ {q r : Pool O A T S} {m m' : N}, M.Notes note C p n q m →
      M.notesIf note C q m ls = some (r, m') → M.Notes note C p n r m' := by
  induction ls with
  | nil =>
      intro q r m m' hq hr
      cases hr
      exact hq
  | cons l ls ih =>
      intro q r m m' hq hr
      simp only [notesIf] at hr
      split at hr
      · rename_i hok
        obtain ⟨q', hstep, hrest⟩ := Option.bind_eq_some_iff.mp hr
        exact ih (.tail hq hok hstep) hrest
      · cases hr

theorem exists_notes_if {C : Pool O A T S → Label F X → Prop}
    [∀ p l, Decidable (C p l)] {β : Type} (f : Pool O A T S → N → β) {b : β}
    {p : Pool O A T S} {n : N} (ls : List (Label F X))
    (hf : (M.notesIf note C p n ls).map (fun r => f r.1 r.2) = some b) :
    ∃ r m, M.Notes note C p n r m ∧ f r m = b := by
  obtain ⟨⟨r, m⟩, hr, hb⟩ := Option.map_eq_some_iff.mp hf
  exact ⟨r, m, M.notes_of_notesIf ls .refl hr, hb⟩

end Notes

variable {M}

theorem Notes.invariant {N : Type} {note : N → Pool O A T S → Label F X → Pool O A T S → N}
    {ok : Pool O A T S → Label F X → Prop} {p q : Pool O A T S} {n m : N}
    {I : Pool O A T S → N → Prop} (h : M.Notes note ok p n q m) (start : I p n)
    (kept : ∀ r m l r', I r m → ok r l → M.step r l = some r' → I r' (note m r l r')) :
    I q m := by
  induction h with
  | refl => exact start
  | tail _ hok hstep ih => exact kept _ _ _ _ ih hok hstep

theorem Reaches.mono {ok ok' : Pool O A T S → Label F X → Prop} {p q : Pool O A T S}
    (h : M.Reaches ok p q) (imp : ∀ r l, ok r l → ok' r l) : M.Reaches ok' p q := by
  induction h with
  | refl => exact .refl
  | tail _ hok hstep ih => exact .tail ih (imp _ _ hok) hstep

/-- What holds at the start and is kept by every step holds in every pool reached. -/
theorem Reaches.invariant {ok : Pool O A T S → Label F X → Prop} {p q : Pool O A T S}
    {I : Pool O A T S → Prop} (h : M.Reaches ok p q) (start : I p)
    (kept : ∀ r l r', I r → ok r l → M.step r l = some r' → I r') : I q := by
  induction h with
  | refl => exact start
  | tail _ hok hstep ih => exact kept _ _ _ ih hok hstep

end Machine

theorem countP_set_add {T : Type} (f : T → Bool) (ts : List T) (i : Nat) (t t' : T)
    (h : ts[i]? = some t) :
    (ts.set i t').countP f + (if f t then 1 else 0) =
      ts.countP f + (if f t' then 1 else 0) := by
  induction ts generalizing i with
  | nil => cases h
  | cons a ts ih =>
      cases i with
      | zero =>
          cases h
          simp only [List.set_cons_zero, List.countP_cons]
          omega
      | succ i =>
          have hi := ih i h
          simp only [List.set_cons_succ, List.countP_cons]
          omega

theorem forall_mem_set {T : Type} {P : T → Prop} {ts : List T} {i : Nat} {t' : T}
    (h : ∀ t ∈ ts, P t) (h' : P t') : ∀ t ∈ ts.set i t', P t := by
  intro t ht
  rcases List.mem_or_eq_of_mem_set ht with hm | rfl
  · exact h t hm
  · exact h'

theorem getLast?_filter_append {α : Type} (f : α → Bool) (xs : List α) (x : α) :
    ((xs ++ [x]).filter f).getLast? =
      if f x then some x else (xs.filter f).getLast? := by
  rw [List.filter_append]
  cases hx : f x with
  | true => simp [hx]
  | false => simp [hx]

theorem getElem?_set_cases {T : Type} {ts : List T} {i j : Nat} {t' u : T}
    (h : (ts.set i t')[j]? = some u) : (j = i ∧ u = t') ∨ (j ≠ i ∧ ts[j]? = some u) := by
  by_cases hj : j = i
  · subst hj
    have hlt : j < ts.length := by simpa using (List.getElem?_eq_some_iff.mp h).1
    rw [List.getElem?_set_self hlt] at h
    exact .inl ⟨rfl, (Option.some.inj h).symm⟩
  · rw [List.getElem?_set_ne (Ne.symm hj)] at h
    exact .inr ⟨hj, h⟩

/-- At most one process is in a state with `f`. -/
def AtMostOne {T : Type} (f : T → Bool) (ts : List T) : Prop :=
  ∀ (i j : Nat) (t u : T), ts[i]? = some t → ts[j]? = some u → f t = true → f u = true → i = j

section AtMostOne
variable {T : Type} {f : T → Bool} {ts : List T} {i : Nat}

theorem AtMostOne.others {t : T} (h : AtMostOne f ts) (ht : ts[i]? = some t) (hf : f t = true)
    (j : Nat) (u : T) (hj : j ≠ i) (hu : ts[j]? = some u) : f u = false := by
  by_contra hfu
  exact hj (h j i u t hu ht (by simpa using hfu) hf)

theorem AtMostOne.set {t' : T} (h : AtMostOne f ts)
    (hothers : f t' = true → ∀ (j : Nat) (u : T), j ≠ i → ts[j]? = some u → f u = false) :
    AtMostOne f (ts.set i t') := by
  intro j k t u ht hu hft hfu
  rcases getElem?_set_cases ht with ⟨rfl, rfl⟩ | ⟨hj, ht'⟩
  · rcases getElem?_set_cases hu with ⟨rfl, rfl⟩ | ⟨hk, hu'⟩
    · rfl
    · cases (hothers hft k u hk hu').symm.trans hfu
  · rcases getElem?_set_cases hu with ⟨rfl, rfl⟩ | ⟨hk, hu'⟩
    · cases (hothers hfu j t hj ht').symm.trans hft
    · exact h j k t u ht' hu' hft hfu

end AtMostOne

end Interleaving
