import OpenrestyGateway.Library.Pool
import Mathlib.Logic.Function.Basic

/-!
Isolation: a part of the shared state that only some operations touch.

Which operations are visible depends on who issues them. If every other operation,
and everything from outside, leaves the part alone, then the visible operations of
a run are those of the processes' visible programs, executed one after the other on
the part alone, whatever else is interleaved. Two runs in which the visible steps are
taken by the same processes in the same order then see the same answers.
-/
namespace Interleaving
universe u v

namespace Prog
variable {O : Type} {A : O → Type} {E : Type}

/-- The visible operations of the program are those of `q`, on the same answers. -/
def Shows {α : Type u} {β : Type v} (vis : O → Bool) :
    Prog O A E α → Prog O A E β → Prop
  | .ret _, _ | .stop _, _ => True
  | .call o k, q =>
      (vis o = false ∧ ∀ a, Shows vis (k a) q) ∨
      (vis o = true ∧ ∃ k', q = .call o k' ∧ ∀ a, Shows vis (k a) (k' a))

variable {α : Type u} {β : Type v} {vis : O → Bool}

theorem Uses.shows {p : Prog O A E α} (h : p.Uses (fun o => vis o = false))
    (q : Prog O A E β) : p.Shows vis q := by
  induction p with
  | ret _ | stop _ => trivial
  | call o k ih => exact .inl ⟨h.1, fun a => ih a (h.2 a)⟩

theorem shows_call {o : O} {k : A o → Prog O A E α} {k' : A o → Prog O A E β}
    (hvis : vis o = true) (h : ∀ a, (k a).Shows vis (k' a)) :
    (Prog.call o k).Shows vis (.call o k') := .inr ⟨hvis, k', rfl, h⟩

theorem Shows.hidden {o : O} {k : A o → Prog O A E α} {q : Prog O A E β}
    (h : (Prog.call o k).Shows vis q) (hvis : vis o = false) (a : A o) :
    (k a).Shows vis q := by
  rcases h with ⟨-, hk⟩ | ⟨hvis', -⟩
  · exact hk a
  · cases hvis.symm.trans hvis'

theorem Shows.visible {o : O} {k : A o → Prog O A E α} {q : Prog O A E β}
    (h : (Prog.call o k).Shows vis q) (hvis : vis o = true) :
    ∃ k', q = .call o k' ∧ ∀ a, (k a).Shows vis (k' a) := by
  rcases h with ⟨hvis', -⟩ | ⟨-, hk⟩
  · cases hvis.symm.trans hvis'
  · exact hk

theorem Uses.shows_self {p : Prog O A E α} (h : p.Uses (fun o => vis o = true)) :
    p.Shows vis p := by
  induction p with
  | ret _ | stop _ => trivial
  | call o k ih => exact shows_call h.1 (fun a => ih a (h.2 a))

theorem shows_bind_same {α β γ : Type u} {p : Prog O A E α} {f : α → Prog O A E β}
    {g : α → Prog O A E γ} (hp : p.Uses (fun o => vis o = true))
    (h : ∀ a, (f a).Shows vis (g a)) : (p >>= f).Shows vis (p >>= g) := by
  induction p with
  | ret a => exact h a
  | stop e => trivial
  | call o k ih => exact shows_call hp.1 (fun a => ih a (hp.2 a))

end Prog

/-- A part of the shared state with a clock beside it: what the part is, and what an
operation does to it, given the time. -/
structure Part (O : Type) (A : O → Type) (S F C V : Type) where
  clock : S → C
  read : S → V
  exec : C → V → F → (o : O) → A o × V

/-- One process's visible step: who takes it, what goes wrong, and when. -/
structure Stamp (F C : Type) where
  who : Nat
  fault : F
  time : C
  deriving DecidableEq

namespace Machine
variable {O : Type} {A : O → Type} {T S F X C V : Type} (M : Machine O A T S F X)
  (vis : Nat → O → Bool)

def stamp (clock : S → C) (p : Pool O A T S) : Label F X → List (Stamp F C)
  | .outside _ => []
  | .run i fault =>
      match p.procs[i]? with
      | none => []
      | some t =>
          match M.next t with
          | none => []
          | some ⟨o, _⟩ => if vis i o then [⟨i, fault, clock p.store⟩] else []

/-- The visible steps of a run, without what they did. -/
def schedule (clock : S → C) (p : Pool O A T S) : List (Label F X) → List (Stamp F C)
  | [] => []
  | l :: ls =>
      M.stamp vis clock p l ++
        match M.step p l with
        | none => []
        | some q => schedule clock q ls

end Machine

/-- The visible operations of a history. -/
def visible {O : Type} {A : O → Type} (vis : Nat → O → Bool) (log : List (Event O A)) :
    List (Event O A) := log.filter (fun e => vis e.who e.op)

/-- The visible programs alone, with the part they work on. -/
structure Alone (O : Type) (A : O → Type) (E : Type) (V : Type) where
  progs : Nat → Prog O A E Unit
  part : V
  log : List (Event O A)

namespace Alone
variable {O : Type} {A : O → Type} {E S F C V : Type}

def step (P : Part O A S F C V) (z : Alone O A E V) (stamp : Stamp F C) : Alone O A E V :=
  match z.progs stamp.who with
  | .ret _ | .stop _ => z
  | .call o k =>
      ⟨Function.update z.progs stamp.who (k (P.exec stamp.time z.part stamp.fault o).1),
        (P.exec stamp.time z.part stamp.fault o).2,
        z.log ++ [⟨stamp.who, o, (P.exec stamp.time z.part stamp.fault o).1⟩]⟩

def run (P : Part O A S F C V) (z : Alone O A E V) (stamps : List (Stamp F C)) :
    Alone O A E V := stamps.foldl (step P) z

theorem run_append (P : Part O A S F C V) (z : Alone O A E V) (ss ss' : List (Stamp F C)) :
    run P z (ss ++ ss') = run P (run P z ss) ss' := List.foldl_append

end Alone

/-- Only the visible operations touch the part, and they see nothing else. -/
structure Part.Isolated {O : Type} {A : O → Type} {T S F X C V : Type}
    (P : Part O A S F C V) (M : Machine O A T S F X) (vis : Nat → O → Bool) : Prop where
  outside : ∀ s x, P.read (M.outside s x) = P.read s
  hidden : ∀ s f i o, vis i o = false → P.read (M.exec s f o).2 = P.read s
  visible : ∀ s f i o, vis i o = true →
    P.exec (P.clock s) (P.read s) f o = ((M.exec s f o).1, P.read (M.exec s f o).2)

section Run
variable {O : Type} {A : O → Type} {E T S F X C V : Type} {M : Machine O A T S F X}
  {vis : Nat → O → Bool} {P : Part O A S F C V} {α : Type u}

/-- `prog` is the program a process goes on with. -/
def Machine.Programs (M : Machine O A T S F X) (prog : T → Prog O A E α) : Prop :=
  ∀ t o k, M.next t = some ⟨o, k⟩ → prog t = .call o (fun a => prog (k a))

/-- The pool's visible part is the one of the programs alone. -/
structure Pool.Matches (prog : T → Prog O A E α) (vis : Nat → O → Bool)
    (P : Part O A S F C V) (p : Pool O A T S) (z : Alone O A E V) : Prop where
  procs : ∀ i t, p.procs[i]? = some t → (prog t).Shows (vis i) (z.progs i)
  part : P.read p.store = z.part
  log : visible vis p.log = z.log

variable {prog : T → Prog O A E α}

theorem Pool.Matches.hidden {p : Pool O A T S} {z : Alone O A E V} {i : Nat} {f : F} {o : O}
    {k : A o → Prog O A E α} {t' : T} (hpart : P.Isolated M vis) (h : p.Matches prog vis P z)
    (hshows : (Prog.call o k).Shows (vis i) (z.progs i)) (hvis : vis i o = false)
    (ht' : prog t' = k (M.exec p.store f o).1) :
    Pool.Matches prog vis P ⟨p.procs.set i t', (M.exec p.store f o).2,
      p.log ++ [⟨i, o, (M.exec p.store f o).1⟩]⟩ z := by
  refine ⟨fun j u hu => ?_, (hpart.hidden p.store f i o hvis).trans h.part, ?_⟩
  · rcases getElem?_set_cases hu with ⟨rfl, rfl⟩ | ⟨-, hu⟩
    · rw [ht']
      exact hshows.hidden hvis _
    · exact h.procs j u hu
  · have hlog := h.log
    simp only [visible] at hlog ⊢
    rw [List.filter_append, hlog]
    simp [hvis]

theorem Pool.Matches.shown {p : Pool O A T S} {z : Alone O A E V} {i : Nat} {f : F} {o : O}
    {k : A o → Prog O A E α} {t' : T} (hpart : P.Isolated M vis) (h : p.Matches prog vis P z)
    (hshows : (Prog.call o k).Shows (vis i) (z.progs i)) (hvis : vis i o = true)
    (ht' : prog t' = k (M.exec p.store f o).1) :
    Pool.Matches prog vis P ⟨p.procs.set i t', (M.exec p.store f o).2,
      p.log ++ [⟨i, o, (M.exec p.store f o).1⟩]⟩ (z.step P ⟨i, f, P.clock p.store⟩) := by
  obtain ⟨k', halone, hk⟩ := hshows.visible hvis
  have hexec := hpart.visible p.store f i o hvis
  rw [h.part] at hexec
  have hstep : z.step P ⟨i, f, P.clock p.store⟩ =
      ⟨Function.update z.progs i (k' (M.exec p.store f o).1),
        P.read (M.exec p.store f o).2, z.log ++ [⟨i, o, (M.exec p.store f o).1⟩]⟩ := by
    simp only [Alone.step, halone, hexec]
  rw [hstep]
  refine ⟨fun j u hu => ?_, rfl, ?_⟩
  · rcases getElem?_set_cases hu with ⟨rfl, rfl⟩ | ⟨hj, hu⟩
    · simp only [Function.update_self, ht']
      exact hk _
    · simp only [Function.update_of_ne hj]
      exact h.procs j u hu
  · have hlog := h.log
    simp only [visible] at hlog ⊢
    rw [List.filter_append, hlog]
    simp [hvis]

/-- A hidden step leaves the visible programs where they are, a visible one is theirs. -/
theorem Pool.Matches.step {p q : Pool O A T S} {z : Alone O A E V} {l : Label F X}
    (hprog : M.Programs prog) (hpart : P.Isolated M vis) (h : p.Matches prog vis P z)
    (hstep : M.step p l = some q) :
    q.Matches prog vis P (z.run P (M.stamp vis P.clock p l)) := by
  rcases M.step_cases hstep with ⟨i, f, t, o, k, rfl, ht, hnext, rfl⟩ | ⟨x, rfl, rfl⟩
  · have hshows := h.procs i t ht
    rw [hprog t o k hnext] at hshows
    cases hvis : vis i o with
    | false =>
        have hstamp : M.stamp vis P.clock p (.run i f) = [] := by
          simp [Machine.stamp, ht, hnext, hvis]
        rw [hstamp]
        exact h.hidden hpart hshows hvis rfl
    | true =>
        have hstamp : M.stamp vis P.clock p (.run i f) = [⟨i, f, P.clock p.store⟩] := by
          simp [Machine.stamp, ht, hnext, hvis]
        rw [hstamp]
        exact h.shown hpart hshows hvis rfl
  · exact ⟨h.procs, (hpart.outside p.store x).trans h.part, h.log⟩

/-- A run is, in its visible part, the run of the visible programs alone. -/
theorem Pool.Matches.steps (hprog : M.Programs prog) (hpart : P.Isolated M vis)
    (ls : List (Label F X)) : ∀ {p q : Pool O A T S} {z : Alone O A E V},
      p.Matches prog vis P z → M.steps p ls = some q →
        q.Matches prog vis P (z.run P (M.schedule vis P.clock p ls)) := by
  induction ls with
  | nil =>
      intro p q z h hsteps
      cases hsteps
      exact h
  | cons l ls ih =>
      intro p q z h hsteps
      obtain ⟨r, hstep, hrest⟩ := Option.bind_eq_some_iff.mp hsteps
      simp only [Machine.schedule, hstep, Alone.run_append]
      exact ih (h.step hprog hpart hstep) hrest

/-- Two runs with the same visible programs, the same part and the same visible steps
give the same answers and leave the same part. -/
theorem Pool.Matches.isolated (hprog : M.Programs prog) (hpart : P.Isolated M vis)
    {p p' q q' : Pool O A T S} {z : Alone O A E V} {ls ls' : List (Label F X)}
    (h : p.Matches prog vis P z) (h' : p'.Matches prog vis P z)
    (hrun : M.steps p ls = some q) (hrun' : M.steps p' ls' = some q')
    (hsame : M.schedule vis P.clock p ls = M.schedule vis P.clock p' ls') :
    visible vis q.log = visible vis q'.log ∧ P.read q.store = P.read q'.store := by
  have hq := h.steps hprog hpart ls hrun
  have hq' := h'.steps hprog hpart ls' hrun'
  rw [← hsame] at hq'
  exact ⟨hq.log.trans hq'.log.symm, hq.part.trans hq'.part.symm⟩

end Run
end Interleaving
