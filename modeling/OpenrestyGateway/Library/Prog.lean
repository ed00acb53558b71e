import Mathlib.Logic.Basic
import Mathlib.Tactic.Common

/-!
Programs that issue operations and wait for the answers.

A program over a signature `O` with answer types `A` either ends with a value,
stops with an exception, or issues one operation and continues with its answer.
The environment is not part of the program: it is supplied by a runner (one
program alone, in this module) or by a pool of processes.
-/
namespace Interleaving
universe u v

inductive Prog (O : Type) (A : O → Type) (E : Type) (α : Type u) where
  | ret (a : α)
  | stop (e : E)
  | call (o : O) (k : A o → Prog O A E α)

namespace Prog
variable {O : Type} {A : O → Type} {E : Type} {α : Type u} {β : Type v}

def bind : Prog O A E α → (α → Prog O A E β) → Prog O A E β
  | .ret a, f => f a
  | .stop e, _ => .stop e
  | .call o k, f => .call o (fun r => bind (k r) f)

instance : Monad (Prog O A E) where
  pure := .ret
  bind := bind

@[simp] theorem ret_bind {α β : Type u} (a : α) (f : α → Prog O A E β) :
    (Prog.ret a >>= f) = f a := rfl

@[simp] theorem pure_eq_ret (a : α) : (pure a : Prog O A E α) = .ret a := rfl

@[simp] theorem stop_bind {α β : Type u} (e : E) (f : α → Prog O A E β) :
    ((Prog.stop e : Prog O A E α) >>= f) = .stop e := rfl

@[simp] theorem call_bind {α β : Type u} (o : O) (k : A o → Prog O A E α)
    (f : α → Prog O A E β) :
    (Prog.call o k >>= f) = .call o (fun r => k r >>= f) := rfl

theorem bind_assoc {α β γ : Type u} (p : Prog O A E α) (f : α → Prog O A E β)
    (g : β → Prog O A E γ) : (p >>= f) >>= g = p >>= fun a => f a >>= g := by
  induction p with
  | ret a => rfl
  | stop e => rfl
  | call o k ih => exact congrArg (Prog.call o) (funext ih)

theorem bind_ret (p : Prog O A E α) : (p >>= Prog.ret) = p := by
  induction p with
  | ret a => rfl
  | stop e => rfl
  | call o k ih => exact congrArg (Prog.call o) (funext ih)

/-- Every operation the program can issue, on any answers, is allowed. -/
def Uses (allowed : O → Prop) : Prog O A E α → Prop
  | .ret _ | .stop _ => True
  | .call o k => allowed o ∧ ∀ r, Uses allowed (k r)

theorem uses_bind {α β : Type u} {allowed : O → Prop} {p : Prog O A E α}
    {f : α → Prog O A E β} (first : p.Uses allowed)
    (rest : ∀ a, (f a).Uses allowed) : (p >>= f).Uses allowed := by
  induction p with
  | ret a => exact rest a
  | stop _ => trivial
  | call o k ih => exact ⟨first.1, fun r => ih r (first.2 r)⟩

theorem Uses.mono {allowed allowed' : O → Prop} {p : Prog O A E α} (h : p.Uses allowed)
    (imp : ∀ o, allowed o → allowed' o) : p.Uses allowed' := by
  induction p with
  | ret _ | stop _ => trivial
  | call o k ih => exact ⟨imp o h.1, fun r => ih r (h.2 r)⟩

/-- On answers as relied on, every operation the program issues is granted. -/
def Obeys (rely : (o : O) → A o → Prop) (grant : O → Prop) : Prog O A E α → Prop
  | .ret _ | .stop _ => True
  | .call o k => grant o ∧ ∀ r, rely o r → Obeys rely grant (k r)

theorem obeys_bind {α β : Type u} {rely : (o : O) → A o → Prop} {grant : O → Prop}
    {p : Prog O A E α} {f : α → Prog O A E β} (first : p.Obeys rely grant)
    (rest : ∀ a, (f a).Obeys rely grant) : (p >>= f).Obeys rely grant := by
  induction p with
  | ret a => exact rest a
  | stop _ => trivial
  | call o k ih => exact ⟨first.1, fun r hr => ih r (first.2 r hr)⟩

/-- On answers as relied on, the program ends with a value or an exception in `ok`. -/
def StopsIn (rely : (o : O) → A o → Prop) (ok : E → Prop) : Prog O A E α → Prop
  | .ret _ => True
  | .stop e => ok e
  | .call o k => ∀ r, rely o r → StopsIn rely ok (k r)

/-- There are answers as relied on, on which the program ends with `a`. -/
def MayReturn (rely : (o : O) → A o → Prop) (a : α) : Prog O A E α → Prop
  | .ret b => b = a
  | .stop _ => False
  | .call o k => ∃ r, rely o r ∧ MayReturn rely a (k r)

section StopsIn
variable {α β : Type u} {rely : (o : O) → A o → Prop} {ok : E → Prop} {p : Prog O A E α}
  {f : α → Prog O A E β}

theorem stopsIn_bind (first : p.StopsIn rely ok) (rest : ∀ a, (f a).StopsIn rely ok) :
    (p >>= f).StopsIn rely ok := by
  induction p with
  | ret a => exact rest a
  | stop _ => exact first
  | call o k ih => exact fun r hr => ih r (first r hr)

theorem stopsIn_of_bind (h : (p >>= f).StopsIn rely ok) : p.StopsIn rely ok := by
  induction p with
  | ret a => trivial
  | stop _ => exact h
  | call o k ih => exact fun r hr => ih r (h r hr)

theorem stopsIn_rest {a : α} (h : (p >>= f).StopsIn rely ok)
    (returns : p.MayReturn rely a) : (f a).StopsIn rely ok := by
  induction p with
  | ret b => exact returns ▸ h
  | stop _ => exact returns.elim
  | call o k ih =>
      obtain ⟨r, hr, hk⟩ := returns
      exact ih r (h r hr) hk

end StopsIn

/-- On any answers, the program ends with a value if it ends. -/
def NeverStops : Prog O A E α → Prop
  | .ret _ => True
  | .stop _ => False
  | .call _ k => ∀ r, NeverStops (k r)

/-- Run one program to its end, each operation answered by `exec` from the
current state of the environment. -/
def run {S : Type} (exec : S → (o : O) → A o × S) : S → Prog O A E α → Except E α × S
  | s, .ret a => (.ok a, s)
  | s, .stop e => (.error e, s)
  | s, .call o k => run exec (exec s o).2 (k (exec s o).1)

section Run
variable {S : Type} (exec : S → (o : O) → A o × S)

@[simp] theorem run_ret (s : S) (a : α) :
    run exec s (.ret a : Prog O A E α) = (.ok a, s) := rfl

@[simp] theorem run_stop (s : S) (e : E) :
    run exec s (.stop e : Prog O A E α) = (.error e, s) := rfl

@[simp] theorem run_call (s : S) (o : O) (k : A o → Prog O A E α) :
    run exec s (.call o k) = run exec (exec s o).2 (k (exec s o).1) := rfl

theorem run_bind {α β : Type u} (s : S) (p : Prog O A E α) (f : α → Prog O A E β) :
    run exec s (p >>= f) =
      match run exec s p with
      | (.ok a, s') => run exec s' (f a)
      | (.error e, s') => (.error e, s') := by
  induction p generalizing s with
  | ret a => rfl
  | stop e => rfl
  | call o k ih => exact ih (exec s o).1 (exec s o).2

theorem run_frame {allowed : O → Prop} {I : S → Prop} {p : Prog O A E α}
    (h : p.Uses allowed) (kept : ∀ s o, allowed o → I s → I (exec s o).2) {s : S} (hs : I s) :
    I (run exec s p).2 := by
  induction p generalizing s with
  | ret _ | stop _ => exact hs
  | call o k ih => exact ih _ (h.2 _) (kept s o h.1 hs)

end Run

/-- Whatever goes wrong with a single operation, the program returns in a state with `post`
if it returns. -/
def Ensures {S F : Type} (exec : S → F → (o : O) → A o × S) (post : α → S → Prop) :
    Prog O A E α → S → Prop
  | .ret a, s => post a s
  | .stop _, _ => True
  | .call o k, s => ∀ fault, Ensures exec post (k (exec s fault o).1) (exec s fault o).2

theorem ensures_bind {α β : Type u} {S F : Type} {exec : S → F → (o : O) → A o × S}
    {mid : α → S → Prop} {post : β → S → Prop} {p : Prog O A E α} {f : α → Prog O A E β} {s : S}
    (first : p.Ensures exec mid s) (rest : ∀ a t, mid a t → (f a).Ensures exec post t) :
    (p >>= f).Ensures exec post s := by
  induction p generalizing s with
  | ret a => exact rest a s first
  | stop _ => trivial
  | call o k ih => exact fun fault => ih _ (first fault)

theorem Ensures.mono {S F : Type} {exec : S → F → (o : O) → A o × S} {post post' : α → S → Prop}
    {p : Prog O A E α} {s : S} (h : p.Ensures exec post s) (imp : ∀ a t, post a t → post' a t) :
    p.Ensures exec post' s := by
  induction p generalizing s with
  | ret a => exact imp a s h
  | stop _ => trivial
  | call o k ih => exact fun fault => ih _ (h fault)

/-- The program with each of its operations carried out by a program over other
operations. -/
def handle {O' : Type} {A' : O' → Type} {α : Type} (h : (o : O) → Prog O' A' E (A o)) :
    Prog O A E α → Prog O' A' E α
  | .ret a => .ret a
  | .stop e => .stop e
  | .call o k => h o >>= fun r => handle h (k r)

section Handle
variable {O' : Type} {A' : O' → Type} {α β : Type} {h : (o : O) → Prog O' A' E (A o)}

@[simp] theorem handle_ret (a : α) : handle h (.ret a : Prog O A E α) = .ret a := rfl

@[simp] theorem handle_stop (e : E) : handle h (.stop e : Prog O A E α) = .stop e := rfl

@[simp] theorem handle_call (o : O) (k : A o → Prog O A E α) :
    handle h (.call o k) = h o >>= fun r => handle h (k r) := rfl

theorem handle_bind (p : Prog O A E α) (f : α → Prog O A E β) :
    handle h (p >>= f) = handle h p >>= fun a => handle h (f a) := by
  induction p with
  | ret a => rfl
  | stop e => rfl
  | call o k ih =>
      rw [call_bind, handle_call, handle_call, bind_assoc]
      exact congrArg (h o >>= ·) (funext ih)

theorem uses_handle {allowed : O → Prop} {allowed' : O' → Prop} {p : Prog O A E α}
    (hp : p.Uses allowed) (each : ∀ o, allowed o → (h o).Uses allowed') :
    (handle h p).Uses allowed' := by
  induction p with
  | ret _ | stop _ => trivial
  | call o k ih => exact uses_bind (each o hp.1) (fun r => ih r (hp.2 r))

/-- If every operation is carried out with its own answer, the program runs as it is. -/
theorem run_handle {S S' : Type} {exec : S → (o : O) → A o × S}
    {exec' : S' → (o : O') → A' o × S'} {allowed : O → Prop} {R : S → S' → Prop}
    {p : Prog O A E α} (hp : p.Uses allowed)
    (each : ∀ s s' o, allowed o → R s s' →
      ∃ t', run exec' s' (h o) = (.ok (exec s o).1, t') ∧ R (exec s o).2 t')
    {s : S} {s' : S'} (hs : R s s') :
    ∃ t', run exec' s' (handle h p) = ((run exec s p).1, t') ∧ R (run exec s p).2 t' := by
  induction p generalizing s s' with
  | ret _ | stop _ => exact ⟨s', rfl, hs⟩
  | call o k ih =>
      obtain ⟨t', hrun, ht⟩ := each s s' o hp.1 hs
      rw [handle_call, run_bind, hrun]
      exact ih _ (hp.2 _) ht

end Handle

end Prog
end Interleaving
