-- SUMMARY: Programs of atomic actions that may raise: syntax, sequential runs, and weakest preconditions.
import Mathlib.Tactic.Common

/-!
# Programs of atomic actions

A program is a tree: it returns, it raises, or it performs one atomic action and
continues with whatever that action answered. An action may answer with an
exception, and what the program does then is part of the tree.

The tree says nothing about what an action does. A `Handler` gives that meaning
over a state, so that one program text has a sequential run here and its
interleavings with other programs in `Interleaving`.
-/

/-- Programs over the actions `Op`, whose answers have type `Ans op`. -/
inductive Prog {Op : Type} (Ans : Op → Type) (ε α : Type) : Type where
  | ret (a : α) : Prog Ans ε α
  | raise (e : ε) : Prog Ans ε α
  | act (op : Op) (k : Except ε (Ans op) → Prog Ans ε α) : Prog Ans ε α

/-- What the actions do to a state. An action that raises may still have
    changed the state. -/
abbrev Handler {Op : Type} (Ans : Op → Type) (ε S : Type) : Type :=
  (op : Op) → S → Except ε (Ans op) × S

namespace Prog

variable {Op : Type} {Ans : Op → Type} {ε α β γ S : Type}

/-! ## Combinators -/

def bind : Prog Ans ε α → (α → Prog Ans ε β) → Prog Ans ε β
  | .ret a, f => f a
  | .raise e, _ => .raise e
  | .act op k, f => .act op (fun r => (k r).bind f)

instance : Monad (Prog Ans ε) where
  pure := .ret
  bind := .bind

/-- Perform one action and pass on its answer. -/
def perform (op : Op) : Prog Ans ε (Ans op) :=
  .act op fun
    | .ok a => .ret a
    | .error e => .raise e

/-- A computed result, with no action behind it. -/
def ofExcept : Except ε α → Prog Ans ε α
  | .ok a => .ret a
  | .error e => .raise e

/-- Run a program and hand over its outcome, raised or not. -/
def attempt : Prog Ans ε α → Prog Ans ε (Except ε α)
  | .ret a => .ret (.ok a)
  | .raise e => .ret (.error e)
  | .act op k => .act op (fun r => (k r).attempt)

/-- `try p except e: h e`. -/
def tryCatch (p : Prog Ans ε α) (h : ε → Prog Ans ε α) : Prog Ans ε α :=
  p.attempt.bind fun
    | .ok a => .ret a
    | .error e => h e

@[simp] theorem bind_eq (p : Prog Ans ε α) (f : α → Prog Ans ε β) : (p >>= f) = p.bind f := rfl
@[simp] theorem pure_eq (a : α) : (pure a : Prog Ans ε α) = .ret a := rfl
@[simp] theorem ret_bind (a : α) (f : α → Prog Ans ε β) : (ret a : Prog Ans ε α).bind f = f a := rfl

theorem bind_assoc (p : Prog Ans ε α) (f : α → Prog Ans ε β) (g : β → Prog Ans ε γ) :
    (p.bind f).bind g = p.bind fun a => (f a).bind g := by
  induction p with
  | ret a => rfl
  | raise e => rfl
  | act op k ih => exact congrArg (act op) (funext ih)

/-! ## Sequential runs -/

/-- Run a program alone: its outcome and the state it leaves. -/
def run (h : Handler Ans ε S) : Prog Ans ε α → S → Except ε α × S
  | .ret a, s => (.ok a, s)
  | .raise e, s => (.error e, s)
  | .act op k, s => (k (h op s).1).run h (h op s).2

theorem run_bind (h : Handler Ans ε S) (p : Prog Ans ε α) (f : α → Prog Ans ε β) (s : S) :
    (p.bind f).run h s = match p.run h s with
      | (.ok a, s') => (f a).run h s'
      | (.error e, s') => (.error e, s') := by
  induction p generalizing s with
  | ret a => rfl
  | raise e => rfl
  | act op k ih => exact ih (h op s).1 (h op s).2

theorem run_attempt (h : Handler Ans ε S) (p : Prog Ans ε α) (s : S) :
    p.attempt.run h s = (.ok (p.run h s).1, (p.run h s).2) := by
  induction p generalizing s with
  | ret a => rfl
  | raise e => rfl
  | act op k ih => exact ih (h op s).1 (h op s).2

theorem run_tryCatch (h : Handler Ans ε S) (p : Prog Ans ε α) (f : ε → Prog Ans ε α) (s : S) :
    (p.tryCatch f).run h s = match p.run h s with
      | (.ok a, s') => (.ok a, s')
      | (.error e, s') => (f e).run h s' := by
  rw [tryCatch, run_bind, run_attempt]
  cases hp : p.run h s with
  | mk r s' => cases r <;> rfl

theorem run_perform (h : Handler Ans ε S) (op : Op) (s : S) :
    (perform op : Prog Ans ε (Ans op)).run h s = h op s := by
  simp only [perform, run]
  cases hop : h op s with
  | mk r s' => cases r <;> rfl

/-- An action that is answered hands its answer to the rest of the program. -/
theorem run_perform_bind {h : Handler Ans ε S} {op : Op} {f : Ans op → Prog Ans ε β} {s : S}
    {a : Ans op} (ha : (h op s).1 = .ok a) :
    ((perform op).bind f).run h s = (f a).run h (h op s).2 := by
  rw [run_bind, run_perform]
  generalize h op s = result at ha
  obtain ⟨r, s'⟩ := result
  obtain rfl := ha
  rfl

/-- The weakest precondition of an outcome predicate. It is `run` read as a
    predicate transformer, which is the form in which programs compose. -/
def wp (h : Handler Ans ε S) (p : Prog Ans ε α) (Q : Except ε α → S → Prop) (s : S) : Prop :=
  Q (p.run h s).1 (p.run h s).2

variable {h : Handler Ans ε S} {s : S}

@[simp] theorem wp_ret {a : α} {Q : Except ε α → S → Prop} :
    (ret a : Prog Ans ε α).wp h Q s ↔ Q (.ok a) s := Iff.rfl

@[simp] theorem wp_raise {e : ε} {Q : Except ε α → S → Prop} :
    (raise e : Prog Ans ε α).wp h Q s ↔ Q (.error e) s := Iff.rfl

theorem wp_act {op : Op} {k : Except ε (Ans op) → Prog Ans ε α} {Q : Except ε α → S → Prop} :
    (act op k).wp h Q s ↔ (k (h op s).1).wp h Q (h op s).2 := Iff.rfl

theorem wp_perform {op : Op} {Q : Except ε (Ans op) → S → Prop} :
    (perform op : Prog Ans ε (Ans op)).wp h Q s ↔ Q (h op s).1 (h op s).2 := by
  simp only [perform, wp_act]
  cases (h op s).1 <;> rfl

theorem wp_mono {p : Prog Ans ε α} {P Q : Except ε α → S → Prop}
    (hPQ : ∀ r s', P r s' → Q r s') (hp : p.wp h P s) : p.wp h Q s :=
  hPQ _ _ hp

/-- A run that is known decides every postcondition. -/
theorem wp_of_run {p : Prog Ans ε α} {Q : Except ε α → S → Prop} {r : Except ε α} {s' : S}
    (hrun : p.run h s = (r, s')) (hQ : Q r s') : p.wp h Q s := by
  unfold wp
  rw [hrun]
  exact hQ

/-- What was established of a program holds of each of its runs. -/
theorem of_wp {p : Prog Ans ε α} {Q : Except ε α → S → Prop} {r : Except ε α} {s' : S}
    (hp : p.wp h Q s) (hrun : p.run h s = (r, s')) : Q r s' := by
  unfold wp at hp
  rwa [hrun] at hp

theorem wp_and {p : Prog Ans ε α} {P Q : Except ε α → S → Prop}
    (hP : p.wp h P s) (hQ : p.wp h Q s) : p.wp h (fun r s' => P r s' ∧ Q r s') s :=
  ⟨hP, hQ⟩

/-- What a sequence of two programs must establish: the second one continues
    from a returned value, and a raised exception skips it. -/
theorem wp_bind {p : Prog Ans ε α} {f : α → Prog Ans ε β} {Q : Except ε β → S → Prop} :
    (p.bind f).wp h Q s ↔
      p.wp h (fun r s' => match r with
        | .ok a => (f a).wp h Q s'
        | .error e => Q (.error e) s') s := by
  induction p generalizing s with
  | ret a => exact Iff.rfl
  | raise e => exact Iff.rfl
  | act op k ih => exact ih (h op s).1

theorem wp_attempt {p : Prog Ans ε α} {Q : Except ε (Except ε α) → S → Prop} :
    p.attempt.wp h Q s ↔ p.wp h (fun r s' => Q (.ok r) s') s := by
  induction p generalizing s with
  | ret a => exact Iff.rfl
  | raise e => exact Iff.rfl
  | act op k ih => exact ih (h op s).1

theorem wp_tryCatch {p : Prog Ans ε α} {f : ε → Prog Ans ε α} {Q : Except ε α → S → Prop} :
    (p.tryCatch f).wp h Q s ↔
      p.wp h (fun r s' => match r with
        | .ok a => Q (.ok a) s'
        | .error e => (f e).wp h Q s') s := by
  simp only [tryCatch, wp_bind, wp_attempt]
  constructor <;> intro hp <;> refine wp_mono (fun r s' hr => ?_) hp <;> cases r <;> exact hr

/-- Sequencing with a stated intermediate assertion. -/
theorem wp_bind_of {p : Prog Ans ε α} {f : α → Prog Ans ε β} {Q : Except ε β → S → Prop}
    {R : Except ε α → S → Prop} (hp : p.wp h R s)
    (hok : ∀ a s', R (.ok a) s' → (f a).wp h Q s')
    (herr : ∀ e s', R (.error e) s' → Q (.error e) s') : (p.bind f).wp h Q s := by
  rw [wp_bind]
  refine wp_mono (fun r s' hr => ?_) hp
  cases r with
  | ok a => exact hok a s' hr
  | error e => exact herr e s' hr

/-! ## The actions a program may perform -/

/-- Every action the program can perform, on any answers, satisfies `A`. -/
def Within (A : Op → Prop) : Prog Ans ε α → Prop
  | .ret _ => True
  | .raise _ => True
  | .act op k => A op ∧ ∀ r, (k r).Within A

variable {A : Op → Prop}

@[simp] theorem within_ofExcept {x : Except ε α} : (ofExcept x : Prog Ans ε α).Within A := by
  cases x <;> trivial

theorem Within.mono {B : Op → Prop} {p : Prog Ans ε α} (hp : p.Within A)
    (hAB : ∀ op, A op → B op) : p.Within B := by
  induction p with
  | ret a => trivial
  | raise e => trivial
  | act op k ih => exact ⟨hAB op hp.1, fun r => ih r (hp.2 r)⟩

theorem within_perform {op : Op} (hop : A op) : (perform op : Prog Ans ε (Ans op)).Within A :=
  ⟨hop, fun r => by cases r <;> trivial⟩

theorem within_bind {p : Prog Ans ε α} {f : α → Prog Ans ε β} (hp : p.Within A)
    (hf : ∀ a, (f a).Within A) : (p.bind f).Within A := by
  induction p with
  | ret a => exact hf a
  | raise e => trivial
  | act op k ih => exact ⟨hp.1, fun r => ih r (hp.2 r)⟩

theorem within_attempt {p : Prog Ans ε α} (hp : p.Within A) : p.attempt.Within A := by
  induction p with
  | ret a => trivial
  | raise e => trivial
  | act op k ih => exact ⟨hp.1, fun r => ih r (hp.2 r)⟩

theorem within_tryCatch {p : Prog Ans ε α} {f : ε → Prog Ans ε α} (hp : p.Within A)
    (hf : ∀ e, (f e).Within A) : (p.tryCatch f).Within A := by
  refine within_bind (within_attempt hp) (fun r => ?_)
  cases r with
  | ok a => trivial
  | error e => exact hf e

theorem within_any {p : Prog Ans ε α} : p.Within fun _ => True := by
  induction p with
  | ret a => trivial
  | raise e => trivial
  | act op k ih => exact ⟨trivial, ih⟩

/-- An invariant that every permitted action keeps is kept by the whole run,
    however it ends. -/
theorem run_invariant {p : Prog Ans ε α} {I : S → Prop}
    (hA : ∀ op s, A op → I s → I (h op s).2) (hp : p.Within A) (hs : I s) :
    I (p.run h s).2 := by
  induction p generalizing s with
  | ret a => exact hs
  | raise e => exact hs
  | act op k ih => exact ih _ (hp.2 _) (hA op s hp.1 hs)

end Prog
