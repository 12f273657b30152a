-- SUMMARY: Sequences of computations that return or raise, taken apart by their outcome.
import Mathlib.Tactic.Basic

/-!
# Results

What a sequence of fallible computations returned or raised says about its parts.
-/

section Results

variable {ε α β : Type} {x : Except ε α}

/-- A sequence returns what its second part returns on the value of its first. -/
theorem bind_ok_iff {f : α → Except ε β} {b : β} :
    (x >>= f) = .ok b ↔ ∃ a, x = .ok a ∧ f a = .ok b := by
  cases x with
  | ok a => simp [bind, Except.bind]
  | error e => simp [bind, Except.bind]

/-- It raises what one of its parts raises. -/
theorem bind_error_iff {f : α → Except ε β} {e : ε} :
    (x >>= f) = .error e ↔ x = .error e ∨ ∃ a, x = .ok a ∧ f a = .error e := by
  cases x with
  | ok a => simp [bind, Except.bind]
  | error e => simp [bind, Except.bind]

theorem map_ok_iff {f : α → β} {b : β} : f <$> x = .ok b ↔ ∃ a, x = .ok a ∧ f a = b := by
  cases x with
  | ok a => simp [Functor.map, Except.map]
  | error e => simp [Functor.map, Except.map]

/-- A loop of checks that passes has passed each of them. -/
theorem forM_ok {f : α → Except ε Unit} {xs : List α} (h : xs.forM f = .ok ()) :
    ∀ x ∈ xs, f x = .ok () := by
  induction xs with
  | nil => intro x hx; cases hx
  | cons x xs ih =>
    obtain ⟨u, hx, hrest⟩ := bind_ok_iff.mp h
    exact List.forall_mem_cons.mpr ⟨hx, ih hrest⟩

end Results
