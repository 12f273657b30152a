-- SUMMARY: Batches that take one step for each item: what is left of one that raised.
import Memgw.Library.Program
import Mathlib.Data.Set.Basic

/-!
# Batches

A batch takes one step for each of its items, in order, and collects what the steps
return. When a step raises, the batch raises, and what the steps before it did stays
done. Here every step that returns adds something to what the state holds, so that a
batch that raised has left nothing behind exactly when its first step was the one that
raised, and had added nothing itself.
-/

namespace Prog

variable {Op : Type} {Ans : Op → Type} {ε ι β S E : Type}

def batch (step : ι → Prog Ans ε (List β)) : List ι → Prog Ans ε (List β)
  | [] => .ret []
  | i :: is => (step i).bind fun added => (batch step is).bind fun out => .ret (added ++ out)

/-- Steps that put something new into what the state holds, and take nothing out. -/
structure Adds (h : Handler Ans ε S) (holds : S → Set E) (step : ι → Prog Ans ε (List β)) :
    Prop where
  returns : ∀ i s a s', (step i).run h s = (.ok a, s') →
    holds s ⊆ holds s' ∧ ∃ x ∈ holds s', x ∉ holds s
  raises : ∀ i s e s', (step i).run h s = (.error e, s') → holds s ⊆ holds s'

variable {h : Handler Ans ε S} {holds : S → Set E} {step : ι → Prog Ans ε (List β)}

/-- How a batch with a first item ends: its first step raised, or the rest goes on from
    what that step left. -/
theorem run_batch_cons {i : ι} {is : List ι} {s s' : S} {r : Except ε (List β)}
    (hrun : (batch step (i :: is)).run h s = (r, s')) :
    (∃ e, (step i).run h s = (.error e, s') ∧ r = .error e) ∨
      ∃ a s₁ r₁, (step i).run h s = (.ok a, s₁) ∧ (batch step is).run h s₁ = (r₁, s') ∧
        r = r₁.map (a ++ ·) := by
  rw [batch, run_bind] at hrun
  cases hstep : (step i).run h s with
  | mk r₀ s₁ =>
    rw [hstep] at hrun
    cases r₀ with
    | error e =>
      obtain ⟨rfl, rfl⟩ := Prod.mk.inj hrun
      exact .inl ⟨e, rfl, rfl⟩
    | ok a =>
      simp only [run_bind] at hrun
      cases hrest : (batch step is).run h s₁ with
      | mk r₁ s₂ =>
        rw [hrest] at hrun
        cases r₁ with
        | error e =>
          obtain ⟨rfl, rfl⟩ := Prod.mk.inj hrun
          exact .inr ⟨a, s₁, _, rfl, hrest, rfl⟩
        | ok out =>
          obtain ⟨rfl, rfl⟩ := Prod.mk.inj hrun
          exact .inr ⟨a, s₁, _, rfl, hrest, rfl⟩

/-- However a batch ends, it takes nothing out. -/
theorem Adds.grows (hadds : Adds h holds step) {is : List ι} {s s' : S}
    {r : Except ε (List β)} (hrun : (batch step is).run h s = (r, s')) : holds s ⊆ holds s' := by
  induction is generalizing s r with
  | nil =>
    obtain ⟨-, rfl⟩ := Prod.mk.inj hrun
    exact subset_rfl
  | cons i is ih =>
    rcases run_batch_cons hrun with ⟨e, hstep, -⟩ | ⟨a, s₁, r₁, hstep, hrest, -⟩
    · exact hadds.raises i s e s' hstep
    · exact (hadds.returns i s a s₁ hstep).1.trans (ih hrest)

/-- A batch whose first step returned has left something behind. -/
theorem Adds.leaves (hadds : Adds h holds step) {i : ι} {is : List ι} {s s' : S}
    {r : Except ε (List β)} (hrun : (batch step (i :: is)).run h s = (r, s')) {a : List β}
    (hfirst : ((step i).run h s).1 = .ok a) : holds s' ≠ holds s := by
  rcases run_batch_cons hrun with ⟨e, hstep, -⟩ | ⟨a', s₁, r₁, hstep, hrest, -⟩
  · rw [hstep] at hfirst
    cases hfirst
  · obtain ⟨x, hx, hnew⟩ := (hadds.returns i s a' s₁ hstep).2
    exact fun heq => hnew (heq ▸ hadds.grows hrest hx)

/-- A batch that ended has left nothing behind exactly when it had no items, or its
    first step raised and had added nothing. -/
theorem Adds.leaves_nothing_iff (hadds : Adds h holds step) {is : List ι} {s s' : S}
    {r : Except ε (List β)} (hrun : (batch step is).run h s = (r, s')) :
    holds s' = holds s ↔ ∀ i ∈ is.head?, (∃ e, ((step i).run h s).1 = .error e) ∧
      holds ((step i).run h s).2 = holds s := by
  cases is with
  | nil =>
    obtain ⟨-, rfl⟩ := Prod.mk.inj hrun
    simp
  | cons i is =>
    simp only [List.head?_cons, Option.mem_some_iff, forall_eq']
    cases hfirst : ((step i).run h s).1 with
    | ok a =>
      have hleft := hadds.leaves hrun hfirst
      simp [hleft]
    | error e =>
      rcases run_batch_cons hrun with ⟨e', hstep, -⟩ | ⟨a, s₁, r₁, hstep, -⟩
      · simp [hstep]
      · rw [hstep] at hfirst
        cases hfirst

end Prog
