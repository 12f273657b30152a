-- SUMMARY: Views of a state: programs whose actions show in a view, alone and among programs whose actions do not.
import Memgw.Library.Interference

/-!
# Views

A view keeps a part of a state. An action shows in it when it does to the part what it
does to the whole, with the same answer. Programs whose actions show can be watched in
the view alone: among programs whose actions do not show there, they run as they would
without these, in an environment that moves as little as what is left of the others.
-/

variable {Op : Type} {Ans : Op → Type} {ε ι α β S : Type}

/-- The action answers in the view as it does, and leaves the view of what it leaves. -/
def ShowsIn (h : Handler Ans ε S) (v : S → S) (op : Op) (s : S) : Prop :=
  h op (v s) = ((h op s).1, v (h op s).2)

/-! ## One program -/

namespace Prog

/-- The actions of the run from `s` satisfy `C` where they happen. -/
def Along (h : Handler Ans ε S) (C : Op → S → Prop) : Prog Ans ε α → S → Prop
  | .ret _, _ => True
  | .raise _, _ => True
  | .act op k, s => C op s ∧ (k (h op s).1).Along h C (h op s).2

variable {h : Handler Ans ε S} {C : Op → S → Prop} {s : S}

theorem along_perform {op : Op} (hop : C op s) :
    (perform op : Prog Ans ε (Ans op)).Along h C s := by
  refine ⟨hop, ?_⟩
  cases (h op s).1 <;> trivial

theorem along_bind {p : Prog Ans ε α} {f : α → Prog Ans ε β} (hp : p.Along h C s)
    (hf : ∀ a, (p.run h s).1 = .ok a → (f a).Along h C (p.run h s).2) : (p.bind f).Along h C s := by
  induction p generalizing s with
  | ret a => exact hf a rfl
  | raise e => trivial
  | act op k ih => exact ⟨hp.1, ih _ hp.2 hf⟩

/-- An action, and what follows when it is answered. -/
theorem along_perform_bind {op : Op} {f : Ans op → Prog Ans ε β} (hop : C op s)
    (hf : ∀ a, (h op s).1 = .ok a → (f a).Along h C (h op s).2) :
    ((perform op).bind f).Along h C s := by
  refine along_bind (along_perform hop) fun a ha => ?_
  rw [run_perform] at ha ⊢
  exact hf a ha

/-- A program whose actions show runs in the view as it does. -/
theorem run_view {v : S → S} {p : Prog Ans ε α} (hp : p.Along h (ShowsIn h v) s) :
    p.run h (v s) = ((p.run h s).1, v (p.run h s).2) := by
  induction p generalizing s with
  | ret a => rfl
  | raise e => rfl
  | act op k ih =>
    obtain ⟨hop, hk⟩ := hp
    have hstep : (act op k).run h (v s) = (k (h op s).1).run h (v (h op s).2) := by
      rw [run, show h op (v s) = _ from hop]
    exact hstep.trans (ih _ hk)

/-- What each action relates, a run relates. -/
theorem run_related {R : S → S → Prop} {p : Prog Ans ε α} (hrefl : ∀ s, R s s)
    (htrans : ∀ s t u, R s t → R t u → R s u) (hp : p.Along h (fun op s => R s (h op s).2) s) :
    R s (p.run h s).2 := by
  induction p generalizing s with
  | ret a => exact hrefl s
  | raise e => exact hrefl s
  | act op k ih => exact htrans _ _ _ hp.1 (ih _ hp.2)

theorem Along.mono {D : Op → S → Prop} {p : Prog Ans ε α} (hp : p.Along h C s)
    (hCD : ∀ op s, C op s → D op s) : p.Along h D s := by
  induction p generalizing s with
  | ret a => trivial
  | raise e => trivial
  | act op k ih => exact ⟨hCD _ _ hp.1, ih _ hp.2⟩

end Prog

/-! ## A pool -/

section

variable [DecidableEq ι]

/-- A run of programs in an environment that moves by `R` before each of their actions
    and at the end. -/
inductive Alongside (h : Handler Ans ε S) (R : S → S → Prop) :
    (ι → Prog Ans ε α) → S → List (Event Ans ε ι) → (ι → Prog Ans ε α) → S → Prop where
  | done {pool : ι → Prog Ans ε α} {s s' : S} (hR : R s s') : Alongside h R pool s [] pool s'
  | step {pool pool' : ι → Prog Ans ε α} {s t s' : S} {es : List (Event Ans ε ι)} {i : ι} {op : Op}
      {k : Except ε (Ans op) → Prog Ans ε α} (hR : R s t) (hi : pool i = .act op k)
      (rest : Alongside h R (Function.update pool i (k (h op t).1)) (h op t).2 es pool' s') :
      Alongside h R pool s (⟨i, ⟨op, (h op t).1⟩⟩ :: es) pool' s'

variable {h : Handler Ans ε S} {R : S → S → Prop} {pool pool' : ι → Prog Ans ε α} {s s' t : S}
  {es : List (Event Ans ε ι)}

/-- The environment may have moved already. -/
theorem Alongside.after (htrans : ∀ s t u, R s t → R t u → R s u) (hR : R s t)
    (hx : Alongside h R pool t es pool' s') : Alongside h R pool s es pool' s' := by
  cases hx with
  | done hR' => exact .done (htrans _ _ _ hR hR')
  | step hR' hi rest => exact .step (htrans _ _ _ hR hR') hi rest

/-- What some programs of a pool do, they do without the others as well, if their
    actions show in a view in which those of the others leave no more than a move. -/
theorem exec_view {v : S → S} {P : ι → Prop} [DecidablePred P]
    (hx : Exec h pool s es pool' s') (hrefl : ∀ s, R s s)
    (htrans : ∀ s t u, R s t → R t u → R s u)
    (hshows : ∀ es₁ e es₂, es = es₁ ++ e :: es₂ → P e.who → ShowsIn h v e.step.1 (replay h es₁ s))
    (hmoves : ∀ es₁ e es₂, es = es₁ ++ e :: es₂ → ¬ P e.who →
      R (v (replay h es₁ s)) (v (replay h (es₁ ++ [e]) s)))
    {part : ι → Prog Ans ε α} (hpart : ∀ i, P i → part i = pool i) :
    ∃ part', (∀ i, P i → part' i = pool' i) ∧
      Alongside h R part (v s) (es.filter fun e => P e.who) part' (v s') := by
  induction hx generalizing part with
  | done => exact ⟨part, hpart, .done (hrefl _)⟩
  | @step pool pool' s s' es i op k hi _ ih =>
    have htail : ∀ es₁ e es₂, es = es₁ ++ e :: es₂ →
        (⟨i, ⟨op, (h op s).1⟩⟩ : Event Ans ε ι) :: es = (⟨i, ⟨op, (h op s).1⟩⟩ :: es₁) ++ e :: es₂ :=
      fun _ _ _ hes => congrArg _ hes
    have hrest := @ih (fun es₁ e es₂ hes => hshows _ _ _ (htail es₁ e es₂ hes))
      (fun es₁ e es₂ hes => hmoves _ _ _ (htail es₁ e es₂ hes))
    by_cases hP : P i
    · obtain ⟨part', hpart', hrun⟩ := @hrest (Function.update part i (k (h op s).1)) (by
        intro j hj
        by_cases hji : j = i
        · rw [hji, Function.update_self, Function.update_self]
        · rw [Function.update_of_ne hji, Function.update_of_ne hji, hpart j hj])
      have hop : h op (v s) = _ := hshows [] _ es rfl hP
      have hstep : Alongside h R part (v s) (⟨i, ⟨op, (h op (v s)).1⟩⟩ ::
          es.filter fun e => P e.who) part' (v s') :=
        .step (hrefl (v s)) ((hpart i hP).trans hi) (by rw [hop]; exact hrun)
      rw [hop] at hstep
      rw [List.filter_cons_of_pos (by simpa using hP)]
      exact ⟨part', hpart', hstep⟩
    · obtain ⟨part', hpart', hrun⟩ := @hrest part (by
        intro j hj
        have hji : j ≠ i := fun h => hP (h ▸ hj)
        rw [Function.update_of_ne hji, hpart j hj])
      rw [List.filter_cons_of_neg (by simpa using hP)]
      exact ⟨part', hpart', hrun.after htrans (hmoves [] _ es rfl hP)⟩

end
