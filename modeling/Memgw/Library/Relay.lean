-- SUMMARY: Exceptions that a program passes on: it ends with one exactly when one of its actions was answered with it.
import Memgw.Library.Interleaving

/-!
# Exceptions that are passed on

Handlers catch some exceptions and let others by. A program relays an exception when it
never raises it of its own accord and no handler in it stops it, whatever its actions
are answered.
-/

namespace Prog

variable {Op : Type} {Ans : Op → Type} {ε α β : Type}

/-- The program ends with `c` exactly when a step was answered with `c`. -/
def Relays (c : ε) (p : Prog Ans ε α) : Prop :=
  ∀ steps out, p.Ends steps out → (out = .error c ↔ ∃ st ∈ steps, st.2 = .error c)

variable {c : ε}

theorem relays_ret {a : α} : (ret a : Prog Ans ε α).Relays c := by
  intro steps out h
  obtain ⟨rfl, rfl⟩ := ends_ret.mp h
  simp

theorem relays_raise {e : ε} (he : e ≠ c) : (raise e : Prog Ans ε α).Relays c := by
  intro steps out h
  obtain ⟨rfl, rfl⟩ := ends_raise.mp h
  simpa using he

theorem relays_ofExcept {x : Except ε α} (hx : x ≠ .error c) :
    (ofExcept x : Prog Ans ε α).Relays c := by
  intro steps out h
  obtain ⟨rfl, rfl⟩ := ends_ofExcept.mp h
  simpa using hx

theorem relays_perform {op : Op} : (perform op : Prog Ans ε (Ans op)).Relays c := by
  intro steps out h
  obtain rfl := ends_perform.mp h
  simp

theorem relays_bind {p : Prog Ans ε α} {f : α → Prog Ans ε β} (hp : p.Relays c)
    (hf : ∀ a, (f a).Relays c) : (p.bind f).Relays c := by
  intro steps out h
  rcases ends_bind.mp h with ⟨a, pre, post, rfl, hpre, hpost⟩ | ⟨e, rfl, he⟩
  · have hquiet : ¬ ∃ st ∈ pre, st.2 = .error c := by
      rw [← hp pre _ hpre]
      simp
    rw [hf a post out hpost]
    constructor
    · rintro ⟨st, hst, hc⟩
      exact ⟨st, List.mem_append_right _ hst, hc⟩
    · rintro ⟨st, hst, hc⟩
      rcases List.mem_append.mp hst with hst | hst
      · exact absurd ⟨st, hst, hc⟩ hquiet
      · exact ⟨st, hst, hc⟩
  · rw [← hp steps _ he]
    simp

/-- A program that looks at the outcome of another one relays what that one was
    answered, if it raises it again. -/
theorem relays_attempt_bind {p : Prog Ans ε α} {f : Except ε α → Prog Ans ε β} (hp : p.Relays c)
    (hc : f (.error c) = .raise c) (hf : ∀ r, r ≠ .error c → (f r).Relays c) :
    (p.attempt.bind f).Relays c := by
  intro steps out h
  rcases ends_bind.mp h with ⟨r, pre, post, rfl, hpre, hpost⟩ | ⟨e, rfl, he⟩
  · obtain ⟨r', hr, hends⟩ := ends_attempt.mp hpre
    obtain rfl := Except.ok.inj hr
    have hseen := hp pre r hends
    by_cases hrc : r = .error c
    · subst hrc
      rw [hc] at hpost
      obtain ⟨rfl, rfl⟩ := ends_raise.mp hpost
      simpa using hseen.mp rfl
    · rw [hf r hrc post out hpost]
      constructor
      · rintro ⟨st, hst, hst'⟩
        exact ⟨st, List.mem_append_right _ hst, hst'⟩
      · rintro ⟨st, hst, hst'⟩
        rcases List.mem_append.mp hst with hst | hst
        · exact absurd (hseen.mpr ⟨st, hst, hst'⟩) hrc
        · exact ⟨st, hst, hst'⟩
  · obtain ⟨r, hr, -⟩ := ends_attempt.mp he
    cases hr

/-- A handler that raises it again relays it. -/
theorem relays_tryCatch {p : Prog Ans ε α} {h : ε → Prog Ans ε α} (hp : p.Relays c)
    (hc : h c = .raise c) (hh : ∀ e, e ≠ c → (h e).Relays c) : (p.tryCatch h).Relays c := by
  refine relays_attempt_bind hp hc fun r hr => ?_
  cases r with
  | ok a => exact relays_ret
  | error e => exact hh e fun he => hr (by rw [he])

/-! ## Nothing is caught -/

/-- Whatever an action raises ends the program. -/
def Strict : Prog Ans ε α → Prop
  | .ret _ | .raise _ => True
  | .act _ k => (∀ e, k (.error e) = .raise e) ∧ ∀ a, (k (.ok a)).Strict

theorem strict_perform {op : Op} : (perform op : Prog Ans ε (Ans op)).Strict :=
  ⟨fun _ => rfl, fun _ => trivial⟩

theorem strict_bind {p : Prog Ans ε α} {f : α → Prog Ans ε β} (hp : p.Strict)
    (hf : ∀ a, (f a).Strict) : (p.bind f).Strict := by
  induction p with
  | ret a => exact hf a
  | raise e => trivial
  | act op k ih =>
    refine ⟨fun e => ?_, fun a => ih (.ok a) (hp.2 a)⟩
    show (k (.error e)).bind f = .raise e
    rw [hp.1 e]
    rfl

/-- After an action that raised, a strict program has nothing left to do. -/
theorem Strict.after {op : Op} {k : Except ε (Ans op) → Prog Ans ε α}
    (h : (act op k : Prog Ans ε α).Strict) (r : Except ε (Ans op)) : (k r).Strict := by
  cases r with
  | ok a => exact h.2 a
  | error e => rw [h.1 e]; trivial

end Prog
