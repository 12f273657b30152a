-- SUMMARY: The steps that a program takes when it runs alone, and weakest preconditions that see some of them.
import Memgw.Library.Interleaving

/-!
# Runs of one program, with their steps

`run` says how a program ends and in which state. What it did on the way, such as the
calls it made to the outside, is its trace. `wpSeen` reads a run as a predicate
transformer, as `wp` does, and shows the predicate those steps that a filter picks. A
part of the program that takes no such step is done with the rules of `wp`.
-/

namespace Prog

variable {Op : Type} {Ans : Op → Type} {ε α β S : Type}

/-- The steps of a run alone, each with its answer. -/
def trace (h : Handler Ans ε S) : Prog Ans ε α → S → List (Step Ans ε)
  | .ret _, _ => []
  | .raise _, _ => []
  | .act op k, s => ⟨op, (h op s).1⟩ :: (k (h op s).1).trace h (h op s).2

/-- A run alone is a complete run with these steps. -/
theorem ends_trace (h : Handler Ans ε S) {p : Prog Ans ε α} (s : S) :
    p.Ends (p.trace h s) (p.run h s).1 := by
  induction p generalizing s with
  | ret a => exact .ret
  | raise e => exact .raise
  | act op k ih => exact .act (ih _ _)

/-- Each step of a run alone has the answer of the handler. -/
theorem trace_answer {h : Handler Ans ε S} {p : Prog Ans ε α} {s : S} {st : Step Ans ε}
    (hst : st ∈ p.trace h s) : ∃ s', st.2 = (h st.1 s').1 := by
  induction p generalizing s with
  | ret a => cases hst
  | raise e => cases hst
  | act op k ih =>
    rcases List.mem_cons.mp hst with rfl | hst
    · exact ⟨s, rfl⟩
    · exact ih _ hst

/-- The weakest precondition of a predicate on the outcome and the steps that `P` picks. -/
def wpSeen (h : Handler Ans ε S) (P : Step Ans ε → Bool) (p : Prog Ans ε α)
    (Q : List (Step Ans ε) → Except ε α → S → Prop) (s : S) : Prop :=
  Q ((p.trace h s).filter P) (p.run h s).1 (p.run h s).2

variable {h : Handler Ans ε S} {P : Step Ans ε → Bool} {s : S}

@[simp] theorem wpSeen_ret {a : α} {Q : List (Step Ans ε) → Except ε α → S → Prop} :
    (ret a : Prog Ans ε α).wpSeen h P Q s ↔ Q [] (.ok a) s := Iff.rfl

theorem wpSeen_act {op : Op} {k : Except ε (Ans op) → Prog Ans ε α}
    {Q : List (Step Ans ε) → Except ε α → S → Prop} :
    (act op k).wpSeen h P Q s ↔ (k (h op s).1).wpSeen h P
      (fun post => Q (if P ⟨op, (h op s).1⟩ then ⟨op, (h op s).1⟩ :: post else post))
      (h op s).2 := by
  simp only [wpSeen, trace, run, List.filter_cons]

theorem wpSeen_mono {p : Prog Ans ε α} {Q R : List (Step Ans ε) → Except ε α → S → Prop}
    (hQR : ∀ steps r s', Q steps r s' → R steps r s') (hp : p.wpSeen h P Q s) :
    p.wpSeen h P R s :=
  hQR _ _ _ hp

theorem wpSeen_perform {op : Op} {Q : List (Step Ans ε) → Except ε (Ans op) → S → Prop} :
    (perform op : Prog Ans ε (Ans op)).wpSeen h P Q s ↔
      Q (if P ⟨op, (h op s).1⟩ then [⟨op, (h op s).1⟩] else []) (h op s).1 (h op s).2 := by
  simp only [perform, wpSeen_act]
  cases (h op s).1 <;> rfl

/-- The second part of a sequence adds its steps to those of the first. -/
theorem wpSeen_bind {p : Prog Ans ε α} {f : α → Prog Ans ε β}
    {Q : List (Step Ans ε) → Except ε β → S → Prop} :
    (p.bind f).wpSeen h P Q s ↔
      p.wpSeen h P (fun pre r s' => match r with
        | .ok a => (f a).wpSeen h P (fun post => Q (pre ++ post)) s'
        | .error e => Q pre (.error e) s') s := by
  induction p generalizing s Q with
  | ret a => exact Iff.rfl
  | raise e => exact Iff.rfl
  | act op k ih =>
    rw [show (act op k).bind f = act op fun r => (k r).bind f from rfl, wpSeen_act, wpSeen_act, ih]
    split <;> rfl

theorem wpSeen_attempt {p : Prog Ans ε α}
    {Q : List (Step Ans ε) → Except ε (Except ε α) → S → Prop} :
    p.attempt.wpSeen h P Q s ↔ p.wpSeen h P (fun steps r => Q steps (.ok r)) s := by
  induction p generalizing s Q with
  | ret a => exact Iff.rfl
  | raise e => exact Iff.rfl
  | act op k ih =>
    rw [show (act op k).attempt = act op fun r => (k r).attempt from rfl, wpSeen_act, wpSeen_act,
      ih]

theorem wpSeen_tryCatch {p : Prog Ans ε α} {f : ε → Prog Ans ε α}
    {Q : List (Step Ans ε) → Except ε α → S → Prop} :
    (p.tryCatch f).wpSeen h P Q s ↔
      p.wpSeen h P (fun pre r s' => match r with
        | .ok a => Q pre (.ok a) s'
        | .error e => (f e).wpSeen h P (fun post => Q (pre ++ post)) s') s := by
  rw [tryCatch, wpSeen_bind, wpSeen_attempt]
  constructor <;> refine wpSeen_mono (fun pre r s' hr => ?_) <;> cases r <;>
    simpa using hr

/-- The steps of a run are actions that the program may perform. -/
theorem Within.trace {A : Op → Prop} {p : Prog Ans ε α} (hp : p.Within A) :
    ∀ st ∈ p.trace h s, A st.1 := by
  induction p generalizing s with
  | ret a => simp [Prog.trace]
  | raise e => simp [Prog.trace]
  | act op k ih =>
    intro st hst
    rcases List.mem_cons.mp hst with rfl | hst
    · exact hp.1
    · exact ih _ (hp.2 _) st hst

/-- A program that takes none of the steps to be seen is one for `wp`. -/
theorem wpSeen_of_wp {p : Prog Ans ε α} {Q : List (Step Ans ε) → Except ε α → S → Prop}
    (hp : p.Within fun op => ∀ r, P ⟨op, r⟩ = false) (hwp : p.wp h (Q []) s) :
    p.wpSeen h P Q s := by
  have hnil : (p.trace h s).filter P = [] :=
    List.filter_eq_nil_iff.mpr fun st hst => by simp [hp.trace st hst st.2]
  unfold wpSeen
  rw [hnil]
  exact hwp

/-! ## Runs among others -/

/-- Every complete run whose steps satisfy `H` ends with `Q` of its outcome and of those
    of its steps that `P` picks. Nothing is said of the states in between. -/
def Shows (H : Step Ans ε → Prop) (P : Step Ans ε → Bool) (p : Prog Ans ε α)
    (Q : List (Step Ans ε) → Except ε α → Prop) : Prop :=
  ∀ steps out, p.Ends steps out → (∀ st ∈ steps, H st) → Q (steps.filter P) out

variable {H : Step Ans ε → Prop}

theorem shows_ret {a : α} {Q : List (Step Ans ε) → Except ε α → Prop} (h : Q [] (.ok a)) :
    (ret a : Prog Ans ε α).Shows H P Q := by
  intro steps out hends _
  obtain ⟨rfl, rfl⟩ := ends_ret.mp hends
  exact h

theorem shows_raise {e : ε} {Q : List (Step Ans ε) → Except ε α → Prop} (h : Q [] (.error e)) :
    (raise e : Prog Ans ε α).Shows H P Q := by
  intro steps out hends _
  obtain ⟨rfl, rfl⟩ := ends_raise.mp hends
  exact h

theorem Shows.mono {p : Prog Ans ε α} {Q R : List (Step Ans ε) → Except ε α → Prop}
    (hp : p.Shows H P Q) (hQR : ∀ steps out, Q steps out → R steps out) : p.Shows H P R :=
  fun steps out hends hH => hQR _ _ (hp steps out hends hH)

/-- Nothing is seen of a program whose steps `P` passes over. -/
theorem shows_of_within {p : Prog Ans ε α} {Q : List (Step Ans ε) → Except ε α → Prop}
    (hp : p.Within fun op => ∀ r, P ⟨op, r⟩ = false) (h : ∀ out, Q [] out) : p.Shows H P Q := by
  intro steps out hends _
  have hnil : steps.filter P = [] :=
    List.filter_eq_nil_iff.mpr fun st hst => by simp [hends.within hp st hst st.2]
  rw [hnil]
  exact h out

theorem shows_perform {op : Op} {Q : List (Step Ans ε) → Except ε (Ans op) → Prop}
    (h : ∀ r, H ⟨op, r⟩ → Q (if P ⟨op, r⟩ then [⟨op, r⟩] else []) r) :
    (perform op : Prog Ans ε (Ans op)).Shows H P Q := by
  intro steps out hends hH
  obtain rfl := ends_perform.mp hends
  rw [List.filter_cons, List.filter_nil]
  exact h out (hH _ (List.mem_singleton_self _))

/-- The second part of a sequence adds its steps, unless the first one raised. -/
theorem shows_bind {p : Prog Ans ε α} {f : α → Prog Ans ε β}
    {Q : List (Step Ans ε) → Except ε β → Prop}
    (h : p.Shows H P fun pre r => match r with
      | .ok a => (f a).Shows H P fun post => Q (pre ++ post)
      | .error e => Q pre (.error e)) : (p.bind f).Shows H P Q := by
  intro steps out hends hH
  rcases ends_bind.mp hends with ⟨a, pre, post, rfl, hp, hf⟩ | ⟨e, rfl, hp⟩
  · rw [List.filter_append]
    have hpre := h pre (.ok a) hp fun st hst => hH st (List.mem_append_left _ hst)
    exact hpre post out hf fun st hst => hH st (List.mem_append_right _ hst)
  · exact h steps (.error e) hp hH

theorem shows_attempt {p : Prog Ans ε α} {Q : List (Step Ans ε) → Except ε (Except ε α) → Prop}
    (h : p.Shows H P fun steps r => Q steps (.ok r)) : p.attempt.Shows H P Q := by
  intro steps out hends hH
  obtain ⟨r, rfl, hp⟩ := ends_attempt.mp hends
  exact h steps r hp hH

end Prog
