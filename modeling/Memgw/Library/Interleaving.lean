-- SUMMARY: Interleavings of programs over one shared state, their histories, and what each program did in them.
import Memgw.Library.Program
import Mathlib.Logic.Function.Basic
import Mathlib.Data.List.Basic
import Mathlib.Data.List.Induction
import Mathlib.Data.List.TakeWhile

/-!
# Interleavings

Several programs run against one state, one action of one program at a time. A
run is described by its history, the list of actions in the order in which they
happened, each with the program it belongs to and the answer it got.

Two facts make a history usable on its own. It determines every state on the way
(`replay`), and what one program did in it is a run of that program by itself
(`Ends`). Arguments about an interleaving therefore never look at a pool of
half-finished programs: they order the few events that matter.
-/

/-- One action of one program, and what it answered. -/
abbrev Step {Op : Type} (Ans : Op → Type) (ε : Type) : Type :=
  (op : Op) × Except ε (Ans op)

/-- A step together with the program that made it. -/
structure Event {Op : Type} (Ans : Op → Type) (ε ι : Type) : Type where
  who : ι
  step : Step Ans ε

section

variable {Op : Type} {Ans : Op → Type} {ε ι α β S : Type}

/-! ## Complete runs of one program -/

namespace Prog

/-- The program ends with the outcome `r` after exactly the given steps. -/
inductive Ends : Prog Ans ε α → List (Step Ans ε) → Except ε α → Prop where
  | ret {a : α} : Ends (.ret a) [] (.ok a)
  | raise {e : ε} : Ends (.raise e) [] (.error e)
  | act {op : Op} {k : Except ε (Ans op) → Prog Ans ε α} {r : Except ε (Ans op)}
      {steps : List (Step Ans ε)} {out : Except ε α} :
      Ends (k r) steps out → Ends (.act op k) (⟨op, r⟩ :: steps) out

@[simp] theorem ends_ret {a : α} {steps : List (Step Ans ε)} {out : Except ε α} :
    Ends (.ret a) steps out ↔ steps = [] ∧ out = .ok a := by
  constructor
  · rintro ⟨⟩; exact ⟨rfl, rfl⟩
  · rintro ⟨rfl, rfl⟩; exact .ret

@[simp] theorem ends_raise {e : ε} {steps : List (Step Ans ε)} {out : Except ε α} :
    Ends (.raise e) steps out ↔ steps = [] ∧ out = .error e := by
  constructor
  · rintro ⟨⟩; exact ⟨rfl, rfl⟩
  · rintro ⟨rfl, rfl⟩; exact .raise

theorem ends_act {op : Op} {k : Except ε (Ans op) → Prog Ans ε α} {steps : List (Step Ans ε)}
    {out : Except ε α} :
    Ends (.act op k) steps out ↔ ∃ r rest, steps = ⟨op, r⟩ :: rest ∧ Ends (k r) rest out := by
  constructor
  · intro h
    cases h with
    | act h => exact ⟨_, _, rfl, h⟩
  · rintro ⟨r, rest, rfl, h⟩
    exact .act h

theorem ends_perform {op : Op} {steps : List (Step Ans ε)} {out : Except ε (Ans op)} :
    Ends (perform op) steps out ↔ steps = [⟨op, out⟩] := by
  rw [perform, ends_act]
  constructor
  · rintro ⟨r, rest, rfl, h⟩
    cases r with
    | ok a => obtain ⟨rfl, rfl⟩ := ends_ret.mp h; rfl
    | error e => obtain ⟨rfl, rfl⟩ := ends_raise.mp h; rfl
  · rintro rfl
    refine ⟨out, [], rfl, ?_⟩
    cases out with
    | ok a => exact .ret
    | error e => exact .raise

theorem ends_ofExcept {x : Except ε α} {steps : List (Step Ans ε)} {out : Except ε α} :
    Ends (ofExcept x) steps out ↔ steps = [] ∧ out = x := by
  cases x with
  | ok a => exact ends_ret
  | error e => exact ends_raise

/-- A run of a sequence is a run of the first part followed, unless that part
    raised, by a run of the second. -/
theorem ends_bind {p : Prog Ans ε α} {f : α → Prog Ans ε β} {steps : List (Step Ans ε)}
    {out : Except ε β} :
    Ends (p.bind f) steps out ↔
      (∃ a pre post, steps = pre ++ post ∧ Ends p pre (.ok a) ∧ Ends (f a) post out) ∨
        ∃ e, out = .error e ∧ Ends p steps (.error e) := by
  induction p generalizing steps with
  | ret a =>
    constructor
    · intro h
      exact .inl ⟨a, [], steps, rfl, .ret, h⟩
    · rintro (⟨b, pre, post, rfl, hp, hf⟩ | ⟨e, -, he⟩)
      · obtain ⟨rfl, hb⟩ := ends_ret.mp hp
        obtain rfl : b = a := by simpa using hb
        exact hf
      · simp at he
  | raise e =>
    constructor
    · intro h
      obtain ⟨rfl, rfl⟩ := ends_raise.mp h
      exact .inr ⟨e, rfl, .raise⟩
    · rintro (⟨b, pre, post, rfl, hp, hf⟩ | ⟨e', rfl, he⟩)
      · simp at hp
      · obtain ⟨rfl, he'⟩ := ends_raise.mp he
        obtain rfl : e' = e := by simpa using he'
        exact .raise
  | act op k ih =>
    constructor
    · intro h
      obtain ⟨r, rest, rfl, hrest⟩ := ends_act.mp h
      rcases (ih r).mp hrest with ⟨a, pre, post, rfl, hp, hf⟩ | ⟨e, rfl, he⟩
      · exact .inl ⟨a, ⟨op, r⟩ :: pre, post, rfl, .act hp, hf⟩
      · exact .inr ⟨e, rfl, .act he⟩
    · rintro (⟨a, pre, post, rfl, hp, hf⟩ | ⟨e, rfl, he⟩)
      · obtain ⟨r, rest, rfl, hrest⟩ := ends_act.mp hp
        exact .act ((ih r).mpr (.inl ⟨a, rest, post, rfl, hrest, hf⟩))
      · obtain ⟨r, rest, rfl, hrest⟩ := ends_act.mp he
        exact .act ((ih r).mpr (.inr ⟨e, rfl, hrest⟩))

theorem ends_bind_ok {p : Prog Ans ε α} {f : α → Prog Ans ε β} {steps : List (Step Ans ε)} {b : β} :
    Ends (p.bind f) steps (.ok b) ↔
      ∃ a pre post, steps = pre ++ post ∧ Ends p pre (.ok a) ∧ Ends (f a) post (.ok b) := by
  simp [ends_bind]

theorem ends_attempt {p : Prog Ans ε α} {steps : List (Step Ans ε)} {out : Except ε (Except ε α)} :
    Ends p.attempt steps out ↔ ∃ r, out = .ok r ∧ Ends p steps r := by
  induction p generalizing steps with
  | ret a => simp [attempt, and_comm]
  | raise e => simp [attempt, and_comm]
  | act op k ih =>
    simp only [attempt, ends_act, ih]
    constructor
    · rintro ⟨r, rest, rfl, out, rfl, h⟩
      exact ⟨out, rfl, r, rest, rfl, h⟩
    · rintro ⟨out, rfl, r, rest, rfl, h⟩
      exact ⟨r, rest, rfl, out, rfl, h⟩

/-- A run of a program takes only the actions that the program can perform. -/
theorem Ends.within {A : Op → Prop} {p : Prog Ans ε α} {steps : List (Step Ans ε)}
    {out : Except ε α} (h : p.Ends steps out) (hp : p.Within A) : ∀ st ∈ steps, A st.1 := by
  induction h with
  | ret | raise => simp
  | act _ ih => exact List.forall_mem_cons.mpr ⟨hp.1, ih (hp.2 _)⟩

/-- Each action of the program, with any answer to it, is followed by a program that `P`
    allows after it. -/
def Leads (P : Step Ans ε → Prog Ans ε α → Prop) : Prog Ans ε α → Prop
  | .ret _ | .raise _ => True
  | .act op k => ∀ r, P ⟨op, r⟩ (k r) ∧ (k r).Leads P

theorem Within.leads {A : Op → Prop} {P : Step Ans ε → Prog Ans ε α → Prop} {p : Prog Ans ε α}
    (hp : p.Within A) (h : ∀ st rest, A st.1 → rest.Within A → P st rest) : p.Leads P := by
  induction p with
  | ret a => trivial
  | raise e => trivial
  | act op k ih => exact fun r => ⟨h ⟨op, r⟩ (k r) hp.1 (hp.2 r), ih r (hp.2 r)⟩

theorem Leads.mono {P Q : Step Ans ε → Prog Ans ε α → Prop} {p : Prog Ans ε α} (hp : p.Leads P)
    (h : ∀ st rest, P st rest → Q st rest) : p.Leads Q := by
  induction p with
  | ret a => trivial
  | raise e => trivial
  | act op k ih => exact fun r => ⟨h _ _ (hp r).1, ih r (hp r).2⟩

theorem leads_bind {P : Step Ans ε → Prog Ans ε β → Prop} {p : Prog Ans ε α}
    {f : α → Prog Ans ε β} (hp : p.Leads fun st rest => P st (rest.bind f))
    (hf : ∀ a, (f a).Leads P) : (p.bind f).Leads P := by
  induction p with
  | ret a => exact hf a
  | raise e => trivial
  | act op k ih => exact fun r => ⟨(hp r).1, ih r (hp r).2⟩

/-- Nothing is left to do: the program has returned or raised. -/
def Ended : Prog Ans ε α → Prop
  | .ret _ | .raise _ => True
  | .act .. => False

theorem Ended.ends {p : Prog Ans ε α} (h : p.Ended) : ∃ out, p.Ends [] out := by
  cases p with
  | ret a => exact ⟨_, .ret⟩
  | raise e => exact ⟨_, .raise⟩
  | act => exact h.elim

/-- A program that ended in nothing has that outcome already. -/
theorem Ends.eq_ret {p : Prog Ans ε α} {a : α} (h : p.Ends [] (.ok a)) : p = .ret a := by
  generalize hsteps : ([] : List (Step Ans ε)) = steps at h
  generalize hout : (Except.ok a : Except ε α) = out at h
  cases h with
  | ret => rw [Except.ok.inj hout]
  | raise => cases hout
  | act => cases hsteps

/-- A program that ended in nothing with an exception has raised it already. -/
theorem Ends.eq_raise {p : Prog Ans ε α} {e : ε} (h : p.Ends [] (.error e)) : p = .raise e := by
  generalize hsteps : ([] : List (Step Ans ε)) = steps at h
  generalize hout : (Except.error e : Except ε α) = out at h
  cases h with
  | ret => cases hout
  | raise => rw [Except.error.inj hout]
  | act => cases hsteps

end Prog

/-! ## Histories -/

/-- The state after a history. -/
def replay (h : Handler Ans ε S) (es : List (Event Ans ε ι)) (s : S) : S :=
  es.foldl (fun s e => (h e.step.1 s).2) s

/-- Every answer recorded in the history is the one the state at that point gives. -/
def Faithful (h : Handler Ans ε S) : List (Event Ans ε ι) → S → Prop
  | [], _ => True
  | e :: es, s => e.step.2 = (h e.step.1 s).1 ∧ Faithful h es (h e.step.1 s).2

/-- What one program did in a history. -/
def own [DecidableEq ι] (i : ι) (es : List (Event Ans ε ι)) : List (Step Ans ε) :=
  (es.filter (·.who = i)).map Event.step

variable {h : Handler Ans ε S}

@[simp] theorem replay_nil {s : S} : replay h ([] : List (Event Ans ε ι)) s = s := rfl

@[simp] theorem replay_cons {e : Event Ans ε ι} {es : List (Event Ans ε ι)} {s : S} :
    replay h (e :: es) s = replay h es (h e.step.1 s).2 := rfl

theorem replay_append {es fs : List (Event Ans ε ι)} {s : S} :
    replay h (es ++ fs) s = replay h fs (replay h es s) := by
  simp [replay, List.foldl_append]

theorem faithful_append {es fs : List (Event Ans ε ι)} {s : S} :
    Faithful h (es ++ fs) s ↔ Faithful h es s ∧ Faithful h fs (replay h es s) := by
  induction es generalizing s with
  | nil => simp [Faithful]
  | cons e es ih => simp [Faithful, ih, and_assoc]

theorem Faithful.answer {es : List (Event Ans ε ι)} {s : S} (hes : Faithful h es s)
    {e : Event Ans ε ι} (he : e ∈ es) : ∃ t, e.step.2 = (h e.step.1 t).1 := by
  obtain ⟨es₁, es₂, rfl⟩ := List.append_of_mem he
  exact ⟨_, (faithful_append.mp hes).2.1⟩

/-- A part of the state that no event of the history changes is unchanged by it. -/
theorem replay_frame {f : S → β} {es : List (Event Ans ε ι)} {s : S} (hes : Faithful h es s)
    (hf : ∀ e ∈ es, ∀ t, e.step.2 = (h e.step.1 t).1 → f (h e.step.1 t).2 = f t) :
    f (replay h es s) = f s := by
  induction es generalizing s with
  | nil => rfl
  | cons e es ih =>
    have htail := ih hes.2 (fun e' he' => hf e' (List.mem_cons_of_mem e he'))
    have hhead := hf e (List.mem_cons_self ..) s hes.1
    exact htail.trans hhead

/-- An invariant that every event of the history keeps holds at its end. -/
theorem replay_invariant {I : S → Prop} {es : List (Event Ans ε ι)} {s : S} (hes : Faithful h es s)
    (hI : ∀ e ∈ es, ∀ t, e.step.2 = (h e.step.1 t).1 → I t → I (h e.step.1 t).2) (hs : I s) :
    I (replay h es s) := by
  induction es generalizing s with
  | nil => exact hs
  | cons e es ih =>
    exact ih hes.2 (fun e' he' => hI e' (List.mem_cons_of_mem e he'))
      (hI e (List.mem_cons_self ..) s hes.1 hs)

/-- What holds at the start of a history and not at its end was broken by one of its events. -/
theorem replay_broken {I : S → Prop} {es : List (Event Ans ε ι)} {s : S} (hs : I s)
    (hend : ¬ I (replay h es s)) :
    ∃ es₁ e es₂, es = es₁ ++ e :: es₂ ∧ I (replay h es₁ s) ∧
      ¬ I (h e.step.1 (replay h es₁ s)).2 := by
  induction es generalizing s with
  | nil => exact absurd hs hend
  | cons e es ih =>
    by_cases hI : I (h e.step.1 s).2
    · obtain ⟨es₁, e', es₂, rfl, hbefore, hafter⟩ := ih hI hend
      exact ⟨e :: es₁, e', es₂, rfl, hbefore, hafter⟩
    · exact ⟨[], e, es, rfl, hs, hI⟩

/-- What holds at the start of a history and is handed on at each of its events holds at
    every moment of it, of the events so far and the state that they have led to. -/
theorem replay_prefixes {I : List (Event Ans ε ι) → S → Prop} {es : List (Event Ans ε ι)} {s : S}
    (hstart : I [] s)
    (hstep : ∀ es₁ e es₂, es = es₁ ++ e :: es₂ → I es₁ (replay h es₁ s) →
      I (es₁ ++ [e]) (h e.step.1 (replay h es₁ s)).2)
    (es₁ es₂ : List (Event Ans ε ι)) (hes : es = es₁ ++ es₂) : I es₁ (replay h es₁ s) := by
  induction es₁ using List.reverseRecOn generalizing es₂ with
  | nil => exact hstart
  | append_singleton es₁ e ih =>
    rw [List.append_assoc] at hes
    have hnext := hstep es₁ e es₂ hes (ih _ hes)
    rwa [replay_append]

/-- Every action of the history was taken in a state that admits it, as an action is that
    waits for others. -/
def Admitted (h : Handler Ans ε S) (A : Op → S → Prop) : List (Event Ans ε ι) → S → Prop
  | [], _ => True
  | e :: es, s => A e.step.1 s ∧ Admitted h A es (h e.step.1 s).2

instance Admitted.decidable (h : Handler Ans ε S) (A : Op → S → Prop)
    [∀ op s, Decidable (A op s)] : (es : List (Event Ans ε ι)) → (s : S) →
      Decidable (Admitted h A es s)
  | [], _ => .isTrue trivial
  | e :: es, s =>
    have := Admitted.decidable h A es (h e.step.1 s).2
    inferInstanceAs (Decidable (_ ∧ _))

theorem admitted_append {A : Op → S → Prop} {es fs : List (Event Ans ε ι)} {s : S} :
    Admitted h A (es ++ fs) s ↔ Admitted h A es s ∧ Admitted h A fs (replay h es s) := by
  induction es generalizing s with
  | nil => simp [Admitted]
  | cons e es ih => simp [Admitted, ih, and_assoc]

/-- A list is split in one way only at its one member of a kind. -/
theorem split_unique {P : α → Bool} {x y : α} {l₁ l₂ m₁ m₂ : List α}
    (h : l₁ ++ x :: l₂ = m₁ ++ y :: m₂) (hx : P x = true) (h₁ : ∀ z ∈ m₁, P z = false)
    (h₂ : ∀ z ∈ m₂, P z = false) : l₁ = m₁ ∧ x = y ∧ l₂ = m₂ := by
  rcases List.append_eq_append_iff.mp h with ⟨mid, rfl, hxs⟩ | ⟨mid, rfl, hys⟩
  · cases mid with
    | nil => exact ⟨(List.append_nil _).symm, List.cons.inj hxs⟩
    | cons z mid =>
      obtain ⟨rfl, -⟩ := List.cons.inj hxs
      exact absurd (hx.symm.trans (h₁ x (by simp))) (by simp)
  · cases mid with
    | nil => exact ⟨List.append_nil _, List.cons.inj hys.symm⟩
    | cons z mid =>
      obtain ⟨-, rfl⟩ := List.cons.inj hys
      exact absurd (hx.symm.trans (h₂ x (by simp))) (by simp)

/-- Of two events of a history, one is found on one side of the other. -/
theorem split_ordered {x y : Event Ans ε ι} {es₁ es₂ fs₁ fs₂ : List (Event Ans ε ι)}
    (h : es₁ ++ x :: es₂ = fs₁ ++ y :: fs₂) (hne : x ≠ y) :
    (∃ mid, fs₁ = es₁ ++ x :: mid ∧ es₂ = mid ++ y :: fs₂) ∨ x ∈ fs₂ := by
  rcases List.append_eq_append_iff.mp h with ⟨mid, rfl, hx⟩ | ⟨mid, rfl, hy⟩
  · cases mid with
    | nil => exact absurd (List.cons.inj hx).1 hne
    | cons z mid =>
      obtain ⟨rfl, rfl⟩ := List.cons.inj hx
      exact .inl ⟨mid, rfl, rfl⟩
  · cases mid with
    | nil => exact absurd (List.cons.inj hy).1.symm hne
    | cons z mid =>
      obtain ⟨rfl, rfl⟩ := List.cons.inj hy
      exact .inr (by simp)

/-- Where one part of the state is concerned, a history with two events that change it
    is these two, one after the other. -/
theorem replay_pair {f : S → β} {P : Step Ans ε → Bool} {x y : Event Ans ε ι}
    {es : List (Event Ans ε ι)} {s : S} (hes : Faithful h es s)
    (hf : ∀ e ∈ es, P e.step = false → ∀ t, e.step.2 = (h e.step.1 t).1 →
      f (h e.step.1 t).2 = f t)
    (hpair : es.filter (fun e => P e.step) = [x, y]) :
    ∃ s₁ s₂, f s₁ = f s ∧ x.step.2 = (h x.step.1 s₁).1 ∧
      f s₂ = f (h x.step.1 s₁).2 ∧ y.step.2 = (h y.step.1 s₂).1 ∧
        f (replay h es s) = f (h y.step.1 s₂).2 := by
  obtain ⟨es₁, es', rfl, hpre, -, hpair⟩ := List.filter_eq_cons_iff.mp hpair
  obtain ⟨es₂, es₃, rfl, hmid, -, hpost⟩ := List.filter_eq_cons_iff.mp hpair
  simp only [faithful_append, Faithful] at hes
  obtain ⟨h₁, hx, h₂, hy, h₃⟩ := hes
  refine ⟨replay h es₁ s, _,
    replay_frame h₁ fun e he => hf e (by simp [he]) (by simpa using hpre e he),
    hx, replay_frame h₂ fun e he => hf e (by simp [he]) (by simpa using hmid e he), hy, ?_⟩
  simp only [replay_append, replay_cons]
  refine replay_frame h₃ fun e he => hf e (by simp [he]) ?_
  simpa using List.filter_eq_nil_iff.mp hpost e he

/-- A history with two events of a kind, split at the second of them. -/
theorem filter_split_second {P : Step Ans ε → Bool} {x y z : Event Ans ε ι}
    {es₁ es₂ : List (Event Ans ε ι)}
    (h : (es₁ ++ z :: es₂).filter (fun e => P e.step) = [x, y]) (hz : P z.step = true) (hne : z ≠ x) :
    es₁.filter (fun e => P e.step) = [x] ∧ z = y ∧ es₂.filter (fun e => P e.step) = [] := by
  simp only [List.filter_append, List.filter_cons, hz, if_true] at h
  cases hpre : es₁.filter (fun e => P e.step) with
  | nil =>
    rw [hpre] at h
    exact absurd (List.cons.inj h).1 hne
  | cons x' l =>
    rw [hpre] at h
    cases l with
    | nil =>
      obtain ⟨rfl, rfl, hpost⟩ : x' = x ∧ z = y ∧ es₂.filter (fun e => P e.step) = [] := by
        simpa using h
      exact ⟨rfl, rfl, hpost⟩
    | cons => simp at h

/-! ## Pools -/

variable [DecidableEq ι]

@[simp] theorem own_nil {i : ι} : own i ([] : List (Event Ans ε ι)) = [] := rfl

theorem own_cons_self {i : ι} {st : Step Ans ε} {es : List (Event Ans ε ι)} :
    own i (⟨i, st⟩ :: es) = st :: own i es := by
  simp [own]

theorem own_cons_ne {i j : ι} {st : Step Ans ε} {es : List (Event Ans ε ι)} (hij : j ≠ i) :
    own i (⟨j, st⟩ :: es) = own i es := by
  simp [own, hij]

theorem own_append {i : ι} {es fs : List (Event Ans ε ι)} :
    own i (es ++ fs) = own i es ++ own i fs := by
  simp [own]

theorem mem_own {i : ι} {st : Step Ans ε} {es : List (Event Ans ε ι)} :
    st ∈ own i es ↔ ⟨i, st⟩ ∈ es := by
  simp only [own, List.mem_map, List.mem_filter, decide_eq_true_eq]
  constructor
  · rintro ⟨⟨j, st'⟩, ⟨he, rfl⟩, rfl⟩
    exact he
  · intro he
    exact ⟨⟨i, st⟩, ⟨he, rfl⟩, rfl⟩

/-- One interleaved run: at each event some program that has not ended performs
    the action it is at. -/
inductive Exec (h : Handler Ans ε S) :
    (ι → Prog Ans ε α) → S → List (Event Ans ε ι) → (ι → Prog Ans ε α) → S → Prop where
  | done {pool : ι → Prog Ans ε α} {s : S} : Exec h pool s [] pool s
  | step {pool pool' : ι → Prog Ans ε α} {s s' : S} {es : List (Event Ans ε ι)} {i : ι} {op : Op}
      {k : Except ε (Ans op) → Prog Ans ε α} (hi : pool i = .act op k)
      (rest : Exec h (Function.update pool i (k (h op s).1)) (h op s).2 es pool' s') :
      Exec h pool s (⟨i, ⟨op, (h op s).1⟩⟩ :: es) pool' s'

theorem Exec.replay {pool pool' : ι → Prog Ans ε α} {s s' : S} {es : List (Event Ans ε ι)}
    (hx : Exec h pool s es pool' s') : s' = replay h es s := by
  induction hx with
  | done => rfl
  | step _ _ ih => exact ih

theorem Exec.faithful {pool pool' : ι → Prog Ans ε α} {s s' : S} {es : List (Event Ans ε ι)}
    (hx : Exec h pool s es pool' s') : Faithful h es s := by
  induction hx with
  | done => trivial
  | step _ _ ih => exact ⟨rfl, ih⟩

/-- An interleaving up to one of its events, and from it on. -/
theorem Exec.split {pool pool' : ι → Prog Ans ε α} {s s' : S} {es₁ es₂ : List (Event Ans ε ι)}
    {e : Event Ans ε ι} (hx : Exec h pool s (es₁ ++ e :: es₂) pool' s') :
    ∃ pool₁ s₁ k, Exec h pool s es₁ pool₁ s₁ ∧ pool₁ e.who = .act e.step.1 k ∧
      e.step.2 = (h e.step.1 s₁).1 ∧
      Exec h (Function.update pool₁ e.who (k (h e.step.1 s₁).1)) (h e.step.1 s₁).2 es₂ pool' s' := by
  induction es₁ generalizing pool s with
  | nil =>
    cases hx with
    | step hi rest => exact ⟨pool, s, _, .done, hi, rfl, rest⟩
  | cons e₁ es₁ ih =>
    cases hx with
    | step hi rest =>
      obtain ⟨pool₁, s₁, k, hx₁, hk, hans, hx₂⟩ := ih rest
      exact ⟨pool₁, s₁, k, .step hi hx₁, hk, hans, hx₂⟩

/-- A program that has made no step is still whole. -/
theorem Exec.untouched {pool pool' : ι → Prog Ans ε α} {s s' : S} {es : List (Event Ans ε ι)}
    (hx : Exec h pool s es pool' s') {i : ι} (hi : own i es = []) : pool' i = pool i := by
  induction hx with
  | done => rfl
  | @step pool pool' s s' es j op k hj rest ih =>
    by_cases hij : j = i
    · subst hij
      rw [own_cons_self] at hi
      cases hi
    · rw [own_cons_ne hij] at hi
      rw [ih hi, Function.update_of_ne (Ne.symm hij)]

/-- What is left of a program is allowed after the last step that it made. -/
theorem Exec.leads {P : Step Ans ε → Prog Ans ε α → Prop} {pool pool' : ι → Prog Ans ε α}
    {s s' : S} {es : List (Event Ans ε ι)} (hx : Exec h pool s es pool' s') {i : ι}
    (hi : (pool i).Leads P) {st : Step Ans ε} (hlast : (own i es).getLast? = some st) :
    P st (pool' i) := by
  induction hx with
  | done => cases hlast
  | @step pool pool' s s' es j op k hj rest ih =>
    by_cases hij : j = i
    · subst hij
      rw [hj] at hi
      obtain ⟨hP, hk⟩ := hi (h op s).1
      rw [own_cons_self, List.getLast?_cons] at hlast
      cases hrest : (own j es).getLast? with
      | some st' =>
        obtain rfl : st' = st := by simpa [hrest] using hlast
        exact ih (by rwa [Function.update_self]) hrest
      | none =>
        obtain rfl : ⟨op, (h op s).1⟩ = st := by simpa [hrest] using hlast
        rwa [rest.untouched (List.getLast?_eq_none_iff.mp hrest), Function.update_self]
    · rw [own_cons_ne hij] at hlast
      exact ih (by rwa [Function.update_of_ne (Ne.symm hij)]) hlast

/-- What a program did in an interleaving, followed by a run of what is left of
    it, is a run of the whole program. -/
theorem Exec.ends {pool pool' : ι → Prog Ans ε α} {s s' : S} {es : List (Event Ans ε ι)}
    (hx : Exec h pool s es pool' s') {i : ι} {rest : List (Step Ans ε)} {out : Except ε α}
    (hend : (pool' i).Ends rest out) : (pool i).Ends (own i es ++ rest) out := by
  induction hx with
  | done => exact hend
  | @step pool pool' s s' es j op k hj hrest ih =>
    have ih := ih hend
    by_cases hij : j = i
    · subst hij
      rw [Function.update_self] at ih
      rw [own_cons_self, hj]
      exact .act ih
    · rw [Function.update_of_ne (Ne.symm hij)] at ih
      rwa [own_cons_ne hij]

/-- A program that has returned in an interleaving did exactly a run of itself. -/
theorem Exec.returned {pool pool' : ι → Prog Ans ε α} {s s' : S} {es : List (Event Ans ε ι)}
    (hx : Exec h pool s es pool' s') {i : ι} {a : α} (hret : pool' i = .ret a) :
    (pool i).Ends (own i es) (.ok a) := by
  have hend : (pool' i).Ends [] (.ok a) := by rw [hret]; exact .ret
  simpa using hx.ends hend

/-- A part of the state that decides every answer is enough to tell an interleaving by,
    while an invariant holds of the whole. -/
theorem Exec.project {S' : Type} {h' : Handler Ans ε S'} {f : S → S'} {I : S → Prop}
    {pool pool' : ι → Prog Ans ε α} {s s' : S} {es : List (Event Ans ε ι)}
    (hx : Exec h pool s es pool' s') (hs : I s)
    (hstep : ∀ op s, I s → I (h op s).2 ∧ (h op s).1 = (h' op (f s)).1 ∧
      f (h op s).2 = (h' op (f s)).2) : I s' ∧ Exec h' pool (f s) es pool' (f s') := by
  induction hx with
  | done => exact ⟨hs, .done⟩
  | step hi _ ih =>
    obtain ⟨hI, hans, hstate⟩ := hstep _ _ hs
    obtain ⟨hs', hrest⟩ := ih hI
    rw [hans, hstate] at hrest
    rw [hans]
    exact ⟨hs', .step hi hrest⟩

/-- The run under a schedule: each entry lets one program make its next step, and
    is skipped when that program has ended. -/
def play (h : Handler Ans ε S) :
    List ι → (ι → Prog Ans ε α) → S → List (Event Ans ε ι) × (ι → Prog Ans ε α) × S
  | [], pool, s => ([], pool, s)
  | i :: sched, pool, s =>
    match pool i with
    | .act op k =>
      let r := play h sched (Function.update pool i (k (h op s).1)) (h op s).2
      (⟨i, ⟨op, (h op s).1⟩⟩ :: r.1, r.2)
    | _ => play h sched pool s

/-- Every schedule plays out an interleaving. -/
theorem play_exec (sched : List ι) (pool : ι → Prog Ans ε α) (s : S) :
    Exec h pool s (play h sched pool s).1 (play h sched pool s).2.1 (play h sched pool s).2.2 := by
  induction sched generalizing pool s with
  | nil => exact .done
  | cons i sched ih =>
    simp only [play]
    split
    · rename_i op k hi
      exact .step hi (ih _ _)
    · exact ih pool s

/-! ## Ordering the steps that matter -/

/-- Events singled out by a test on their step, program by program. -/
theorem own_filter {P : Step Ans ε → Bool} {i : ι} {es : List (Event Ans ε ι)} :
    own i (es.filter fun e => P e.step) = (own i es).filter P := by
  induction es with
  | nil => rfl
  | cons e es ih =>
    obtain ⟨j, st⟩ := e
    by_cases hP : P st = true <;> by_cases hij : j = i
    · subst hij
      simp [hP, own_cons_self, ih]
    · simp [hP, own_cons_ne hij, ih]
    · subst hij
      simp [hP, own_cons_self, ih]
    · simp [hP, own_cons_ne hij, ih]

/-- The programs in the order in which they made their steps of a kind. -/
def order (P : Step Ans ε → Bool) (es : List (Event Ans ε ι)) : List ι :=
  (es.filter fun e => P e.step).map Event.who

/-- A step among those that a program made splits the history where it happened. -/
theorem own_split {P : Step Ans ε → Bool} {i : ι} {es : List (Event Ans ε ι)}
    {pre post : List (Step Ans ε)} {st : Step Ans ε}
    (hown : (own i es).filter P = pre ++ st :: post) :
    ∃ es₁ es₂, es = es₁ ++ ⟨i, st⟩ :: es₂ ∧ (own i es₁).filter P = pre ∧
      (own i es₂).filter P = post := by
  induction es generalizing pre with
  | nil => simp at hown
  | cons e es ih =>
    obtain ⟨j, st'⟩ := e
    by_cases hj : j = i
    · subst hj
      rw [own_cons_self] at hown
      by_cases hP : P st' = true
      · rw [List.filter_cons_of_pos hP] at hown
        cases pre with
        | nil =>
          obtain ⟨rfl, rfl⟩ := List.cons.inj hown
          exact ⟨[], es, rfl, rfl, rfl⟩
        | cons st₀ pre =>
          obtain ⟨rfl, hrest⟩ := List.cons.inj hown
          obtain ⟨es₁, es₂, rfl, hpre, hpost⟩ := ih hrest
          refine ⟨⟨j, st'⟩ :: es₁, es₂, rfl, ?_, hpost⟩
          rw [own_cons_self, List.filter_cons_of_pos hP, hpre]
      · rw [List.filter_cons_of_neg hP] at hown
        obtain ⟨es₁, es₂, rfl, hpre, hpost⟩ := ih hown
        refine ⟨⟨j, st'⟩ :: es₁, es₂, rfl, ?_, hpost⟩
        rw [own_cons_self, List.filter_cons_of_neg hP, hpre]
    · rw [own_cons_ne hj] at hown
      obtain ⟨es₁, es₂, rfl, hpre, hpost⟩ := ih hown
      refine ⟨⟨j, st'⟩ :: es₁, es₂, rfl, ?_, hpost⟩
      rw [own_cons_ne hj, hpre]

/-- A program none of whose steps of interest are of a kind has no event of that kind. -/
theorem quiet_of_own {P Q : Step Ans ε → Bool} {i : ι} {es : List (Event Ans ε ι)}
    {steps : List (Step Ans ε)} (hPQ : ∀ st, P st = true → Q st = true)
    (hown : (own i es).filter Q = steps) (hsteps : ∀ st ∈ steps, P st = false) :
    ∀ e ∈ es, (e.who = i && P e.step) = false := by
  rintro ⟨j, st⟩ he
  by_contra hkind
  obtain ⟨rfl, hst⟩ : j = i ∧ P st = true := by simpa using hkind
  have hmem : st ∈ steps := hown ▸ List.mem_filter.mpr ⟨mem_own.mpr he, hPQ st hst⟩
  exact Bool.noConfusion (hst.symm.trans (hsteps st hmem))

/-- What happened between the first event of a kind and the next event of another. -/
def between (P Q : Event Ans ε ι → Bool) (es : List (Event Ans ε ι)) : List (Event Ans ε ι) :=
  (es.dropWhile fun e => !P e).tail.takeWhile fun e => !Q e

omit [DecidableEq ι] in
theorem takeWhile_split {Q : Event Ans ε ι → Bool} {y : Event Ans ε ι}
    {es₁ es₂ : List (Event Ans ε ι)} (h₁ : ∀ e ∈ es₁, Q e = false) (hy : Q y = true) :
    (es₁ ++ y :: es₂).takeWhile (fun e => !Q e) = es₁ := by
  rw [List.takeWhile_append_of_pos (by simpa using h₁)]
  simp [hy]

omit [DecidableEq ι] in
theorem between_split {P Q : Event Ans ε ι → Bool} {x y : Event Ans ε ι}
    {es₁ es₂ es₃ : List (Event Ans ε ι)} (h₁ : ∀ e ∈ es₁, P e = false) (hx : P x = true)
    (h₂ : ∀ e ∈ es₂, Q e = false) (hy : Q y = true) :
    between P Q (es₁ ++ x :: (es₂ ++ y :: es₃)) = es₂ := by
  have hdrop : (es₁ ++ x :: (es₂ ++ y :: es₃)).dropWhile (fun e => !P e) =
      x :: (es₂ ++ y :: es₃) := by
    rw [List.dropWhile_append_of_pos (by simpa using h₁)]
    simp [hx]
  rw [between, hdrop, List.tail_cons]
  exact takeWhile_split h₂ hy

omit [DecidableEq ι] in
theorem between_nil {P Q : Event Ans ε ι → Bool} {es : List (Event Ans ε ι)}
    (h : ∀ e ∈ es, P e = false) : between P Q es = [] := by
  have hdrop : es.dropWhile (fun e => !P e) = [] :=
    List.dropWhile_eq_nil_iff.mpr (by simpa using h)
  rw [between, hdrop]
  rfl

/-- When only two programs take part and each made exactly one of the steps that
    matter, those two happened in one order or in the other. -/
theorem filter_eq_pair {P : Step Ans ε → Bool} {i j : ι} {x y : Step Ans ε}
    {es : List (Event Ans ε ι)} (hij : i ≠ j) (hall : ∀ e ∈ es, e.who = i ∨ e.who = j)
    (hi : (own i es).filter P = [x]) (hj : (own j es).filter P = [y]) :
    es.filter (fun e => P e.step) = [⟨i, x⟩, ⟨j, y⟩] ∨
      es.filter (fun e => P e.step) = [⟨j, y⟩, ⟨i, x⟩] := by
  rw [← own_filter] at hi hj
  generalize hl : es.filter (fun e => P e.step) = l at hi hj ⊢
  have hmem : ∀ e ∈ l, e.who = i ∨ e.who = j := fun e he =>
    hall e (List.mem_filter.mp (hl ▸ he)).1
  clear hl
  -- after the first event the rest belongs to the other program alone
  have honly : ∀ (k : ι) (l : List (Event Ans ε ι)) (z : Step Ans ε), (∀ e ∈ l, e.who = k) →
      own k l = [z] → l = [⟨k, z⟩] := by
    intro k l z hk hz
    have hfilter : l.filter (fun e => e.who = k) = l :=
      List.filter_eq_self.mpr (fun e he => by simpa using hk e he)
    rw [own, hfilter] at hz
    obtain ⟨e, rfl, rfl⟩ := List.map_eq_singleton_iff.mp hz
    have := hk e (List.mem_singleton_self e)
    cases e
    simp_all
  cases l with
  | nil => simp at hi
  | cons e l =>
    obtain ⟨k, st⟩ := e
    have hk : k = i ∨ k = j := hmem _ (List.mem_cons_self ..)
    rcases hk with rfl | rfl
    · left
      rw [own_cons_self] at hi
      rw [own_cons_ne hij] at hj
      obtain ⟨rfl, hnil⟩ := List.cons.inj hi
      have hrest : ∀ e ∈ l, e.who = j := by
        intro e he
        refine (hmem e (List.mem_cons_of_mem _ he)).resolve_left (fun hk => ?_)
        have : e.step ∈ own k l := mem_own.mpr (by rw [← hk]; exact he)
        simp [hnil] at this
      rw [honly j l y hrest hj]
    · right
      rw [own_cons_self] at hj
      rw [own_cons_ne (Ne.symm hij)] at hi
      obtain ⟨rfl, hnil⟩ := List.cons.inj hj
      have hrest : ∀ e ∈ l, e.who = i := by
        intro e he
        refine (hmem e (List.mem_cons_of_mem _ he)).resolve_right (fun hk => ?_)
        have : e.step ∈ own k l := mem_own.mpr (by rw [← hk]; exact he)
        simp [hnil] at this
      rw [honly i l x hrest hi]

/-- What each program of a pool keeps to, its events keep to. -/
theorem Exec.within {A : ι → Op → Prop} {pool pool' : ι → Prog Ans ε α} {s s' : S}
    {es : List (Event Ans ε ι)} (hx : Exec h pool s es pool' s')
    (hA : ∀ i, (pool i).Within (A i)) : ∀ e ∈ es, A e.who e.step.1 := by
  induction hx with
  | done => simp
  | @step pool pool' s s' es i op k hi rest ih =>
    have hact : A i op ∧ ∀ r, (k r).Within (A i) := by simpa [hi, Prog.Within] using hA i
    intro e he
    rcases List.mem_cons.mp he with rfl | he
    · exact hact.1
    · refine ih (fun j => ?_) e he
      by_cases hj : j = i
      · subst hj
        rw [Function.update_self]
        exact hact.2 _
      · rw [Function.update_of_ne hj]
        exact hA j

end
