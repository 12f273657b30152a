-- SUMMARY: Programs whose critical sections hold one lock: what they do action by action is what they do section by section.
import Memgw.Library.Interference

/-!
# Critical sections

Some actions of a program are no single action of the machine: they are a critical
section, a program of its own that runs while it holds a lock. The others are taken as
they are, and touch nothing that the lock guards.

Such programs have two readings. In the coarse one a section is one action. In the fine
one it waits for the lock, makes its steps one at a time, and gives the lock back, and
other programs may act at every moment in between. The two agree (`Exec.coarsen`): what
a section will do is settled when it takes the lock, as nobody else gets at what the
lock guards until it is given back.
-/

variable {Op In : Type} {Ans : Op → Type} {InAns : In → Type} {ε ι α β S T : Type}

/-- A program at an action is not over. -/
theorem Prog.Ends.not_act {op : Op} {k : Except ε (Ans op) → Prog Ans ε α} {out : Except ε α}
    (h : (Prog.act op k).Ends [] out) : False := by
  obtain ⟨r, rest, hnil, -⟩ := Prog.ends_act.mp h
  cases hnil

namespace Sections

/-! ## The two readings -/

/-- What an action stands for. -/
inductive Meaning (InAns : In → Type) (ε T A : Type) : Type where
  | guarded (body : Prog InAns ε A)
  /-- One action on what the lock does not guard. -/
  | free (f : T → Except ε A × T)

/-- A machine with one lock: the steps of its sections, what the actions of its programs
    stand for, and which arrivals at the lock are made to give up waiting. -/
structure Machine (Ans : Op → Type) (InAns : In → Type) (ε S T : Type) where
  step : Handler InAns ε S
  meaning : (op : Op) → Meaning InAns ε T (Ans op)
  gaveUp : Nat → Option ε

/-- What the lock guards, and what it does not. -/
structure Shared (S T : Type) where
  inside : S
  outside : T
  /-- How many sections have arrived at the lock. -/
  arrivals : Nat := 0

structure Locked (S T : Type) extends Shared S T where
  held : Bool := false

/-- The actions of the fine reading. -/
inductive Fine (Op In : Type) : Type where
  /-- Wait for the lock, and take it. -/
  | enter
  | inner (op : In)
  | leave
  | free (op : Op)

@[reducible] def Fine.Answer (Ans : Op → Type) (InAns : In → Type) : Fine Op In → Type
  | .enter | .leave => Unit
  | .inner op => InAns op
  | .free op => Ans op

variable (m : Machine Ans InAns ε S T)

/-- A section as one action. -/
def Machine.coarse : Handler Ans ε (Shared S T) := fun op s =>
  match m.meaning op with
  | .free f => ((f s.outside).1, { s with outside := (f s.outside).2 })
  | .guarded body =>
    match m.gaveUp s.arrivals with
    | some e => (.error e, { s with arrivals := s.arrivals + 1 })
    | none =>
      ((body.run m.step s.inside).1,
        { s with inside := (body.run m.step s.inside).2, arrivals := s.arrivals + 1 })

def Machine.fine : Handler (Fine.Answer Ans InAns) ε (Locked S T)
  | .enter, s =>
    match m.gaveUp s.arrivals with
    | some e => (.error e, { s with arrivals := s.arrivals + 1 })
    | none => (.ok (), { s with arrivals := s.arrivals + 1, held := true })
  | .inner op, s => ((m.step op s.inside).1, { s with inside := (m.step op s.inside).2 })
  | .leave, s => (.ok (), { s with held := false })
  | .free op, s => ((m.coarse op s.toShared).1, { s with toShared := (m.coarse op s.toShared).2 })

/-- Who does not give up waits until the lock is free. -/
def Machine.Admits : Fine Op In → Locked S T → Prop
  | .enter, s => s.held = true → (m.gaveUp s.arrivals).isSome = true
  | _, _ => True

instance : (op : Fine Op In) → (s : Locked S T) → Decidable (m.Admits op s)
  | .enter, _ => inferInstanceAs (Decidable (_ → _))
  | .inner _, _ | .leave, _ | .free _, _ => .isTrue trivial

/-- The steps of a section, the lock given back, and what comes after. -/
def locked (next : Except ε β → Prog (Fine.Answer Ans InAns) ε α) :
    Prog InAns ε β → Prog (Fine.Answer Ans InAns) ε α
  | .ret b => .act .leave fun _ => next (.ok b)
  | .raise e => .act .leave fun _ => next (.error e)
  | .act op k => .act (.inner op) fun r => locked next (k r)

/-- The fine reading of a program. -/
def Machine.expand : Prog Ans ε α → Prog (Fine.Answer Ans InAns) ε α
  | .ret a => .ret a
  | .raise e => .raise e
  | .act op k =>
    match m.meaning op with
    | .free _ => .act (.free op) fun r => expand (k r)
    | .guarded body => .act .enter fun
      | .ok _ => locked (fun r => expand (k r)) body
      | .error e => expand (k (.error e))

variable {m}

/-! ## One agreeing with the other -/

/-- The holder of the lock has the steps of its section before it, and the coarse reading
    has made them. -/
structure Behind (m : Machine Ans InAns ε S T) (p : Prog (Fine.Answer Ans InAns) ε α) (s : S)
    (q : Prog Ans ε α) (t : S) (A : Type) (body : Prog InAns ε A)
    (k : Except ε A → Prog Ans ε α) : Prop where
  fine : p = locked (fun r => m.expand (k r)) body
  coarse : q = k (body.run m.step s).1
  inside : t = (body.run m.step s).2

/-- A moment of the fine reading, and where the coarse one is then. -/
inductive Agree (m : Machine Ans InAns ε S T) :
    (ι → Prog (Fine.Answer Ans InAns) ε α) → Locked S T → (ι → Prog Ans ε α) → Shared S T →
      Prop where
  | free {pool : ι → Prog Ans ε α} {s : Shared S T} :
      Agree m (fun i => m.expand (pool i)) { toShared := s } pool s
  | held {fpool : ι → Prog (Fine.Answer Ans InAns) ε α} {pool : ι → Prog Ans ε α} {s t : S} {u : T}
      {n : Nat} {i : ι} {A : Type} {body : Prog InAns ε A} {k : Except ε A → Prog Ans ε α}
      (holder : Behind m (fpool i) s (pool i) t A body k)
      (others : ∀ j, j ≠ i → fpool j = m.expand (pool j)) :
      Agree m fpool { inside := s, outside := u, arrivals := n, held := true } pool
        { inside := t, outside := u, arrivals := n }

/-- An action outside the sections is taken in both readings at once. -/
theorem coarse_free {op : Op} {f : T → Except ε (Ans op) × T} (h : m.meaning op = .free f)
    {s : Shared S T} :
    m.coarse op s = ((f s.outside).1, { s with outside := (f s.outside).2 }) := by
  simp only [Machine.coarse, h]

theorem coarse_gaveUp {op : Op} {body : Prog InAns ε (Ans op)} (h : m.meaning op = .guarded body)
    {s : Shared S T} {e : ε} (he : m.gaveUp s.arrivals = some e) :
    m.coarse op s = (.error e, { s with arrivals := s.arrivals + 1 }) := by
  simp only [Machine.coarse, h, he]

theorem coarse_guarded {op : Op} {body : Prog InAns ε (Ans op)} (h : m.meaning op = .guarded body)
    {s : Shared S T} (hstays : m.gaveUp s.arrivals = none) :
    m.coarse op s = ((body.run m.step s.inside).1,
      { s with inside := (body.run m.step s.inside).2, arrivals := s.arrivals + 1 }) := by
  simp only [Machine.coarse, h, hstays]

@[simp] theorem expand_ret {a : α} : m.expand (.ret a) = .ret a := rfl

@[simp] theorem expand_raise {e : ε} : m.expand (.raise e : Prog Ans ε α) = .raise e := rfl

/-- How a program goes on that is at an action in the fine reading. -/
theorem expand_act {p : Prog Ans ε α} {op : Fine Op In}
    {k : Except ε (op.Answer Ans InAns) → Prog (Fine.Answer Ans InAns) ε α}
    (h : m.expand p = .act op k) :
    ∃ op' k', p = .act op' k' ∧
      ((∃ f, m.meaning op' = .free f ∧
          m.expand p = .act (.free op') fun r => m.expand (k' r)) ∨
        ∃ body, m.meaning op' = .guarded body ∧
          m.expand p = .act .enter fun
            | .ok _ => locked (fun r => m.expand (k' r)) body
            | .error e => m.expand (k' (.error e))) := by
  cases p with
  | ret a => cases h
  | raise e => cases h
  | act op' k' =>
    refine ⟨op', k', rfl, ?_⟩
    cases hm : m.meaning op' with
    | free f => exact .inl ⟨f, rfl, by simp only [Machine.expand, hm]⟩
    | guarded body => exact .inr ⟨body, rfl, by simp only [Machine.expand, hm]⟩

section

variable [DecidableEq ι] {pool : ι → Prog Ans ε α} {t : Shared S T} {s : Locked S T}

theorem expand_update {i : ι} {q : Prog Ans ε α} :
    Function.update (fun j => m.expand (pool j)) i (m.expand q) =
      fun j => m.expand (Function.update pool i q j) := by
  funext j
  by_cases hj : j = i
  · subst hj
    simp only [Function.update_self]
  · simp only [Function.update_of_ne hj]

/-- A program makes its next step while the lock is free. -/
theorem Agree.step_open {i : ι} {op : Fine Op In}
    {k : Except ε (op.Answer Ans InAns) → Prog (Fine.Answer Ans InAns) ε α}
    (hi : m.expand (pool i) = .act op k) :
    ∃ es pool' t', Exec m.coarse pool t es pool' t' ∧
      Agree m (Function.update (fun j => m.expand (pool j)) i (k (m.fine op { toShared := t }).1))
        (m.fine op { toShared := t }).2 pool' t' := by
  obtain ⟨op', k', hp, ⟨f, hm, hact⟩ | ⟨body, hm, hact⟩⟩ := expand_act hi
  · obtain ⟨rfl, hk⟩ := Prog.act.inj (hi.symm.trans hact)
    obtain rfl := eq_of_heq hk
    refine ⟨_, _, _, .step hp .done, ?_⟩
    rw [expand_update]
    exact .free
  · obtain ⟨rfl, hk⟩ := Prog.act.inj (hi.symm.trans hact)
    obtain rfl := eq_of_heq hk
    cases hwait : m.gaveUp t.arrivals with
    | some e =>
      refine ⟨_, _, _, .step hp .done, ?_⟩
      rw [coarse_gaveUp hm hwait]
      simp only [Machine.fine, hwait, expand_update]
      exact .free
    | none =>
      -- the section is settled here
      refine ⟨_, _, _, .step hp .done, ?_⟩
      rw [coarse_guarded hm hwait]
      simp only [Machine.fine, hwait]
      refine .held ⟨Function.update_self .., Function.update_self .., rfl⟩ fun j hj => ?_
      simp only [Function.update_of_ne hj]

/-- The holder of the lock makes its next step. -/
theorem Behind.step {p : Prog (Fine.Answer Ans InAns) ε α} {q : Prog Ans ε α} {a b : S} {u : T}
    {n : Nat} {A : Type} {body : Prog InAns ε A} {next : Except ε A → Prog Ans ε α}
    {op : Fine Op In} {k : Except ε (op.Answer Ans InAns) → Prog (Fine.Answer Ans InAns) ε α}
    (h : Behind m p a q b A body next) (hp : p = .act op k) :
    let s : Locked S T := { inside := a, outside := u, arrivals := n, held := true }
    (m.fine op s).2 = { inside := b, outside := u, arrivals := n } ∧
        k (m.fine op s).1 = m.expand q ∨
      ∃ a' body', (m.fine op s).2 = { inside := a', outside := u, arrivals := n, held := true } ∧
        Behind m (k (m.fine op s).1) a' q b A body' next := by
  have hfine := h.fine.symm.trans hp
  cases body with
  | ret v =>
    obtain ⟨rfl, hk⟩ := Prog.act.inj hfine
    obtain rfl := eq_of_heq hk
    refine .inl ⟨?_, ?_⟩
    · rw [h.inside]; rfl
    · rw [h.coarse]; rfl
  | raise e =>
    obtain ⟨rfl, hk⟩ := Prog.act.inj hfine
    obtain rfl := eq_of_heq hk
    refine .inl ⟨?_, ?_⟩
    · rw [h.inside]; rfl
    · rw [h.coarse]; rfl
  | act op' k' =>
    obtain ⟨rfl, hk⟩ := Prog.act.inj hfine
    obtain rfl := eq_of_heq hk
    exact .inr ⟨_, k' (m.step op' a).1, rfl, rfl, h.coarse, h.inside⟩

/-- One step of the fine reading, and what it is in the coarse one. -/
theorem Agree.step {fpool : ι → Prog (Fine.Answer Ans InAns) ε α} {i : ι} {op : Fine Op In}
    {k : Except ε (op.Answer Ans InAns) → Prog (Fine.Answer Ans InAns) ε α}
    (h : Agree m fpool s pool t) (hi : fpool i = .act op k) (hadmits : m.Admits op s) :
    ∃ es pool' t', Exec m.coarse pool t es pool' t' ∧
      Agree m (Function.update fpool i (k (m.fine op s).1)) (m.fine op s).2 pool' t' := by
  cases h with
  | free => exact Agree.step_open hi
  | @held _ _ a b u n i₀ A body next holder others =>
    by_cases hij : i = i₀
    · subst hij
      refine ⟨[], pool, _, .done, ?_⟩
      rcases holder.step (u := u) (n := n) hi with ⟨hs, hk⟩ | ⟨a', body', hs, hbehind⟩
      · have hpool : Function.update fpool i (k (m.fine op
            { inside := a, outside := u, arrivals := n, held := true }).1) =
            fun j => m.expand (pool j) := by
          funext j
          by_cases hj : j = i
          · subst hj
            rw [Function.update_self, hk]
          · rw [Function.update_of_ne hj, others j hj]
        rw [hs, hpool]
        exact .free
      · rw [← Function.update_self i (k _) fpool] at hbehind
        rw [hs]
        refine .held hbehind fun j hj => ?_
        rw [Function.update_of_ne hj]
        exact others j hj
    · -- another program is outside, and leaves what the lock guards as it is
      have hact := (others i hij).symm.trans hi
      have hothers : ∀ q, ∀ j, j ≠ i₀ → Function.update fpool i (m.expand q) j =
          m.expand (Function.update pool i q j) := by
        intro q j hj
        by_cases hji : j = i
        · subst hji
          simp only [Function.update_self]
        · simp only [Function.update_of_ne hji]
          exact others j hj
      have hholder : ∀ p q, Behind m (Function.update fpool i p i₀) a
          (Function.update pool i q i₀) b A body next := by
        intro p q
        simp only [Function.update_of_ne (Ne.symm hij)]
        exact holder
      obtain ⟨op', k', hp, ⟨f, hm, hfree⟩ | ⟨body', hm, henter⟩⟩ := expand_act hact
      · obtain ⟨rfl, hk⟩ := Prog.act.inj (hact.symm.trans hfree)
        obtain rfl := eq_of_heq hk
        refine ⟨_, _, _, .step hp .done, ?_⟩
        simp only [Machine.fine, coarse_free hm]
        exact .held (hholder _ _) (hothers _)
      · obtain ⟨rfl, hk⟩ := Prog.act.inj (hact.symm.trans henter)
        obtain rfl := eq_of_heq hk
        obtain ⟨e, he⟩ := Option.isSome_iff_exists.mp (hadmits rfl)
        refine ⟨_, _, _, .step hp .done, ?_⟩
        rw [coarse_gaveUp (s := { inside := b, outside := u, arrivals := n }) hm he]
        simp only [Machine.fine, he]
        exact .held (hholder _ _) (hothers _)

/-- Whatever the programs do step by step they do section by section. -/
theorem Agree.exec {fpool fpool' : ι → Prog (Fine.Answer Ans InAns) ε α} {s' : Locked S T}
    {es : List (Event (Fine.Answer Ans InAns) ε ι)} (hx : Exec m.fine fpool s es fpool' s')
    (hadmitted : Admitted m.fine m.Admits es s) (h : Agree m fpool s pool t) :
    ∃ es' pool' t', Exec m.coarse pool t es' pool' t' ∧ Agree m fpool' s' pool' t' := by
  induction hx generalizing pool t with
  | done => exact ⟨[], pool, t, .done, h⟩
  | step hi _ ih =>
    obtain ⟨es₁, pool₁, t₁, hx₁, h₁⟩ := h.step hi hadmitted.1
    obtain ⟨es₂, pool₂, t₂, hx₂, h₂⟩ := ih hadmitted.2 h₁
    exact ⟨es₁ ++ es₂, pool₂, t₂, hx₁.trans hx₂, h₂⟩

end

/-! ## What follows for whole runs -/

section

variable {fpool : ι → Prog (Fine.Answer Ans InAns) ε α} {pool : ι → Prog Ans ε α}
  {t : Shared S T} {s : Locked S T}

theorem Agree.lock_free (h : Agree m fpool s pool t)
    (hfree : s.held = false) : fpool = (fun i => m.expand (pool i)) ∧ s.toShared = t := by
  cases h with
  | free => exact ⟨rfl, rfl⟩
  | held => cases hfree

/-- The holder of the lock has a step to make, and nothing keeps it from making it. -/
theorem Behind.acts {p : Prog (Fine.Answer Ans InAns) ε α} {q : Prog Ans ε α} {a b : S} {A : Type}
    {body : Prog InAns ε A} {next : Except ε A → Prog Ans ε α} (h : Behind m p a q b A body next) :
    ∃ op k, p = .act op k ∧ ∀ s, m.Admits op s := by
  rw [h.fine]
  cases body with
  | ret v => exact ⟨.leave, _, rfl, fun _ => trivial⟩
  | raise e => exact ⟨.leave, _, rfl, fun _ => trivial⟩
  | act op k => exact ⟨.inner op, _, rfl, fun _ => trivial⟩

/-- A program that is over in the fine reading is over in the coarse one, and ended alike. -/
theorem Agree.ended (h : Agree m fpool s pool t) {i : ι} {out : Except ε α}
    (hends : (fpool i).Ends [] out) : (pool i).Ends [] out := by
  have hexpand : fpool i = m.expand (pool i) := by
    cases h with
    | free => rfl
    | @held _ _ _ _ _ _ i₀ _ _ _ holder others =>
      refine others i ?_
      rintro rfl
      obtain ⟨op, k, hact, -⟩ := holder.acts
      rw [hact] at hends
      exact hends.not_act
  rw [hexpand] at hends
  cases hp : pool i with
  | ret a =>
    rw [hp, expand_ret] at hends
    obtain ⟨-, rfl⟩ := Prog.ends_ret.mp hends
    exact .ret
  | raise e =>
    rw [hp, expand_raise] at hends
    obtain ⟨-, rfl⟩ := Prog.ends_raise.mp hends
    exact .raise
  | act op k =>
    rw [hp, Machine.expand] at hends
    cases hm : m.meaning op with
    | free f =>
      rw [hm] at hends
      exact hends.not_act.elim
    | guarded body =>
      rw [hm] at hends
      exact hends.not_act.elim

/-- While a program is not over, some program can make a step: nobody waits for ever. -/
theorem Agree.progress (h : Agree m fpool s pool t) {i : ι} (hi : ¬ (fpool i).Ended) :
    ∃ j op k, fpool j = .act op k ∧ m.Admits op s := by
  cases h with
  | free =>
    replace hi : ¬ (m.expand (pool i)).Ended := hi
    cases hact : m.expand (pool i) with
    | ret a => rw [hact] at hi; exact absurd trivial hi
    | raise e => rw [hact] at hi; exact absurd trivial hi
    | act op k =>
      refine ⟨i, op, k, hact, ?_⟩
      cases op with
      | enter => intro hheld; cases hheld
      | inner | leave | free => trivial
  | @held _ _ _ _ _ _ i₀ _ _ _ holder others =>
    obtain ⟨op, k, hact, hadmits⟩ := holder.acts
    exact ⟨i₀, op, k, hact, hadmits _⟩

/-- Once every program is over, the lock has been given back. -/
theorem Agree.free_of_ended (h : Agree m fpool s pool t) (hall : ∀ i, (fpool i).Ended) :
    s.held = false := by
  cases h with
  | free => rfl
  | @held _ _ _ _ _ _ i₀ _ _ _ holder _ =>
    obtain ⟨op, k, hact, -⟩ := holder.acts
    have hended := hall i₀
    rw [hact] at hended
    exact hended.elim

end

end Sections

/-- Programs that run step by step from a free lock run section by section: with the same
    outcomes, and to the same state whenever the lock is free again. -/
theorem Exec.coarsen [DecidableEq ι] {m : Sections.Machine Ans InAns ε S T}
    {pool : ι → Prog Ans ε α} {s : Sections.Shared S T} {s' : Sections.Locked S T}
    {fpool' : ι → Prog (Sections.Fine.Answer Ans InAns) ε α}
    {es : List (Event (Sections.Fine.Answer Ans InAns) ε ι)}
    (hx : Exec m.fine (fun i => m.expand (pool i)) { toShared := s } es fpool' s')
    (hadmitted : Admitted m.fine m.Admits es { toShared := s }) :
    ∃ es' pool' t, Exec m.coarse pool s es' pool' t ∧ Sections.Agree m fpool' s' pool' t :=
  Sections.Agree.free.exec hx hadmitted
