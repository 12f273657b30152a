-- SUMMARY: Programs under interference: what a program assures whatever others do between its actions, and how to schedule programs.
import Memgw.Library.Interleaving

/-!
# Interference

Between two actions of a program others may act. `Under` is the weakest precondition
of a program when all that the others do keeps to a relation: the program then keeps
to a relation of its own, and ends as stated. Programs that each keep to what the
others rely on can be reasoned about one at a time (`Exec.under`). The last section
goes the other way, and puts programs that run alone together to an interleaving.
-/

variable {Op : Type} {Ans : Op → Type} {ε ι α β S : Type}

namespace Prog

/-! ## One program -/

/-- While the others keep to `R`, the program keeps to `G`, and its outcome and the
    state in which it ended satisfy `Q`. -/
def Under (h : Handler Ans ε S) (R G : S → S → Prop) :
    Prog Ans ε α → (Except ε α → S → Prop) → S → Prop
  | .ret a, Q, s => Q (.ok a) s
  | .raise e, Q, s => Q (.error e) s
  | .act op k, Q, s => ∀ t, R s t → G t (h op t).2 ∧ (k (h op t).1).Under h R G Q (h op t).2

variable {h : Handler Ans ε S} {R G : S → S → Prop} {s : S}

theorem under_perform {op : Op} {Q : Except ε (Ans op) → S → Prop} :
    (perform op : Prog Ans ε (Ans op)).Under h R G Q s ↔
      ∀ t, R s t → G t (h op t).2 ∧ Q (h op t).1 (h op t).2 := by
  refine forall₂_congr fun t _ => and_congr_right fun _ => ?_
  cases (h op t).1 <;> rfl

theorem Under.mono {p : Prog Ans ε α} {P Q : Except ε α → S → Prop}
    (hp : p.Under h R G P s) (hPQ : ∀ r t, P r t → Q r t) : p.Under h R G Q s := by
  induction p generalizing s with
  | ret a => exact hPQ _ _ hp
  | raise e => exact hPQ _ _ hp
  | act op k ih => exact fun t ht => ⟨(hp t ht).1, ih _ (hp t ht).2⟩

theorem Under.guarantees {G' : S → S → Prop} {p : Prog Ans ε α} {Q : Except ε α → S → Prop}
    (hp : p.Under h R G Q s) (hG : ∀ s t, G s t → G' s t) : p.Under h R G' Q s := by
  induction p generalizing s with
  | ret a => exact hp
  | raise e => exact hp
  | act op k ih => exact fun t ht => ⟨hG _ _ (hp t ht).1, ih _ (hp t ht).2⟩

/-- All that happens until the end, the others rely on as well. -/
theorem Under.reached {p : Prog Ans ε α} {Q : Except ε α → S → Prop} (hp : p.Under h R G Q s)
    (hrefl : ∀ s, R s s) (htrans : ∀ s t u, R s t → R t u → R s u) (hGR : ∀ s t, G s t → R s t) :
    p.Under h R G (fun r t => Q r t ∧ R s t) s := by
  induction p generalizing s with
  | ret a => exact ⟨hp, hrefl s⟩
  | raise e => exact ⟨hp, hrefl s⟩
  | act op k ih =>
    intro t ht
    obtain ⟨hG, hk⟩ := hp t ht
    have hto := htrans _ _ _ ht (hGR _ _ hG)
    exact ⟨hG, (ih _ hk).mono fun r u hu => ⟨hu.1, htrans _ _ _ hto hu.2⟩⟩

theorem Under.and {p : Prog Ans ε α} {P Q : Except ε α → S → Prop} (hp : p.Under h R G P s)
    (hq : p.Under h R G Q s) : p.Under h R G (fun r t => P r t ∧ Q r t) s := by
  induction p generalizing s with
  | ret a => exact ⟨hp, hq⟩
  | raise e => exact ⟨hp, hq⟩
  | act op k ih => exact fun t ht => ⟨(hp t ht).1, ih _ (hp t ht).2 (hq t ht).2⟩

/-- A raised exception skips the second part. -/
theorem under_bind {p : Prog Ans ε α} {f : α → Prog Ans ε β} {Q : Except ε β → S → Prop} :
    (p.bind f).Under h R G Q s ↔
      p.Under h R G (fun r t => match r with
        | .ok a => (f a).Under h R G Q t
        | .error e => Q (.error e) t) s := by
  induction p generalizing s with
  | ret a => exact Iff.rfl
  | raise e => exact Iff.rfl
  | act op k ih => exact forall₂_congr fun t _ => and_congr_right fun _ => ih (h op t).1

theorem under_attempt {p : Prog Ans ε α} {Q : Except ε (Except ε α) → S → Prop} :
    p.attempt.Under h R G Q s ↔ p.Under h R G (fun r t => Q (.ok r) t) s := by
  induction p generalizing s with
  | ret a => exact Iff.rfl
  | raise e => exact Iff.rfl
  | act op k ih => exact forall₂_congr fun t _ => and_congr_right fun _ => ih (h op t).1

theorem under_tryCatch {p : Prog Ans ε α} {f : ε → Prog Ans ε α} {Q : Except ε α → S → Prop} :
    (p.tryCatch f).Under h R G Q s ↔
      p.Under h R G (fun r t => match r with
        | .ok a => Q (.ok a) t
        | .error e => (f e).Under h R G Q t) s := by
  simp only [tryCatch, under_bind, under_attempt]
  constructor <;> intro hp <;> refine hp.mono fun r t hr => ?_ <;> cases r <;> exact hr

/-- Sequencing with a stated intermediate assertion. -/
theorem under_bind_of {p : Prog Ans ε α} {f : α → Prog Ans ε β} {Q : Except ε β → S → Prop}
    {P : Except ε α → S → Prop} (hp : p.Under h R G P s)
    (hok : ∀ a t, P (.ok a) t → (f a).Under h R G Q t)
    (herr : ∀ e t, P (.error e) t → Q (.error e) t) : (p.bind f).Under h R G Q s := by
  rw [under_bind]
  refine hp.mono fun r t hr => ?_
  cases r with
  | ok a => exact hok a t hr
  | error e => exact herr e t hr

/-- A program of actions that are fine wherever `F` holds is fine from there on. -/
theorem Within.under {A : Op → Prop} {F : S → Prop} {p : Prog Ans ε α} (hp : p.Within A)
    (hstable : ∀ s t, F s → R s t → F t) (hGR : ∀ s t, G s t → R s t)
    (hA : ∀ op t, A op → F t → G t (h op t).2) (hs : F s) : p.Under h R G (fun _ t => F t) s := by
  induction p generalizing s with
  | ret a => exact hs
  | raise e => exact hs
  | act op k ih =>
    intro t ht
    have hG := hA op t hp.1 (hstable s t hs ht)
    exact ⟨hG, ih _ (hp.2 _) (hstable t _ (hstable s t hs ht) (hGR t _ hG))⟩

/-! ## Shapes -/

theorem bind_ret {p : Prog Ans ε α} : p.bind .ret = p := by
  induction p with
  | ret a => rfl
  | raise e => rfl
  | act op k ih => exact congrArg (act op) (funext ih)

/-- A handler around a sequence sees the exceptions of both parts. -/
theorem tryCatch_bind {p : Prog Ans ε α} {f : α → Prog Ans ε β} {g : ε → Prog Ans ε β} :
    (p.bind f).tryCatch g = p.attempt.bind fun r => match r with
      | .ok a => (f a).tryCatch g
      | .error e => g e := by
  unfold tryCatch
  induction p with
  | ret a => rfl
  | raise e => rfl
  | act op k ih => exact congrArg (act op) (funext ih)

end Prog

/-! ## A pool -/

section

variable [DecidableEq ι] {h : Handler Ans ε S} {pool pool' : ι → Prog Ans ε α} {s s' : S}
  {es : List (Event Ans ε ι)}

/-- Where each program keeps to what the others rely on, each is at every moment as
    it would be by itself. -/
theorem Exec.under {R G : ι → S → S → Prop} {Q : ι → Except ε α → S → Prop}
    (hx : Exec h pool s es pool' s') (hrefl : ∀ i s, R i s s)
    (htrans : ∀ i s t u, R i s t → R i t u → R i s u)
    (hGR : ∀ i j, j ≠ i → ∀ s t, G j s t → R i s t)
    (hpool : ∀ i, (pool i).Under h (R i) (G i) (Q i) s) (i : ι) :
    ∃ t, R i t s' ∧ (pool' i).Under h (R i) (G i) (Q i) t := by
  replace hpool : ∀ i, ∃ t, R i t s ∧ (pool i).Under h (R i) (G i) (Q i) t :=
    fun i => ⟨s, hrefl i s, hpool i⟩
  induction hx with
  | done => exact hpool i
  | @step pool pool' s s' es j op k hj _ ih =>
    apply ih
    intro i
    obtain ⟨u, hu, hunder⟩ := hpool j
    rw [hj] at hunder
    obtain ⟨hG, hk⟩ := hunder s hu
    by_cases hij : i = j
    · subst hij
      rw [Function.update_self]
      exact ⟨_, hrefl i _, hk⟩
    · obtain ⟨t, ht, hunder⟩ := hpool i
      rw [Function.update_of_ne hij]
      exact ⟨t, htrans i _ _ _ ht (hGR i j (Ne.symm hij) _ _ hG), hunder⟩

/-- What a program ends in, if the others cannot undo it, holds ever after. -/
theorem Exec.under_ended {R G : ι → S → S → Prop} {Q : ι → Except ε α → S → Prop}
    (hx : Exec h pool s es pool' s') (hrefl : ∀ i s, R i s s)
    (htrans : ∀ i s t u, R i s t → R i t u → R i s u)
    (hGR : ∀ i j, j ≠ i → ∀ s t, G j s t → R i s t)
    (hpool : ∀ i, (pool i).Under h (R i) (G i) (Q i) s) {i : ι}
    (hstable : ∀ out t u, Q i out t → R i t u → Q i out u) {out : Except ε α}
    (hends : (pool' i).Ends [] out) : Q i out s' := by
  obtain ⟨t, ht, hunder⟩ := hx.under hrefl htrans hGR hpool i
  refine hstable out t s' ?_ ht
  generalize pool' i = p at hends hunder
  generalize hsteps : ([] : List (Step Ans ε)) = steps at hends
  cases hends with
  | ret => exact hunder
  | raise => exact hunder
  | act => cases hsteps

/-- Each event of the history keeps to what its program guarantees. -/
theorem exec_guaranteed {R G : ι → S → S → Prop} {Q : ι → Except ε α → S → Prop}
    {es₁ es₂ : List (Event Ans ε ι)} {e : Event Ans ε ι}
    (hx : Exec h pool s (es₁ ++ e :: es₂) pool' s') (hrefl : ∀ i s, R i s s)
    (htrans : ∀ i s t u, R i s t → R i t u → R i s u)
    (hGR : ∀ i j, j ≠ i → ∀ s t, G j s t → R i s t)
    (hpool : ∀ i, (pool i).Under h (R i) (G i) (Q i) s) :
    G e.who (replay h es₁ s) (replay h (es₁ ++ [e]) s) := by
  obtain ⟨pool₁, s₁, k, hpre, hi, -, -⟩ := hx.split
  obtain ⟨t, ht, hunder⟩ := hpre.under hrefl htrans hGR hpool e.who
  obtain rfl := hpre.replay
  rw [hi] at hunder
  rw [replay_append]
  exact (hunder _ ht).1

/-! ## Logs -/

/-- Actions that keep a log of those picked by `P`, each with the state that it met. -/
def logged (h : Handler Ans ε S) (P : Op → Bool) : Handler Ans ε (S × List (Op × S)) := fun op x =>
  ((h op x.1).1, (h op x.1).2, if P op then (op, x.1) :: x.2 else x.2)

/-- A log changes nothing of a run, and what is in it has happened on the way. -/
theorem exec_logged (hx : Exec h pool s es pool' s') (P : Op → Bool) (log : List (Op × S)) :
    ∃ log', Exec (logged h P) pool (s, log) es pool' (s', log') ∧
      ∀ entry ∈ log', entry ∈ log ∨ ∃ es₁ e es₂, es = es₁ ++ e :: es₂ ∧
        entry = (e.step.1, replay h es₁ s) := by
  induction hx generalizing log with
  | done => exact ⟨log, .done, fun u hu => .inl hu⟩
  | @step pool pool' s s' es i op k hi _ ih =>
    obtain ⟨log', hx', hlog⟩ := ih (if P op then (op, s) :: log else log)
    refine ⟨log', .step hi hx', fun u hu => ?_⟩
    rcases hlog u hu with hu | ⟨es₁, e, es₂, rfl, rfl⟩
    · split at hu
      · rcases List.mem_cons.mp hu with rfl | hu
        · exact .inr ⟨[], _, es, rfl, rfl⟩
        · exact .inl hu
      · exact .inl hu
    · exact .inr ⟨_ :: es₁, e, es₂, rfl, rfl⟩

omit [DecidableEq ι] in
@[simp] theorem replay_logged {P : Op → Bool} {x : S × List (Op × S)} :
    (replay (logged h P) es x).1 = replay h es x.1 := by
  induction es generalizing x with
  | nil => rfl
  | cons e es ih => exact ih

omit [DecidableEq ι] in
/-- What is logged last. -/
theorem log_snoc {P : Op → Bool} {x : S × List (Op × S)} {e : Event Ans ε ι} :
    (replay (logged h P) (es ++ [e]) x).2 =
      if P e.step.1 then (e.step.1, replay h es x.1) :: (replay (logged h P) es x).2
      else (replay (logged h P) es x).2 := by
  rw [replay_append, ← replay_logged (P := P)]
  rfl

/-! ## Scheduling -/

theorem Exec.trans {pool'' : ι → Prog Ans ε α} {s'' : S} {es' : List (Event Ans ε ι)}
    (hx : Exec h pool s es pool' s') (hx' : Exec h pool' s' es' pool'' s'') :
    Exec h pool s (es ++ es') pool'' s'' := by
  induction hx with
  | done => exact hx'
  | step hi _ ih => exact .step hi (ih hx')

/-- One action of one program. -/
theorem Exec.single {i : ι} {op : Op} {k : Except ε (Ans op) → Prog Ans ε α}
    (hi : pool i = .act op k) : Exec h pool s [⟨i, ⟨op, (h op s).1⟩⟩]
      (Function.update pool i (k (h op s).1)) (h op s).2 :=
  .step hi .done

/-- The first part of a program runs while the others wait. -/
theorem Exec.alone_bind {γ : Type} {i : ι} {p : Prog Ans ε γ} {f : γ → Prog Ans ε α} {a : γ}
    (hi : pool i = p.bind f) (hrun : p.run h s = (.ok a, s')) :
    ∃ es, Exec h pool s es (Function.update pool i (f a)) s' := by
  induction p generalizing pool s with
  | ret b =>
    obtain ⟨hb, rfl⟩ := Prod.mk.inj hrun
    obtain rfl := Except.ok.inj hb
    refine ⟨[], ?_⟩
    rw [show f b = pool i from hi.symm, Function.update_eq_self]
    exact .done
  | raise e => cases (Prod.mk.inj hrun).1
  | act op k ih =>
    have hk : Function.update pool i ((k (h op s).1).bind f) i = (k (h op s).1).bind f :=
      Function.update_self ..
    obtain ⟨es, hes⟩ := ih (h op s).1 hk hrun
    rw [Function.update_idem] at hes
    exact ⟨_, .step hi hes⟩

/-- A program runs to its end while the others wait. -/
theorem Exec.alone {i : ι} {a : α} (hrun : (pool i).run h s = (.ok a, s')) :
    ∃ es, Exec h pool s es (Function.update pool i (.ret a)) s' :=
  Exec.alone_bind (f := .ret) Prog.bind_ret.symm hrun

end
