-- SUMMARY: A server that answers requests over a state, and a specification that simulates it one request at a time.
import Mathlib.Data.List.Basic

/-!
# Simulations

A specification says how a request may be answered in a state, and which state it may
leave behind. It need not decide either. A server decides both, over a state of its own,
and meets the specification when each of its steps, seen through an abstraction, is one
that the specification allows. What holds of every run of the specification then holds
of what the server leaves.
-/

/-- How a request may be answered in a state, and which state it may leave. -/
abbrev Spec (Q A T : Type) : Type := Q → T → A → T → Prop

namespace Spec

variable {Q A S T L : Type}

/-- Requests one after the other, each with its answer. -/
inductive Runs (spec : Spec Q A T) : T → List (Q × A) → T → Prop where
  | nil {t : T} : Runs spec t [] t
  | cons {t t' t'' : T} {q : Q} {a : A} {qas : List (Q × A)} (h : spec q t a t')
      (rest : Runs spec t' qas t'') : Runs spec t ((q, a) :: qas) t''

variable {spec : Spec Q A T}

theorem runs_append {t t'' : T} {qas qas' : List (Q × A)} :
    Runs spec t (qas ++ qas') t'' ↔ ∃ t', Runs spec t qas t' ∧ Runs spec t' qas' t'' := by
  constructor
  · intro h
    induction qas generalizing t with
    | nil => exact ⟨t, .nil, h⟩
    | cons qa qas ih =>
      cases h with
      | cons h rest =>
        obtain ⟨t', hpre, hpost⟩ := ih rest
        exact ⟨t', .cons h hpre, hpost⟩
  · rintro ⟨t', hpre, hpost⟩
    induction hpre with
    | nil => exact hpost
    | cons h _ ih => exact .cons h (ih hpost)

/-- What a preorder on states allows of every request, it allows of a run. -/
theorem Runs.relates {R : T → T → Prop} {t t' : T} {qas : List (Q × A)}
    (h : Runs spec t qas t') (hrefl : ∀ t, R t t) (htrans : ∀ a b c, R a b → R b c → R a c)
    (hstep : ∀ q a t t', (q, a) ∈ qas → spec q t a t' → R t t') : R t t' := by
  induction h with
  | nil => exact hrefl _
  | cons h _ ih =>
    exact htrans _ _ _ (hstep _ _ _ _ (List.mem_cons_self ..) h)
      (ih fun q a t t' hmem => hstep q a t t' (List.mem_cons_of_mem _ hmem))

/-! ## Servers -/

/-- The requests of a run, as the specification names them, and their answers. -/
def transcript (label : Q → L) (answer : Q → S → A) (after : Q → S → S) :
    List Q → S → List (L × A)
  | [], _ => []
  | q :: qs, s => (label q, answer q s) :: transcript label answer after qs (after q s)

/-- Every request that `P` permits is answered as the specification allows, in the states
    that satisfy `I`, which it keeps. -/
structure Simulates (spec : Spec L A T) (label : Q → L) (answer : Q → S → A) (after : Q → S → S)
    (P : Q → Prop) (I : S → Prop) (view : S → T) : Prop where
  keeps : ∀ q s, P q → I s → I (after q s)
  allowed : ∀ q s, P q → I s → spec (label q) (view s) (answer q s) (view (after q s))

variable {spec : Spec L A T} {label : Q → L} {answer : Q → S → A} {after : Q → S → S}
  {P : Q → Prop} {I : S → Prop} {view : S → T}

theorem Simulates.invariant (h : Simulates spec label answer after P I view) {qs : List Q} {s : S}
    (hqs : ∀ q ∈ qs, P q) (hs : I s) : I (qs.foldl (fun s q => after q s) s) := by
  induction qs generalizing s with
  | nil => exact hs
  | cons q qs ih =>
    obtain ⟨hq, hqs⟩ := List.forall_mem_cons.mp hqs
    exact ih hqs (h.keeps q s hq hs)

theorem Simulates.runs (h : Simulates spec label answer after P I view) {qs : List Q} {s : S}
    (hqs : ∀ q ∈ qs, P q) (hs : I s) :
    Runs spec (view s) (transcript label answer after qs s)
      (view (qs.foldl (fun s q => after q s) s)) := by
  induction qs generalizing s with
  | nil => exact .nil
  | cons q qs ih =>
    obtain ⟨hq, hqs⟩ := List.forall_mem_cons.mp hqs
    exact .cons (h.allowed q s hq hs) (ih hqs (h.keeps q s hq hs))

end Spec
