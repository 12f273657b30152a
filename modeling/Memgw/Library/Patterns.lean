-- SUMMARY: Patterns of literals and greedy fields: what splits a text along one, which split a backtracking matcher finds, and when there is only one.
import Mathlib.Data.List.DropRight
import Mathlib.Data.List.TakeWhile
import Mathlib.Order.Lattice

/-!
# Patterns

A pattern is a row of literals and of fields, and a field takes one or more items of
a given kind. A text may split along a pattern in many ways. A greedy matcher finds
the one whose earlier fields are longer.
-/

namespace Pattern

inductive Token (α φ : Type) where
  | lit (c : α)
  | field (f : φ)
  deriving DecidableEq

variable {α φ β : Type}

/-- What each field of a pattern took, in the order of the fields. -/
abbrev Taken (α φ : Type) : Type := List (φ × List α)

/-- The fields of a pattern, in order. -/
def fields : List (Token α φ) → List φ
  | [] => []
  | .lit _ :: ts => fields ts
  | .field f :: ts => f :: fields ts

/-! ## Splits -/

/-- The text splits along the pattern, with these parts for its fields. -/
inductive Splits (ok : α → Bool) : List (Token α φ) → Taken α φ → List α → Prop where
  | nil : Splits ok [] [] []
  | lit {c ts m s} : Splits ok ts m s → Splits ok (.lit c :: ts) m (c :: s)
  | field {f x ts m s} : x ≠ [] → (∀ c ∈ x, ok c = true) → Splits ok ts m s →
      Splits ok (.field f :: ts) ((f, x) :: m) (x ++ s)

/-- At the first field where the two differ, the first one takes more. -/
inductive Beats : Taken α φ → Taken α φ → Prop where
  | here {f x y m m'} : y.length < x.length → Beats ((f, x) :: m) ((f, y) :: m')
  | later {f x m m'} : Beats m m' → Beats ((f, x) :: m) ((f, x) :: m')

/-- The split that beats all others. -/
def Foremost (ok : α → Bool) (ts : List (Token α φ)) (s : List α) (m : Taken α φ) : Prop :=
  Splits ok ts m s ∧ ∀ m', Splits ok ts m' s → m' = m ∨ Beats m m'

theorem Beats.asymm {m m' : Taken α φ} (h : Beats m m') : ¬ Beats m' m := by
  induction h with
  | here hlt =>
    intro h'
    cases h' with
    | here hlt' => omega
    | later _ => omega
  | later _ ih =>
    intro h'
    cases h' with
    | here hlt' => omega
    | later h' => exact ih h'

theorem Foremost.unique {ok : α → Bool} {ts : List (Token α φ)} {s : List α} {m m' : Taken α φ}
    (h : Foremost ok ts s m) (h' : Foremost ok ts s m') : m = m' := by
  rcases h.2 m' h'.1 with heq | hbeats
  · exact heq.symm
  · rcases h'.2 m h.1 with heq | hbeats'
    · exact heq
    · exact absurd hbeats' hbeats.asymm

/-! ## Matching -/

/-- The first success among the attempts from `n` down to one. -/
def longest (attempt : Nat → Option β) : Nat → Option β
  | 0 => none
  | n + 1 => (attempt (n + 1)).or (longest attempt n)

/-- Match the whole text. A field takes as much as it can, and gives back one item at a
    time for as long as the rest does not match. -/
def greedy (ok : α → Bool) [DecidableEq α] : List (Token α φ) → List α → Option (Taken α φ)
  | [], [] => some []
  | [], _ :: _ => none
  | .lit _ :: _, [] => none
  | .lit c :: ts, d :: s => if c = d then greedy ok ts s else none
  | .field f :: ts, s =>
    longest (fun n => (greedy ok ts (s.drop n)).map ((f, s.take n) :: ·)) (s.takeWhile ok).length

theorem longest_eq_some {attempt : Nat → Option β} {n : Nat} {b : β}
    (h : longest attempt n = some b) :
    ∃ k, 0 < k ∧ k ≤ n ∧ attempt k = some b ∧ ∀ j, k < j → j ≤ n → attempt j = none := by
  induction n with
  | zero => cases h
  | succ n ih =>
    rw [longest] at h
    cases hn : attempt (n + 1) with
    | some b' =>
      rw [hn, Option.some_or] at h
      exact ⟨n + 1, by omega, le_refl _, hn.trans h, fun j hlt hle => by omega⟩
    | none =>
      rw [hn, Option.none_or] at h
      obtain ⟨k, hpos, hle, hk, hafter⟩ := ih h
      refine ⟨k, hpos, by omega, hk, fun j hlt hle' => ?_⟩
      rcases Nat.lt_or_ge n j with hj | hj
      · obtain rfl : j = n + 1 := by omega
        exact hn
      · exact hafter j hlt hj

theorem longest_isSome (attempt : Nat → Option β) {n k : Nat} (hpos : 0 < k) (hle : k ≤ n)
    (h : (attempt k).isSome) : (longest attempt n).isSome := by
  induction n with
  | zero => omega
  | succ n ih =>
    rw [longest, Option.isSome_or, Bool.or_eq_true]
    rcases Nat.lt_or_ge n k with hk | hk
    · obtain rfl : k = n + 1 := by omega
      exact .inl h
    · exact .inr (ih hk)

theorem take_ok {ok : α → Bool} {s : List α} {n : Nat} (hle : n ≤ (s.takeWhile ok).length) :
    ∀ c ∈ s.take n, ok c = true := by
  intro c hc
  have hpre : s.takeWhile ok <+: s := List.takeWhile_prefix ok
  have htake : s.take n <+: s.takeWhile ok :=
    List.prefix_of_prefix_length_le (List.take_prefix n s) hpre
      (le_trans (List.length_take_le n s) hle)
  exact List.mem_takeWhile_imp (htake.subset hc)

theorem length_le_takeWhile {ok : α → Bool} {x s : List α} (hok : ∀ c ∈ x, ok c = true) :
    x.length ≤ ((x ++ s).takeWhile ok).length := by
  have hwhole : x.takeWhile ok = x := List.takeWhile_eq_self_iff.mpr hok
  rw [List.takeWhile_append, hwhole, if_pos rfl, List.length_append]
  omega

section

variable {ok : α → Bool} [DecidableEq α] {ts : List (Token α φ)} {s : List α} {m m' : Taken α φ}

/-- What the matcher finds is a split. -/
theorem splits_of_greedy (h : greedy ok ts s = some m) : Splits ok ts m s := by
  induction ts generalizing s m with
  | nil =>
    cases s with
    | nil =>
      obtain rfl : [] = m := Option.some.inj h
      exact .nil
    | cons _ _ => cases h
  | cons t ts ih =>
    cases t with
    | lit c =>
      cases s with
      | nil => cases h
      | cons d s =>
        rw [greedy] at h
        split at h
        · rename_i heq
          obtain rfl := heq
          exact .lit (ih h)
        · cases h
    | field f =>
      rw [greedy] at h
      obtain ⟨n, hpos, hle, hn, -⟩ := longest_eq_some h
      obtain ⟨m₀, hm₀, rfl⟩ := Option.map_eq_some_iff.mp hn
      have hlen : n ≤ s.length := le_trans hle (List.takeWhile_prefix ok).length_le
      have hne : s.take n ≠ [] := by
        intro hnil
        have := congrArg List.length hnil
        simp only [List.length_take, List.length_nil] at this
        omega
      rw [← List.take_append_drop n s]
      simpa using Splits.field (f := f) hne (take_ok hle) (ih hm₀)

/-- The matcher finds each split, or one that beats it. -/
theorem greedy_of_splits (h : Splits ok ts m s) :
    ∃ m₀, greedy ok ts s = some m₀ ∧ (m = m₀ ∨ Beats m₀ m) := by
  induction h with
  | nil => exact ⟨[], rfl, .inl rfl⟩
  | lit _ ih =>
    obtain ⟨m₀, hm₀, hbest⟩ := ih
    exact ⟨m₀, by rw [greedy, if_pos rfl, hm₀], hbest⟩
  | @field f x ts m s hne hok hsplits ih =>
    obtain ⟨m₀, hm₀, hbest⟩ := ih
    have hx : 0 < x.length := List.length_pos_of_ne_nil hne
    have hattempt : (greedy ok ts ((x ++ s).drop x.length)).map ((f, (x ++ s).take x.length) :: ·) =
        some ((f, x) :: m₀) := by simp [hm₀]
    have hsome := longest_isSome
      (fun n => (greedy ok ts ((x ++ s).drop n)).map ((f, (x ++ s).take n) :: ·)) hx
      (length_le_takeWhile (s := s) hok) (by rw [hattempt]; rfl)
    obtain ⟨found, hfound⟩ := Option.isSome_iff_exists.mp hsome
    refine ⟨found, hfound, ?_⟩
    obtain ⟨n, hpos, hle, hn, hafter⟩ := longest_eq_some hfound
    have hlen : n ≤ (x ++ s).length := le_trans hle (List.takeWhile_prefix ok).length_le
    -- No attempt longer than the one that succeeded did, so it is at least as long as `x`.
    rcases Nat.lt_trichotomy n x.length with hlt | rfl | hlt
    · have := hafter x.length hlt (length_le_takeWhile hok)
      rw [hattempt] at this
      cases this
    · obtain rfl := Option.some.inj (hattempt.symm.trans hn)
      rcases hbest with rfl | hbeats
      · exact .inl rfl
      · exact .inr (.later hbeats)
    · obtain ⟨m₁, -, rfl⟩ := Option.map_eq_some_iff.mp hn
      refine .inr (.here ?_)
      rw [List.length_take, min_eq_left hlen]
      exact hlt

/-- The matcher finds the foremost split. -/
theorem greedy_eq_some_iff : greedy ok ts s = some m ↔ Foremost ok ts s m := by
  constructor
  · intro h
    refine ⟨splits_of_greedy h, fun m' hm' => ?_⟩
    obtain ⟨m₀, hm₀, hbest⟩ := greedy_of_splits hm'
    obtain rfl := Option.some.inj (h.symm.trans hm₀)
    exact hbest
  · intro h
    obtain ⟨m₀, hm₀, hbest⟩ := greedy_of_splits h.1
    rcases hbest with rfl | hbeats
    · exact hm₀
    · rcases h.2 m₀ (splits_of_greedy hm₀) with rfl | hbeats'
      · exact hm₀
      · exact absurd hbeats' hbeats.asymm

end

theorem Splits.fields {ok : α → Bool} {ts : List (Token α φ)} {m : Taken α φ} {s : List α}
    (h : Splits ok ts m s) : m.map Prod.fst = fields ts := by
  induction h with
  | nil => rfl
  | lit _ ih => exact ih
  | field _ _ _ ih => exact congrArg _ ih

/-! ## Bars -/

/-- What comes after the literals at the front of the pattern does not have the kind `p`,
    unless one of those literals has not either. -/
def Bars (p : α → Bool) : List (Token α φ) → Taken α φ → Prop
  | .lit c :: ts, m => p c = false ∨ Bars p ts m
  | .field _ :: _, (_, x) :: _ => ∀ c ∈ x.head?, p c = false
  | _, _ => True

/-- There is a literal without the kind `p` before the next field. -/
def Fenced (p : α → Bool) : List (Token α φ) → Prop
  | [] => True
  | .lit c :: ts => p c = false ∨ Fenced p ts
  | .field _ :: _ => False

/-- Between any two consecutive fields there is a literal that no field takes. -/
def Separated (ok : α → Bool) : List (Token α φ) → Prop
  | [] => True
  | .lit _ :: ts => Separated ok ts
  | .field _ :: ts => Fenced ok ts ∧ Separated ok ts

instance Fenced.decidable (p : α → Bool) : (ts : List (Token α φ)) → Decidable (Fenced p ts)
  | [] => .isTrue trivial
  | .lit c :: ts =>
    have := Fenced.decidable p ts
    inferInstanceAs (Decidable (p c = false ∨ Fenced p ts))
  | .field _ :: _ => .isFalse id

instance Separated.decidable (ok : α → Bool) :
    (ts : List (Token α φ)) → Decidable (Separated ok ts)
  | [] => .isTrue trivial
  | .lit _ :: ts => Separated.decidable ok ts
  | .field _ :: ts =>
    have := Separated.decidable ok ts
    inferInstanceAs (Decidable (Fenced ok ts ∧ Separated ok ts))

section

variable {ok p : α → Bool} {ts : List (Token α φ)} {s s' : List α} {m m' : Taken α φ}

theorem Fenced.bars (h : Fenced p ts) (m : Taken α φ) : Bars p ts m := by
  induction ts with
  | nil => trivial
  | cons t ts ih =>
    cases t with
    | lit c =>
      rcases h with hc | h
      · exact .inl hc
      · exact .inr (ih h)
    | field f => exact h.elim

theorem bars_of_heads (h : ∀ fx ∈ m, ∀ c ∈ fx.2.head?, p c = false) : Bars p ts m := by
  induction ts with
  | nil => trivial
  | cons t ts ih =>
    cases t with
    | lit c => exact .inr ih
    | field f =>
      cases m with
      | nil => trivial
      | cons fx m => exact h fx List.mem_cons_self

/-- Where a bar stands, no split can begin later by items of the kind `p`: moved along the
    literals, they stay of that kind until they meet the bar. -/
theorem Splits.no_shift (h : Splits ok ts m s) (h' : Splits ok ts m' s') (hbars : Bars p ts m)
    {y : List α} (hs : s = y ++ s') (hy : ∀ c ∈ y, p c = true) : y = [] := by
  induction h generalizing m' s' y with
  | nil => exact (List.append_eq_nil_iff.mp hs.symm).1
  | @lit c ts m s h ih =>
    cases h' with
    | @lit _ _ _ s' h' =>
      cases y with
      | nil => rfl
      | cons d y =>
        obtain ⟨rfl, hs⟩ : c = d ∧ s = y ++ c :: s' := by simpa using hs
        have hc : p c = true := hy c List.mem_cons_self
        have hmoved : y ++ [c] = [] := by
          refine ih h' (hbars.resolve_left (by simp [hc])) (by simpa using hs) fun d hd => ?_
          rcases List.mem_append.mp hd with hd | hd
          · exact hy d (List.mem_cons_of_mem _ hd)
          · rwa [List.mem_singleton.mp hd]
        simp at hmoved
  | @field f x ts m s hne hok h ih =>
    cases y with
    | nil => rfl
    | cons d y =>
      cases x with
      | nil => exact absurd rfl hne
      | cons c x =>
        obtain ⟨rfl, -⟩ : c = d ∧ x ++ s = y ++ s' := by simpa using hs
        have hc : p c = false := hbars c rfl
        simp [hy c List.mem_cons_self] at hc

/-- A text splits along a separated pattern in at most one way. -/
theorem Splits.unique (hsep : Separated ok ts) (h : Splits ok ts m s) (h' : Splits ok ts m' s) :
    m = m' := by
  induction h generalizing m' with
  | nil =>
    cases h'
    rfl
  | lit h ih =>
    cases h' with
    | lit h' => exact ih hsep h'
  | @field f x ts m s hne hok h ih =>
    generalize hwhole : x ++ s = whole at h'
    cases h' with
    | @field _ x' _ m' s' hne' hok' h' =>
      obtain ⟨hfenced, hsep⟩ := hsep
      rcases List.append_eq_append_iff.mp hwhole with ⟨y, rfl, hs⟩ | ⟨y, rfl, hs⟩
      · obtain rfl := h.no_shift h' (hfenced.bars m) hs fun c hc =>
          hok' c (List.mem_append_right x hc)
        obtain rfl : s = s' := by simpa using hs
        rw [ih hsep h', List.append_nil]
      · obtain rfl := h'.no_shift h (hfenced.bars m') hs fun c hc =>
          hok c (List.mem_append_right x' hc)
        obtain rfl : s' = s := by simpa using hs
        rw [ih hsep h', List.append_nil]

/-- The only split is the foremost one. -/
theorem Splits.foremost (hsep : Separated ok ts) (h : Splits ok ts m s) : Foremost ok ts s m :=
  ⟨h, fun _ h' => .inl (h'.unique hsep h)⟩

end

/-! ## Rendering -/

/-- The text of a pattern, with a part in the place of each field. -/
def render (parts : φ → List α) : List (Token α φ) → List α
  | [] => []
  | .lit c :: ts => c :: render parts ts
  | .field f :: ts => parts f ++ render parts ts

/-- What each field takes when the text is rendered from these parts. -/
def taken (parts : φ → List α) : List (Token α φ) → Taken α φ
  | [] => []
  | .lit _ :: ts => taken parts ts
  | .field f :: ts => (f, parts f) :: taken parts ts

theorem splits_render {ok : α → Bool} {parts : φ → List α} (hne : ∀ f, parts f ≠ [])
    (hok : ∀ f, ∀ c ∈ parts f, ok c = true) {ts : List (Token α φ)} :
    Splits ok ts (taken parts ts) (render parts ts) := by
  induction ts with
  | nil => exact .nil
  | cons t ts ih =>
    cases t with
    | lit c => exact .lit ih
    | field f => exact .field (hne f) (hok f) ih

theorem mem_taken_iff {parts : φ → List α} {ts : List (Token α φ)} {part : φ × List α} :
    part ∈ taken parts ts ↔ part.1 ∈ fields ts ∧ part.2 = parts part.1 := by
  induction ts with
  | nil => simp [taken, fields]
  | cons t ts ih =>
    cases t with
    | lit c => exact ih
    | field f =>
      rw [taken, fields, List.mem_cons, List.mem_cons, ih]
      constructor
      · rintro (rfl | ⟨hf, hpart⟩)
        · exact ⟨.inl rfl, rfl⟩
        · exact ⟨.inr hf, hpart⟩
      · rintro ⟨hf | hf, hpart⟩
        · exact .inl (Prod.ext hf (hf ▸ hpart))
        · exact .inr ⟨hf, hpart⟩

/-! ## Replacing -/

/-- Replace the occurrences of one run by another, from the left, after the first `k`
    items, which are dropped. -/
def replaceFrom {τ : Type} [DecidableEq τ] (old new : List τ) : Nat → List τ → List τ
  | _, [] => []
  | k + 1, _ :: ts => replaceFrom old new k ts
  | 0, t :: ts =>
    if old <+: t :: ts then new ++ replaceFrom old new (old.length - 1) ts
    else t :: replaceFrom old new 0 ts

theorem render_append {parts : φ → List α} (ts ts' : List (Token α φ)) :
    render parts (ts ++ ts') = render parts ts ++ render parts ts' := by
  induction ts with
  | nil => rfl
  | cons t ts ih =>
    cases t with
    | lit c => simp only [List.cons_append, render, ih]
    | field f => simp only [List.cons_append, render, ih, List.append_assoc]

/-- Replacing a run by one that renders alike changes nothing in what is rendered. -/
theorem render_replaceFrom [DecidableEq α] [DecidableEq φ] {parts : φ → List α}
    {old new : List (Token α φ)} (hne : old ≠ []) (hsame : render parts new = render parts old)
    (k : Nat) (ts : List (Token α φ)) :
    render parts (replaceFrom old new k ts) = render parts (ts.drop k) := by
  induction ts generalizing k with
  | nil => simp [replaceFrom]
  | cons t ts ih =>
    cases k with
    | succ k => exact ih k
    | zero =>
      rw [replaceFrom]
      split
      · rename_i hpre
        obtain ⟨rest, hrest⟩ := hpre
        obtain ⟨n, hn⟩ : ∃ n, old.length = n + 1 :=
          ⟨old.length - 1, by have := List.length_pos_of_ne_nil hne; omega⟩
        have hdrop : ts.drop (old.length - 1) = rest := by
          have := congrArg (List.drop old.length) hrest
          rw [List.drop_left, hn, List.drop_succ_cons] at this
          rw [hn, Nat.add_sub_cancel, ← this]
        rw [render_append, ih, hdrop, hsame, ← render_append, hrest]
        rfl
      · have hcons : t :: replaceFrom old new 0 ts = [t] ++ replaceFrom old new 0 ts := rfl
        rw [hcons, render_append, ih 0, ← render_append]
        rfl

end Pattern
