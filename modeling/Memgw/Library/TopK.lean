-- SUMMARY: What a sort and a cut leave of a pool: the best of it, in order, with one list of scores however ties are broken.
import Mathlib.Data.List.Sort
import Mathlib.Order.WithBot

/-!
# Top k

A ranking sorts a pool by a score, best first, and cuts. Elements with one score may
come in any order, so a ranking is not determined by its pool; its scores are. Filters
that run before the cut are part of the pool, and a filter commutes with a stable sort.
-/

namespace List

variable {α : Type} {r : α → α → Prop} [DecidableRel r] {p : α → Bool} {a : α} {l : List α}

theorem orderedInsert_of_le (h : ∀ b ∈ l, r a b) : orderedInsert r a l = a :: l := by
  cases l with
  | nil => rfl
  | cons b l => exact if_pos (h b mem_cons_self)

/-- An element that a filter drops may as well not be inserted. -/
theorem filter_orderedInsert_of_neg (ha : p a = false) :
    (orderedInsert r a l).filter p = l.filter p := by
  induction l with
  | nil => simp [orderedInsert, ha]
  | cons b l ih =>
    rw [orderedInsert]
    split
    · simp [ha]
    · rw [filter_cons, filter_cons, ih]

theorem filter_orderedInsert_of_pos [IsTrans α r] (hl : l.Pairwise r) (ha : p a = true) :
    (orderedInsert r a l).filter p = orderedInsert r a (l.filter p) := by
  induction l with
  | nil => simp [orderedInsert, ha]
  | cons b l ih =>
    obtain ⟨hb, hl⟩ := pairwise_cons.mp hl
    rw [orderedInsert]
    split
    · rename_i hab
      -- everything behind `b` comes after `a` too
      have hall : ∀ c ∈ (b :: l).filter p, r a c := by
        intro c hc
        rcases mem_cons.mp (mem_of_mem_filter hc) with rfl | hc
        · exact hab
        · exact IsTrans.trans a b c hab (hb c hc)
      rw [filter_cons_of_pos ha, orderedInsert_of_le hall]
    · rename_i hab
      cases hp : p b with
      | true => rw [filter_cons_of_pos hp, filter_cons_of_pos hp, ih hl, orderedInsert, if_neg hab]
      | false => rw [filter_cons_of_neg (by simp [hp]), filter_cons_of_neg (by simp [hp]), ih hl]

/-- Sorting first and filtering then is filtering first and sorting then. -/
theorem filter_insertionSort [IsTrans α r] [Std.Total r] (l : List α) :
    (l.insertionSort r).filter p = (l.filter p).insertionSort r := by
  induction l with
  | nil => rfl
  | cons a l ih =>
    rw [insertionSort_cons]
    cases ha : p a with
    | true =>
      rw [filter_orderedInsert_of_pos (pairwise_insertionSort r l) ha, ih, filter_cons_of_pos ha,
        insertionSort_cons]
    | false =>
      rw [filter_orderedInsert_of_neg ha, ih, filter_cons_of_neg (by simp [ha])]

end List

/-! ## Rankings -/

/-- The first `k` of a ranking of the pool by score, best first. -/
structure TopOf {α β : Type} [LinearOrder β] (score : α → β) (k : Nat) (pool top : List α) :
    Prop where
  /-- Nothing that was left out scores higher than what was kept. -/
  cut : ∃ rest, (top ++ rest).Perm pool ∧ ∀ a ∈ top, ∀ b ∈ rest, score b ≤ score a
  sorted : top.Pairwise fun a b => score b ≤ score a
  length : top.length = min k pool.length

namespace TopOf

variable {α β : Type} [LinearOrder β] {score : α → β} {k : Nat} {pool top : List α}

theorem take_of_sorted {l : List α} (hsorted : l.Pairwise fun a b => score b ≤ score a) :
    TopOf score k l (l.take k) where
  cut := by
    refine ⟨l.drop k, by rw [List.take_append_drop], ?_⟩
    have hsplit := (List.take_append_drop k l).symm ▸ hsorted
    exact (List.pairwise_append.mp hsplit).2.2
  sorted := hsorted.sublist (List.take_sublist k l)
  length := List.length_take

theorem perm {pool' : List α} (h : TopOf score k pool top) (hpool : pool.Perm pool') :
    TopOf score k pool' top where
  cut := by
    obtain ⟨rest, hperm, hle⟩ := h.cut
    exact ⟨rest, hperm.trans hpool, hle⟩
  sorted := h.sorted
  length := hpool.length_eq ▸ h.length

/-- Sorting by the score and cutting leaves the top of the pool. -/
theorem take_sort {r : α → α → Prop} [DecidableRel r] (hr : ∀ a b, r a b ↔ score b ≤ score a)
    (pool : List α) : TopOf score k pool ((pool.insertionSort r).take k) := by
  have hsorted : (pool.insertionSort r).Pairwise fun a b => score b ≤ score a := by
    have : IsTrans α r := ⟨fun a b c hab hbc =>
      (hr a c).mpr (((hr b c).mp hbc).trans ((hr a b).mp hab))⟩
    have : Std.Total r := ⟨fun a b => (le_total (score b) (score a)).imp (hr a b).mpr (hr b a).mpr⟩
    exact (List.pairwise_insertionSort r pool).imp fun h => (hr _ _).mp h
  exact (take_of_sorted hsorted).perm (List.perm_insertionSort r pool)

theorem exists_top : ∃ top, TopOf score k pool top :=
  ⟨_, take_sort (r := fun a b => score b ≤ score a) (fun _ _ => Iff.rfl) pool⟩

theorem subset (h : TopOf score k pool top) : ∀ a ∈ top, a ∈ pool := by
  obtain ⟨rest, hperm, -⟩ := h.cut
  exact fun a ha => hperm.subset (List.mem_append_left rest ha)

theorem nodup (h : TopOf score k pool top) (hpool : pool.Nodup) : top.Nodup := by
  obtain ⟨rest, hperm, -⟩ := h.cut
  exact (List.nodup_append.mp (hperm.nodup_iff.mpr hpool)).1

/-- What is not in the top scores no higher than anything in it. -/
theorem best (h : TopOf score k pool top) {b : α} (hb : b ∈ pool) (hout : b ∉ top) :
    ∀ a ∈ top, score b ≤ score a := by
  obtain ⟨rest, hperm, hle⟩ := h.cut
  have hrest : b ∈ rest := (List.mem_append.mp (hperm.mem_iff.mpr hb)).resolve_left hout
  exact fun a ha => hle a ha b hrest

theorem congr {score' : α → β} (h : TopOf score k pool top)
    (hscore : ∀ a ∈ pool, score a = score' a) : TopOf score' k pool top where
  cut := by
    obtain ⟨rest, hperm, hle⟩ := h.cut
    refine ⟨rest, hperm, fun a ha b hb => ?_⟩
    rw [← hscore a (h.subset a ha), ← hscore b (hperm.subset (List.mem_append_right top hb))]
    exact hle a ha b hb
  sorted := by
    refine h.sorted.imp_of_mem (fun {a b} ha hb hab => ?_)
    rwa [← hscore a (h.subset a ha), ← hscore b (h.subset b hb)]
  length := h.length

/-- A pool that fills the top by itself may grow by elements that score no higher. -/
theorem append {more : List α} (h : TopOf score k pool top) (hfull : k ≤ pool.length)
    (hmore : ∀ a ∈ pool, ∀ b ∈ more, score b ≤ score a) : TopOf score k (pool ++ more) top where
  cut := by
    obtain ⟨rest, hperm, hle⟩ := h.cut
    refine ⟨rest ++ more, ?_, fun a ha b hb => ?_⟩
    · rw [← List.append_assoc]
      exact hperm.append_right more
    · rcases List.mem_append.mp hb with hb | hb
      · exact hle a ha b hb
      · exact hmore a (h.subset a ha) b hb
  sorted := h.sorted
  length := by
    rw [h.length, List.length_append]
    omega

/-- The scores of the top are those of the sorted pool, up to the cut. -/
theorem scores (h : TopOf score k pool top) :
    top.map score = ((pool.map score).insertionSort (· ≥ ·)).take k := by
  obtain ⟨rest, hperm, hle⟩ := h.cut
  -- the top, and what is left in order, is the pool in order
  have hsorted : (top.map score ++ (rest.map score).insertionSort (· ≥ ·)).Pairwise (· ≥ ·) := by
    refine List.pairwise_append.mpr ⟨List.pairwise_map.mpr h.sorted,
      List.pairwise_insertionSort _ _, fun x hx y hy => ?_⟩
    obtain ⟨a, ha, rfl⟩ := List.mem_map.mp hx
    obtain ⟨b, hb, rfl⟩ := List.mem_map.mp ((List.mem_insertionSort _).mp hy)
    exact hle a ha b hb
  have hsame : top.map score ++ (rest.map score).insertionSort (· ≥ ·) =
      (pool.map score).insertionSort (· ≥ ·) := by
    refine List.Perm.eq_of_pairwise' hsorted (List.pairwise_insertionSort _ _) ?_
    have hperm : (top.map score ++ rest.map score).Perm (pool.map score) :=
      List.map_append ▸ hperm.map score
    exact ((List.perm_insertionSort _ _).append_left _).trans
      (hperm.trans (List.perm_insertionSort _ _).symm)
  rw [← hsame]
  rcases Nat.le_total k pool.length with hk | hk
  · have hlen : (top.map score).length = k := by simp [h.length, hk]
    rw [List.take_left' hlen]
  · have hrest : rest = [] := by
      have := hperm.length_eq
      rw [List.length_append, h.length] at this
      exact List.length_eq_zero_iff.mp (by omega)
    have hlen : (top.map score).length ≤ k := by simp [h.length, hk]
    simp [hrest, List.take_of_length_le hlen]

/-- Two tops of one pool have the same scores, in the same order. -/
theorem scores_unique {top' : List α} (h : TopOf score k pool top) (h' : TopOf score k pool top') :
    top.map score = top'.map score :=
  h.scores.trans h'.scores.symm

/-- Whatever holds of every higher score holds in the top as often as in the pool, up to
    the cut. -/
theorem countP {q : β → Bool} (hq : ∀ x y, x ≤ y → q x = true → q y = true)
    (h : TopOf score k pool top) :
    top.countP (q ∘ score) = min k (pool.countP (q ∘ score)) := by
  obtain ⟨rest, hperm, hle⟩ := h.cut
  have hcount := hperm.countP_eq (q ∘ score)
  rw [List.countP_append] at hcount
  have hbound : top.countP (q ∘ score) ≤ top.length := List.countP_le_length
  by_cases hrest : rest.countP (q ∘ score) = 0
  · have := h.length
    omega
  · -- one that was left out passes, so all that were kept do, and the top is full
    obtain ⟨b, hb, hqb⟩ := List.countP_pos_iff.mp (Nat.pos_of_ne_zero hrest)
    have hall : top.countP (q ∘ score) = top.length :=
      List.countP_eq_length.mpr fun a ha => hq _ _ (hle a ha b hb) hqb
    have hlen := hperm.length_eq
    rw [List.length_append] at hlen
    have hrestlen : 0 < rest.length := List.length_pos_of_mem hb
    have := h.length
    omega

/-! ## Undefined scores -/

/-- A test that more elements pass, one of them in the list, counts more. -/
theorem countP_lt {p q : α → Bool} {l : List α} {u : α} (himp : ∀ a ∈ l, p a = true → q a = true)
    (hu : u ∈ l) (hp : p u = false) (hq : q u = true) : l.countP p < l.countP q := by
  induction l with
  | nil => cases hu
  | cons a l ih =>
    have himp' : ∀ b ∈ l, p b = true → q b = true :=
      fun b hb => himp b (List.mem_cons_of_mem a hb)
    rw [List.countP_cons, List.countP_cons]
    rcases List.mem_cons.mp hu with rfl | hu
    · have := List.countP_mono_left himp'
      simp only [hp, hq, Bool.false_eq_true, if_false, if_true]
      omega
    · have := ih himp' hu
      have ha := himp a List.mem_cons_self
      cases hpa : p a with
      | true =>
        rw [ha hpa]
        omega
      | false =>
        simp only [Bool.false_eq_true, if_false]
        omega

/-- The best of a pool stay the best among those that pass a weaker test, when they fill
    the top and the others score no higher. -/
theorem of_filter {p q : α → Bool} (h : TopOf score k (pool.filter p) top)
    (hfull : k ≤ pool.countP p) (himp : ∀ a ∈ pool, p a = true → q a = true)
    (hmore : ∀ a ∈ pool, p a = true → ∀ b ∈ pool, q b = true → p b = false → score b ≤ score a) :
    TopOf score k (pool.filter q) top := by
  have hsub : (pool.filter q).filter p = pool.filter p := by
    rw [List.filter_filter]
    refine List.filter_congr fun a ha => ?_
    cases hp : p a with
    | true => rw [himp a ha hp, Bool.and_self]
    | false => rw [Bool.false_and]
  have hgrown : TopOf score k (pool.filter p ++ (pool.filter q).filter fun a => !p a) top := by
    refine h.append ?_ (fun a ha b hb => ?_)
    · rwa [← List.countP_eq_length_filter]
    · obtain ⟨ha, hpa⟩ := List.mem_filter.mp ha
      obtain ⟨hb, hpb⟩ := List.mem_filter.mp hb
      obtain ⟨hb, hqb⟩ := List.mem_filter.mp hb
      exact hmore a ha hpa b hb hqb (by simpa using hpb)
  refine hgrown.perm ?_
  rw [← hsub]
  exact List.filter_append_perm p _

section

variable {und : α → Bool} {enough : β → Bool} {z : β} {top₁ top₂ l : List α}

/-- An element that a ranking with undefined scores and one without rank alike, above
    what is undefined. -/
def safe (score : α → β) (und : α → Bool) (enough : β → Bool) (z : β) (a : α) : Bool :=
  !und a && enough (score a) && decide (z ≤ score a)

theorem safe_iff {a : α} : safe score und enough z a = true ↔
    und a = false ∧ enough (score a) = true ∧ z ≤ score a := by
  simp [safe, and_assoc]

/-- The score of an element, below every other when it is undefined. -/
def orBot (score : α → β) (und : α → Bool) (a : α) : WithBot β :=
  if und a then ⊥ else score a

theorem orBot_of_safe {a : α} (ha : safe score und enough z a = true) :
    orBot score und a = score a := by
  simp [orBot, (safe_iff.mp ha).1]

variable (hund : ∀ a ∈ l, und a = true → score a = z)
  (henough : ∀ x y, x ≤ y → enough x = true → enough y = true)
  (h₁ : TopOf (orBot score und) k (l.filter fun a => und a || enough (score a)) top₁)
  (h₂ : TopOf (fun a => (score a : WithBot β)) k (l.filter fun a => enough (score a)) top₂)

include h₁ h₂

theorem scores_eq_of_defined (hdef : ∀ a ∈ l, und a = false) :
    top₁.map (orBot score und) = top₂.map fun a => (score a : WithBot β) := by
  have hpool : (l.filter fun a => und a || enough (score a)) = l.filter fun a => enough (score a) :=
    List.filter_congr fun a ha => by rw [hdef a ha, Bool.false_or]
  have hsame : ∀ a ∈ l, orBot score und a = score a := fun a ha => by simp [orBot, hdef a ha]
  have h₁' : TopOf (fun a => (score a : WithBot β)) k (l.filter fun a => enough (score a)) top₁ :=
    (hpool ▸ h₁).congr fun a ha => hsame a (List.mem_of_mem_filter ha)
  rw [← h₁'.scores_unique h₂]
  exact List.map_congr_left fun a ha => hsame a (List.mem_of_mem_filter (h₁.subset a ha))

/-- Rankings with the same scores have as many of them from `z` on. -/
theorem countP_safe_of_scores_eq
    (heq : top₁.map (orBot score und) = top₂.map fun a => (score a : WithBot β)) :
    min k (l.countP (safe score und enough z)) =
      min k (l.countP fun a => enough (score a) && decide (z ≤ score a)) := by
  have hup : ∀ x y : WithBot β, x ≤ y → decide ((z : WithBot β) ≤ x) = true →
      decide ((z : WithBot β) ≤ y) = true := by
    intro x y hxy hx
    exact decide_eq_true ((of_decide_eq_true hx).trans hxy)
  have hc₁ := h₁.countP hup
  have hc₂ := h₂.countP hup
  rw [← List.countP_map, heq, List.countP_map, hc₂, List.countP_filter, List.countP_filter] at hc₁
  have hl : l.countP (safe score und enough z) = l.countP fun a =>
      decide ((z : WithBot β) ≤ orBot score und a) && (und a || enough (score a)) := by
    refine List.countP_congr fun a _ => ?_
    cases hdef : und a <;> simp [safe, orBot, hdef, and_comm]
  have hr : (l.countP fun a => enough (score a) && decide (z ≤ score a)) = l.countP fun a =>
      decide ((z : WithBot β) ≤ (score a : WithBot β)) && enough (score a) := by
    refine List.countP_congr fun a _ => ?_
    simp [and_comm]
  rw [hl, hr]
  exact hc₁.symm

/-- They are of the same length. -/
theorem countP_of_scores_eq
    (heq : top₁.map (orBot score und) = top₂.map fun a => (score a : WithBot β)) :
    min k (l.countP fun a => und a || enough (score a)) =
      min k (l.countP fun a => enough (score a)) := by
  rw [List.countP_eq_length_filter, List.countP_eq_length_filter, ← h₁.length, ← h₂.length,
    ← List.length_map (orBot score und), heq, List.length_map]

include hund

theorem scores_eq_of_safe (hsafe : k ≤ l.countP (safe score und enough z)) :
    top₁.map (orBot score und) = top₂.map fun a => (score a : WithBot β) := by
  -- the best of the safe elements are the top of either pool
  obtain ⟨top, htop⟩ : ∃ top, TopOf (fun a => (score a : WithBot β)) k
      (l.filter (safe score und enough z)) top := exists_top
  have hsame : ∀ a ∈ l.filter (safe score und enough z), (score a : WithBot β) = orBot score und a :=
    fun a ha => (orBot_of_safe (List.mem_filter.mp ha).2).symm
  have hbelow : ∀ b ∈ l, enough (score b) = true → safe score und enough z b = false →
      score b ≤ z := by
    intro b hb hen hout
    by_contra hlt
    have hdef : und b = false := by
      by_contra hdef
      exact hlt (hund b hb (by simpa using hdef)).le
    rw [safe_iff.mpr ⟨hdef, hen, (not_le.mp hlt).le⟩] at hout
    cases hout
  have htop₁ : TopOf (orBot score und) k (l.filter fun a => und a || enough (score a)) top := by
    refine (htop.congr hsame).of_filter hsafe (fun a _ ha => ?_) (fun a _ ha b hb hqb hout => ?_)
    · rw [(safe_iff.mp ha).2.1, Bool.or_true]
    · rw [orBot_of_safe ha, orBot]
      split
      · exact bot_le
      · rename_i hdef
        have hen : enough (score b) = true := by simpa [hdef] using hqb
        exact WithBot.coe_le_coe.mpr ((hbelow b hb hen hout).trans (safe_iff.mp ha).2.2)
  have htop₂ : TopOf (fun a => (score a : WithBot β)) k (l.filter fun a => enough (score a)) top :=
    htop.of_filter hsafe (fun a _ ha => (safe_iff.mp ha).2.1) fun a _ ha b hb hen hout =>
      WithBot.coe_le_coe.mpr ((hbelow b hb hen hout).trans (safe_iff.mp ha).2.2)
  calc top₁.map (orBot score und) = top.map (orBot score und) := h₁.scores_unique htop₁
    _ = top.map fun a => (score a : WithBot β) :=
        List.map_congr_left fun a ha => (hsame a (htop.subset a ha)).symm
    _ = top₂.map fun a => (score a : WithBot β) := htop₂.scores_unique h₂

include henough

theorem safe_of_scores_eq
    (heq : top₁.map (orBot score und) = top₂.map fun a => (score a : WithBot β)) :
    (∀ a ∈ l, und a = false) ∨ k ≤ l.countP (safe score und enough z) := by
  by_contra hcon
  obtain ⟨⟨u, hu, hundef⟩, hfew⟩ : (∃ u ∈ l, und u = true) ∧
      l.countP (safe score und enough z) < k := by
    simpa using hcon
  have hcount := countP_safe_of_scores_eq h₁ h₂ heq (z := z)
  have hlength := countP_of_scores_eq h₁ h₂ heq
  cases hz : enough z with
  | true =>
    -- the undefined element scores `z` in the second ranking alone
    have hlt := countP_lt (p := safe score und enough z)
      (q := fun a => enough (score a) && decide (z ≤ score a)) (l := l)
      (fun a _ ha => by simp [(safe_iff.mp ha).2]) hu (by simp [safe, hundef])
      (by simp [hund u hu hundef, hz])
    omega
  | false =>
    -- it passes the test of the first ranking alone
    have hlt := countP_lt (p := fun a => enough (score a))
      (q := fun a => und a || enough (score a)) (l := l) (fun a _ ha => by simp [ha]) hu
      (by rw [hund u hu hundef, hz]) (by simp [hundef])
    have habove : (l.countP fun a => enough (score a)) ≤ l.countP (safe score und enough z) := by
      refine List.countP_mono_left fun a ha hen => safe_iff.mpr ⟨?_, hen, ?_⟩
      · by_contra hdef
        rw [hund a ha (by simpa using hdef), hz] at hen
        cases hen
      · by_contra hlt
        have := henough (score a) z (not_le.mp hlt).le hen
        rw [hz] at this
        cases this
    omega

/-- A ranking that lets undefined scores through, and has them last, has the scores of one
    that takes `z` for them exactly when there are none to rank, or the cut comes before
    them and before `z`. -/
theorem scores_eq_iff :
    (top₁.map (orBot score und) = top₂.map fun a => (score a : WithBot β)) ↔
      (∀ a ∈ l, und a = false) ∨ k ≤ l.countP (safe score und enough z) :=
  ⟨safe_of_scores_eq hund henough h₁ h₂, fun h => h.elim (scores_eq_of_defined h₁ h₂)
    (scores_eq_of_safe hund h₁ h₂)⟩

end

end TopOf
