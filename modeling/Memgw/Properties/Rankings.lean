-- SUMMARY: When the database and the adapter rank alike: not where a similarity is undefined, unless enough others keep it out.
import Memgw.Properties.RowsInScope
import Mathlib.Algebra.Order.BigOperators.Group.List
import Mathlib.Order.WithBot
import Mathlib.Tactic.Linarith

/-!
# Two rankings

A search without labels may be ranked by the database or by the adapter. The cosine of
a zero vector is undefined: the database has NaN for it, which passes every threshold
and comes last, and the adapter has 0, which is a score like any other. Where every
similarity is defined the two rankings have the same scores, and so have they where the
limit is filled by rows that score 0 or more.
-/

namespace Memgw.Pgvector

/-! ## Cosine -/

def dot (a b : List Score) : Score := ((a.zip b).map fun xy => xy.1 * xy.2).sum

/-- The zero vector. -/
def IsZero (a : List Score) : Prop := ∀ x ∈ a, x = 0

instance (a : List Score) : Decidable (IsZero a) :=
  inferInstanceAs (Decidable (∀ x ∈ a, x = 0))

/-- What the database has for the distance of two vectors of a column: the cosine
    distance, and NaN when one of them is zero. -/
def CosineDistance (sqrt : Score → Score) (distance : List Score → List Score → Measure) : Prop :=
  ∀ a b, a.length = b.length → distance a b =
    if IsZero a ∨ IsZero b then .nan
    else .number (1 - dot a b / (sqrt (dot a a) * sqrt (dot b b)))

/-- A square root, as far as it matters here: that of zero is zero, and no other is. -/
def ZeroRoot (sqrt : Score → Score) : Prop := ∀ x, 0 ≤ x → (sqrt x = 0 ↔ x = 0)

theorem dot_comm (a b : List Score) : dot a b = dot b a := by
  induction a generalizing b with
  | nil => simp [dot]
  | cons x a ih =>
    cases b with
    | nil => simp [dot]
    | cons y b =>
      have := ih b
      simp only [dot, List.zip_cons_cons, List.map_cons, List.sum_cons] at this ⊢
      rw [this, mul_comm]

theorem dot_self (a : List Score) : dot a a = (a.map fun x => x * x).sum := by
  induction a with
  | nil => rfl
  | cons x a ih =>
    simp only [dot, List.zip_cons_cons, List.map_cons, List.sum_cons] at ih ⊢
    rw [ih]

theorem dot_self_nonneg (a : List Score) : 0 ≤ dot a a := by
  rw [dot_self]
  refine List.sum_nonneg fun y hy => ?_
  obtain ⟨x, -, rfl⟩ := List.mem_map.mp hy
  exact mul_self_nonneg x

theorem dot_self_eq_zero {a : List Score} : dot a a = 0 ↔ IsZero a := by
  induction a with
  | nil => simp [dot, IsZero]
  | cons x a ih =>
    have hcons : dot (x :: a) (x :: a) = x * x + dot a a := by simp [dot]
    have hx := mul_self_nonneg x
    have ha := dot_self_nonneg a
    have hzero : IsZero (x :: a) ↔ x = 0 ∧ IsZero a := by simp [IsZero]
    rw [hcons, hzero, ← ih, ← mul_self_eq_zero (a := x)]
    constructor
    · exact fun h => ⟨by linarith, by linarith⟩
    · rintro ⟨hx, ha⟩
      rw [hx, ha, add_zero]

section

variable {sqrt : Score → Score} {a b : List Score}

theorem sqrt_dot_self (hsqrt : ZeroRoot sqrt) : sqrt (dot a a) = 0 ↔ IsZero a :=
  (hsqrt _ (dot_self_nonneg a)).trans dot_self_eq_zero

/-- For the adapter, the cosine with a zero vector is 0. -/
theorem cosine_of_isZero (hsqrt : ZeroRoot sqrt) (h : IsZero a ∨ IsZero b) : cosine sqrt a b = 0 := by
  unfold cosine
  split
  · rfl
  · simp only [← dot_self, sqrt_dot_self hsqrt, h, if_true]

theorem cosine_of_ne (hsqrt : ZeroRoot sqrt) (hlen : a.length = b.length)
    (h : ¬ (IsZero a ∨ IsZero b)) :
    cosine sqrt a b = dot a b / (sqrt (dot a a) * sqrt (dot b b)) := by
  have hne : ¬ (a = [] ∨ b = [] ∨ a.length ≠ b.length) := by
    rintro (rfl | rfl | hlen')
    · exact h (.inl fun _ h => by cases h)
    · exact h (.inr fun _ h => by cases h)
    · exact hlen' hlen
  unfold cosine
  rw [if_neg hne]
  simp only [← dot_self, sqrt_dot_self hsqrt, h, if_false]
  rfl

/-- What the database has for the similarity of a row and a needle. -/
theorem similarity_eq (hsqrt : ZeroRoot sqrt) {distance : List Score → List Score → Measure}
    (hdistance : CosineDistance sqrt distance) (hlen : a.length = b.length) :
    similarity (distance b a) =
      if IsZero a ∨ IsZero b then .nan else .number (cosine sqrt a b) := by
  rw [hdistance b a hlen.symm]
  by_cases h : IsZero a ∨ IsZero b
  · rw [if_pos h, if_pos h.symm, similarity]
  · rw [if_neg h, if_neg (mt Or.symm h), cosine_of_ne hsqrt hlen h, similarity, dot_comm b a,
      mul_comm, sub_sub_cancel]

end

/-! ## Ranks -/

/-- Where the database sorts a similarity: NaN below every number. -/
def rank : Measure → WithBot Score
  | .number score => score
  | .nan => ⊥

theorem rank_injective : Function.Injective rank := by
  intro a b h
  cases a <;> cases b <;> simp_all [rank]

theorem nearestFirst_iff {a b : Measure} :
    nearestFirst a b = true ↔ rank (similarity b) ≤ rank (similarity a) := by
  cases a with
  | nan => cases b <;> simp [nearestFirst, similarity, rank]
  | number a =>
    cases b with
    | nan => simp [nearestFirst, similarity, rank]
    | number b =>
      simp only [nearestFirst, similarity, rank, decide_eq_true_eq, WithBot.coe_le_coe,
        sub_le_sub_iff_left]

section

variable {cfg : Config} {s : State} {query : SearchQuery} {scope : Scope} {needle : List Score}

theorem topOf_sql :
    TopOf (fun r => rank (similarity (cfg.distance r.embedding needle))) query.limit
      (sqlPool cfg s query scope needle) (sqlTop cfg s query scope needle) :=
  TopOf.take_sort (fun r r' => nearestFirst_iff (a := cfg.distance r.embedding needle)
    (b := cfg.distance r'.embedding needle)) _

/-- The ranking in Python, with its scores as ranks. -/
theorem topOf_python_rank :
    TopOf (fun r => rank (.number (cosine cfg.sqrt needle r.embedding))) query.limit
      (pythonPool cfg s query scope needle) (pythonTop cfg s query scope needle) :=
  TopOf.take_sort (fun _ _ => WithBot.coe_le_coe.symm) _

/-- The similarity of the row and the needle is undefined. -/
def undefinedFor (needle : List Score) (r : Row) : Bool :=
  decide (IsZero needle ∨ IsZero r.embedding)

/-- What the database and the adapter compute for one row. -/
structure Computes (cfg : Config) (needle : List Score) (r : Row) : Prop where
  undefined : undefinedFor needle r = true →
    similarity (cfg.distance r.embedding needle) = .nan ∧ cosine cfg.sqrt needle r.embedding = 0
  defined : undefinedFor needle r = false →
    similarity (cfg.distance r.embedding needle) = .number (cosine cfg.sqrt needle r.embedding)

theorem computes (hsqrt : ZeroRoot cfg.sqrt) (hdistance : CosineDistance cfg.sqrt cfg.distance)
    {r : Row} (hdim : needle.length = r.embedding.length) : Computes cfg needle r where
  undefined h := by
    have h : IsZero needle ∨ IsZero r.embedding := by simpa [undefinedFor] using h
    rw [similarity_eq hsqrt hdistance hdim, if_pos h]
    exact ⟨rfl, cosine_of_isZero hsqrt h⟩
  defined h := by
    have h : ¬ (IsZero needle ∨ IsZero r.embedding) := by simpa [undefinedFor] using h
    rw [similarity_eq hsqrt hdistance hdim, if_neg h]

/-- The database lets a row through when the adapter does, and when it has NaN for it. -/
theorem Computes.passes {r : Row} (hr : Computes cfg needle r) :
    (query.minScore.all fun least =>
      atLeastInSql least (similarity (cfg.distance r.embedding needle))) =
    (undefinedFor needle r ||
      scoresEnough query.minScore (cosine cfg.sqrt needle r.embedding)) := by
  cases hu : undefinedFor needle r with
  | true =>
    rw [(hr.undefined hu).1]
    cases query.minScore <;> simp [atLeastInSql]
  | false =>
    rw [hr.defined hu]
    cases query.minScore <;> simp [atLeastInSql, scoresEnough]

/-- A row in scope whose similarity is defined, not negative and enough. -/
def fills (cfg : Config) (query : SearchQuery) (scope : Scope) (needle : List Score) (r : Row) :
    Bool :=
  conditions scope r && (!undefinedFor needle r &&
    scoresEnough query.minScore (cosine cfg.sqrt needle r.embedding) &&
      decide (0 ≤ cosine cfg.sqrt needle r.embedding))

/-- The two answers have the same scores in the same order, and the same memory wherever
    just one row in scope has the score. -/
def Agree (cfg : Config) (s : State) (scope : Scope) (needle : List Score)
    (sql python : List ProviderMemory) : Prop :=
  sql.map ProviderMemory.score = python.map ProviderMemory.score ∧
  ∀ (i : Nat) m m', sql[i]? = some m → python[i]? = some m' →
    (∀ a ∈ s.rows cfg, ∀ b ∈ s.rows cfg, conditions scope a = true → conditions scope b = true →
      m.score = some (.number (cosine cfg.sqrt needle a.embedding)) →
      m.score = some (.number (cosine cfg.sqrt needle b.embedding)) → a = b) → m = m'

theorem scoresEnough_mono {minScore : Option Score} (x y : Score) (hxy : x ≤ y)
    (hx : scoresEnough minScore x = true) : scoresEnough minScore y = true := by
  cases minScore with
  | none => rfl
  | some least =>
    simp only [scoresEnough, Option.all_some, decide_eq_true_eq] at hx ⊢
    exact hx.trans hxy

/-- The scores of the two rankings are the same when rows of undefined similarity have no
    place in either. -/
theorem scores_agree_iff (hrows : ∀ r ∈ s.rows cfg, Computes cfg needle r)
    (hlabels : scope.labels.isEmpty = true) :
    ((sqlTop cfg s query scope needle).map (fun r =>
        rank (similarity (cfg.distance r.embedding needle))) =
      (pythonTop cfg s query scope needle).map fun r =>
        rank (.number (cosine cfg.sqrt needle r.embedding))) ↔
      (∀ r ∈ s.rows cfg, conditions scope r = true → undefinedFor needle r = false) ∨
        query.limit ≤ (s.rows cfg).count (fills cfg query scope needle) := by
  have hrank : ∀ r ∈ s.rows cfg, rank (similarity (cfg.distance r.embedding needle)) =
      TopOf.orBot (fun r : Row => cosine cfg.sqrt needle r.embedding) (undefinedFor needle) r := by
    intro r hr
    cases hu : undefinedFor needle r with
    | true => simp [((hrows r hr).undefined hu).1, rank, TopOf.orBot, hu]
    | false => simp [(hrows r hr).defined hu, rank, TopOf.orBot, hu]
  have hsql : sqlPool cfg s query scope needle =
      ((s.rows cfg).select (conditions scope)).filter fun r =>
        undefinedFor needle r ||
          scoresEnough query.minScore (cosine cfg.sqrt needle r.embedding) := by
    rw [sqlPool, Table.select, Table.select, List.filter_filter]
    refine List.filter_congr fun r hr => ?_
    rw [(hrows r hr).passes, Bool.and_comm]
  have hpython : pythonPool cfg s query scope needle =
      ((s.rows cfg).select (conditions scope)).filter fun r =>
        scoresEnough query.minScore (cosine cfg.sqrt needle r.embedding) := by
    rw [pythonPool, rowsOf, selects_of_no_labels hlabels]
    rfl
  have htop : TopOf (TopOf.orBot (fun r : Row => cosine cfg.sqrt needle r.embedding)
      (undefinedFor needle)) query.limit _ (sqlTop cfg s query scope needle) :=
    topOf_sql.congr fun r hr => hrank r (Table.mem_select.mp hr).1
  have hmap : (sqlTop cfg s query scope needle).map (fun r =>
      rank (similarity (cfg.distance r.embedding needle))) =
      (sqlTop cfg s query scope needle).map (TopOf.orBot
        (fun r : Row => cosine cfg.sqrt needle r.embedding) (undefinedFor needle)) :=
    List.map_congr_left fun r hr => hrank r (Table.mem_select.mp (topOf_sql.subset r hr)).1
  have hund : ∀ r ∈ (s.rows cfg).select (conditions scope), undefinedFor needle r = true →
      cosine cfg.sqrt needle r.embedding = 0 :=
    fun r hr hu => ((hrows r (Table.mem_select.mp hr).1).undefined hu).2
  rw [hmap]
  refine (TopOf.scores_eq_iff hund scoresEnough_mono (hsql ▸ htop)
    (hpython ▸ topOf_python_rank)).trans ?_
  rw [Table.count, Table.select, List.countP_filter]
  refine or_congr ?_ ?_
  · simp only [List.mem_filter, and_imp, Table.mem_rows]
  · refine iff_of_eq (congrArg (query.limit ≤ ·) (List.countP_congr fun r _ => ?_))
    rw [fills, TopOf.safe, Bool.and_comm]

/-- Where the scores are the same, the memories are, but for ties. -/
theorem agree_of_scores (hrows : ∀ r ∈ s.rows cfg, Computes cfg needle r)
    (hlabels : scope.labels.isEmpty = true)
    (heq : (sqlTop cfg s query scope needle).map (fun r =>
        rank (similarity (cfg.distance r.embedding needle))) =
      (pythonTop cfg s query scope needle).map fun r =>
        rank (.number (cosine cfg.sqrt needle r.embedding))) :
    Agree cfg s scope needle
      ((sqlTop cfg s query scope needle).map fun r =>
        toMemory (some (similarity (cfg.distance r.embedding needle))) r)
      ((pythonTop cfg s query scope needle).map fun r =>
        toMemory (some (.number (cosine cfg.sqrt needle r.embedding))) r) := by
  have hscores : (sqlTop cfg s query scope needle).map (fun r =>
      similarity (cfg.distance r.embedding needle)) =
      (pythonTop cfg s query scope needle).map fun r =>
        .number (cosine cfg.sqrt needle r.embedding) := by
    refine List.map_injective_iff.mpr rank_injective ?_
    rw [List.map_map, List.map_map]
    exact heq
  refine ⟨?_, fun i m m' hm hm' huntied => ?_⟩
  · rw [List.map_map, List.map_map]
    have := congrArg (List.map some) hscores
    rwa [List.map_map, List.map_map] at this
  · obtain ⟨a, ha, rfl⟩ := by simpa only [List.getElem?_map, Option.map_eq_some_iff] using hm
    obtain ⟨b, hb, rfl⟩ := by simpa only [List.getElem?_map, Option.map_eq_some_iff] using hm'
    have hab : similarity (cfg.distance a.embedding needle) =
        .number (cosine cfg.sqrt needle b.embedding) := by
      have := congrArg (·[i]?) hscores
      simpa only [List.getElem?_map, ha, hb, Option.map_some, Option.some.injEq] using this
    obtain ⟨hamem, hascope⟩ : a ∈ s.rows cfg ∧ conditions scope a = true := by
      obtain ⟨hmem, hcond⟩ := Table.mem_select.mp (topOf_sql.subset a (List.mem_of_getElem? ha))
      exact ⟨hmem, (Bool.and_eq_true_iff.mp hcond).1⟩
    obtain ⟨hbmem, hbscope⟩ : b ∈ s.rows cfg ∧ conditions scope b = true := by
      have hpool := topOf_python.subset b (List.mem_of_getElem? hb)
      rw [pythonPool_eq, Table.mem_select, eligible, selects_of_no_labels hlabels] at hpool
      exact ⟨hpool.1, (Bool.and_eq_true_iff.mp hpool.2).1⟩
    -- a number in the database is the cosine in Python
    have hcosine : similarity (cfg.distance a.embedding needle) =
        .number (cosine cfg.sqrt needle a.embedding) := by
      cases hu : undefinedFor needle a with
      | true =>
        rw [((hrows a hamem).undefined hu).1] at hab
        cases hab
      | false => exact (hrows a hamem).defined hu
    obtain rfl := huntied a hamem b hbmem hascope hbscope (congrArg some hcosine)
      (congrArg some hab)
    rw [hab]

end

/-- Both searches agree exactly when no row in scope has an undefined similarity, or rows
    that score enough, and not below 0, fill the limit without those. -/
theorem searches_agree_iff (cfg : Config) (s : State) (query : SearchQuery) (scope : Scope)
    (needle : List Score) (hlabels : scope.labels.isEmpty = true)
    (hdim : ∀ r ∈ s.rows cfg, r.embedding.length = needle.length) (hsqrt : ZeroRoot cfg.sqrt)
    (hdistance : CosineDistance cfg.sqrt cfg.distance) :
    (∃ sql python, (searchInSql cfg query scope needle).run (handle cfg) s = (.ok sql, s) ∧
      (searchInPython cfg query scope needle).run (handle cfg) s = (.ok python, s) ∧
      Agree cfg s scope needle sql python) ↔
    (∀ r ∈ s.rows cfg, conditions scope r = true → undefinedFor needle r = false) ∨
      query.limit ≤ (s.rows cfg).count (fills cfg query scope needle) := by
  have hrows : ∀ r ∈ s.rows cfg, Computes cfg needle r :=
    fun r hr => computes hsqrt hdistance (hdim r hr).symm
  rw [← scores_agree_iff hrows hlabels]
  constructor
  · rintro ⟨sql, python, hsql, hpython, hscores, -⟩
    obtain rfl := Except.ok.inj (Prod.mk.inj (searchInSql_run.symm.trans hsql)).1
    obtain rfl := Except.ok.inj (Prod.mk.inj (searchInPython_run.symm.trans hpython)).1
    have hranks := congrArg (List.map fun score : Option Measure => (score.map rank).getD ⊥) hscores
    rw [List.map_map, List.map_map, List.map_map, List.map_map] at hranks
    exact hranks
  · exact fun heq => ⟨_, _, searchInSql_run, searchInPython_run, agree_of_scores hrows hlabels heq⟩

/-! ## A row without a direction -/

/-- A square root for the few numbers that occur below. -/
def smallRoot (x : Score) : Score := if x = 25 then 5 else x

def plane : Config where
  table := "memories"
  nativeVectors := true
  embed _ _ := .ok []
  sqrt := smallRoot
  distance a b :=
    if IsZero a ∨ IsZero b then .nan
    else .number (1 - dot a b / (smallRoot (dot a a) * smallRoot (dot b b)))

def planeRow (nativeId : String) (embedding : List Score) : Row where
  nativeId := nativeId
  tenant := some "a"
  subject := ⟨"u_1", u_1_mustBeReal⟩
  agent := none
  session := none
  labels := {}
  content := nativeId
  embedding := embedding
  createdAt := 0
  updatedAt := 0

/-- A zero row before two others. -/
def threeRows : State where
  tables _ := ⟨[planeRow "z" [0, 0], planeRow "x" [3, 4], planeRow "y" [0, 1]], by decide⟩

def zeroRow : State where
  tables _ := ⟨[planeRow "z" [0, 0]], by decide⟩

def planeScope : Scope := { subject := ⟨"u_1", u_1_mustBeReal⟩ }

theorem plane_root : ZeroRoot plane.sqrt := by
  intro x _
  by_cases hx : x = 25
  · subst hx
    simp [plane, smallRoot]
  · simp [plane, smallRoot, hx]

theorem plane_distance : CosineDistance plane.sqrt plane.distance := fun _ _ _ => rfl

/-- The zero row is out of the first two. -/
theorem searches_agree_three :
    ∃ sql python,
      (searchInSql plane { query := "q", limit := 2 } planeScope [1, 0]).run (handle plane)
        threeRows = (.ok sql, threeRows) ∧
      (searchInPython plane { query := "q", limit := 2 } planeScope [1, 0]).run (handle plane)
        threeRows = (.ok python, threeRows) ∧
      Agree plane threeRows planeScope [1, 0] sql python := by
  have hdim : ∀ r ∈ (threeRows.rows plane).rows, r.embedding.length = 2 := by decide
  refine (searches_agree_iff plane threeRows { query := "q", limit := 2 } planeScope [1, 0] rfl hdim
    plane_root plane_distance).mpr (.inr ?_)
  decide +kernel

/-- One memory, and it is zero: the database scores it NaN, the adapter 0. -/
theorem zero_row_disagrees : ¬ ∀ (cfg : Config) (s : State) (query : SearchQuery) (scope : Scope)
    (needle : List Score), scope.labels.isEmpty = true →
    (∀ r ∈ s.rows cfg, r.embedding.length = needle.length) → ZeroRoot cfg.sqrt →
    CosineDistance cfg.sqrt cfg.distance →
    ∃ sql python, (searchInSql cfg query scope needle).run (handle cfg) s = (.ok sql, s) ∧
      (searchInPython cfg query scope needle).run (handle cfg) s = (.ok python, s) ∧
      Agree cfg s scope needle sql python := by
  intro h
  have hdim : ∀ r ∈ (zeroRow.rows plane).rows, r.embedding.length = 2 := by decide
  obtain ⟨sql, python, hsql, hpython, hscores, -⟩ := h plane zeroRow { query := "q" } planeScope
    [1, 0] rfl hdim plane_root plane_distance
  have hsql' : (searchInSql plane { query := "q" } planeScope [1, 0]).run (handle plane) zeroRow =
      (.ok [toMemory (some .nan) (planeRow "z" [0, 0])], zeroRow) := rfl
  have hpython' : (searchInPython plane { query := "q" } planeScope [1, 0]).run (handle plane)
      zeroRow = (.ok [toMemory (some (.number (cosine plane.sqrt [1, 0]
        (planeRow "z" [0, 0]).embedding))) (planeRow "z" [0, 0])], zeroRow) := rfl
  obtain rfl := Except.ok.inj (Prod.mk.inj (hsql.symm.trans hsql')).1
  obtain rfl := Except.ok.inj (Prod.mk.inj (hpython.symm.trans hpython')).1
  cases hscores

end Memgw.Pgvector
