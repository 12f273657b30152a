-- SUMMARY: Tables of rows under uniqueness constraints: selection, batch insertion, conditional update and deletion.
import Mathlib.Data.List.Basic
import Mathlib.Data.List.Pairwise

/-!
# Tables

A table is a list of rows in which no two rows agree on any of its keys. The
constraint is part of the type, as it is part of the schema of a database: an
insertion that would break it fails, and what an update may change is limited to
columns outside the keys.
-/

/-- Two rows that differ on every key. -/
def Apart {ρ κ : Type} (keys : List (ρ → κ)) (a b : ρ) : Prop :=
  ∀ key ∈ keys, key a ≠ key b

instance {ρ κ : Type} [DecidableEq κ] (keys : List (ρ → κ)) : DecidableRel (Apart keys) :=
  fun a b => inferInstanceAs (Decidable (∀ key ∈ keys, key a ≠ key b))

instance {ρ κ : Type} (keys : List (ρ → κ)) : Std.Symm (Apart keys) :=
  ⟨fun _ _ h key hkey => (h key hkey).symm⟩

@[ext] structure Table {ρ κ : Type} (keys : List (ρ → κ)) where
  rows : List ρ
  unique : rows.Pairwise (Apart keys)

namespace Table

variable {ρ κ : Type} {keys : List (ρ → κ)}

instance : Membership ρ (Table keys) := ⟨fun t r => r ∈ t.rows⟩

def empty : Table keys := ⟨[], .nil⟩

instance : Inhabited (Table keys) := ⟨empty⟩

@[simp] theorem mem_rows {t : Table keys} {r : ρ} : r ∈ t.rows ↔ r ∈ t := Iff.rfl

@[simp] theorem not_mem_empty {r : ρ} : r ∉ (empty : Table keys) := List.not_mem_nil

/-- Rows that share a key are the same row. -/
theorem eq_of_key {t : Table keys} (key : ρ → κ) (hkey : key ∈ keys) {a b : ρ} (ha : a ∈ t)
    (hb : b ∈ t) (hab : key a = key b) : a = b := by
  by_contra hne
  have hall : ∀ x ∈ t.rows, ∀ y ∈ t.rows, x ≠ y → Apart keys x y :=
    fun x hx y hy hxy => t.unique.forall hx hy hxy
  exact hall a ha b hb hne key hkey hab

/-! ## Selection -/

def select (t : Table keys) (p : ρ → Bool) : List ρ := t.rows.filter p

/-- `select … one_or_none()`. -/
def find? (t : Table keys) (p : ρ → Bool) : Option ρ := t.rows.find? p

def count (t : Table keys) (p : ρ → Bool) : Nat := t.rows.countP p

@[simp] theorem mem_select {t : Table keys} {p : ρ → Bool} {r : ρ} :
    r ∈ t.select p ↔ r ∈ t ∧ p r = true := List.mem_filter

theorem find?_some {t : Table keys} {p : ρ → Bool} {r : ρ} (h : t.find? p = some r) :
    r ∈ t ∧ p r = true :=
  ⟨List.mem_of_find?_eq_some h, List.find?_some h⟩

theorem find?_none {t : Table keys} {p : ρ → Bool} :
    t.find? p = none ↔ ∀ r ∈ t, p r = false := by
  simp [find?, List.find?_eq_none]

/-- A selection that pins a key finds a row as soon as there is one. -/
theorem find?_eq_some {t : Table keys} {p : ρ → Bool} (key : ρ → κ) (hkey : key ∈ keys)
    (hp : ∀ a b, p a = true → p b = true → key a = key b) {r : ρ} (hr : r ∈ t)
    (hpr : p r = true) : t.find? p = some r := by
  cases hf : t.find? p with
  | none => simp [find?_none.mp hf r hr] at hpr
  | some r' =>
    obtain ⟨hr', hpr'⟩ := find?_some hf
    rw [eq_of_key key hkey hr' hr (hp r' r hpr' hpr)]

/-! ## Insertion -/

/-- Insert a batch of rows, all or none of them. `none` is an integrity error. -/
def insert [DecidableEq κ] (t : Table keys) (batch : List ρ) : Option (Table keys) :=
  if h : (t.rows ++ batch).Pairwise (Apart keys) then some ⟨t.rows ++ batch, h⟩ else none

theorem insert_rows [DecidableEq κ] {t t' : Table keys} {batch : List ρ}
    (h : t.insert batch = some t') : t'.rows = t.rows ++ batch := by
  simp only [insert] at h
  split at h
  · obtain rfl := Option.some.inj h
    rfl
  · cases h

theorem mem_insert [DecidableEq κ] {t t' : Table keys} {batch : List ρ}
    (h : t.insert batch = some t') {r : ρ} : r ∈ t' ↔ r ∈ t ∨ r ∈ batch := by
  rw [← mem_rows, insert_rows h, List.mem_append, mem_rows]

/-- A batch goes in exactly when its rows differ on every key from the stored
    rows and from one another. -/
theorem insert_isSome_iff [DecidableEq κ] (t : Table keys) (batch : List ρ) :
    (t.insert batch).isSome ↔
      batch.Pairwise (Apart keys) ∧ ∀ a ∈ t, ∀ b ∈ batch, Apart keys a b := by
  simp only [insert]
  split
  · rename_i h
    simpa using (List.pairwise_append.mp h).2
  · rename_i h
    simp only [Option.isSome_none, Bool.false_eq_true, false_iff]
    exact fun hb => h (List.pairwise_append.mpr ⟨t.unique, hb⟩)

@[simp] theorem insert_nil [DecidableEq κ] {t : Table keys} : t.insert [] = some t := by
  simp [insert, t.unique]

/-! ## Update and deletion -/

/-- Rewrite the rows that satisfy `p`. The new values leave every key alone. -/
def updateWhere (t : Table keys) (p : ρ → Bool) (f : ρ → ρ)
    (hf : ∀ r, ∀ key ∈ keys, key (f r) = key r) : Table keys where
  rows := t.rows.map fun r => if p r then f r else r
  unique := by
    rw [List.pairwise_map]
    refine t.unique.imp (fun {a b} hab key hkey => ?_)
    have hkeep : ∀ r, key (if p r then f r else r) = key r := by
      intro r
      split
      · exact hf r key hkey
      · rfl
    rw [hkeep a, hkeep b]
    exact hab key hkey

def deleteWhere (t : Table keys) (p : ρ → Bool) : Table keys where
  rows := t.rows.filter fun r => !p r
  unique := t.unique.filter _

variable {t : Table keys} {p : ρ → Bool} {f : ρ → ρ} {hf : ∀ r, ∀ key ∈ keys, key (f r) = key r}

theorem mem_updateWhere {r : ρ} :
    r ∈ t.updateWhere p f hf ↔ ∃ r₀ ∈ t, r = if p r₀ then f r₀ else r₀ := by
  simp only [← mem_rows, updateWhere, List.mem_map]
  constructor
  · rintro ⟨r₀, h₀, rfl⟩
    exact ⟨r₀, h₀, rfl⟩
  · rintro ⟨r₀, h₀, rfl⟩
    exact ⟨r₀, h₀, rfl⟩

/-- A row that the update does not select stays as it is. -/
theorem mem_updateWhere_of_not {r : ρ} (hr : r ∈ t) (hp : p r = false) :
    r ∈ t.updateWhere p f hf :=
  mem_updateWhere.mpr ⟨r, hr, by simp [hp]⟩

theorem updateWhere_none (h : ∀ r ∈ t, p r = false) : t.updateWhere p f hf = t := by
  refine Table.ext ((List.map_congr_left fun r hr => ?_).trans (List.map_id _))
  rw [h r hr]
  rfl

@[simp] theorem mem_deleteWhere {r : ρ} : r ∈ t.deleteWhere p ↔ r ∈ t ∧ p r = false := by
  rw [← mem_rows, deleteWhere, List.mem_filter]
  simp

/-! ## Deleting more than once -/

theorem deleteWhere_congr {q : ρ → Bool} (h : ∀ r ∈ t, p r = q r) :
    t.deleteWhere p = t.deleteWhere q := by
  refine Table.ext (List.filter_congr fun r hr => ?_)
  exact congrArg not (h r hr)

theorem deleteWhere_none (h : ∀ r ∈ t, p r = false) : t.deleteWhere p = t :=
  Table.ext (List.filter_eq_self.mpr fun r hr => by simp [h r hr])

theorem count_congr {q : ρ → Bool} (h : ∀ r ∈ t, p r = q r) : t.count p = t.count q :=
  List.countP_congr fun r hr => by rw [h r hr]

theorem deleteWhere_deleteWhere {q : ρ → Bool} :
    (t.deleteWhere p).deleteWhere q = t.deleteWhere fun r => p r || q r := by
  refine Table.ext ?_
  simp only [deleteWhere, List.filter_filter]
  exact List.filter_congr fun r _ => by rw [Bool.not_or, Bool.and_comm]

/-- What two deletions take, one after the other. -/
theorem count_add_deleteWhere {q : ρ → Bool} :
    t.count p + (t.deleteWhere p).count q = t.count fun r => p r || q r := by
  simp only [count, deleteWhere, List.countP_filter]
  induction t.rows with
  | nil => rfl
  | cons r rows ih =>
    simp only [List.countP_cons]
    cases p r <;> cases q r <;> simp <;> omega

/-! ## Restriction -/

/-- The rows that satisfy `v`, as a table of their own. -/
def restrict (v : ρ → Bool) (t : Table keys) : Table keys where
  rows := t.rows.filter v
  unique := t.unique.filter _

variable {v : ρ → Bool} {batch : List ρ}

@[simp] theorem mem_restrict {r : ρ} : r ∈ t.restrict v ↔ r ∈ t ∧ v r = true := List.mem_filter

@[simp] theorem restrict_empty : (empty : Table keys).restrict v = empty := rfl

/-- A question about rows that are there gets the same answer. -/
theorem select_restrict (h : ∀ r ∈ t, p r = true → v r = true) :
    (t.restrict v).select p = t.select p := by
  simp only [select, restrict, List.filter_filter]
  refine List.filter_congr fun r hr => ?_
  cases hp : p r with
  | false => rfl
  | true => rw [h r hr hp, Bool.and_true]

theorem find?_restrict (h : ∀ r ∈ t, p r = true → v r = true) :
    (t.restrict v).find? p = t.find? p := by
  rw [find?, find?, ← List.head?_filter, ← List.head?_filter]
  exact congrArg List.head? (select_restrict h)

theorem count_restrict (h : ∀ r ∈ t, p r = true → v r = true) :
    (t.restrict v).count p = t.count p := by
  rw [count, count, List.countP_eq_length_filter, List.countP_eq_length_filter]
  exact congrArg List.length (select_restrict h)

theorem deleteWhere_restrict : (t.restrict v).deleteWhere p = (t.deleteWhere p).restrict v := by
  refine Table.ext ?_
  simp only [deleteWhere, restrict, List.filter_filter]
  exact List.filter_congr fun r _ => Bool.and_comm ..

variable (hf) in
theorem updateWhere_restrict (h : ∀ r ∈ t, p r = true → v (f r) = v r) :
    (t.restrict v).updateWhere p f hf = (t.updateWhere p f hf).restrict v := by
  refine Table.ext ?_
  simp only [updateWhere, restrict, List.filter_map]
  refine congrArg _ (List.filter_congr fun r hr => ?_)
  simp only [Function.comp]
  split
  · exact (h r hr ‹_›).symm
  · rfl

/-- A batch of rows that are there goes in if it differs from what is not there. -/
theorem insert_restrict [DecidableEq κ] (hbatch : ∀ b ∈ batch, v b = true)
    (hapart : ∀ a ∈ t, v a = false → ∀ b ∈ batch, Apart keys a b) :
    (t.restrict v).insert batch = (t.insert batch).map (restrict v) := by
  have hrows : (t.rows ++ batch).filter v = t.rows.filter v ++ batch := by
    rw [List.filter_append, List.filter_eq_self.mpr hbatch]
  by_cases h : (t.rows ++ batch).Pairwise (Apart keys)
  · have hsub : ((t.restrict v).rows ++ batch).Pairwise (Apart keys) := hrows ▸ h.filter v
    rw [insert, insert, dif_pos h, dif_pos hsub]
    exact congrArg some (Table.ext hrows.symm)
  · have hsub : ¬ ((t.restrict v).rows ++ batch).Pairwise (Apart keys) := by
      intro hsub
      obtain ⟨-, hbatch, hcross⟩ := List.pairwise_append.mp hsub
      refine h (List.pairwise_append.mpr ⟨t.unique, hbatch, fun a ha b hb => ?_⟩)
      cases hv : v a with
      | true => exact hcross a (List.mem_filter.mpr ⟨ha, hv⟩) b hb
      | false => exact hapart a ha hv b hb
    rw [insert, insert, dif_neg h, dif_neg hsub]
    rfl

/-! What happens to other rows does not show. -/

theorem restrict_deleteWhere (h : ∀ r ∈ t, p r = true → v r = false) :
    (t.deleteWhere p).restrict v = t.restrict v := by
  refine Table.ext ?_
  simp only [deleteWhere, restrict, List.filter_filter]
  refine List.filter_congr fun r hr => ?_
  cases hp : p r with
  | false => exact Bool.and_true _
  | true => rw [h r hr hp, Bool.false_and]

variable (hf) in
theorem restrict_updateWhere (h : ∀ r ∈ t, p r = true → v r = false ∧ v (f r) = false) :
    (t.updateWhere p f hf).restrict v = t.restrict v := by
  refine Table.ext ?_
  simp only [updateWhere, restrict]
  suffices hrows : ∀ rows : List ρ, (∀ r ∈ rows, p r = true → v r = false ∧ v (f r) = false) →
      (rows.map fun r => if p r then f r else r).filter v = rows.filter v from hrows t.rows h
  intro rows h
  induction rows with
  | nil => rfl
  | cons r rows ih =>
    obtain ⟨hr, hrest⟩ := List.forall_mem_cons.mp h
    rw [List.map_cons, List.filter_cons, List.filter_cons, ih hrest]
    cases hp : p r with
    | false => rfl
    | true => simp [hr hp]

theorem restrict_insert [DecidableEq κ] {t' : Table keys} (h : t.insert batch = some t')
    (hbatch : ∀ b ∈ batch, v b = false) : t'.restrict v = t.restrict v := by
  have hnone : batch.filter v = [] := List.filter_eq_nil_iff.mpr fun b hb => by simp [hbatch b hb]
  refine Table.ext ?_
  simp only [restrict, insert_rows h, List.filter_append, hnone, List.append_nil]

end Table
