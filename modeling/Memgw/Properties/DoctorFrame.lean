-- SUMMARY: When `doctor` leaves the catalog database as it is, and what a migration no longer sees after it.
import Memgw.Cli.Doctor

/-!
# What doctor leaves behind

The check of the catalog runs the startup code, and that creates the tables of an empty
database and stamps one without a revision. Only a database that is refused, or that
has tables and a revision already, is left as it is.
-/

namespace Memgw.Cli

open Schema

variable {ρ : Type} {faults : Faults} {db : Stored ρ}

/-! ## Startup -/

/-- Over a database that can be used, this is the startup of `Schema`, with the rows kept. -/
theorem init_schema (db : Stored ρ) :
    Schema.init db.schema = (init {} db).1.map (fun _ => (init {} db).2.schema) ∧
      (init {} db).2.rows = db.rows := by
  have hstamp : ∀ db : Stored ρ,
      stampHead db.schema = (stamp db).1.map (fun _ => (stamp db).2.schema) ∧
        (stamp db).2.rows = db.rows := by
    intro db
    unfold stamp
    split
    · rename_i exc h
      exact ⟨h, rfl⟩
    · rename_i schema h
      exact ⟨h, rfl⟩
  unfold Schema.init init
  cases hempty : isEmpty db.schema with
  | true => exact hstamp (created db)
  | false =>
    cases hrevision : db.schema.revision with
    | none => simpa [hrevision] using hstamp db
    | some revision => exact ⟨rfl, rfl⟩

/-- Stamping keeps the tables. -/
theorem stamp_tables {name : String} (h : name ∈ db.schema.tables) :
    name ∈ (stamp db).2.schema.tables := by
  unfold stamp
  split
  · exact h
  · rename_i schema hstamp
    unfold stampHead at hstamp
    split at hstamp
    · cases hstamp
    · obtain rfl := Except.ok.inj hstamp
      exact mem_record.mpr (.inr h)

/-- A database without a revision is at head when it has been stamped. -/
theorem stamp_unversioned (h : db.schema.revision = none) :
    (stamp db).1 = .ok () ∧ (stamp db).2.schema.revision = headRevision := by
  have hhead : stampHead db.schema = .ok (db.schema.record "0001_initial") := by
    rw [stampHead, h]
    rfl
  unfold stamp
  split
  · rename_i exc hstamp
    rw [hhead] at hstamp
    cases hstamp
  · rename_i schema hstamp
    rw [hhead] at hstamp
    obtain rfl := Except.ok.inj hstamp
    exact ⟨rfl, rfl⟩

/-- An empty database gets the tables, even where the stamp fails after that. -/
theorem created_changes (h : isEmpty db.schema = true) : (stamp (created db)).2 ≠ db := by
  intro heq
  have hnew : "memory_index" ∈ (created db).schema.tables :=
    mem_createAll.mpr (.inr (by decide))
  have hold : "memory_index" ∈ db.schema.tables := by
    rw [← heq]
    exact stamp_tables hnew
  exact absurd (isEmpty_iff.mp h _ hold) (by decide)

theorem stamp_changes (h : db.schema.revision = none) : (stamp db).2 ≠ db := by
  intro heq
  have hhead := (stamp_unversioned h).2
  rw [heq, h] at hhead
  exact absurd hhead (by decide)

/-- Startup changes nothing exactly where it is refused or finds tables and a
    revision. -/
theorem init_unchanged_iff :
    (init faults db).2 = db ↔ faults.read ≠ none ∨ faults.write ≠ none ∨
      (isEmpty db.schema = false ∧ db.schema.revision ≠ none) := by
  unfold init
  cases hread : faults.read with
  | some exc => simp
  | none =>
    cases hwrite : faults.write with
    | some exc =>
      simp only [ne_eq, not_true_eq_false, reduceCtorEq, not_false_eq_true, true_or, or_true,
        iff_true]
      split <;> rfl
    | none =>
      simp only [ne_eq, not_true_eq_false, false_or]
      cases hempty : isEmpty db.schema with
      | true => simpa using created_changes hempty
      | false =>
        cases hrevision : db.schema.revision with
        | none => simpa using stamp_changes hrevision
        | some revision => simp

/-! ## The report -/

/-- Of all the checks, only startup can touch the database. -/
theorem checkCatalog_snd {settings : Settings} :
    (checkCatalog settings faults db).2 =
      if faults.engine = none then (init faults db).2 else db := by
  simp only [checkCatalog]
  cases faults.engine with
  | some exc => rfl
  | none =>
    cases init faults db with
    | mk outcome db' => cases outcome <;> rfl

variable {e : Environment} {connect : String → Int → Option String}

theorem doctor_accepted {settings : Settings} (h : Settings.fromEnv e = .ok settings) :
    (doctor e connect faults db).2 = (checkCatalog settings faults db).2 := by
  rw [doctor, h]

/-- What leaves the database alone: settings that are refused, a database that cannot be
    opened, read or written, and one that has a table of its own and a revision. -/
def LeftAlone (e : Environment) (faults : Faults) (db : Stored ρ) : Prop :=
  (∀ settings, Settings.fromEnv e ≠ .ok settings) ∨ faults.engine ≠ none ∨ faults.read ≠ none ∨
    faults.write ≠ none ∨ (isEmpty db.schema = false ∧ db.schema.revision ≠ none)

/-- `doctor` without a probe leaves tables, rows and revision as they were, and so what
    `migrate` goes by, exactly in these cases. -/
theorem doctor_unchanged_iff (e : Environment) (connect : String → Int → Option String)
    (faults : Faults) (db : Stored ρ) :
    (doctor e connect faults db).2 = db ↔ LeftAlone e faults db := by
  unfold LeftAlone
  cases henv : Settings.fromEnv e with
  | error exc =>
    have hdoctor : (doctor e connect faults db).2 = db := by rw [doctor, henv]
    exact iff_of_true hdoctor (.inl fun _ h => nomatch h)
  | ok settings =>
    have haccepted :
        ¬ ∀ settings', Except.ok settings ≠ (Except.ok settings' : Except Exc Settings) :=
      fun h => h settings rfl
    rw [doctor_accepted henv, checkCatalog_snd, or_iff_right haccepted]
    by_cases hengine : faults.engine = none
    · rw [if_pos hengine, init_unchanged_iff, or_iff_right (not_not_intro hengine)]
    · rw [if_neg hengine]
      exact iff_of_true rfl (.inl hengine)

/-- A database that is new, or whose tables no migration has recorded, is at head after
    `doctor`, and `migrate` has nothing to do. -/
theorem doctor_hides_migration {settings : Settings} (h : Settings.fromEnv e = .ok settings)
    (hengine : faults.engine = none) (hread : faults.read = none) (hwrite : faults.write = none)
    (hrevision : db.schema.revision = none) :
    let db' := (doctor e connect faults db).2
    (schemaState db.schema).upToDate = false ∧ (schemaState db'.schema).upToDate = true ∧
      migrate db'.schema = .ok db'.schema := by
  have hbefore : (schemaState db.schema).upToDate = false := by
    simp [SchemaState.upToDate, schemaState, hrevision, headRevision, migrations]
  have hhead : (doctor e connect faults db).2.schema.revision = headRevision := by
    rw [doctor_accepted h, checkCatalog_snd, if_pos hengine, init, hread, hwrite]
    simp only
    split
    · exact (@stamp_unversioned _ (created db) hrevision).2
    · simpa [hrevision] using (stamp_unversioned hrevision).2
  have hafter : (schemaState (doctor e connect faults db).2.schema).upToDate = true := by
    simp [SchemaState.upToDate, schemaState, hhead]
  exact ⟨hbefore, hafter, by rw [migrate, if_pos hafter]⟩

/-- A key and a database file that does not exist yet: `doctor` creates the tables. -/
theorem doctor_writes : ¬ ∀ (e : Environment) (connect : String → Int → Option String)
    (faults : Faults) (db : Stored Unit), (doctor e connect faults db).2 = db := by
  intro h
  have hblank := h (givenOnly [("OPENAI_API_KEY", "sk-1")]) (fun _ _ => none) {} .blank
  have htables := congrArg (fun db : Stored Unit => db.schema.tables) hblank
  exact absurd htables (by decide)

end Memgw.Cli
