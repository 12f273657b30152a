-- SUMMARY: When a database that startup leaves at head has the tables of the catalog, and what a wrong stamp hides.
import Memgw.Gateway.Schema

/-!
# At head with the tables

Startup takes a database that has any table for one that was built before there
were migrations, and records the head revision without looking for the tables of the
catalog. The tables of an adapter are enough, and with the revision recorded neither
`doctor` nor `migrate` sees anything to do.
-/

namespace Memgw.Schema

/-- Stamping makes no table of the catalog, and leaves the database at head. -/
theorem stampHead_ok {db db' : Database} (h : stampHead db = .ok db') :
    db'.revision = headRevision ∧ (db'.HasCatalog ↔ db.HasCatalog) := by
  unfold stampHead at h
  split at h
  · cases h
  · obtain rfl := Except.ok.inj h
    exact ⟨rfl, record_hasCatalog⟩

/-- A database whose revision is none or a known one can be stamped. -/
theorem stampHead_unversioned {db : Database} (h : db.revision = none) :
    ∃ db', stampHead db = .ok db' := by
  unfold stampHead
  rw [h]
  exact ⟨_, rfl⟩

/-- Startup gives a database the tables of the catalog only where it finds no table. -/
theorem init_hasCatalog {db db' : Database} (h : init db = .ok db') :
    db'.HasCatalog ↔ isEmpty db = true ∨ db.HasCatalog := by
  have hall : (db.createAll catalogTables).HasCatalog :=
    fun name hname => mem_createAll.mpr (.inr hname)
  unfold init at h
  split at h
  · rename_i hempty
    exact iff_of_true ((stampHead_ok h).2.mpr hall) (.inl hempty)
  · rename_i hempty
    rw [or_iff_right hempty]
    split at h
    · exact (stampHead_ok h).2
    · rw [Except.ok.inj h]

/-- Startup ends at head unless a revision other than head was recorded. -/
theorem init_upToDate {db : Database} (hempty : isEmpty db = false) :
    (∃ db', init db = .ok db' ∧ (schemaState db').upToDate = true) ↔
      db.revision = none ∨ db.revision = headRevision := by
  unfold init
  rw [if_neg (by simp [hempty])]
  split
  · rename_i hnone
    obtain ⟨db', hdb'⟩ := stampHead_unversioned hnone
    refine iff_of_true ⟨db', hdb', ?_⟩ (.inl hnone)
    simp [SchemaState.upToDate, schemaState, (stampHead_ok hdb').1]
  · rename_i hsome
    rw [or_iff_right hsome]
    constructor
    · rintro ⟨db', hdb', hhead⟩
      rw [Except.ok.inj hdb']
      simpa [SchemaState.upToDate, schemaState] using hhead
    · intro hhead
      exact ⟨db, rfl, by simp [SchemaState.upToDate, schemaState, hhead]⟩

/-- At head means that the tables are there, exactly when startup finds no table at all,
    or all of the catalog's, or a revision other than head. -/
theorem upToDate_hasCatalog_iff (db : Database) :
    (∀ db', init db = .ok db' → (schemaState db').upToDate = true → db'.HasCatalog) ↔
      isEmpty db = true ∨ db.HasCatalog ∨
        (db.revision ≠ none ∧ db.revision ≠ headRevision) := by
  cases hempty : isEmpty db with
  | true =>
    refine iff_of_true (fun db' h _ => ?_) (.inl rfl)
    exact (init_hasCatalog h).mpr (.inl hempty)
  | false =>
    have hmoved := init_upToDate hempty
    rw [or_iff_right (by simp), ← not_or, ← hmoved]
    constructor
    · intro h
      by_cases hhas : db.HasCatalog
      · exact .inl hhas
      · refine .inr fun ⟨db', hdb', hhead⟩ => ?_
        rcases (init_hasCatalog hdb').mp (h db' hdb' hhead) with hyes | hyes
        · rw [hempty] at hyes
          cases hyes
        · exact hhas hyes
    · rintro (hhas | hno) db' hdb' hhead
      · exact (init_hasCatalog hdb').mpr (.inr hhas)
      · exact absurd ⟨db', hdb', hhead⟩ hno

/-- An embedded gateway over a new database: the table of its adapter is taken for a
    catalog. -/
theorem started_without_catalog :
    ¬ ∀ db db', init db = .ok db' → (schemaState db').upToDate = true → db'.HasCatalog := by
  intro h
  have hstarted : started "memgw_memories" .blank =
      .ok ((adapterInit "memgw_memories" .blank).record "0001_initial") := rfl
  exact absurd (h _ _ hstarted rfl) (by decide)

/-! ## What the stamp hides -/

/-- Starting up again, or migrating, leaves a database at head as it is. -/
theorem upToDate_stays {db : Database} (hempty : isEmpty db = false)
    (hhead : (schemaState db).upToDate = true) : init db = .ok db ∧ migrate db = .ok db := by
  have hsome : db.revision ≠ none := by
    intro hnone
    simp [SchemaState.upToDate, schemaState, hnone, headRevision, migrations] at hhead
  constructor
  · rw [init, if_neg (by simp [hempty]), if_neg hsome]
  · rw [migrate, if_pos hhead]

theorem adapterInit_not_empty {table : String} {db : Database} (h : table ≠ versionTable) :
    isEmpty (adapterInit table db) = false := by
  rw [Bool.eq_false_iff, ne_eq, isEmpty_iff]
  intro hall
  exact h (hall table (mem_createAll.mpr (.inr (List.mem_singleton_self _))))

/-- An embedded gateway whose adapter has a table in the database never gets a catalog
    that was not there before. -/
theorem started_hasCatalog_iff {table : String} {db db' : Database} (htable : table ∉ catalogTables)
    (hversion : table ≠ versionTable) (h : started table db = .ok db') :
    db'.HasCatalog ↔ db.HasCatalog := by
  rw [init_hasCatalog h, adapterInit_not_empty hversion, or_iff_right (by simp)]
  refine forall₂_congr fun name hname => ?_
  rw [adapterInit, mem_createAll, List.mem_singleton, or_iff_left]
  rintro rfl
  exact htable hname

/-- The migrations alone build all the tables. -/
theorem upgrade_blank : ∃ db, upgrade .blank = .ok db ∧ (schemaState db).upToDate = true ∧
    db.HasCatalog :=
  ⟨_, rfl, by decide, by decide⟩

end Memgw.Schema
