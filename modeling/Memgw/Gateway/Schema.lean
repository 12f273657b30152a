-- SUMMARY: The schema of the catalog database: startup, migration, and the state that both report.
import Memgw.Gateway.Errors
import Mathlib.Data.List.Basic

/-!
# The schema

Before the catalog is used, `init` brings the tables of an empty database up and
leaves any other database alone, and `upgrade` runs the migrations. Both go by what
they can see: the names of the tables, and the revision that is recorded. The
tables of an adapter may stand in the same database.
-/

namespace Memgw.Schema

/-! ## The database -/

def versionTable : String := "alembic_version"

/-- The tables of `metadata`. -/
def catalogTables : List String := ["memory_index", "scope_binding", "episode_journal"]

/-- A database, as far as startup looks at it. A revision is recorded in a table. -/
structure Database where
  tables : List String
  revision : Option String
  recorded : revision ≠ none → versionTable ∈ tables

/-- A database that has nothing in it. -/
def Database.blank : Database where
  tables := []
  revision := none
  recorded h := absurd rfl h

/-- `create_all`: make the tables that are not there yet. -/
def Database.createAll (names : List String) (db : Database) : Database where
  tables := db.tables ++ names.filter (· ∉ db.tables)
  revision := db.revision
  recorded h := List.mem_append_left _ (db.recorded h)

/-- Record a revision. -/
def Database.record (revision : String) (db : Database) : Database where
  tables := db.tables.insert versionTable
  revision := some revision
  recorded _ := List.mem_insert_self ..

/-- All the tables of the catalog are there. -/
def Database.HasCatalog (db : Database) : Prop := ∀ name ∈ catalogTables, name ∈ db.tables

instance {db : Database} : Decidable db.HasCatalog :=
  inferInstanceAs (Decidable (∀ name ∈ catalogTables, name ∈ db.tables))

@[simp] theorem mem_createAll {names : List String} {db : Database} {name : String} :
    name ∈ (db.createAll names).tables ↔ name ∈ db.tables ∨ name ∈ names := by
  simp only [Database.createAll, List.mem_append, List.mem_filter, decide_eq_true_eq]
  tauto

@[simp] theorem mem_record {revision : String} {db : Database} {name : String} :
    name ∈ (db.record revision).tables ↔ name = versionTable ∨ name ∈ db.tables :=
  List.mem_insert_iff

theorem versionTable_not_catalog : versionTable ∉ catalogTables := by decide

/-- Recording a revision makes no table of the catalog. -/
@[simp] theorem record_hasCatalog {revision : String} {db : Database} :
    (db.record revision).HasCatalog ↔ db.HasCatalog := by
  refine forall₂_congr fun name hname => ?_
  rw [mem_record, or_iff_right]
  rintro rfl
  exact versionTable_not_catalog hname

/-! ## Migrations -/

structure Migration where
  revision : String
  creates : List String

/-- The scripts under `versions/`, from the first on. -/
def migrations : List Migration :=
  [{ revision := "0001_initial", creates := ["episode_journal", "memory_index", "scope_binding"] }]

/-- `_head_revision`. -/
def headRevision : Option String := migrations.getLast?.map Migration.revision

def unknownRevision (revision : String) : Exc :=
  .other "CommandError" s!"Can't locate revision identified by {Text.quoted revision}"

/-- `_stamp("head")`. What is recorded must be one of the scripts. -/
def stampHead (db : Database) : Except Exc Database :=
  match db.revision.filter (· ∉ migrations.map Migration.revision) with
  | some revision => .error (unknownRevision revision)
  | none =>
    match headRevision with
    | some head => .ok (db.record head)
    | none => .ok db

/-- The scripts that come after the recorded revision. -/
def pending (db : Database) : Except Exc (List Migration) :=
  match db.revision with
  | none => .ok migrations
  | some revision =>
    if revision ∈ migrations.map Migration.revision then
      .ok ((migrations.dropWhile (·.revision ≠ revision)).tail)
    else .error (unknownRevision revision)

/-- One script: its tables must not be there yet. -/
def Migration.run (db : Database) (m : Migration) : Except Exc Database :=
  match m.creates.find? (· ∈ db.tables) with
  | some name => .error (.other "OperationalError" s!"table {name} already exists")
  | none => .ok ((db.createAll m.creates).record m.revision)

/-- `upgrade`, in one transaction. -/
def upgrade (db : Database) : Except Exc Database := do
  let scripts ← pending db
  scripts.foldlM Migration.run db

/-! ## Startup -/

/-- `_is_empty`. -/
def isEmpty (db : Database) : Bool := (db.tables.filter (· ≠ versionTable)).isEmpty

/-- `init`: bring an empty database up, and leave an existing one alone. -/
def init (db : Database) : Except Exc Database :=
  if isEmpty db then stampHead (db.createAll catalogTables)
  else if db.revision = none then stampHead db
  else .ok db

structure SchemaState where
  current : Option String
  head : Option String
  deriving DecidableEq, Repr

/-- `schema_state`, which `doctor` reports and `migrate` goes by. -/
def schemaState (db : Database) : SchemaState where
  current := db.revision
  head := headRevision

def SchemaState.upToDate (s : SchemaState) : Bool := s.current == s.head

/-- `memgw migrate`: nothing to do where the schema is at head. -/
def migrate (db : Database) : Except Exc Database :=
  if (schemaState db).upToDate then .ok db else upgrade db

/-- What the self-hosted adapter does to the database it stands in. -/
def adapterInit (table : String) (db : Database) : Database := db.createAll [table]

/-- `Memory._started`: the adapter comes first. -/
def started (table : String) (db : Database) : Except Exc Database := init (adapterInit table db)

theorem isEmpty_iff {db : Database} :
    isEmpty db = true ↔ ∀ name ∈ db.tables, name = versionTable := by
  simp [isEmpty, List.filter_eq_nil_iff]

end Memgw.Schema
