-- SUMMARY: The self-hosted adapter: its rows, the statements it runs on them, and what each of its calls does to a table.
import Memgw.Gateway.Effects
import Mathlib.Data.List.Sort
import Mathlib.Algebra.Ring.Rat
import Mathlib.Data.Rat.Defs
import Mathlib.Algebra.Order.Ring.Unbundled.Rat

/-!
# The pgvector adapter

One table holds one row for each memory, under an id that the adapter mints. The
calls that take a scope filter on every dimension it sets; those that take a native
id filter on that alone, whoever asks.

The embedder, the extractor and the distance operator of the database come from
outside. Several adapters may stand on one table, and all tables draw their ids
from one supply.
-/

namespace Memgw.Pgvector

/-! ## Rows -/

structure Row where
  nativeId : String
  tenant : Option String
  subject : Subject
  agent : Option Dim
  session : Option Dim
  labels : Labels
  content : String
  embedding : List Score
  createdAt : Time
  updatedAt : Time
  deriving DecidableEq

abbrev Rows : Type := Table [Row.nativeId]

/-- The tables of the databases, by where they are. -/
structure State where
  tables : String → Rows := fun _ => .empty
  ticks : Nat := 0

/-- `_conditions`. Every dimension that the scope sets is applied. -/
def conditions (scope : Scope) (r : Row) : Bool :=
  r.subject == scope.subject &&
    (match scope.tenant? with
      | some tenant => r.tenant == some tenant
      | none => true) &&
    dimMatches scope.agent r.agent && dimMatches scope.session r.session

/-- The rows that the scope selects, labels included. -/
def selects (scope : Scope) (r : Row) : Bool :=
  conditions scope r && r.labels.agree scope.labels

theorem conditions_iff {scope : Scope} {r : Row} :
    conditions scope r = true ↔ r.subject = scope.subject ∧
      (∀ tenant ∈ scope.tenant?, r.tenant = some tenant) ∧
        dimMatches scope.agent r.agent = true ∧ dimMatches scope.session r.session = true := by
  simp only [conditions, Bool.and_eq_true, beq_iff_eq, Option.mem_def, and_assoc]
  cases scope.tenant? <;> simp

/-! ## Configuration -/

structure Config where
  table : String
  /-- Whether the database has a vector type, so that it can rank by itself. -/
  nativeVectors : Bool := false
  embed : Nat → List String → Except Exc (List (List Score))
  extractor : Option (Nat → Episode → Except Exc (List String)) := none
  sqrt : Score → Score
  /-- The cosine distance of the database. -/
  distance : List Score → List Score → Measure

/-- `cosine`. -/
def cosine (sqrt : Score → Score) (a b : List Score) : Score :=
  if a = [] ∨ b = [] ∨ a.length ≠ b.length then 0
  else
    let dot := ((a.zip b).map fun xy => xy.1 * xy.2).sum
    let na := sqrt (a.map fun x => x * x).sum
    let nb := sqrt (b.map fun y => y * y).sum
    if na = 0 ∨ nb = 0 then 0 else dot / (na * nb)

/-! ## Statements -/

inductive Action where
  | embed (texts : List String)
  | extract (extractor : Nat → Episode → Except Exc (List String)) (episode : Episode)
  /-- Some readings, for the ids and the time of what is written next. -/
  | draw (count : Nat)
  | insert (rows : List Row)
  | rewrite (nativeId content : String) (embedding : List Score) (now : Time)
  | select (p : Row → Bool)
  /-- One transaction of several deletions. -/
  | delete (ps : List (Row → Bool))

@[reducible] def Action.Ans : Action → Type
  | .embed _ => List (List Score)
  | .extract .. => List String
  | .draw _ => Nat
  | .insert _ => Unit
  | .rewrite .. => Nat
  | .select _ => List Row
  | .delete _ => Nat

def Row.rewritten (content : String) (embedding : List Score) (now : Time) (r : Row) : Row :=
  { r with content := content, embedding := embedding, updatedAt := now }

def rewriteIn (nativeId content : String) (embedding : List Score) (now : Time) (t : Rows) : Rows :=
  t.updateWhere (·.nativeId == nativeId) (Row.rewritten content embedding now)
    (by simp [Row.rewritten])

/-- The deletions one after the other, and how many rows they took. -/
def deleteAll : List (Row → Bool) → Rows → Nat × Rows
  | [], t => (0, t)
  | p :: ps, t =>
    let rest := deleteAll ps (t.deleteWhere p)
    (t.count p + rest.1, rest.2)

def State.rows (s : State) (cfg : Config) : Rows := s.tables cfg.table

def State.setRows (s : State) (cfg : Config) (t : Rows) : State :=
  { s with tables := Function.update s.tables cfg.table t }

def State.tick (s : State) (count : Nat) : State := { s with ticks := s.ticks + count }

def handle (cfg : Config) : Handler Action.Ans Exc State
  | .embed texts, s => (cfg.embed s.ticks texts, s.tick 1)
  | .extract extractor episode, s => (extractor s.ticks episode, s.tick 1)
  | .draw count, s => (.ok s.ticks, s.tick count)
  | .insert [], s => (.error (.integrity s!"NOT NULL constraint failed: {cfg.table}"), s)
  | .insert rows, s =>
    match (s.rows cfg).insert rows with
    | none => (.error (.integrity s!"UNIQUE constraint failed: {cfg.table}"), s)
    | some t => (.ok (), s.setRows cfg t)
  | .rewrite nativeId content embedding now, s =>
    (.ok ((s.rows cfg).count (·.nativeId == nativeId)),
      s.setRows cfg (rewriteIn nativeId content embedding now (s.rows cfg)))
  | .select p, s => (.ok ((s.rows cfg).select p), s)
  | .delete ps, s => (.ok (deleteAll ps (s.rows cfg)).1, s.setRows cfg (deleteAll ps (s.rows cfg)).2)

abbrev PgProg (α : Type) : Type := Prog Action.Ans Exc α

def act (op : Action) : PgProg op.Ans := Prog.perform op

theorem wp_act {cfg : Config} {op : Action} {s : State} {Q : Except Exc op.Ans → State → Prop} :
    (act op).wp (handle cfg) Q s ↔ Q (handle cfg op s).1 (handle cfg op s).2 :=
  Prog.wp_perform

/-! ## The adapter -/

variable (env : Env) (cfg : Config)

def capabilities : Capabilities where
  supportsIngest := cfg.extractor.isSome
  supportsUpsert := true
  supportsUpdate := true
  supportsDelete := true
  supportsDeleteByScope := true
  supportsList := true
  searchModes := [.semantic]
  supportsScore := true
  maxLimit := 200
  scopeDims := [.tenant, .subject, .agent, .session]
  supportsLabels := true
  memoryModel := .flatFacts
  dedup := .none
  supportsExport := true
  supportsImport := true
  consistency := .readAfterWrite
  meteredExternally := false

/-- `_to_memory`. -/
def toMemory (score : Option Measure) (r : Row) : ProviderMemory where
  nativeId := r.nativeId
  content := r.content
  createdAt := some r.createdAt
  updatedAt := some r.updatedAt
  score := score
  raw := [("adapter", .str "pgvector")]

/-- The rows of an upsert, with the ids that its readings yield. -/
def newRows (k : Nat) (facts : List String) (vectors : List (List Score)) (scope : Scope) :
    List Row :=
  (facts.zip vectors).mapIdx fun i fv =>
    { nativeId := env.newId "pv" (k + i)
      tenant := scope.tenant
      subject := scope.subject
      agent := scope.agent
      session := scope.session
      labels := scope.labels
      content := fv.1
      embedding := fv.2
      createdAt := env.now k
      updatedAt := env.now k }

def upsert (facts : List String) (scope : Scope) : PgProg (List ProviderMemory) := do
  let vectors ← act (.embed facts)
  let k ← act (.draw facts.length)
  if vectors.length < facts.length then
    .raise (.other "ValueError" "zip() argument 2 is shorter than argument 1")
  else if facts.length < vectors.length then
    .raise (.other "ValueError" "zip() argument 2 is longer than argument 1")
  else do
    act (.insert (newRows env k facts vectors scope))
    return (newRows env k facts vectors scope).map (toMemory none)

def ingest (episode : Episode) (scope : Scope) : PgProg (List ProviderMemory) :=
  match cfg.extractor with
  | none => .raise (.gateway (ErrorClass.unsupportedCapability.error
      ("this pgvector instance has no extractor configured; it can store " ++
        "ready-made facts but cannot decide what a conversation is worth") []))
  | some extractor => do
    let facts ← act (.extract extractor episode)
    if facts = [] then return [] else upsert env facts scope

def get (nativeId : String) : PgProg (Option ProviderMemory) := do
  let rows ← act (.select (·.nativeId == nativeId))
  return rows.head?.map (toMemory none)

def update (nativeId content : String) : PgProg ProviderMemory := do
  let vectors ← act (.embed [content])
  match vectors with
  | [] => .raise (.other "ValueError" "not enough values to unpack (expected 1, got 0)")
  | _ :: _ :: _ => .raise (.other "ValueError" "too many values to unpack (expected 1)")
  | [vector] => do
    let k ← act (.draw 1)
    let count ← act (.rewrite nativeId content vector (env.now k))
    if count = 0 then
      .raise (.gateway (ErrorClass.memoryNotFound.error
        s!"no memory {Text.quoted nativeId} to update" []))
    else do
      let got ← get nativeId
      match got with
      | none => .raise (.other "AssertionError" "")
      | some memory => return memory

/-- What is left of the rows when a limit is set. -/
def cut {α : Type} (limit : Option Nat) (rows : List α) : List α :=
  match limit with
  | none => rows
  | some limit => rows.take limit

/-- `ORDER BY created_at DESC, native_id`. -/
def newestFirst (a b : Row) : Prop :=
  b.createdAt < a.createdAt ∨ (a.createdAt = b.createdAt ∧ a.nativeId ≤ b.nativeId)

instance : DecidableRel newestFirst := fun _ _ => inferInstanceAs (Decidable (_ ∨ _))

/-- `_rows_in_scope`. Labels are matched after the fetch, and a limit only then. -/
def rowsInScope (scope : Scope) (orderByRecent : Bool) (limit : Option Nat) : PgProg (List Row) := do
  let rows ← act (.select (conditions scope))
  let rows := if orderByRecent then rows.insertionSort newestFirst else rows
  if scope.labels.isEmpty then return cut limit rows
  else return cut limit (rows.filter fun r => r.labels.agree scope.labels)

/-- `minScore is None or score >= minScore`. -/
def scoresEnough (minScore : Option Score) (score : Score) : Bool :=
  minScore.all (· ≤ score)

/-- `1 - distance`, as the database computes it. -/
def similarity : Measure → Measure
  | .number distance => .number (1 - distance)
  | .nan => .nan

/-- `similarity >= least`, as the database compares: NaN is above every number. -/
def atLeastInSql (least : Score) : Measure → Bool
  | .number score => least ≤ score
  | .nan => true

/-- `ORDER BY distance`. NaN comes after every number. -/
def nearestFirst : Measure → Measure → Bool
  | .number a, .number b => a ≤ b
  | .nan, .number _ => false
  | _, .nan => true

/-- `_search_in_sql`: the database ranks by distance and cuts. -/
def searchInSql (query : SearchQuery) (scope : Scope) (needle : List Score) :
    PgProg (List ProviderMemory) := do
  let rows ← act (.select fun r => conditions scope r && query.minScore.all fun least =>
    atLeastInSql least (similarity (cfg.distance r.embedding needle)))
  let ranked := rows.insertionSort fun a b =>
    nearestFirst (cfg.distance a.embedding needle) (cfg.distance b.embedding needle)
  return (ranked.take query.limit).map fun r =>
    toMemory (some (similarity (cfg.distance r.embedding needle))) r

/-- `_search_in_python`. -/
def searchInPython (query : SearchQuery) (scope : Scope) (needle : List Score) :
    PgProg (List ProviderMemory) := do
  let rows ← rowsInScope scope false none
  let scored := (rows.map fun r => (cosine cfg.sqrt needle r.embedding, r)).filter fun sr =>
    scoresEnough query.minScore sr.1
  let ranked := scored.insertionSort fun a b => b.1 ≤ a.1
  return (ranked.take query.limit).map fun sr => toMemory (some (.number sr.1)) sr.2

def search (query : SearchQuery) (scope : Scope) : PgProg (List ProviderMemory) :=
  if query.mode ≠ .semantic then
    .raise (.gateway (ErrorClass.unsupportedCapability.error
      s!"pgvector adapter cannot serve {Text.quoted query.mode.name} search"
      [("available", .strs ["semantic"])]))
  else do
    let vectors ← act (.embed [query.query])
    match vectors with
    | [] => .raise (.other "ValueError" "not enough values to unpack (expected 1, got 0)")
    | _ :: _ :: _ => .raise (.other "ValueError" "too many values to unpack (expected 1)")
    | [needle] =>
      if cfg.nativeVectors && scope.labels.isEmpty then searchInSql cfg query scope needle
      else searchInPython cfg query scope needle

def listScope (scope : Scope) (limit : Nat) : PgProg (List ProviderMemory) := do
  let rows ← rowsInScope scope true (some limit)
  return rows.map (toMemory none)

def delete (nativeId : String) : PgProg Bool := do
  let count ← act (.delete [(·.nativeId == nativeId)])
  return 0 < count

/-- Labels need the ids, and these go in chunks within one transaction. -/
def deleteScope (scope : Scope) : PgProg Nat :=
  if scope.labels.isEmpty then act (.delete [conditions scope])
  else do
    let rows ← rowsInScope scope false none
    let doomed := rows.map Row.nativeId
    if doomed = [] then return 0
    else do
      let _ ← act (.delete ((chunks doomed).map fun chunk r => chunk.contains r.nativeId))
      return doomed.length

def health : PgProg HealthStatus := .ret { ok := true }

def program : (op : AdapterOp) → PgProg op.Ans
  | .ingest episode scope => ingest env cfg episode scope
  | .upsert facts scope => upsert env facts scope
  | .update nativeId content => update env nativeId content
  | .search query scope => search cfg query scope
  | .listScope scope limit => listScope scope limit
  | .get nativeId => get nativeId
  | .delete nativeId => delete nativeId
  | .deleteScope scope => deleteScope scope
  | .health => health

def adapter : Adapter State where
  capabilities := capabilities cfg
  call op s := (program env cfg op).run (handle cfg) s

/-- A database and an embedder whose calls may fail. A statement that failed has been
    rolled back. -/
def Faulty (cfg : Config) (h : Handler Action.Ans Exc State) : Prop :=
  ∀ op s, h op s = handle cfg op s ∨ ∃ e, h op s = (.error e, s)

/-- The adapter over such a database. -/
def adapterOver (h : Handler Action.Ans Exc State) : Adapter State where
  capabilities := capabilities cfg
  call op s := (program env cfg op).run h s

end Memgw.Pgvector
