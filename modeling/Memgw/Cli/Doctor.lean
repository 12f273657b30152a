-- SUMMARY: `memgw doctor`: the checks it makes without a probe, over a catalog database with its rows.
import Memgw.Gateway.Schema
import Memgw.Settings.Settings

/-!
# doctor

Each check adds a line to a report. The check of the catalog goes through the
startup code, `Catalog.init`, which makes its changes in transactions of its own: what
one of them has committed stays when a later one fails. The database may refuse to be
opened, read or written.
-/

namespace Memgw.Cli

open Schema

/-! ## The database and what keeps it from being used -/

/-- A database with its rows. There are none where there is no table. -/
@[ext] structure Stored (ρ : Type) where
  schema : Database
  rows : String → List ρ
  placed : ∀ name, rows name ≠ [] → name ∈ schema.tables

variable {ρ : Type}

/-- A new schema that keeps the tables of the old one. -/
def Stored.withSchema (db : Stored ρ) (schema : Database)
    (h : ∀ name ∈ db.schema.tables, name ∈ schema.tables) : Stored ρ where
  schema := schema
  rows := db.rows
  placed name hrows := h name (db.placed name hrows)

/-- A new database. -/
def Stored.blank : Stored ρ := ⟨.blank, fun _ => [], fun _ h => absurd rfl h⟩

/-- What is raised when the engine of the catalog is made, when startup reads the
    database, when it writes it, and when the revision is read for the report. -/
structure Faults where
  engine : Option Exc := none
  read : Option Exc := none
  write : Option Exc := none
  revision : Option Exc := none

/-! ## Startup -/

def created (db : Stored ρ) : Stored ρ :=
  db.withSchema (db.schema.createAll catalogTables) fun _ h => mem_createAll.mpr (.inl h)

/-- `_stamp("head")`, in a transaction of its own. -/
def stamp (db : Stored ρ) : Except Exc Unit × Stored ρ :=
  match h : stampHead db.schema with
  | .error exc => (.error exc, db)
  | .ok schema => (.ok (), db.withSchema schema fun name hname => by
      unfold stampHead at h
      split at h
      · cases h
      · obtain rfl := Except.ok.inj h
        exact mem_record.mpr (.inr hname))

/-- `Catalog.init`. A transaction that is refused changes nothing. -/
def init (faults : Faults) (db : Stored ρ) : Except Exc Unit × Stored ρ :=
  match faults.read, faults.write with
  | some exc, _ => (.error exc, db)
  | none, some exc =>
    if isEmpty db.schema || db.schema.revision.isNone then (.error exc, db) else (.ok (), db)
  | none, none =>
    if isEmpty db.schema then stamp (created db)
    else if db.schema.revision.isNone then stamp db
    else (.ok (), db)

/-! ## The report -/

structure Check where
  name : String
  ok : Bool
  detail : String
  deriving DecidableEq

abbrev Report := List Check

def Report.ok (report : Report) : Bool := report.all Check.ok

/-- The text before the first occurrence of `sep` and the text after it. -/
def cutAt (sep : List Char) : List Char → Option (List Char × List Char)
  | [] => if sep = [] then some ([], []) else none
  | c :: cs =>
    if sep.isPrefixOf (c :: cs) then some ([], (c :: cs).drop sep.length)
    else (cutAt sep cs).map fun parts => (c :: parts.1, parts.2)

/-- `_redact`: leave out what stands before the host. -/
def redact (url : String) : String :=
  match cutAt "://".toList url.toList with
  | some (scheme, rest) =>
    if '@' ∈ url.toList then
      let host := (rest.reverse.takeWhile (· != '@')).reverse
      String.ofList scheme ++ "://***@" ++ String.ofList host
    else url
  | none => url

/-- `_driver_hint`: name the package to install. -/
def driverHint (exc : Exc) : String :=
  let text := exc.str
  let missing (module : String) : Bool := decide (module.toList <:+: text.toList)
  if missing "asyncpg" then
    "the asyncpg driver is not installed -- pip install 'memgw[postgres]'"
  else if missing "aiosqlite" then
    "the aiosqlite driver is not installed -- pip install aiosqlite"
  else if missing "psycopg" then
    "the psycopg driver is not installed -- pip install 'memgw[postgres]'"
  else text

/-- `SchemaState.describe`. -/
def describe (state : SchemaState) : String :=
  let head := state.head.getD "None"
  let current := state.current.getD "no revision"
  if state.upToDate then s!"at head ({head})"
  else
    s!"database is at {current}, code expects {head}. Run `memgw migrate` -- until then any " ++
      "query may reference a column that is not there."

/-- `_flagged_off`. The words looked for are in plain letters. -/
def flaggedOff (raw : Option String) : Bool :=
  (String.ofList ((Text.strip (raw.getD "")).toList.map Char.toLower)) ∈ ["0", "false", "no", "off"]

/-! ## The checks -/

/-- What `except Exception` makes of an exception: a check that failed. Anything else
    is raised on. -/
def caught (name detail : String) (exc : Exc) : Except Exc Report :=
  if exc.isException then .ok [⟨name, false, detail⟩] else .error exc

/-- The second half of `_check_catalog`: the schema, as it is now. -/
def checkSchema (faults : Faults) (db : Database) : Except Exc Report :=
  match faults.revision with
  | some exc => caught "schema" s!"could not be read: {exc.str}" exc
  | none => .ok [⟨"schema", (schemaState db).upToDate, describe (schemaState db)⟩]

/-- `_check_catalog`. -/
def checkCatalog (settings : Settings) (faults : Faults) (db : Stored ρ) :
    Except Exc Report × Stored ρ :=
  let url := redact settings.catalogUrl
  let (outcome, db) : Except Exc Unit × Stored ρ :=
    match faults.engine with
    | some exc => (.error exc, db)
    | none => init faults db
  match outcome with
  | .error exc => (caught "catalog" s!"{url}: {driverHint exc}" exc, db)
  | .ok () =>
    let reachable : Check := ⟨"catalog", true, s!"reachable at {url}"⟩
    ((checkSchema faults db.schema).map (reachable :: ·), db)

/-- `_check_qdrant`: a TCP connect, and nothing more. -/
def checkQdrant (connect : String → Int → Option String) (settings : Settings) : Check :=
  let host := settings.qdrantHost
  let port := settings.qdrantPort
  match connect host port with
  | none => ⟨"qdrant", true, s!"reachable at {host}:{port}"⟩
  | some refused =>
    ⟨"qdrant", false, s!"nothing listening at {host}:{port} ({refused}). Mem0 needs a Qdrant " ++
      "server; its local file mode deadlocks under async. " ++
      "docker compose -f docker-compose.test.yml up -d"⟩

def checkApiKeys (settings : Settings) : Check :=
  if settings.apiKeys = [] then
    ⟨"api_keys", false, "no MEMGW_API_KEYS: every request will be a 401"⟩
  else ⟨"api_keys", true, s!"{settings.apiKeys.length} key(s) configured"⟩

def checkTelemetry (e : Environment) : Check :=
  if flaggedOff (e "MEM0_TELEMETRY") then ⟨"mem0_telemetry", true, "disabled"⟩
  else ⟨"mem0_telemetry", false, "MEM0_TELEMETRY is not False: Mem0 opens a second, undeclared " ++
    "local Qdrant under ~/.mem0 which locks its own directory"⟩

def checkZepKey (settings : Settings) : Check :=
  if settings.holds "ZEP_API_KEY" then ⟨"zep_key", true, "ZEP_API_KEY present"⟩
  else ⟨"zep_key", false, "ZEP_API_KEY is missing"⟩

/-- `_warn_about_experimental`. -/
def warnAboutExperimental (settings : Settings) : Report :=
  let risky := settings.providers.filter (· ∈ experimental)
  if risky = [] then []
  else [⟨"experimental", true, s!"{shownList risky} have never passed the live conformance suite; " ++
    "run `memgw doctor --probe` before trusting one with real memories"⟩]

/-- `doctor(env, probe=False)`. -/
def doctor (e : Environment) (connect : String → Int → Option String) (faults : Faults)
    (db : Stored ρ) : Except Exc Report × Stored ρ :=
  match Settings.fromEnv e with
  | .error exc =>
    -- Only `except ValueError` here, which is all that `from_env` raises.
    (if exc.typeName = "ValueError" then .ok [⟨"settings", false, exc.str⟩] else .error exc, db)
  | .ok settings =>
    let accepted : Check := ⟨"settings", true,
      s!"providers={shownList settings.providers} default={settings.defaultProvider}"⟩
    let (checked, db) := checkCatalog settings faults db
    let report := checked.map fun catalog =>
      [accepted, checkApiKeys settings] ++ catalog ++
      (if "mem0" ∈ settings.providers then [checkQdrant connect settings, checkTelemetry e] else []) ++
      (if "zep" ∈ settings.providers then [checkZepKey settings] else []) ++
      warnAboutExperimental settings
    (report, db)

end Memgw.Cli
