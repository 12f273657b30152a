-- SUMMARY: Settings from environment variables, the checks they pass, and the recipes that build adapters from them.
import Memgw.Settings.ApiKeys
import Memgw.Library.Results
import Mathlib.Data.List.Basic
import Mathlib.Data.Nat.Digits.Defs

/-!
# Settings

`Settings.from_env` reads the environment and refuses what cannot work: an unknown
provider, a default that is not configured, a missing credential. `build_adapter`
makes a provider from the settings later on, with checks of its own inside the
constructors.
-/

namespace Memgw

/-- The environment variables of a process. -/
abbrev Environment := String → Option String

/-- `e.get(var, default)`. -/
def Environment.get (env : Environment) (var default : String) : String := (env var).getD default

/-- The variables that are given, and no others. -/
def givenOnly (given : List (String × String)) : Environment := fun var => given.lookup var

def valueError (text : String) : Exc := .other "ValueError" text

/-- A list of texts, as it is shown inside a message. -/
def shownList (items : List String) : String :=
  "[" ++ ", ".intercalate (items.map Text.quoted) ++ "]"

/-! ## Parsing -/

/-- `_flag`. The words looked for are in plain letters. -/
def flag (raw : Option String) : Bool :=
  (String.ofList ((Text.strip (raw.getD "")).toList.map Char.toLower)) ∈
    ["1", "true", "yes", "on"]

/-- The zeros of the decimal digits of Unicode. Each is followed by its other nine. -/
def decimalZeros : List Nat :=
  [0x30, 0x660, 0x6f0, 0x7c0, 0x966, 0x9e6, 0xa66, 0xae6, 0xb66, 0xbe6, 0xc66, 0xce6, 0xd66,
    0xde6, 0xe50, 0xed0, 0xf20, 0x1040, 0x1090, 0x17e0, 0x1810, 0x1946, 0x19d0, 0x1a80, 0x1a90,
    0x1b50, 0x1bb0, 0x1c40, 0x1c50, 0xa620, 0xa8d0, 0xa900, 0xa9d0, 0xa9f0, 0xaa50, 0xabf0,
    0xff10, 0x104a0, 0x10d30, 0x11066, 0x110f0, 0x11136, 0x111d0, 0x112f0, 0x11450, 0x114d0,
    0x11650, 0x116c0, 0x11730, 0x118e0, 0x11950, 0x11c50, 0x11d50, 0x11da0, 0x16a60, 0x16ac0,
    0x16b50, 0x1d7ce, 0x1d7d8, 0x1d7e2, 0x1d7ec, 0x1d7f6, 0x1e140, 0x1e2f0, 0x1e950, 0x1fbf0]

def decimalDigit (c : Char) : Option Nat :=
  (decimalZeros.find? fun z => z ≤ c.toNat && c.toNat < z + 10).map (c.toNat - ·)

/-- Digits with at most one underscore between two of them, the first digit first. -/
def readDigits : List Char → Option (List Nat)
  | [] => none
  | [c] => (decimalDigit c).map fun d => [d]
  | c :: '_' :: rest => (decimalDigit c).bind fun d => (readDigits rest).map (d :: ·)
  | c :: c' :: rest => (decimalDigit c).bind fun d => (readDigits (c' :: rest)).map (d :: ·)

/-- The whitespace that `int` looks past, which leaves out the four information
    separators. -/
def isIntSpace (c : Char) : Bool := Text.isSpace c && !(28 ≤ c.toNat && c.toNat ≤ 31)

/-- `int(raw)` of a text. -/
def int (raw : String) : Except Exc Int :=
  let body := (raw.toList.dropWhile isIntSpace).rdropWhile isIntSpace
  let (sign, digits) : Int × List Char :=
    match body with
    | '+' :: rest => (1, rest)
    | '-' :: rest => (-1, rest)
    | rest => (1, rest)
  match readDigits digits with
  | none =>
    .error (valueError s!"invalid literal for int() with base 10: {Text.quoted raw}")
  | some ds =>
    if 4300 < ds.length then
      .error (valueError (s!"Exceeds the limit (4300 digits) for integer string conversion: value has {ds.length} digits; " ++
        "use sys.set_int_max_str_digits() to increase the limit"))
    else .ok (sign * (Nat.ofDigits 10 ds.reverse : Nat))

/-- `_int`. -/
def optionalInt (raw : Option String) : Except Exc (Option Int) :=
  match raw with
  | some raw => if Text.strip raw ≠ "" then (int raw).map some else .ok none
  | none => .ok none

/-! ## Settings -/

/-- `KNOWN_PROVIDERS`. -/
def knownProviders : List String := ["pgvector", "mem0", "zep"]

/-- `EXPERIMENTAL`. -/
def experimental : List String := ["zep"]

def defaultCatalogUrl : String := "sqlite+aiosqlite:///memgw.db"
def defaultPgvectorUrl : String := "sqlite+aiosqlite:///memgw_pgvector.db"

/-- `OPENAI_DIMENSIONS`. -/
def openaiDimensions : List (String × Int) :=
  [("text-embedding-3-small", 1536), ("text-embedding-3-large", 3072),
    ("text-embedding-ada-002", 1536)]

def defaultEmbeddingModel : String := "text-embedding-3-small"
def defaultExtractionModel : String := "gpt-4o-mini"

/-- `REQUIRED_KEYS`: the variable that a provider cannot start without, and why. -/
def requiredKeys : List (String × String × String) :=
  [("pgvector", "OPENAI_API_KEY", "the built-in embedder needs it"),
    ("mem0", "OPENAI_API_KEY", "Mem0 runs its own LLM and embedder through OpenAI"),
    ("zep", "ZEP_API_KEY", "Zep is a hosted service")]

structure Settings where
  providers : List String
  defaultProvider : String
  apiKeys : List (String × String)
  catalogUrl : String
  journal : Bool
  openaiApiKey : Option String
  openaiBaseUrl : Option String
  embeddingModel : String
  embeddingDimension : Option Int
  extractionModel : String
  pgvectorUrl : String
  qdrantHost : String
  qdrantPort : Int
  qdrantCollection : String
  zepApiKey : Option String
  docs : Bool
  deriving DecidableEq

/-- `getattr(self, var.lower(), None)`, of the variables that are asked for. -/
def Settings.credential (s : Settings) (var : String) : Option String :=
  if var = "OPENAI_API_KEY" then s.openaiApiKey
  else if var = "ZEP_API_KEY" then s.zepApiKey
  else none

/-- A credential that is there and not empty. -/
def Settings.holds (s : Settings) (var : String) : Bool :=
  match s.credential var with
  | some key => key ≠ ""
  | none => false

/-- The check of one provider. A provider without an entry is a `KeyError`. -/
def Settings.checkCredential (s : Settings) (provider : String) : Except Exc Unit :=
  match requiredKeys.lookup provider with
  | none => .error (.other "KeyError" (Text.quoted provider))
  | some (var, why) =>
    if s.holds var then .ok ()
    else .error (valueError s!"provider {Text.quoted provider} needs {var}: {why}")

/-- `_check_credentials`. -/
def Settings.checkCredentials (s : Settings) : Except Exc Unit :=
  s.providers.forM s.checkCredential

/-- `cls(...)`: the fields that `from_env` fills from the variables. -/
def Settings.filled (e : Environment) (providers : List String) (defaultProvider : String)
    (dimension : Option Int) (port : Int) : Settings where
  providers := providers
  defaultProvider := defaultProvider
  apiKeys := Memgw.apiKeys (e.get "MEMGW_API_KEYS" "")
  catalogUrl := e.get "MEMGW_CATALOG_URL" defaultCatalogUrl
  journal := flag (e "MEMGW_JOURNAL")
  openaiApiKey := e "OPENAI_API_KEY"
  openaiBaseUrl := e "OPENAI_BASE_URL"
  embeddingModel := e.get "MEMGW_EMBEDDING_MODEL" defaultEmbeddingModel
  embeddingDimension := dimension
  extractionModel := e.get "MEMGW_EXTRACTION_MODEL" defaultExtractionModel
  pgvectorUrl := e.get "MEMGW_PGVECTOR_URL" defaultPgvectorUrl
  qdrantHost := e.get "MEMGW_QDRANT_HOST" "localhost"
  qdrantPort := port
  qdrantCollection := e.get "MEMGW_QDRANT_COLLECTION" "memgw"
  zepApiKey := e "ZEP_API_KEY"
  docs := flag (some (e.get "MEMGW_DOCS" "true"))

/-- `Settings.from_env`. -/
def Settings.fromEnv (e : Environment) : Except Exc Settings :=
  let providers := csv (e.get "MEMGW_PROVIDERS" "pgvector")
  let unknown := providers.filter (· ∉ knownProviders)
  if unknown ≠ [] then
    .error (valueError (s!"unknown provider(s) {shownList unknown}; this build can configure " ++
      s!"{shownList knownProviders} from the environment"))
  else match providers with
  | [] => .error (valueError "MEMGW_PROVIDERS is empty; name at least one provider")
  | first :: _ =>
    let defaultProvider := e.get "MEMGW_DEFAULT_PROVIDER" first
    if defaultProvider ∉ providers then
      .error (valueError (s!"MEMGW_DEFAULT_PROVIDER={Text.quoted defaultProvider} is not in " ++
        s!"MEMGW_PROVIDERS {shownList providers}; nothing would ever route to it"))
    else do
      let dimension ← optionalInt (e "MEMGW_EMBEDDING_DIMENSION")
      let port ← int (e.get "MEMGW_QDRANT_PORT" "6333")
      let settings := Settings.filled e providers defaultProvider dimension port
      settings.checkCredentials
      return settings

/-! ## Recipes -/

structure OpenAIEmbedder where
  model : String
  dimension : Int
  apiKey : Option String
  deriving DecidableEq

/-- `OpenAIEmbedder.__init__`: a dimension that is given, or that of a known model. -/
def OpenAIEmbedder.init (apiKey : Option String) (model : String) (dimension : Option Int) :
    Except Exc OpenAIEmbedder :=
  match dimension <|> openaiDimensions.lookup model with
  | some dimension => .ok { model := model, dimension := dimension, apiKey := apiKey }
  | none =>
    .error (valueError (s!"unknown embedding model {Text.quoted model}: pass dimension= explicitly. " ++
      "Guessing it would not fail, it would just retrieve badly."))

structure OpenAIExtractor where
  model : String
  apiKey : Option String
  deriving DecidableEq

def Settings.embedder (s : Settings) : Except Exc OpenAIEmbedder :=
  OpenAIEmbedder.init s.openaiApiKey s.embeddingModel s.embeddingDimension

def Settings.extractor (s : Settings) : OpenAIExtractor where
  model := s.extractionModel
  apiKey := s.openaiApiKey

/-- The configuration that `mem0_config` makes: the models and the key for OpenAI, and
    where the vector store is. -/
structure Mem0Config where
  llm : String × Option String
  embedder : String × Option String
  vectorStore : String × Int × String
  deriving DecidableEq

def mem0Config (s : Settings) : Mem0Config where
  llm := (s.extractionModel, s.openaiApiKey)
  embedder := (s.embeddingModel, s.openaiApiKey)
  vectorStore := (s.qdrantHost, s.qdrantPort, s.qdrantCollection)

/-- Databases that work: the dialect that a URL is for, and the width of the vectors
    in the table at a URL, when there is one. -/
structure Databases where
  dialect : String → String
  storedWidth : String → Option Int

/-- An adapter, as far as the settings determine it. -/
inductive BuiltAdapter where
  | pgvector (url : String) (embedder : OpenAIEmbedder) (extractor : OpenAIExtractor)
  | mem0 (config : Mem0Config)
  | zep (apiKey : Option String)
  deriving DecidableEq

/-- `DEFAULT_TABLE`. -/
def defaultTable : String := "memgw_memories"

/-- `PgvectorAdapter.init`: refuse a table that was built for another width. -/
def pgvectorInit (db : Databases) (url : String) (embedder : OpenAIEmbedder) : Except Exc Unit :=
  if db.dialect url = "postgresql" then
    match db.storedWidth url with
    | some found =>
      if found ≠ embedder.dimension then
        .error (valueError (s!"table {Text.quoted defaultTable} stores {found}-dimension vectors " ++
          s!"and this embedder produces {embedder.dimension}. Point at a different table, " ++
          "or re-embed: two geometries in one column is not a mismatch you would notice."))
      else .ok ()
    | none => .ok ()
  else .ok ()

/-- `build_adapter`. -/
def buildAdapter (db : Databases) (name : String) (s : Settings) : Except Exc BuiltAdapter :=
  if name = "pgvector" then do
    let embedder ← s.embedder
    pgvectorInit db s.pgvectorUrl embedder
    return .pgvector s.pgvectorUrl embedder s.extractor
  else if name = "mem0" then .ok (.mem0 (mem0Config s))
  else if name = "zep" then .ok (.zep s.zepApiKey)
  else .error (valueError s!"no environment recipe for provider {Text.quoted name}")

end Memgw
