-- SUMMARY: The request and response bodies: what validation makes of their fields, and how the wire types are written and read back.
import Memgw.Gateway.Verbs
import Memgw.Server.Json

/-!
# Request and response bodies

What the validation library makes of a field is not the gateway's own: how it
converts a number or a time, and how it writes the values of a raw payload that JSON
does not have. A `Wire` supplies that, with the few facts the gateway rests on: a
value that has the type of its field already is kept, a written time reads back, and
whatever goes into a response is JSON.
-/

namespace Memgw

structure Wire where
  int : Value → Option Int
  float : Value → Option Score
  bool : Value → Option Bool
  time : Value → Option Time
  isoformat : Time → String
  /-- A raw payload in a response, unless it cannot be written. -/
  serialize : Fields → Option Fields
  /-- A score that is no number in a response, unless it cannot be written. -/
  nan : Option Value
  /-- `exc.errors()` for the fields that were refused. -/
  errors : Fields → List Fields
  /-- The text of a JSON body. -/
  render : Value → String
  /-- What the routes find in a path where a text was put. -/
  segment : String → Option String
  int_int : ∀ n, int (.int n) = some n
  float_float : ∀ x, float (.float x) = some x
  bool_bool : ∀ b, bool (.bool b) = some b
  time_time : ∀ t, time (.time t) = some t
  time_isoformat : ∀ t, time (.str (isoformat t)) = some t
  serialize_json : ∀ fields, IsJson fields → serialize fields = some fields
  isJson_serialize : ∀ fields fields', serialize fields = some fields' → IsJson fields'
  nan_null : ∀ value ∈ nan, value = .null
  segment_word : ∀ s : String, s ≠ "" → (∀ c ∈ s.toList, c.isAlphanum ∨ c = '_') →
    segment s = some s

attribute [simp] Wire.int_int Wire.float_float Wire.bool_bool Wire.time_time Wire.time_isoformat

/-- A time as so many strokes, with its sign in front. -/
def strokes (t : Time) : String :=
  String.ofList ((if 0 ≤ t then '+' else '-') :: .replicate t.natAbs 'I')

def ofStrokes (s : String) : Option Time :=
  match s.toList with
  | '+' :: rest => some rest.length
  | '-' :: rest => some (-rest.length)
  | _ => none

theorem ofStrokes_strokes (t : Time) : ofStrokes (strokes t) = some t := by
  by_cases h : 0 ≤ t
  · have hread : ofStrokes (strokes t) = some (t.natAbs : Int) := by simp [ofStrokes, strokes, h]
    rw [hread, Int.natAbs_of_nonneg h]
  · have hread : ofStrokes (strokes t) = some (-(t.natAbs : Int)) := by
      simp [ofStrokes, strokes, h]
    rw [hread, Int.ofNat_natAbs_of_nonpos (Int.le_of_not_le h), Int.neg_neg]

/-- The text is not empty, and has nothing but letters, digits and underscores. -/
def isWord (s : String) : Bool := s != "" && s.toList.all fun c => c.isAlphanum || c == '_'

/-- Validation that converts nothing: a value has the type of its field, or is refused. -/
def Wire.strict : Wire where
  int | .int n => some n | _ => none
  float | .float x => some x | _ => none
  bool | .bool b => some b | _ => none
  time | .time t => some t | .str s => ofStrokes s | _ => none
  isoformat := strokes
  serialize fields := if IsJson fields then some fields else none
  nan := none
  errors _ := []
  render _ := ""
  segment s := if isWord s then some s else none
  int_int _ := rfl
  float_float _ := rfl
  bool_bool _ := rfl
  time_time _ := rfl
  time_isoformat := ofStrokes_strokes
  serialize_json fields h := if_pos h
  isJson_serialize fields fields' h := by
    split at h
    · rename_i hjson
      rwa [← Option.some.inj h]
    · cases h
  nan_null _ h := by cases h
  segment_word s hne hword := if_pos (by simpa [isWord, hne] using hword)

/-! ## Scopes and messages -/

def Labels.dump (labels : Labels) : Value :=
  .obj (labels.items.map fun item => (item.1, .str item.2))

def Labels.read (value : Value) : Option Labels := do
  let fields ← value.fields?
  let items ← fields.mapM fun field => field.2.str?.map (field.1, ·)
  if h : (items.map Prod.fst).Nodup then some ⟨items, h⟩ else none

def Scope.dump (scope : Scope) : Fields :=
  [("subject", .str scope.subject.val), ("agent", orNull (.str ·.val) scope.agent),
    ("session", orNull (.str ·.val) scope.session), ("labels", scope.labels.dump),
    ("tenant", orNull .str scope.tenant)]

def Scope.read (value : Value) : Option Scope := do
  let fields ← value.fields?
  let subject ← required fields "subject" (·.str?.bind subjectMustBeReal)
  let agent ← (optional fields "agent" Value.str?).map blankIsNone
  let session ← (optional fields "session" Value.str?).map blankIsNone
  let labels ← withDefault fields "labels" {} Labels.read
  let tenant ← optional fields "tenant" Value.str?
  return {
    subject := subject
    agent := agent
    session := session
    labels := labels
    tenant := tenant }

def Role.ofName : String → Option Role
  | "user" => some .user
  | "assistant" => some .assistant
  | "system" => some .system
  | _ => none

/-- `model_dump(mode="json")`. -/
def Message.dump (wire : Wire) (message : Message) : Fields :=
  [("role", .str message.role.name), ("content", .str message.content),
    ("at", orNull (fun t => .str (wire.isoformat t)) message.time)]

def Message.read (wire : Wire) (value : Value) : Option Message := do
  let fields ← value.fields?
  let role ← required fields "role" (·.str?.bind Role.ofName)
  let content ← required fields "content" Value.str?
  let time ← optional fields "at" wire.time
  return { role := role, content := content, time := time }

section

variable {wire : Wire}

@[simp] theorem Role.ofName_name (role : Role) : Role.ofName role.name = some role := by
  cases role <;> rfl

@[simp] theorem Labels.read_dump (labels : Labels) : Labels.read labels.dump = some labels := by
  obtain ⟨items, hnodup⟩ := labels
  have hitems : (items.map fun item => (item.1, Value.str item.2)).mapM
      (fun field => field.2.str?.map (field.1, ·)) = some items := by
    clear hnodup
    induction items with
    | nil => rfl
    | cons item items ih =>
      rw [List.map_cons, List.mapM_cons, ih]
      rfl
  simp [read, dump, hitems, hnodup]

@[simp] theorem nullable_str {x : Option String} :
    nullable Value.str? (orNull Value.str x) = some x :=
  nullable_orNull (fun _ h => by cases h) fun _ _ => rfl

/-- A dimension is read as its text, which validation then keeps. -/
@[simp] theorem nullable_dim {d : Option Dim} :
    (nullable Value.str? (orNull (fun d => Value.str d.val) d)).map blankIsNone = some d := by
  have hread : nullable Value.str? (orNull (fun d => Value.str d.val) d) =
      some (d.map Subtype.val) := by
    cases d <;> rfl
  rw [hread, Option.map_some, blankIsNone_val]

@[simp] theorem nullable_time {x : Option Time} :
    nullable wire.time (orNull (fun t => .str (wire.isoformat t)) x) = some x :=
  nullable_orNull (fun _ h => by cases h) fun t _ => wire.time_isoformat t

@[simp] theorem Scope.read_dump (scope : Scope) : Scope.read (.obj scope.dump) = some scope := by
  simp [read, dump, required, optional, withDefault, List.lookup_cons]

@[simp] theorem Message.read_dump (message : Message) :
    Message.read wire (.obj (message.dump wire)) = some message := by
  simp [read, dump, required, optional, withDefault, List.lookup_cons]

theorem Labels.dump_foreign (labels : Labels) : labels.dump.foreign = none := by
  obtain ⟨items, hnodup⟩ := labels
  show IsJson (items.map fun item => (item.1, Value.str item.2))
  clear hnodup
  induction items with
  | nil => rfl
  | cons item items ih => exact isJson_cons.mpr ⟨rfl, ih⟩

theorem Scope.dump_isJson (scope : Scope) : IsJson scope.dump := by
  have hdim : ∀ d : Option Dim, (orNull (fun d => Value.str d.val) d).foreign = none :=
    fun _ => orNull_foreign fun _ => rfl
  have htenant : (orNull Value.str scope.tenant).foreign = none := orNull_foreign fun _ => rfl
  simp [dump, hdim, htenant, scope.labels.dump_foreign, Value.foreign]

theorem Message.dump_isJson (message : Message) : IsJson (message.dump wire) := by
  have htime : (orNull (fun t => Value.str (wire.isoformat t)) message.time).foreign = none :=
    orNull_foreign fun _ => rfl
  simp [dump, htime, Value.foreign]

end

/-! ## Queries -/

def SearchMode.ofName : String → Option SearchMode
  | "semantic" => some .semantic
  | "keyword" => some .keyword
  | "hybrid" => some .hybrid
  | "graph" => some .graph
  | "temporal" => some .temporal
  | _ => none

def OnUnsupported.name : OnUnsupported → String
  | .reject => "reject"
  | .degrade => "degrade"

def OnUnsupported.ofName : String → Option OnUnsupported
  | "reject" => some .reject
  | "degrade" => some .degrade
  | _ => none

/-- An `int` with `ge=1`. -/
def Wire.limit (wire : Wire) (value : Value) : Option { n : Nat // 1 ≤ n } := do
  let n ← wire.int value
  if h : 1 ≤ n.toNat then some ⟨n.toNat, h⟩ else none

/-- `SearchQuery(**fields)`. Fields that the query does not have are ignored. -/
def SearchQuery.read (wire : Wire) (fields : Fields) : Option SearchQuery := do
  let query ← required fields "query" Value.str?
  let mode ← withDefault fields "mode" .semantic (·.str?.bind SearchMode.ofName)
  let limit ← withDefault fields "limit" ⟨10, SearchQuery.defaultLimitPos⟩ wire.limit
  let minScore ← optional fields "min_score" wire.float
  let asOf ← optional fields "as_of" wire.time
  let onUnsupported ← withDefault fields "on_unsupported" .reject
    (·.str?.bind OnUnsupported.ofName)
  let failOpen ← withDefault fields "fail_open" false wire.bool
  return {
    query := query
    mode := mode
    limit := limit.val
    minScore := minScore
    asOf := asOf
    onUnsupported := onUnsupported
    failOpen := failOpen
    limitPos := limit.2 }

/-- `model_dump`, of the fields that a query has. -/
def SearchQuery.dump (query : SearchQuery) : Fields :=
  [("query", .str query.query), ("mode", .str query.mode.name), ("limit", .int query.limit),
    ("min_score", orNull .float query.minScore), ("as_of", orNull .time query.asOf),
    ("on_unsupported", .str query.onUnsupported.name), ("fail_open", .bool query.failOpen)]

section

variable {wire : Wire}

@[simp] theorem SearchMode.ofName_name (mode : SearchMode) :
    SearchMode.ofName mode.name = some mode := by
  cases mode <;> rfl

@[simp] theorem OnUnsupported.ofName_name (x : OnUnsupported) :
    OnUnsupported.ofName x.name = some x := by
  cases x <;> rfl

@[simp] theorem Wire.limit_int {n : Nat} (h : 1 ≤ n) : wire.limit (.int n) = some ⟨n, h⟩ := by
  simp [limit, h]

/-- A query that was validated is validated again to the same query. -/
theorem SearchQuery.read_dump (query : SearchQuery) :
    SearchQuery.read wire query.dump = some query := by
  have hscore : nullable wire.float (orNull .float query.minScore) = some query.minScore :=
    nullable_orNull (fun _ h => by cases h) fun x _ => wire.float_float x
  have hasOf : nullable wire.time (orNull .time query.asOf) = some query.asOf :=
    nullable_orNull (fun _ h => by cases h) fun t _ => wire.time_time t
  simp [read, dump, required, optional, withDefault, List.lookup_cons, hscore, hasOf, query.limitPos]

end

/-! ## Request bodies -/

/-- What every scoped request has. Provider and tenant are only ever checked. -/
structure Scoped where
  scope : Scope
  provider : Option String
  tenant : Option String

structure IngestIn extends Scoped where
  messages : Option (List Message)
  text : Option String
  metadata : Fields

structure UpsertIn extends Scoped where
  facts : List String
  factsNonempty : facts ≠ []

structure ListIn extends Scoped where
  limit : Nat
  limitPos : 1 ≤ limit

/-- Its own fields are those of a query, with the same defaults and checks. -/
structure SearchIn extends Scoped where
  query : SearchQuery

abbrev DeleteScopeIn : Type := Scoped

structure UpdateIn where
  content : String
  tenant : Option String

def Scoped.read (fields : Fields) : Option Scoped := do
  let scope ← required fields "scope" Scope.read
  let provider ← optional fields "provider" Value.str?
  let tenant ← optional fields "tenant" Value.str?
  return { scope := scope, provider := provider, tenant := tenant }

def IngestIn.read (wire : Wire) (fields : Fields) : Option IngestIn := do
  let common ← Scoped.read fields
  let messages ← optional fields "messages" (listOf (Message.read wire))
  let text ← optional fields "text" Value.str?
  let metadata ← withDefault fields "metadata" [] Value.fields?
  return { toScoped := common, messages := messages, text := text, metadata := metadata }

def UpsertIn.read (fields : Fields) : Option UpsertIn := do
  let common ← Scoped.read fields
  let facts ← required fields "facts" (listOf Value.str?)
  if h : facts ≠ [] then some { toScoped := common, facts := facts, factsNonempty := h } else none

theorem ListIn.defaultLimitPos : 1 ≤ 100 := by decide

def ListIn.read (wire : Wire) (fields : Fields) : Option ListIn := do
  let common ← Scoped.read fields
  let limit ← withDefault fields "limit" ⟨100, ListIn.defaultLimitPos⟩ wire.limit
  return { toScoped := common, limit := limit.val, limitPos := limit.2 }

def SearchIn.read (wire : Wire) (fields : Fields) : Option SearchIn := do
  let common ← Scoped.read fields
  let query ← SearchQuery.read wire fields
  return { toScoped := common, query := query }

def UpdateIn.read (fields : Fields) : Option UpdateIn := do
  let content ← required fields "content" Value.str?
  let tenant ← optional fields "tenant" Value.str?
  return { content := content, tenant := tenant }

/-- `Episode(...)`, which has exactly one source, and not an empty one. -/
def Episode.validate (messages : Option (List Message)) (text : Option String)
    (metadata : Fields) : Option Episode :=
  if h : messages.isNone ≠ text.isNone ∧ messages ≠ some [] ∧ ∀ t ∈ text, Text.strip t ≠ "" then
    some {
      messages := messages
      text := text
      metadata := metadata
      exactlyOneSource := h.1
      messagesNonempty := h.2.1
      textNotBlank := h.2.2 }
  else none

/-! ## Responses -/

def Wire.score (wire : Wire) : Option Measure → Option Value
  | none => some .null
  | some (.number score) => some (.float score)
  | some .nan => wire.nan

/-- The fields of a record in a response, with its score and raw payload written. -/
def MemoryRecord.body (wire : Wire) (record : MemoryRecord) (score : Value) (raw : Fields) :
    Fields :=
  let time := orNull fun t => Value.str (wire.isoformat t)
  [("id", .str record.id), ("provider", .str record.provider),
    ("native_id", .str record.nativeId), ("content", .str record.content),
    ("scope", .obj record.scope.dump), ("score", score), ("created_at", time record.createdAt),
    ("updated_at", time record.updatedAt), ("valid_from", time record.validFrom),
    ("valid_to", time record.validTo), ("provider_raw", .obj raw)]

/-- A record in a response, unless its raw payload or its score cannot be written. -/
def MemoryRecord.dump (wire : Wire) (record : MemoryRecord) : Option Fields := do
  let score ← wire.score record.score
  let raw ← wire.serialize record.providerRaw
  return record.body wire score raw

/-- `MemoryRecord(**record)`. -/
def MemoryRecord.read (wire : Wire) (value : Value) : Option MemoryRecord := do
  let fields ← value.fields?
  let id ← required fields "id" Value.str?
  let provider ← required fields "provider" Value.str?
  let nativeId ← required fields "native_id" Value.str?
  let content ← required fields "content" Value.str?
  let scope ← required fields "scope" Scope.read
  let score ← optional fields "score" wire.float
  let createdAt ← optional fields "created_at" wire.time
  let updatedAt ← optional fields "updated_at" wire.time
  let validFrom ← optional fields "valid_from" wire.time
  let validTo ← optional fields "valid_to" wire.time
  let providerRaw ← withDefault fields "provider_raw" [] Value.fields?
  return {
    id := id
    provider := provider
    nativeId := nativeId
    content := content
    scope := scope
    score := score.map .number
    createdAt := createdAt
    updatedAt := updatedAt
    validFrom := validFrom
    validTo := validTo
    providerRaw := providerRaw }

def dumpRecords (wire : Wire) (records : List MemoryRecord) : Option Value :=
  (records.mapM (MemoryRecord.dump wire)).map fun bodies => .list (.ofList (bodies.map .obj))

/-- `SearchOut`, and `SearchResult` on the side of the client. -/
def SearchResult.dump (wire : Wire) (result : SearchResult) : Option Fields := do
  let results ← dumpRecords wire result.results
  return [("results", results), ("provider", .str result.provider),
    ("degraded", .bool result.degraded), ("requested", orNull (.str ·.name) result.requested),
    ("served", orNull (.str ·.name) result.served), ("lost", .strs result.lost),
    ("provider_unavailable", .bool result.providerUnavailable)]

def SearchResult.read (wire : Wire) (fields : Fields) : Option SearchResult := do
  let results ← required fields "results" (listOf (MemoryRecord.read wire))
  let provider ← required fields "provider" Value.str?
  let degraded ← withDefault fields "degraded" false wire.bool
  let requested ← optional fields "requested" (·.str?.bind SearchMode.ofName)
  let served ← optional fields "served" (·.str?.bind SearchMode.ofName)
  let lost ← withDefault fields "lost" [] (listOf Value.str?)
  let providerUnavailable ← withDefault fields "provider_unavailable" false wire.bool
  return {
    results := results
    provider := provider
    degraded := degraded
    requested := requested
    served := served
    lost := lost
    providerUnavailable := providerUnavailable }

/-- Everything in the record is something that JSON has. -/
def MemoryRecord.Plain (record : MemoryRecord) : Prop :=
  IsJson record.providerRaw ∧ record.score ≠ some .nan

instance (record : MemoryRecord) : Decidable record.Plain := inferInstanceAs (Decidable (_ ∧ _))

section

variable {wire : Wire}

theorem MemoryRecord.read_body {record : MemoryRecord} {score : Value} {raw : Fields} :
    MemoryRecord.read wire (.obj (record.body wire score raw)) =
      (nullable wire.float score).map fun score =>
        { record with score := score.map .number, providerRaw := raw } := by
  cases hscore : nullable wire.float score <;>
    simp [read, body, required, optional, withDefault, List.lookup_cons, hscore]

/-- What is read from a response is plain, whatever it was written from. -/
theorem MemoryRecord.plain_of_read {record record' : MemoryRecord} {body : Fields}
    (hdump : record.dump wire = some body)
    (hread : MemoryRecord.read wire (.obj body) = some record') : record'.Plain := by
  simp only [dump, Option.bind_eq_bind, Option.bind_eq_some_iff, Option.pure_def,
    Option.some.injEq] at hdump
  obtain ⟨score, -, raw, hraw, rfl⟩ := hdump
  rw [read_body, Option.map_eq_some_iff] at hread
  obtain ⟨score', -, rfl⟩ := hread
  refine ⟨wire.isJson_serialize _ _ hraw, ?_⟩
  cases score' <;> simp

/-- A plain record is read as it was written. -/
theorem MemoryRecord.read_dump (wire : Wire) {record : MemoryRecord} (h : record.Plain) :
    ∃ body, record.dump wire = some body ∧
      MemoryRecord.read wire (.obj body) = some record := by
  obtain ⟨hraw, hnan⟩ := h
  cases hscore : record.score with
  | none =>
    refine ⟨record.body wire .null record.providerRaw, ?_, ?_⟩
    · simp [dump, hscore, wire.serialize_json _ hraw, Wire.score]
    · rw [read_body]
      simp [nullable, ← hscore]
  | some score =>
    cases score with
    | nan => exact absurd hscore hnan
    | number score =>
      refine ⟨record.body wire (.float score) record.providerRaw, ?_, ?_⟩
      · simp [dump, hscore, wire.serialize_json _ hraw, Wire.score]
      · rw [read_body]
        simp [nullable, ← hscore]

theorem plain_of_read_records {records records' : List MemoryRecord} {value : Value}
    (hdump : dumpRecords wire records = some value)
    (hread : listOf (MemoryRecord.read wire) value = some records') :
    ∀ record ∈ records', record.Plain := by
  obtain ⟨bodies, hbodies, rfl⟩ := Option.map_eq_some_iff.mp hdump
  rw [listOf, Values.toList_ofList] at hread
  intro record' hrecord'
  -- what the record was read from was written from a record as well
  obtain ⟨value, hvalue, hreadBody⟩ := exists_of_mem_mapM hread hrecord'
  obtain ⟨body, hbody, rfl⟩ := List.mem_map.mp hvalue
  obtain ⟨record, -, hdumpBody⟩ := exists_of_mem_mapM hbodies hbody
  exact MemoryRecord.plain_of_read hdumpBody hreadBody

theorem read_dumpRecords (wire : Wire) {records : List MemoryRecord}
    (h : ∀ record ∈ records, record.Plain) :
    ∃ value, dumpRecords wire records = some value ∧
      listOf (MemoryRecord.read wire) value = some records := by
  induction records with
  | nil => exact ⟨_, rfl, rfl⟩
  | cons record records ih =>
    obtain ⟨hrecord, hrest⟩ := List.forall_mem_cons.mp h
    obtain ⟨body, hdump, hread⟩ := MemoryRecord.read_dump wire hrecord
    obtain ⟨value, hvalue, hrecords⟩ := ih hrest
    obtain ⟨bodies, hbodies, rfl⟩ := Option.map_eq_some_iff.mp hvalue
    refine ⟨.list (.ofList ((body :: bodies).map .obj)), ?_, ?_⟩
    · simp [dumpRecords, hdump, hbodies]
    · rw [listOf, Values.toList_ofList] at hrecords ⊢
      rw [List.map_cons, List.mapM_cons, hread, hrecords]
      rfl

theorem SearchResult.plain_of_read {result result' : SearchResult} {body : Fields}
    (hdump : result.dump wire = some body) (hread : SearchResult.read wire body = some result') :
    ∀ record ∈ result'.results, record.Plain := by
  simp only [dump, Option.bind_eq_bind, Option.bind_eq_some_iff, Option.pure_def,
    Option.some.injEq] at hdump
  obtain ⟨value, hvalue, rfl⟩ := hdump
  simp only [read, Option.bind_eq_bind, Option.bind_eq_some_iff, Option.pure_def,
    Option.some.injEq] at hread
  obtain ⟨results, hresults, -, -, -, -, -, -, -, -, -, -, -, -, rfl⟩ := hread
  exact plain_of_read_records hvalue hresults

theorem SearchResult.read_dump (wire : Wire) {result : SearchResult}
    (h : ∀ record ∈ result.results, record.Plain) :
    ∃ body, result.dump wire = some body ∧ SearchResult.read wire body = some result := by
  obtain ⟨value, hvalue, hresults⟩ := read_dumpRecords wire h
  have hmode : ∀ mode : Option SearchMode,
      nullable (·.str?.bind SearchMode.ofName) (orNull (.str ·.name) mode) = some mode :=
    fun _ => nullable_orNull (fun _ h => by cases h) fun mode _ => mode.ofName_name
  have hlost : listOf Value.str? (.strs result.lost) = some result.lost :=
    listOf_map fun _ _ => rfl
  refine ⟨_, by rw [dump, hvalue]; rfl, ?_⟩
  simp [read, required, optional, withDefault, List.lookup_cons, hresults, hmode, hlost]

end

end Memgw
