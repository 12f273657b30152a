-- SUMMARY: The verbs: resolve, gate on capability, call one adapter, and bridge native ids to gateway ids.
import Memgw.Gateway.Bookkeeping

/-!
# The verbs

Everything provider-neutral lives here. One rule runs through every verb: the
tenant comes from the credential and is stamped onto the scope on the way down, in
`prepare` for the verbs that take a scope; the others take a gateway id, which
`issuedRow` resolves for the tenant alone.
-/

namespace Memgw

variable {σ : Type}

structure WriteResult where
  results : List MemoryRecord
  provider : String
  deriving DecidableEq

structure SearchResult where
  results : List MemoryRecord
  provider : String
  degraded : Bool := false
  requested : Option SearchMode := none
  served : Option SearchMode := none
  lost : List String := []
  providerUnavailable : Bool := false
  deriving DecidableEq

inductive RebindStrategy where
  | freshStart
  | migrate
  deriving DecidableEq, Repr

structure MemoryCore (σ : Type) where
  /-- By name. Of two entries with one name the first one counts. -/
  providers : List (String × Adapter σ)
  defaultProvider : Option String := none
  journalEnabled : Bool := false

/-- A gateway whose one provider serves the same memories whatever happens. -/
def MemoryCore.serving (provider : String) (memories : List ProviderMemory) (erase : σ → σ) :
    MemoryCore σ where
  providers := [(provider, .serving memories erase)]
  defaultProvider := some provider

/-- `DEFAULT_LIST_LIMIT`. -/
def defaultListLimit : Nat := 100

/-! ## Calling an adapter -/

def callAdapter (name : String) (adapter : Adapter σ) (op : AdapterOp) : CoreProg σ op.Ans :=
  Prog.perform (Op.adapter name adapter op)

/-- `_failure`: unhealthy when the provider is down, a provider error when a
    healthy one refused the call. -/
def failure (name : String) (adapter : Adapter σ) (exc : Exc) : CoreProg σ GatewayError := do
  let down ← Prog.tryCatch (do
    let health ← callAdapter name adapter .health
    return !health.ok) fun e => if e.isException then .ret true else .raise e
  return if down then
    ErrorClass.providerUnhealthy.error s!"provider {Text.quoted name} is unavailable"
      [("provider", .str name), ("cause", .str exc.str)]
  else
    ErrorClass.providerError.error s!"provider {Text.quoted name} failed the call"
      [("provider", .str name), ("cause", .str exc.str), ("retryable", .bool true)]

def raiseFailure {α : Type} (name : String) (adapter : Adapter σ) (exc : Exc) : CoreProg σ α := do
  let e ← failure name adapter exc
  Prog.raise (.gateway e)

/-- `_call`: one adapter call, with transport failures translated. -/
def call (name : String) (adapter : Adapter σ) (op : AdapterOp) : CoreProg σ op.Ans :=
  (callAdapter name adapter op).tryCatch fun
    | .gateway e => .raise (.gateway e)
    | .cancelled => .raise .cancelled
    | exc => raiseFailure name adapter exc

/-! ## Records -/

def toRecord (gatewayId provider : String) (memory : ProviderMemory) (scope : Scope) :
    MemoryRecord where
  id := gatewayId
  provider := provider
  nativeId := memory.nativeId
  content := memory.content
  scope := scope.withoutTenant
  score := memory.score
  createdAt := memory.createdAt
  updatedAt := memory.updatedAt
  validFrom := memory.validFrom
  validTo := memory.validTo
  providerRaw := memory.raw

/-- `{row.native_id: row for row in rows}`. -/
def byNative (rows : List CatalogRow) (nativeId : String) : Option CatalogRow :=
  rows.reverse.find? (·.nativeId == nativeId)

/-- One record for each memory that the mapping has a row for, under the scope that
    the row decides. -/
def toRecords (provider : String) (memories : List ProviderMemory) (scopeOf : CatalogRow → Scope)
    (rows : List CatalogRow) : List MemoryRecord :=
  memories.filterMap fun memory =>
    (byNative rows memory.nativeId).map fun row =>
      toRecord row.gatewayId provider memory (scopeOf row)

theorem byNative_some {rows : List CatalogRow} {nativeId : String} {row : CatalogRow}
    (h : byNative rows nativeId = some row) : row ∈ rows ∧ row.nativeId = nativeId :=
  ⟨List.mem_reverse.mp (List.mem_of_find?_eq_some h), by simpa using List.find?_some h⟩

theorem mem_toRecords {provider : String} {memories : List ProviderMemory}
    {scopeOf : CatalogRow → Scope} {rows : List CatalogRow} {record : MemoryRecord}
    (h : record ∈ toRecords provider memories scopeOf rows) :
    ∃ memory ∈ memories, ∃ row ∈ rows, row.nativeId = memory.nativeId ∧
      record = toRecord row.gatewayId provider memory (scopeOf row) := by
  obtain ⟨memory, hm, h⟩ := List.mem_filterMap.mp h
  obtain ⟨row, hrow, rfl⟩ := Option.map_eq_some_iff.mp h
  obtain ⟨hmem, hid⟩ := byNative_some hrow
  exact ⟨memory, hm, row, hmem, hid, rfl⟩

def hitItems (memories : List ProviderMemory) : List (String × String) :=
  memories.map fun memory => (memory.nativeId, memory.content)

/-- `_records`: mint gateway ids for a write. -/
def writtenRecords (tenant provider : String) (memories : List ProviderMemory) (scope : Scope) :
    CoreProg σ (List MemoryRecord) :=
  if memories = [] then .ret []
  else do
    let rows ← recordMany tenant provider (hitItems memories) scope
    return toRecords provider memories (fun _ => scope) rows

/-- `_map_hits`: map provider hits, dropping those the catalog considers deleted. -/
def mapHits (tenant provider : String) (memories : List ProviderMemory) (scope : Scope) :
    CoreProg σ (List MemoryRecord) :=
  if memories = [] then .ret []
  else do
    let rows ← ensureMany tenant provider (hitItems memories) scope
    return toRecords provider memories CatalogRow.scope rows

/-- No memories are no case apart: an empty page is mapped to no rows. -/
theorem writtenRecords_eq {tenant provider : String} {memories : List ProviderMemory}
    {scope : Scope} : (writtenRecords tenant provider memories scope : CoreProg σ _) =
      (mapPage tenant provider (hitItems memories) scope true).bind fun rows =>
        .ret (toRecords provider memories (fun _ => scope) rows) := by
  unfold writtenRecords
  split
  · rename_i hnil
    subst hnil
    rfl
  · rfl

theorem mapHits_eq {tenant provider : String} {memories : List ProviderMemory} {scope : Scope} :
    (mapHits tenant provider memories scope : CoreProg σ _) =
      (mapPage tenant provider (hitItems memories) scope false).bind fun rows =>
        .ret (toRecords provider memories CatalogRow.scope rows) := by
  unfold mapHits
  split
  · rename_i hnil
    subst hnil
    rfl
  · rfl

/-- `_row`. Another tenant's id is answered like an unknown one. -/
def issuedRow (tenant gatewayId : String) : CoreProg σ CatalogRow := do
  let row ← transact (.resolveGatewayId tenant gatewayId)
  check <| match row with
    | none => .error <| ErrorClass.memoryNotFound.error s!"no memory {Text.quoted gatewayId}" []
    | some row => .ok row

/-- `if b: p`. -/
def runIf (b : Bool) (p : CoreProg σ Unit) : CoreProg σ Unit := if b then p else .ret ()

def SearchQuery.effective (query : SearchQuery) (served : SearchMode) (caps : Capabilities) :
    SearchQuery :=
  { query with
    mode := served
    limit := min query.limit caps.maxLimit
    limitPos := Nat.le_min.mpr ⟨query.limitPos, caps.maxLimitPos⟩ }

namespace MemoryCore

variable (core : MemoryCore σ)

def adapter (provider : String) : Except GatewayError (Adapter σ) :=
  match core.providers.lookup provider with
  | some adapter => .ok adapter
  | none => .error <| (ErrorClass.invalidRequest.error
      s!"provider {Text.quoted provider} is not configured"
      [("available", .strs ((core.providers.map Prod.fst).mergeSort (· ≤ ·)))]).withCode
      "unknown_provider"

/-- A gateway with one provider has no other adapter. -/
theorem adapter_single {core : MemoryCore σ} {name name' : String} {a b : Adapter σ}
    (hsingle : core.providers = [(name, a)]) (h : core.adapter name' = .ok b) : b = a := by
  rw [adapter, hsingle, List.lookup_cons] at h
  cases hname : name' == name with
  | true => simpa [hname] using h.symm
  | false => simp [hname] at h

/-- What a verb with a scope starts from. -/
structure Prepared (σ : Type) where
  name : String
  adapter : Adapter σ
  bound : Scope

/-- `_prepare`: resolve the provider, stamp the tenant, and check the scope. -/
def prepare (tenant : String) (scope : Scope) (asserted : Option String) :
    CoreProg σ (Prepared σ) := do
  let name ← resolveProvider tenant scope.subject core.defaultProvider asserted
  let adapter ← check (core.adapter name)
  check (assertScopeSupported (scope.under tenant) adapter.capabilities)
  return { name := name, adapter := adapter, bound := scope.under tenant }

/-! ## Write -/

def ingest (tenant : String) (episode : Episode) (scope : Scope) (provider : Option String) :
    CoreProg σ WriteResult :=
  observe "ingest" tenant (some scope.subject) do
    let p ← core.prepare tenant scope provider
    note "provider" (.str p.name)
    refuseIf (!p.adapter.capabilities.supportsIngest) <| ErrorClass.unsupportedCapability.error
      "provider cannot extract memories from raw episodes"
      [("provider", .str p.name), ("hint", .str "send ready-made facts to :upsert")]
    let memories ← call p.name p.adapter (.ingest episode p.bound)
    let records ← writtenRecords tenant p.name memories scope
    let _ ← bind tenant scope.subject p.name
    runIf core.journalEnabled do
      let _ ← transact (.journal tenant scope episode
        [(p.name, memories.map ProviderMemory.nativeId)])
      return ()
    note "count" (.int records.length)
    return { results := records, provider := p.name }

def upsert (tenant : String) (facts : List String) (scope : Scope) (provider : Option String) :
    CoreProg σ WriteResult := do
  refuseIf facts.isEmpty <|
    (ErrorClass.invalidRequest.error "upsert needs at least one fact" []).withCode "invalid_request"
  observe "upsert" tenant (some scope.subject) do
    let p ← core.prepare tenant scope provider
    note "provider" (.str p.name)
    refuseIf (!p.adapter.capabilities.supportsUpsert) <| ErrorClass.unsupportedCapability.error
      "provider cannot store ready-made facts" [("provider", .str p.name)]
    let memories ← call p.name p.adapter (.upsert facts p.bound)
    let records ← writtenRecords tenant p.name memories scope
    let _ ← bind tenant scope.subject p.name
    note "count" (.int records.length)
    return { results := records, provider := p.name }

def update (tenant gatewayId content : String) : CoreProg σ MemoryRecord :=
  observe "update" tenant none do
    let row ← issuedRow tenant gatewayId
    note "subject" (.str row.subject)
    note "provider" (.str row.provider)
    let adapter ← check (core.adapter row.provider)
    refuseIf (!adapter.capabilities.supportsUpdate) <| ErrorClass.unsupportedCapability.error
      "provider cannot update a stored memory" []
    let memory ← call row.provider adapter (.update row.nativeId content)
    let _ ← record tenant row.provider memory.nativeId row.scope content
    return toRecord row.gatewayId row.provider memory row.scope

/-! ## Read -/

/-- An outage, which `fail_open` covers. -/
def outage (query : SearchQuery) (name : String) (adapter : Adapter σ) (exc : Exc) :
    CoreProg σ SearchResult :=
  if query.failOpen then do
    note "outcome_detail" (.str "fail_open")
    note "count" (.int 0)
    return { results := [], provider := name, providerUnavailable := true }
  else raiseFailure name adapter exc

/-- A shortfall of capability is a misconfiguration, and never an outage. -/
def searchFailed (query : SearchQuery) (name : String) (adapter : Adapter σ) :
    Exc → CoreProg σ SearchResult
  | .gateway e =>
    if e.cls = .unsupportedCapability ∨ e.cls = .invalidRequest then .raise (.gateway e)
    else outage query name adapter (.gateway e)
  | .cancelled => .raise .cancelled
  | exc => outage query name adapter exc

def search (tenant : String) (query : SearchQuery) (scope : Scope) (provider : Option String) :
    CoreProg σ SearchResult :=
  observe "search" tenant (some scope.subject) do
    let p ← core.prepare tenant scope provider
    note "provider" (.str p.name)
    note "mode" (.str query.mode.name)
    check (if query.asOf.isSome then assertAsOfSupported p.adapter.capabilities else .ok ())
    let decision ← check (resolveMode query.mode p.adapter.capabilities query.onUnsupported)
    let answer ← (callAdapter p.name p.adapter
      (.search (query.effective decision.served p.adapter.capabilities) p.bound)).attempt
    match answer with
    | .error exc => searchFailed query p.name p.adapter exc
    | .ok memories => do
      let records ← mapHits tenant p.name memories scope
      note "count" (.int records.length)
      return {
        results := records
        provider := p.name
        degraded := decision.degraded
        requested := some query.mode
        served := some decision.served
        lost := decision.lost }

def listScope (tenant : String) (scope : Scope) (limit : Nat) (provider : Option String) :
    CoreProg σ (List MemoryRecord) :=
  observe "list" tenant (some scope.subject) do
    let p ← core.prepare tenant scope provider
    note "provider" (.str p.name)
    refuseIf (!p.adapter.hasListScope || !p.adapter.capabilities.supportsList) <|
      ErrorClass.unsupportedCapability.error "provider cannot enumerate a scope"
        [("provider", .str p.name)]
    let memories ← call p.name p.adapter
      (.listScope p.bound (min limit p.adapter.capabilities.maxLimit))
    let records ← mapHits tenant p.name memories scope
    note "count" (.int records.length)
    return records

def get (tenant gatewayId : String) : CoreProg σ MemoryRecord :=
  observe "get" tenant none do
    let row ← issuedRow tenant gatewayId
    note "subject" (.str row.subject)
    note "provider" (.str row.provider)
    let adapter ← check (core.adapter row.provider)
    let memory ← call row.provider adapter (.get row.nativeId)
    check <| match memory with
      | none => .error <| ErrorClass.memoryNotFound.error
          s!"{gatewayId} is no longer present at {row.provider}" []
      | some memory => .ok (toRecord row.gatewayId row.provider memory row.scope)

/-! ## Delete -/

def delete (tenant gatewayId : String) : CoreProg σ Unit :=
  observe "delete" tenant none do
    let row ← issuedRow tenant gatewayId
    note "subject" (.str row.subject)
    note "provider" (.str row.provider)
    let adapter ← check (core.adapter row.provider)
    check (assertDeleteSupported adapter.capabilities false)
    let _ ← call row.provider adapter (.delete row.nativeId)
    let _ ← transact (.markDeleted tenant gatewayId)
    return ()

def deleteScope (tenant : String) (scope : Scope) (provider : Option String) : CoreProg σ Nat :=
  observe "delete_scope" tenant (some scope.subject) do
    let p ← core.prepare tenant scope provider
    note "provider" (.str p.name)
    check (assertDeleteSupported p.adapter.capabilities true)
    let removed ← call p.name p.adapter (.deleteScope p.bound)
    let _ ← transact (.markScopeDeleted tenant scope p.name)
    let erased ← transact (.deleteJournal tenant scope)
    note "episodes_erased" (.int erased)
    note "count" (.int removed)
    return removed

/-! ## Binding -/

def rebind (tenant subject provider : String) (strategy : RebindStrategy) :
    CoreProg σ RebindResult :=
  observe "rebind" tenant (some subject) do
    note "provider" (.str provider)
    refuseIf (strategy = .migrate) <| ErrorClass.notImplementedYet.error
      ("migrating an end-user's memories lands with the migration engine; " ++
        "fresh_start strands them at the old provider and says so") []
    let _ ← check (core.adapter provider)
    let result ← rebindSubject tenant subject provider
    note "orphaned" (.int result.orphanedCount)
    return result

end MemoryCore

end Memgw
