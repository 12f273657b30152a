-- SUMMARY: The whole gateway: the routes beside those for memories, the credential that guards them, and the app.
import Memgw.Server.Auth
import Memgw.Server.Routes

/-!
# The app

A request reaches a route, its credential names the tenant, and only then is its body
read. Besides the verbs on memories there are routes for the binding of a subject, for
what the providers can do and how they are, and one for the state of the process that
asks for no credential.
-/

namespace Memgw

variable {σ : Type}

/-! ## Capabilities -/

def MemoryModel.name : MemoryModel → String
  | .flatFacts => "flat_facts"
  | .temporalGraph => "temporal_graph"
  | .memoryBlocks => "memory_blocks"
  | .documents => "documents"

def Dedup.name : Dedup → String
  | .none => "none"
  | .provider => "provider"
  | .gateway => "gateway"

def Consistency.name : Consistency → String
  | .readAfterWrite => "read_after_write"
  | .eventual => "eventual"

def Capabilities.dump (caps : Capabilities) : Fields :=
  [("supports_ingest", .bool caps.supportsIngest), ("supports_upsert", .bool caps.supportsUpsert),
    ("supports_update", .bool caps.supportsUpdate), ("supports_delete", .bool caps.supportsDelete),
    ("supports_delete_by_scope", .bool caps.supportsDeleteByScope),
    ("supports_list", .bool caps.supportsList),
    ("search_modes", .strs (caps.searchModes.map SearchMode.name)),
    ("supports_score", .bool caps.supportsScore), ("max_limit", .int caps.maxLimit),
    ("scope_dims", .strs (caps.scopeDims.map ScopeDim.name)),
    ("supports_labels", .bool caps.supportsLabels), ("memory_model", .str caps.memoryModel.name),
    ("dedup", .str caps.dedup.name), ("supports_export", .bool caps.supportsExport),
    ("supports_import", .bool caps.supportsImport), ("consistency", .str caps.consistency.name),
    ("experimental", .bool caps.experimental),
    ("metered_externally", .bool caps.meteredExternally)]

structure ProviderStatus where
  name : String
  healthy : Bool
  detail : Option String
  capabilities : Capabilities

namespace MemoryCore

variable (core : MemoryCore σ)

/-- `capabilities(provider)`. -/
def capabilities (provider : Option String) : Except GatewayError Capabilities :=
  match (provider.filter (· != "")).or core.defaultProvider with
  | none => .error <| (ErrorClass.invalidRequest.error
      "no provider named and no tenant default configured" []).withCode "no_provider_resolved"
  | some name => (core.adapter name).map (·.capabilities)

/-- How one provider is. What its health check raises is an answer as well. -/
def providerStatus (name : String) (adapter : Adapter σ) : CoreProg σ ProviderStatus := do
  let (healthy, detail) ← Prog.tryCatch (do
    let health ← callAdapter name adapter .health
    return (health.ok, health.detail)) fun e =>
      if e.isException then .ret (false, some e.str) else .raise e
  return {
    name := name
    healthy := healthy
    detail := detail
    capabilities := adapter.capabilities }

/-- One provider after the other. -/
def statuses : List (String × Adapter σ) → CoreProg σ (List ProviderStatus)
  | [] => .ret []
  | (name, adapter) :: rest => do
    let status ← providerStatus name adapter
    let others ← statuses rest
    return status :: others

/-- `sorted(self.providers.items())`. -/
def configured : List (String × Adapter σ) :=
  ((core.providers.map Prod.fst).dedup.mergeSort (· ≤ ·)).filterMap fun name =>
    (core.providers.lookup name).map fun adapter => (name, adapter)

/-- `providers_status`. -/
def providersStatus : CoreProg σ (List ProviderStatus) := statuses core.configured

end MemoryCore

/-! ## Rebinding -/

structure RebindIn where
  provider : String
  strategy : RebindStrategy
  tenant : Option String

def RebindStrategy.ofName : String → Option RebindStrategy
  | "fresh_start" => some .freshStart
  | "migrate" => some .migrate
  | _ => none

def RebindIn.read (fields : Fields) : Option RebindIn := do
  let provider ← required fields "provider" Value.str?
  let strategy ← withDefault fields "strategy" .freshStart (·.str?.bind RebindStrategy.ofName)
  let tenant ← optional fields "tenant" Value.str?
  return { provider := provider, strategy := strategy, tenant := tenant }

def Routes.rebind (wire : Wire) (tenant subject : String) (fields : Fields) :
    Except GatewayError Call := do
  let body ← validated wire fields (RebindIn.read fields)
  assertNoWiderTenant tenant body.tenant
  return .rebind tenant subject body.provider body.strategy

/-- What a rebind leaves behind, when that is something. -/
def RebindResult.note (result : RebindResult) : Option String :=
  let orphanedAt := result.orphanedAt.getD "None"
  if result.orphanedCount = 0 then none
  else some (s!"{result.orphanedCount} memories stay at {orphanedAt} and are no " ++
    "longer reachable for this subject; nothing was deleted")

/-- `RebindOut`. -/
def RebindResult.dump (subject : String) (result : RebindResult) : Fields :=
  [("subject", .str subject), ("provider", .str result.provider),
    ("orphaned_at", orNull .str result.orphanedAt), ("orphaned_count", .int result.orphanedCount),
    ("note", orNull .str result.note)]

/-! ## Requests -/

/-- A request for one of the routes of the gateway. -/
inductive GatewayRequest where
  /-- For memories. -/
  | memory (request : HttpRequest)
  /-- `GET /v1/subjects/{subject}` -/
  | getBinding (subject : String)
  /-- `POST /v1/subjects/{subject}:rebind` -/
  | rebind (subject : String) (body : Fields)
  /-- `GET /v1/providers` -/
  | providers
  /-- `GET /v1/capabilities` -/
  | capabilities (provider : Option String)
  /-- `GET /healthz` -/
  | healthz

/-- The text put in its path. -/
def GatewayRequest.placed : GatewayRequest → Option String
  | .memory (.getMemory id) | .memory (.updateMemory id _) | .memory (.deleteMemory id) => some id
  | .getBinding subject | .rebind subject _ => some subject
  | .memory _ | .providers | .capabilities _ | .healthz => none

/-- Some route matches its path. -/
def GatewayRequest.Routed (wire : Wire) (request : GatewayRequest) : Prop :=
  ∀ text ∈ request.placed, (wire.segment text).isSome

instance {wire : Wire} {request : GatewayRequest} : Decidable (request.Routed wire) :=
  inferInstanceAs (Decidable (∀ text ∈ request.placed, _))

/-- It asks for no credential. -/
def GatewayRequest.isOpen : GatewayRequest → Bool
  | .healthz => true
  | .memory _ | .getBinding _ | .rebind .. | .providers | .capabilities _ => false

def okResponse (content : Content) : Response where
  status := 200
  content := content

def healthy : Response := okResponse (.json [("status", .str "ok")])

/-- `[ProviderOut(...), ...]`. -/
def statusesOut (statuses : List ProviderStatus) : Value :=
  .list (.ofList (statuses.map fun status => .obj
    [("name", .str status.name), ("healthy", .bool status.healthy),
      ("detail", orNull .str status.detail), ("capabilities", .obj status.capabilities.dump)]))

section

variable (core : MemoryCore σ) (wire : Wire)

/-- `get_binding`. -/
def getBindingRoute (tenant subject : String) : CoreProg σ Response := do
  let provider ← transact (.getBinding tenant subject)
  return okResponse (.json [("subject", .str subject), ("provider", orNull .str provider)])

/-- `rebind`. -/
def rebindRoute (tenant subject : String) (body : Fields) : CoreProg σ Response := do
  let call ← check (Routes.rebind wire tenant subject body)
  let reply ← core.exec call
  return match reply with
    | .rebound result => okResponse (.json (result.dump subject))
    -- a rebind makes no other reply
    | .wrote _ | .found _ | .listed _ | .memory _ | .deleted | .erased _ => internalServerError

/-- `providers`. The body is a list, and so no object. -/
def providersRoute : CoreProg σ Response := do
  let statuses ← core.providersStatus
  return okResponse (.text (wire.render (statusesOut statuses)))

/-- `capabilities`. -/
def capabilitiesRoute (provider : Option String) : CoreProg σ Response := do
  let caps ← check (core.capabilities provider)
  return okResponse (.json caps.dump)

/-- What a route answers to a credential of the tenant. -/
def GatewayRequest.handler (tenant : String) : GatewayRequest → CoreProg σ Response
  | .memory request => app core wire tenant request
  | .getBinding subject => match wire.segment subject with
    | some subject => (getBindingRoute tenant subject).tryCatch exceptionHandler
    | none => .ret notFound
  | .rebind subject body => match wire.segment subject with
    | some subject => (rebindRoute core wire tenant subject body).tryCatch exceptionHandler
    | none => .ret notFound
  | .providers => (providersRoute core wire).tryCatch exceptionHandler
  | .capabilities provider => (capabilitiesRoute core provider).tryCatch exceptionHandler
  | .healthz => .ret healthy

/-- `create_app(core, api_keys)`, on a request with this `Authorization` header. -/
def createApp (digest : Digest) (auth : ApiKeyAuth) (header : Option String)
    (request : GatewayRequest) : CoreProg σ Response :=
  if ¬ request.Routed wire then .ret notFound
  else if request.isOpen then .ret healthy
  else match auth.authenticate digest header with
    | .error e => .ret (gatewayErrorResponse e)
    | .ok who => request.handler core wire who.tenantId

end

end Memgw
