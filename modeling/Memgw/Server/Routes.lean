-- SUMMARY: The routes: what a request makes the gateway ask of its core, and the response that it gets.
import Memgw.Server.Schemas
import Memgw.Library.Results

/-!
# The routes

A route validates its body, checks the tenant that the body asserts, and makes one
call of the core for the tenant of the credential. The routes for a listing and for an
erasure then look up where the subject is bound, to name the provider in their
answer. One handler turns every error of the gateway into a response; anything else
that is raised is a plain 500.
-/

namespace Memgw

variable {σ : Type}

/-! ## Requests -/

/-- A request for one of the routes, with its body and the text put in its path. -/
inductive HttpRequest where
  /-- `POST /v1/memories:ingest` -/
  | ingest (body : Fields)
  /-- `POST /v1/memories:upsert` -/
  | upsert (body : Fields)
  /-- `POST /v1/memories:list` -/
  | listScope (body : Fields)
  /-- `POST /v1/memories:search` -/
  | search (body : Fields)
  /-- `POST /v1/memories:delete` -/
  | deleteScope (body : Fields)
  /-- `GET /v1/memories/{gateway_id}` -/
  | getMemory (gatewayId : String)
  /-- `PATCH /v1/memories/{gateway_id}` -/
  | updateMemory (gatewayId : String) (body : Fields)
  /-- `DELETE /v1/memories/{gateway_id}` -/
  | deleteMemory (gatewayId : String)

inductive Content where
  | empty
  | json (fields : Fields)
  | text (text : String)

structure Response where
  status : Nat
  content : Content

/-! ## What a request asks of the core -/

/-- `_as_invalid_request`. What a validator keeps for itself is left out. -/
def asInvalidRequest (errors : List Fields) : GatewayError :=
  ErrorClass.invalidRequest.error "request body is not valid"
    [("errors", .list (.ofList (errors.map fun error =>
      .obj (error.filter fun field => field.1 ≠ "ctx" ∧ field.1 ≠ "url"))))]

def validated {α : Type} (wire : Wire) (fields : Fields) : Option α → Except GatewayError α
  | some body => .ok body
  | none => .error (asInvalidRequest (wire.errors fields))

def assertNoWiderTenant (tenant : String) : Option String → Except GatewayError Unit
  | none => .ok ()
  | some asserted =>
    if asserted ≠ tenant then
      .error <| ErrorClass.tenantMismatch.error
        "payload asserts a tenant other than the credential's" [("asserted", .str asserted)]
    else .ok ()

namespace Routes

variable (wire : Wire) (tenant : String)

def ingest (fields : Fields) : Except GatewayError Call := do
  let body ← validated wire fields (IngestIn.read wire fields)
  assertNoWiderTenant tenant body.tenant
  let episode ← validated wire fields (Episode.validate body.messages body.text body.metadata)
  return .ingest tenant episode body.scope body.provider

def upsert (fields : Fields) : Except GatewayError Call := do
  let body ← validated wire fields (UpsertIn.read fields)
  assertNoWiderTenant tenant body.tenant
  return .upsert tenant body.facts body.scope body.provider

def listScope (fields : Fields) : Except GatewayError Call := do
  let body ← validated wire fields (ListIn.read wire fields)
  assertNoWiderTenant tenant body.tenant
  return .listScope tenant body.scope body.limit body.provider

def search (fields : Fields) : Except GatewayError Call := do
  let body ← validated wire fields (SearchIn.read wire fields)
  assertNoWiderTenant tenant body.tenant
  let query ← validated wire fields (SearchQuery.read wire body.query.dump)
  return .search tenant query body.scope body.provider

def deleteScope (fields : Fields) : Except GatewayError Call := do
  let body ← validated wire fields (Scoped.read fields)
  assertNoWiderTenant tenant body.tenant
  return .deleteScope tenant body.scope body.provider

def updateMemory (gatewayId : String) (fields : Fields) : Except GatewayError Call := do
  let body ← validated wire fields (UpdateIn.read fields)
  assertNoWiderTenant tenant body.tenant
  return .update tenant gatewayId body.content

end Routes

section

variable {wire : Wire} {tenant : String} {fields : Fields} {call : Call}

theorem validated_ok_iff {α : Type} {x : Option α} {a : α} :
    validated wire fields x = .ok a ↔ x = some a := by
  cases x <;> simp [validated]

theorem Routes.ingest_ok_iff : Routes.ingest wire tenant fields = .ok call ↔
    ∃ body episode, IngestIn.read wire fields = some body ∧
      assertNoWiderTenant tenant body.tenant = .ok () ∧
      Episode.validate body.messages body.text body.metadata = some episode ∧
      .ingest tenant episode body.scope body.provider = call := by
  simp [ingest, bind_ok_iff, map_ok_iff, validated_ok_iff, Unique.exists_iff]

theorem Routes.upsert_ok_iff : Routes.upsert wire tenant fields = .ok call ↔
    ∃ body, UpsertIn.read fields = some body ∧ assertNoWiderTenant tenant body.tenant = .ok () ∧
      .upsert tenant body.facts body.scope body.provider = call := by
  simp [upsert, bind_ok_iff, map_ok_iff, validated_ok_iff, Unique.exists_iff]

theorem Routes.listScope_ok_iff : Routes.listScope wire tenant fields = .ok call ↔
    ∃ body, ListIn.read wire fields = some body ∧
      assertNoWiderTenant tenant body.tenant = .ok () ∧
      .listScope tenant body.scope body.limit body.provider = call := by
  simp [listScope, bind_ok_iff, map_ok_iff, validated_ok_iff, Unique.exists_iff]

/-- The query that a search makes is the one that its body was validated to. -/
theorem Routes.search_ok_iff : Routes.search wire tenant fields = .ok call ↔
    ∃ body, SearchIn.read wire fields = some body ∧
      assertNoWiderTenant tenant body.tenant = .ok () ∧
      .search tenant body.query body.scope body.provider = call := by
  simp [search, bind_ok_iff, map_ok_iff, validated_ok_iff, SearchQuery.read_dump, Unique.exists_iff]

theorem Routes.deleteScope_ok_iff : Routes.deleteScope wire tenant fields = .ok call ↔
    ∃ body, Scoped.read fields = some body ∧ assertNoWiderTenant tenant body.tenant = .ok () ∧
      .deleteScope tenant body.scope body.provider = call := by
  simp [deleteScope, bind_ok_iff, map_ok_iff, validated_ok_iff, Unique.exists_iff]

theorem Routes.updateMemory_ok_iff {gatewayId : String} :
    Routes.updateMemory wire tenant gatewayId fields = .ok call ↔
      ∃ body, UpdateIn.read fields = some body ∧
        assertNoWiderTenant tenant body.tenant = .ok () ∧
        .update tenant gatewayId body.content = call := by
  simp [updateMemory, bind_ok_iff, map_ok_iff, validated_ok_iff, Unique.exists_iff]

end

/-- The call that a request makes the core serve, or the error it gets without one. A
    path that no route matches has neither. -/
def HttpRequest.call (wire : Wire) (tenant : String) :
    HttpRequest → Option (Except GatewayError Call)
  | .ingest body => some (Routes.ingest wire tenant body)
  | .upsert body => some (Routes.upsert wire tenant body)
  | .listScope body => some (Routes.listScope wire tenant body)
  | .search body => some (Routes.search wire tenant body)
  | .deleteScope body => some (Routes.deleteScope wire tenant body)
  | .getMemory id => (wire.segment id).map fun gatewayId => .ok (.get tenant gatewayId)
  | .updateMemory id body =>
    (wire.segment id).map fun gatewayId => Routes.updateMemory wire tenant gatewayId body
  | .deleteMemory id => (wire.segment id).map fun gatewayId => .ok (.delete tenant gatewayId)

/-! ## What it gets for an answer -/

structure ListOut where
  results : List MemoryRecord
  provider : String
  deriving DecidableEq

structure DeleteScopeOut where
  deleted : Nat
  provider : String
  deriving DecidableEq

/-- What a route returns. -/
inductive Out where
  | wrote (out : WriteResult)
  | found (out : SearchResult)
  | listed (out : ListOut)
  | memory (record : MemoryRecord)
  | deleted
  | erased (out : DeleteScopeOut)
  | rebound (result : RebindResult)
  deriving DecidableEq

namespace MemoryCore

variable (core : MemoryCore σ)

/-- The provider that a route names, for a subject with this binding. -/
def named (bound : Option String) : String :=
  ((bound.filter (· != "")).or core.defaultProvider).getD ""

def namedProvider (tenant : String) (scope : Scope) : CoreProg σ String := do
  let provider ← transact (.getBinding tenant scope.subject)
  return core.named provider

/-- What a route makes of the reply of the core. -/
def out : Call → Reply → CoreProg σ Out
  | .listScope tenant scope _ _, .listed records => do
    let provider ← core.namedProvider tenant scope
    return .listed { results := records, provider := provider }
  | .deleteScope tenant scope _, .erased deleted => do
    let provider ← core.namedProvider tenant scope
    return .erased { deleted := deleted, provider := provider }
  | _, .wrote result => .ret (.wrote result)
  | _, .found result => .ret (.found result)
  | _, .memory record => .ret (.memory record)
  | _, .rebound result => .ret (.rebound result)
  -- a delete; no other verb lists records or counts what it erased
  | _, .deleted | _, .listed _ | _, .erased _ => .ret .deleted

/-- A route, once it knows the call to make. -/
def route (call : Call) : CoreProg σ Out := do
  let reply ← core.exec call
  core.out call reply

end MemoryCore

def Out.content (wire : Wire) : Out → Option Content
  | .wrote out => (dumpRecords wire out.results).map fun results =>
    .json [("results", results), ("provider", .str out.provider)]
  | .found out => (out.dump wire).map .json
  | .listed out => (dumpRecords wire out.results).map fun results =>
    .json [("results", results), ("provider", .str out.provider)]
  | .memory record => (record.dump wire).map .json
  | .erased out => some (.json [("deleted", .int out.deleted), ("provider", .str out.provider)])
  | .rebound out => some (.json [("provider", .str out.provider),
    ("orphaned_at", orNull .str out.orphanedAt), ("orphaned_count", .int out.orphanedCount)])
  | .deleted => some .empty

/-! ## The app -/

/-- What the server answers when a request raised something it does not handle. -/
def internalServerError : Response where
  status := 500
  content := .text "Internal Server Error"

def notFound : Response where
  status := 404
  content := .json [("detail", .str "Not Found")]

def Out.response (wire : Wire) (out : Out) : Response :=
  match out.content wire with
  | some content => { status := if out = .deleted then 204 else 200, content := content }
  | none => internalServerError

def GatewayError.toBody (e : GatewayError) : Fields :=
  [("error", .obj [("code", .str e.code), ("message", .str e.message),
    ("details", .obj e.details)])]

/-- `_gateway_error`. A body that cannot be encoded is an error of its own. -/
def gatewayErrorResponse (e : GatewayError) : Response :=
  match jsonDumps e.toBody with
  | .ok body => { status := e.status, content := .json body }
  | .error _ => internalServerError

def exceptionHandler : Exc → CoreProg σ Response
  | .gateway e => .ret (gatewayErrorResponse e)
  | .cancelled => .raise .cancelled
  | .integrity _ | .other _ _ => .ret internalServerError

/-- `create_app(core)`, on a request whose credential has the tenant. -/
def app (core : MemoryCore σ) (wire : Wire) (tenant : String) (request : HttpRequest) :
    CoreProg σ Response :=
  match request.call wire tenant with
  | none => .ret notFound
  | some call => Prog.tryCatch (do
    let call ← check call
    let out ← core.route call
    return out.response wire) exceptionHandler

/-! ## Runs -/

section

variable {S : Type} {core : MemoryCore σ} {wire : Wire} {tenant : String} {request : HttpRequest}
  {call : Call} {h : Handler (@Op.Ans σ) Exc S} {s s' : S}

theorem app_run (hcall : request.call wire tenant = some (.ok call)) :
    (app core wire tenant request).run h s =
      (((core.route call).bind fun out => .ret (out.response wire)).tryCatch
        exceptionHandler).run h s := by
  rw [app, hcall]
  rfl

/-- An answer of the route becomes the response. -/
theorem app_of_out {out : Out} (hcall : request.call wire tenant = some (.ok call))
    (hroute : (core.route call).run h s = (.ok out, s')) :
    (app core wire tenant request).run h s = (.ok (out.response wire), s') := by
  rw [app_run hcall, Prog.run_tryCatch, Prog.run_bind, hroute]
  rfl

/-- And so does an error of the gateway. -/
theorem app_of_error {e : GatewayError} (hcall : request.call wire tenant = some (.ok call))
    (hexec : (core.exec call).run h s = (.error (.gateway e), s')) :
    (app core wire tenant request).run h s = (.ok (gatewayErrorResponse e), s') := by
  have hroute : (core.route call).run h s = (.error (.gateway e), s') := by
    rw [MemoryCore.route, Prog.bind_eq, Prog.run_bind, hexec]
  rw [app_run hcall, Prog.run_tryCatch, Prog.run_bind, hroute]
  rfl

end

end Memgw
