-- SUMMARY: One client, two modes: the verbs of `Memory` over a core of its own, and over a gateway.
import Memgw.Server.Routes

/-!
# The client

In embedded mode a verb calls the core. In proxy mode it writes a body, sends it to
the gateway, and reads the response, or raises what the response says went wrong. The
two are given here over one core, for one tenant: embedded mode has a tenant of its
own, and a gateway takes it from the credential.
-/

namespace Memgw

variable {σ : Type}

/-! ## Verbs -/

/-- The keyword arguments of a search. Its own parameters are not among them. -/
abbrev Kwargs : Type :=
  { fields : Fields // ∀ field ∈ fields, field.1 ∉ ["self", "scope", "query"] }

/-- A verb of the client. Messages that were given as dictionaries have been made into
    messages already, which both modes do first. -/
inductive ClientCall where
  | ingest (scope : Scope) (messages : List Message) (text : Option String) (metadata : Fields)
  | upsert (scope : Scope) (facts : List String)
  | listScope (scope : Scope) (limit : Nat)
  | search (scope : Scope) (query : String) (kwargs : Kwargs)
  | get (gatewayId : String)
  | update (gatewayId content : String)
  | delete (gatewayId : String)
  | deleteScope (scope : Scope)

/-- What a verb of the client returns. -/
inductive ClientReply where
  | records (records : List MemoryRecord)
  | found (result : SearchResult)
  | memory (record : MemoryRecord)
  | none
  | count (n : Nat)
  deriving DecidableEq

/-- `[...] or None`. -/
def normalised (messages : List Message) : Option (List Message) :=
  if messages = [] then none else some messages

def validationError {α : Type} : Option α → Except Exc α
  | some a => .ok a
  | none => .error (.other "ValidationError" "")

theorem validationError_ok_iff {α : Type} {x : Option α} {a : α} :
    validationError x = .ok a ↔ x = some a := by
  cases x <;> simp [validationError]

/-! ## Embedded mode -/

/-- `EMBEDDED_TENANT`. -/
def embeddedTenant : String := "local"

/-- The call of the core that a verb is in embedded mode, if its arguments are accepted. -/
def ClientCall.call (wire : Wire) (tenant : String) : ClientCall → Except Exc Call
  | .ingest scope messages text metadata => do
    let episode ← validationError (Episode.validate (normalised messages) text metadata)
    return .ingest tenant episode scope none
  | .upsert scope facts => .ok (.upsert tenant facts scope none)
  | .listScope scope limit => .ok (.listScope tenant scope limit none)
  | .search scope query kwargs => do
    let query ← validationError (SearchQuery.read wire (("query", .str query) :: kwargs.val))
    return .search tenant query scope none
  | .get gatewayId => .ok (.get tenant gatewayId)
  | .update gatewayId content => .ok (.update tenant gatewayId content)
  | .delete gatewayId => .ok (.delete tenant gatewayId)
  | .deleteScope scope => .ok (.deleteScope tenant scope none)

/-- What the client makes of a reply of its own core. It has no verb that rebinds. -/
def Reply.returned : Reply → ClientReply
  | .wrote result => .records result.results
  | .found result => .found result
  | .listed records => .records records
  | .memory record => .memory record
  | .deleted | .rebound _ => .none
  | .erased removed => .count removed

/-- A verb in embedded mode, over a core that has been started. -/
def embedded (core : MemoryCore σ) (wire : Wire) (tenant : String) (c : ClientCall) :
    CoreProg σ ClientReply := do
  let call ← Prog.ofExcept (c.call wire tenant)
  let reply ← core.exec call
  return reply.returned

/-! ## Proxy mode -/

/-- The request of a verb, with its body encoded. -/
def ClientCall.request (wire : Wire) : ClientCall → Except Exc HttpRequest
  | .ingest scope messages text metadata =>
    .ingest <$> jsonDumps [("scope", .obj scope.dump),
      ("messages", orNull (fun messages => .list (.ofList (messages.map (.obj <| ·.dump wire))))
        (normalised messages)),
      ("text", orNull .str text), ("metadata", .obj metadata)]
  | .upsert scope facts =>
    .upsert <$> jsonDumps [("scope", .obj scope.dump), ("facts", .strs facts)]
  | .listScope scope limit =>
    .listScope <$> jsonDumps [("scope", .obj scope.dump), ("limit", .int limit)]
  | .search scope query kwargs =>
    .search <$> jsonDumps (("scope", .obj scope.dump) :: ("query", .str query) :: kwargs.val)
  | .get gatewayId => .ok (.getMemory gatewayId)
  | .update gatewayId content => .updateMemory gatewayId <$> jsonDumps [("content", .str content)]
  | .delete gatewayId => .ok (.deleteMemory gatewayId)
  | .deleteScope scope => .deleteScope <$> jsonDumps [("scope", .obj scope.dump)]

/-- `response.text`. -/
def Content.asText (wire : Wire) : Content → String
  | .empty => ""
  | .json fields => wire.render (.obj fields)
  | .text s => s

/-- `GatewayError(message, code=..., status=..., details=...)`, of the fields of a payload. -/
def rebuilt (payload : Fields) (status : Nat) : GatewayError :=
  ErrorClass.gatewayError.raised (((payload.lookup "message").bind Value.str?).getD "")
    (((payload.lookup "details").bind Value.fields?).getD [])
    ((payload.lookup "code").bind Value.str?) (some status)

/-- `response.json()["error"]`. -/
def Content.error : Content → Option Fields
  | .json fields => (fields.lookup "error").bind Value.fields?
  | .empty => none
  | .text _ => none

/-- `_to_error`. -/
def toError (wire : Wire) (response : Response) : GatewayError :=
  match response.content.error with
  | some payload => rebuilt payload response.status
  | none =>
    let text := response.content.asText wire
    ErrorClass.gatewayError.raised (if text = "" then "gateway request failed" else text) [] none
      (some response.status)

/-- What `_request` returns: the payload of a response, or nothing. -/
def payloadOf (wire : Wire) (response : Response) : Except Exc (Option Fields) :=
  if 400 ≤ response.status then .error (.gateway (toError wire response))
  else if response.status = 204 then .ok none
  else match response.content with
    | .json fields => .ok (some fields)
    | .empty => .ok none
    | .text _ => .error (.other "JSONDecodeError" "Expecting value: line 1 column 1 (char 0)")

/-- `payload["name"]`. -/
def item (payload : Option Fields) (name : String) : Except Exc Value :=
  match payload with
  | none => .error (.other "TypeError" "'NoneType' object is not subscriptable")
  | some fields => match fields.lookup name with
    | some value => .ok value
    | none => .error (.other "KeyError" (Text.quoted name))

/-- `**payload`. -/
def spread : Option Fields → Except Exc Fields
  | none => .error (.other "TypeError" "argument after ** must be a mapping, not NoneType")
  | some fields => .ok fields

def readRecords (wire : Wire) (payload : Option Fields) : Except Exc ClientReply := do
  let results ← item payload "results"
  let records ← validationError (listOf (MemoryRecord.read wire) results)
  return .records records

def readRecord (wire : Wire) (payload : Option Fields) : Except Exc ClientReply := do
  let fields ← spread payload
  let record ← validationError (MemoryRecord.read wire (.obj fields))
  return .memory record

/-- What a verb makes of the payload of its response. -/
def ClientCall.reply (wire : Wire) (c : ClientCall) (payload : Option Fields) :
    Except Exc ClientReply :=
  match c with
  | .ingest .. | .upsert .. | .listScope .. => readRecords wire payload
  | .search .. => do
    let fields ← spread payload
    let result ← validationError (SearchResult.read wire fields)
    return .found result
  | .get _ | .update .. => readRecord wire payload
  | .delete _ => .ok .none
  | .deleteScope _ => do
    let deleted ← item payload "deleted"
    let n ← validationError (match deleted with | .int n => some n.toNat | _ => none)
    return .count n

/-- A verb in proxy mode, against a gateway for the core. -/
def proxy (core : MemoryCore σ) (wire : Wire) (tenant : String) (c : ClientCall) :
    CoreProg σ ClientReply := do
  let request ← Prog.ofExcept (c.request wire)
  let response ← app core wire tenant request
  Prog.ofExcept (payloadOf wire response >>= c.reply wire)

/-- The client goes by the response alone. -/
theorem proxy_of_response {S : Type} {core : MemoryCore σ} {wire : Wire} {tenant : String}
    {c : ClientCall} {request : HttpRequest} {response : Response}
    {h : Handler (@Op.Ans σ) Exc S} {s s' : S} (hrequest : c.request wire = .ok request)
    (happ : (app core wire tenant request).run h s = (.ok response, s')) :
    (proxy core wire tenant c).run h s = (payloadOf wire response >>= c.reply wire, s') := by
  rw [proxy, hrequest, Prog.ofExcept, Prog.bind_eq, Prog.ret_bind, Prog.bind_eq, Prog.run_bind,
    happ]
  show (Prog.ofExcept _).run h s' = _
  cases payloadOf wire response >>= c.reply wire <;> rfl

end Memgw
