-- SUMMARY: Which errors of the gateway arrive in proxy mode as they were raised.
import Memgw.Server.Client

/-!
# Errors over the wire

The response to an error has its code, its message and its details, and the status of
the response is its status; the class is in none of them. The client raises the base
class whatever it was told. So an error arrives as it was raised when its class is the
base class, its status is one that clients take for a failure, and its details are
JSON.
-/

namespace Memgw

variable {σ S : Type} {wire : Wire}

/-! ## Sending an error -/

theorem ErrorClass.code_ne (cls : ErrorClass) : cls.code ≠ "" := by
  cases cls <;> decide

theorem ErrorClass.raised_message {cls : ErrorClass} {message : String} {details : Fields}
    {code : Option String} {status : Option Nat} :
    (cls.raised message details code status).message ≠ "" := by
  simp only [raised]
  split
  · exact cls.code_ne
  · assumption

theorem GatewayError.toBody_isJson {e : GatewayError} : IsJson e.toBody ↔ IsJson e.details := by
  simp [toBody, Value.foreign]

theorem gatewayErrorResponse_json {e : GatewayError} (h : IsJson e.details) :
    gatewayErrorResponse e = { status := e.status, content := .json e.toBody } := by
  rw [gatewayErrorResponse, jsonDumps_ok (e.toBody_isJson.mpr h)]

theorem gatewayErrorResponse_foreign {e : GatewayError} (h : ¬ IsJson e.details) :
    gatewayErrorResponse e = internalServerError := by
  obtain ⟨text, htext⟩ := jsonDumps_error fun hbody => h (e.toBody_isJson.mp hbody)
  rw [gatewayErrorResponse, htext]

/-! ## Receiving it -/

/-- Everything but the class is read back. -/
theorem toError_toBody {e : GatewayError} (hmessage : e.message ≠ "") :
    toError wire { status := e.status, content := .json e.toBody } =
      { e with cls := .gatewayError } := by
  have hpayload : (Content.json e.toBody).error = some
      [("code", .str e.code), ("message", .str e.message), ("details", .obj e.details)] := by
    simp [Content.error, GatewayError.toBody]
  rw [toError, hpayload]
  simp [rebuilt, List.lookup_cons, ErrorClass.raised, hmessage]

/-- What fails on the side of the client is no error of the gateway. -/
def Local {α : Type} (x : Except Exc α) : Prop := ∀ e, x ≠ .error (.gateway e)

theorem local_ok {α : Type} {a : α} : Local (.ok a) := fun _ h => by cases h

theorem local_bind {α β : Type} {x : Except Exc α} {f : α → Except Exc β} (hx : Local x)
    (hf : ∀ a, Local (f a)) : Local (x >>= f) := by
  cases x with
  | ok a => exact hf a
  | error e =>
    intro e' h
    cases h
    exact hx e' rfl

theorem local_validationError {α : Type} {x : Option α} : Local (validationError x) := by
  cases x <;> exact fun _ h => by cases h

theorem local_item {payload : Option Fields} {name : String} : Local (item payload name) := by
  intro e h
  unfold item at h
  split at h
  · cases h
  · split at h <;> cases h

theorem local_spread {payload : Option Fields} : Local (spread payload) := by
  cases payload <;> exact fun _ h => by cases h

/-- A response that is no failure is never read as an error of the gateway. -/
theorem ClientCall.reply_local {c : ClientCall} {payload : Option Fields} :
    Local (c.reply wire payload) := by
  cases c with
  | ingest | upsert | listScope =>
    exact local_bind local_item fun _ => local_bind local_validationError fun _ => local_ok
  | search => exact local_bind local_spread fun _ => local_bind local_validationError fun _ => local_ok
  | get | update =>
    exact local_bind local_spread fun _ => local_bind local_validationError fun _ => local_ok
  | delete => exact local_ok
  | deleteScope =>
    exact local_bind local_item fun _ => local_bind local_validationError fun _ => local_ok

/-- The error that the client raises is the one that was sent exactly when nothing of that
    one is lost on the way. -/
theorem received_iff {c : ClientCall} {e : GatewayError} (hmessage : e.message ≠ "") :
    (payloadOf wire (gatewayErrorResponse e) >>= c.reply wire) = .error (.gateway e) ↔
      e.cls = .gatewayError ∧ 400 ≤ e.status ∧ IsJson e.details := by
  by_cases hjson : IsJson e.details
  · rw [gatewayErrorResponse_json hjson]
    by_cases hstatus : 400 ≤ e.status
    · have hraised : payloadOf wire { status := e.status, content := .json e.toBody } =
          .error (.gateway { e with cls := .gatewayError }) := by
        rw [payloadOf, if_pos hstatus, toError_toBody hmessage]
      rw [hraised]
      constructor
      · intro h
        have h : ({ e with cls := .gatewayError } : GatewayError) = e :=
          Exc.gateway.inj (Except.error.inj h)
        exact ⟨(congrArg GatewayError.cls h).symm, hstatus, hjson⟩
      · rintro ⟨hcls, -, -⟩
        rw [← hcls]
        rfl
    · refine ⟨fun h => ?_, fun h => absurd h.2.1 hstatus⟩
      refine absurd h (local_bind ?_ (fun _ => c.reply_local) e)
      rw [payloadOf, if_neg hstatus]
      split <;> exact local_ok
  · refine ⟨fun h => ?_, fun h => absurd h.2.2 hjson⟩
    -- the details of what arrives are empty, and so JSON
    rw [gatewayErrorResponse_foreign hjson] at h
    have h : toError wire internalServerError = e := Exc.gateway.inj (Except.error.inj h)
    exact absurd (h ▸ isJson_nil) hjson

/-! ## A call in proxy mode -/

/-- Whatever a verb of the core raises while it serves a call in proxy mode, the client
    raises the same error exactly when that is an instance of the base class, with a
    status of failure and with details that JSON can carry. -/
theorem wire_keeps_error_iff (core : MemoryCore σ) (wire : Wire) (tenant : String)
    (h : Handler (@Op.Ans σ) Exc S) (s s' : S) (c : ClientCall) (request : HttpRequest)
    (call : Call) (cls : ErrorClass) (message : String) (details : Fields) (code : Option String)
    (status : Option Nat) (hrequest : c.request wire = .ok request)
    (hcall : request.call wire tenant = some (.ok call))
    (herror : (core.exec call).run h s =
      (.error (.gateway (cls.raised message details code status)), s')) :
    ((proxy core wire tenant c).run h s).1 =
        .error (.gateway (cls.raised message details code status)) ↔
      cls = .gatewayError ∧ 400 ≤ status.getD cls.status ∧ IsJson details := by
  rw [proxy_of_response hrequest (app_of_error hcall herror)]
  exact received_iff ErrorClass.raised_message

/-! ## Two errors -/

def bareGateway : MemoryCore Unit := .serving "mem0" [] id

def bareWorld : World Unit := { catalog := {}, store := () }

def notFoundError : GatewayError := ErrorClass.memoryNotFound.raised "no memory 'mg_1'" [] none none

/-- An unknown id is a `MemoryNotFound` for the core, and a bare `GatewayError` for the
    client. -/
theorem not_found_loses_class :
    ((bareGateway.exec (.get "a" "mg_1")).run (handle .counting) bareWorld).1 =
        .error (.gateway notFoundError) ∧
      ((proxy bareGateway .strict "a" (.get "mg_1")).run (handle .counting) bareWorld).1 =
        .error (.gateway { notFoundError with cls := .gatewayError }) ∧
      ((proxy bareGateway .strict "a" (.get "mg_1")).run (handle .counting) bareWorld).1 ≠
        .error (.gateway notFoundError) := by
  have hproxy : ((proxy bareGateway .strict "a" (.get "mg_1")).run
      (handle .counting) bareWorld).1 =
        .error (.gateway { notFoundError with cls := .gatewayError }) := rfl
  refine ⟨rfl, hproxy, ?_⟩
  rw [hproxy]
  exact fun h => by cases h

/-- A provider that answers an erasure with an error of its own making. -/
def refusingGateway : MemoryCore Unit where
  providers := [("mem0",
    { capabilities := (Adapter.serving (σ := Unit) [] id).capabilities
      call := fun _ _ =>
        (.error (.gateway (ErrorClass.gatewayError.raised "quota" [("left", .int 0)]
          (some "quota_exceeded") (some 429))), ()) })]
  defaultProvider := some "mem0"

def teaScope : Scope := { subject := ⟨"u_1", u_1_mustBeReal⟩ }

theorem quota_error_arrives :
    ((proxy refusingGateway .strict "a" (.deleteScope teaScope)).run
      (handle .counting) bareWorld).1 =
        .error (.gateway (ErrorClass.gatewayError.raised "quota" [("left", .int 0)]
          (some "quota_exceeded") (some 429))) := by
  have hrun : (refusingGateway.exec (.deleteScope "a" teaScope none)).run (handle .counting)
      bareWorld = (.error (.gateway (ErrorClass.gatewayError.raised "quota" [("left", .int 0)]
        (some "quota_exceeded") (some 429))), bareWorld) := rfl
  exact (wire_keeps_error_iff refusingGateway .strict "a" (handle .counting) bareWorld bareWorld
    (.deleteScope teaScope) (.deleteScope [("scope", .obj teaScope.dump)])
    (.deleteScope "a" teaScope none) .gatewayError "quota" [("left", .int 0)]
    (some "quota_exceeded") (some 429) rfl rfl hrun).mpr ⟨rfl, by decide, by decide⟩

end Memgw
