-- SUMMARY: The gateway's error vocabulary and the exceptions a program of the gateway can raise.
import Memgw.Library.Text
import Mathlib.Data.Rat.Defs

/-!
# Errors

Every failure a caller can act on is a `GatewayError`: a class with its own code
and status, which an instance may narrow, a message, and details. Everything
else that can be raised while a verb runs is an `Exc` as well: a constraint of
the catalog database, whatever a provider or a driver throws, and the
cancellation of the task, which is not an ordinary exception and passes through
handlers that catch those.
-/

namespace Memgw

mutual

/-- A value of a dictionary that the gateway passes on: details, metadata, a raw payload.
    JSON has all of these but times and `other`, which stands for any other object. -/
inductive Value where
  | null
  | bool (b : Bool)
  | int (n : Int)
  | float (x : ℚ)
  | str (s : String)
  | list (values : Values)
  | dict (entries : Entries)
  | time (t : Int)
  | other (type text : String)
  deriving DecidableEq, Repr

inductive Values where
  | nil
  | cons (value : Value) (values : Values)
  deriving DecidableEq, Repr

inductive Entries where
  | nil
  | cons (key : String) (value : Value) (entries : Entries)
  deriving DecidableEq, Repr

end

def Values.ofList : List Value → Values
  | [] => .nil
  | value :: values => .cons value (ofList values)

/-- A list of texts. -/
def Value.strs (ss : List String) : Value := .list (.ofList (ss.map .str))

/-- A JSON object. -/
abbrev Fields := List (String × Value)

/-- `fields[key] = value`: an old entry keeps its place, a new one goes last. -/
def setField {α : Type} : List (String × α) → String → α → List (String × α)
  | [], key, value => [(key, value)]
  | (k, v) :: rest, key, value =>
    if k = key then (key, value) :: rest else (k, v) :: setField rest key value

theorem lookup_setField {α : Type} {fields : List (String × α)} {key k : String} {value : α} :
    (setField fields key value).lookup k = if k = key then some value else fields.lookup k := by
  induction fields with
  | nil =>
    simp only [setField, List.lookup_cons, List.lookup_nil]
    by_cases hk : k = key
    · simp [hk]
    · simp [hk, beq_eq_false_iff_ne.mpr hk]
  | cons kv fields ih =>
    obtain ⟨k', v⟩ := kv
    simp only [setField]
    split
    · rename_i hkey
      subst hkey
      by_cases hk : k = k'
      · simp [hk]
      · simp [List.lookup_cons, hk, beq_eq_false_iff_ne.mpr hk]
    · rename_i hkey
      by_cases hk : k = k'
      · subst hk
        simp [hkey]
      · simp [List.lookup_cons, beq_eq_false_iff_ne.mpr hk, ih]

/-- An old key keeps its place, and a new one goes last. -/
theorem keys_setField {α : Type} {fields : List (String × α)} {key : String} {value : α} :
    (setField fields key value).map Prod.fst =
      if key ∈ fields.map Prod.fst then fields.map Prod.fst else fields.map Prod.fst ++ [key] := by
  induction fields with
  | nil => rfl
  | cons kv fields ih =>
    obtain ⟨k, v⟩ := kv
    simp only [setField]
    by_cases hk : k = key
    · simp [hk]
    · have hne : key ≠ k := fun h => hk h.symm
      simp only [hk, if_false, List.map_cons, ih, List.mem_cons, hne, false_or]
      split <;> simp

theorem nodup_setField {α : Type} {fields : List (String × α)} {key : String} {value : α}
    (h : (fields.map Prod.fst).Nodup) : ((setField fields key value).map Prod.fst).Nodup := by
  rw [keys_setField]
  split
  · exact h
  · rename_i hkey
    refine List.nodup_append.mpr ⟨h, by simp, fun k hk k' hk' hkk => ?_⟩
    obtain rfl := List.mem_singleton.mp hk'
    exact hkey (hkk ▸ hk)

/-- `{**fields, **news}`. -/
def setFields (fields news : Fields) : Fields :=
  news.foldl (fun fields kv => setField fields kv.1 kv.2) fields

inductive ErrorClass where
  | gatewayError
  | invalidRequest
  | unauthenticated
  | tenantMismatch
  | memoryNotFound
  | providerMismatch
  | unsupportedCapability
  | providerError
  | notImplementedYet
  | providerUnhealthy
  deriving DecidableEq, Repr

def ErrorClass.code : ErrorClass → String
  | .gatewayError => "internal_error"
  | .invalidRequest => "invalid_request"
  | .unauthenticated => "unauthenticated"
  | .tenantMismatch => "tenant_mismatch"
  | .memoryNotFound => "memory_not_found"
  | .providerMismatch => "provider_mismatch"
  | .unsupportedCapability => "unsupported_capability"
  | .providerError => "provider_error"
  | .notImplementedYet => "not_implemented"
  | .providerUnhealthy => "provider_unhealthy"

/-- The name of the class in the source. -/
def ErrorClass.name : ErrorClass → String
  | .gatewayError => "GatewayError"
  | .invalidRequest => "InvalidRequest"
  | .unauthenticated => "Unauthenticated"
  | .tenantMismatch => "TenantMismatch"
  | .memoryNotFound => "MemoryNotFound"
  | .providerMismatch => "ProviderMismatch"
  | .unsupportedCapability => "UnsupportedCapability"
  | .providerError => "ProviderError"
  | .notImplementedYet => "NotImplementedYet"
  | .providerUnhealthy => "ProviderUnhealthy"

def ErrorClass.status : ErrorClass → Nat
  | .gatewayError => 500
  | .invalidRequest => 400
  | .unauthenticated => 401
  | .tenantMismatch => 403
  | .memoryNotFound => 404
  | .providerMismatch => 409
  | .unsupportedCapability => 422
  | .providerError => 424
  | .notImplementedYet => 501
  | .providerUnhealthy => 503

structure GatewayError where
  cls : ErrorClass
  code : String
  status : Nat
  message : String
  details : Fields
  deriving DecidableEq, Repr

/-- `cls(message, details=details)`. An empty message falls back to the code of
    the class. -/
def ErrorClass.error (cls : ErrorClass) (message : String) (details : Fields) : GatewayError where
  cls := cls
  code := cls.code
  status := cls.status
  message := if message = "" then cls.code else message
  details := details

/-- `cls(message, details=details, code=code, status=status)`, where an instance may
    narrow the code and the status of its class. -/
def ErrorClass.raised (cls : ErrorClass) (message : String) (details : Fields)
    (code : Option String) (status : Option Nat) : GatewayError where
  cls := cls
  code := code.getD cls.code
  status := status.getD cls.status
  message := if message = "" then cls.code else message
  details := details

/-- The same error with a narrower code. -/
def GatewayError.withCode (e : GatewayError) (code : String) : GatewayError :=
  { e with code := code }

/-- What can be raised while a program of the gateway runs. -/
inductive Exc where
  | gateway (e : GatewayError)
  /-- `IntegrityError`: a uniqueness constraint of the catalog database. -/
  | integrity (text : String)
  /-- Any other exception of a provider, a driver or a library. -/
  | other (name text : String)
  /-- `CancelledError`, which `except Exception` does not catch. -/
  | cancelled
  deriving DecidableEq, Repr

/-- `isinstance(exc, Exception)`. -/
def Exc.isException : Exc → Bool
  | .cancelled => false
  | _ => true

/-- `str(exc)`. -/
def Exc.str : Exc → String
  | .gateway e => e.message
  | .integrity text => text
  | .other _ text => text
  | .cancelled => ""

/-- `type(exc).__name__`. -/
def Exc.typeName : Exc → String
  | .gateway e => e.cls.name
  | .integrity _ => "IntegrityError"
  | .other name _ => name
  | .cancelled => "CancelledError"

/-- `getattr(exc, "code", None)`, of which only the gateway's own errors are
    known to have one. -/
def Exc.code : Exc → Option String
  | .gateway e => some e.code
  | _ => none

end Memgw
