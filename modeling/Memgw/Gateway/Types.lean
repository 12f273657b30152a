-- SUMMARY: The wire types: scopes, episodes, queries, provider memories and records.
import Memgw.Gateway.Errors
import Mathlib.Data.Rat.Defs

/-!
# Wire types

The scope stays three separate dimensions all the way to the adapter, with the
tenant stamped on by the gateway as a fourth one. The validators of the scope are
part of its type: a subject is never blank, and an agent or a session is either
unset or a stripped, non-empty text, so that "is it set" is the same question as
"is it truthy" wherever the code asks the latter.
-/

namespace Memgw

/-- A date and time, in microseconds. -/
abbrev Time := Int

/-- A similarity score, as the exact number a float stands for. -/
abbrev Score := ℚ

/-- What a float that was measured holds: a number, or NaN where there is none. -/
inductive Measure where
  | number (score : Score)
  | nan
  deriving DecidableEq

/-- `measured >= least`. NaN compares with nothing. -/
def Measure.atLeast (least : Score) : Measure → Bool
  | .number score => least ≤ score
  | .nan => false

inductive Role where
  | user
  | assistant
  | system
  deriving DecidableEq, Repr

inductive SearchMode where
  | semantic
  | keyword
  | hybrid
  | graph
  | temporal
  deriving DecidableEq, Repr

inductive OnUnsupported where
  | reject
  | degrade
  deriving DecidableEq, Repr

def Role.name : Role → String
  | .user => "user"
  | .assistant => "assistant"
  | .system => "system"

def SearchMode.name : SearchMode → String
  | .semantic => "semantic"
  | .keyword => "keyword"
  | .hybrid => "hybrid"
  | .graph => "graph"
  | .temporal => "temporal"

/-! ## Scope -/

/-- What `_subject_must_be_real` lets through. -/
abbrev Subject := { s : String // Text.strip s ≠ "" }

/-- What `_blank_is_none` leaves of a set agent or session. -/
abbrev Dim := { s : String // s ≠ "" ∧ Text.strip s = s }

/-- The runs on fixed inputs are about these subjects. -/
theorem u_1_mustBeReal : Text.strip "u_1" ≠ "" := by decide

theorem u_mustBeReal : Text.strip "u" ≠ "" := by decide

def subjectMustBeReal (v : String) : Option Subject :=
  if h : Text.strip v ≠ "" then some ⟨v, h⟩ else none

def blankIsNone : Option String → Option Dim
  | none => none
  | some v => if h : Text.strip v ≠ "" then some ⟨Text.strip v, h, Text.strip_strip v⟩ else none

/-- Validating a valid dimension again changes nothing, so that a scope rebuilt
    from stored columns is the scope that was stored. -/
@[simp] theorem blankIsNone_val (d : Option Dim) : blankIsNone (d.map Subtype.val) = d := by
  cases d with
  | none => rfl
  | some d =>
    obtain ⟨v, hne, hstrip⟩ := d
    simp [blankIsNone, hstrip, hne]

@[simp] theorem subjectMustBeReal_val (s : Subject) : subjectMustBeReal s.val = some s := by
  simp [subjectMustBeReal, s.2]

/-- A mapping from label names to values. -/
structure Labels where
  items : List (String × String)
  nodup : (items.map Prod.fst).Nodup
  deriving DecidableEq

instance : EmptyCollection Labels := ⟨⟨[], .nil⟩⟩

def Labels.get (l : Labels) (key : String) : Option String := l.items.lookup key

def Labels.isEmpty (l : Labels) : Bool := l.items.isEmpty

/-- `all(row.get(k) == v for k, v in asked.items())`. -/
def Labels.agree (row asked : Labels) : Bool :=
  asked.items.all fun kv => row.get kv.1 == some kv.2

theorem Labels.eq_empty {l : Labels} (h : l.isEmpty = true) : l = {} := by
  obtain ⟨items, hnodup⟩ := l
  obtain rfl := List.isEmpty_iff.mp h
  rfl

@[simp] theorem Labels.agree_of_isEmpty {row asked : Labels} (h : asked.isEmpty = true) :
    row.agree asked = true := by
  simp [agree, List.isEmpty_iff.mp h]

inductive ScopeDim where
  | tenant
  | subject
  | agent
  | session
  deriving DecidableEq, Repr

def ScopeDim.name : ScopeDim → String
  | .tenant => "tenant"
  | .subject => "subject"
  | .agent => "agent"
  | .session => "session"

structure Scope where
  subject : Subject
  agent : Option Dim := none
  session : Option Dim := none
  labels : Labels := {}
  /-- Stamped by the gateway, never read from a payload. It is not validated, so
      an empty text is a tenant that counts as unset. -/
  tenant : Option String := none
  deriving DecidableEq

namespace Scope

/-- The same scope, stamped with the credential's tenant. -/
def under (s : Scope) (tenant : String) : Scope := { s with tenant := some tenant }

def withoutTenant (s : Scope) : Scope := { s with tenant := none }

/-- The tenant when it is truthy. -/
def tenant? (s : Scope) : Option String := s.tenant.filter (· != "")

/-- The dimensions actually set, which a provider filter must cover. -/
def dims (s : Scope) : List (ScopeDim × String) :=
  (s.tenant?.map (ScopeDim.tenant, ·)).toList ++ [(.subject, s.subject.val)] ++
    (s.agent.map (ScopeDim.agent, ·.val)).toList ++
    (s.session.map (ScopeDim.session, ·.val)).toList

@[simp] theorem under_subject (s : Scope) (t : String) : (s.under t).subject = s.subject := rfl

@[simp] theorem under_tenant (s : Scope) (t : String) : (s.under t).tenant = some t := rfl

@[simp] theorem under_tenant? (s : Scope) {t : String} (ht : t ≠ "") :
    (s.under t).tenant? = some t := by
  simp [tenant?, ht]

end Scope

/-! ## Episodes and queries -/

structure Message where
  role : Role
  content : String
  time : Option Time := none
  deriving DecidableEq, Repr

/-- Raw material for an ingest: exactly one of messages and text, and neither of
    them empty. -/
structure Episode where
  messages : Option (List Message) := none
  text : Option String := none
  metadata : Fields := []
  exactlyOneSource : messages.isNone ≠ text.isNone
  messagesNonempty : messages ≠ some []
  textNotBlank : ∀ t ∈ text, Text.strip t ≠ ""
  deriving DecidableEq

theorem Episode.noMessages : (none : Option (List Message)) ≠ some [] := by simp

def Episode.asText (e : Episode) : String :=
  match e.text with
  | some text => text
  | none => "\n".intercalate ((e.messages.getD []).map fun m => s!"{m.role.name}: {m.content}")

/-- The limit of a query that sets none. -/
theorem SearchQuery.defaultLimitPos : 1 ≤ 10 := by decide

structure SearchQuery where
  query : String
  mode : SearchMode := .semantic
  limit : Nat := 10
  minScore : Option Score := none
  asOf : Option Time := none
  onUnsupported : OnUnsupported := .reject
  failOpen : Bool := false
  limitPos : 1 ≤ limit := by decide
  deriving DecidableEq

/-! ## Results -/

/-- What an adapter returns. It speaks native ids only. -/
structure ProviderMemory where
  nativeId : String
  content : String
  createdAt : Option Time := none
  updatedAt : Option Time := none
  validFrom : Option Time := none
  validTo : Option Time := none
  score : Option Measure := none
  raw : Fields := []
  deriving DecidableEq

/-- What the caller receives. -/
structure MemoryRecord where
  id : String
  provider : String
  nativeId : String
  content : String
  scope : Scope
  score : Option Measure := none
  createdAt : Option Time := none
  updatedAt : Option Time := none
  validFrom : Option Time := none
  validTo : Option Time := none
  providerRaw : Fields := []
  deriving DecidableEq

structure HealthStatus where
  ok : Bool
  detail : Option String := none
  deriving DecidableEq, Repr

end Memgw
