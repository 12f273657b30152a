-- SUMMARY: What a verb acts on: the adapters, the catalog, and the audit trail, with their meaning over one world.
import Memgw.Gateway.Degrade
import Memgw.Gateway.Transactions
import Memgw.Library.Interleaving

/-!
# Effects

A verb is a program of three kinds of action: a transaction of the catalog, a call
of an adapter, and a note on the event that the verb will leave in the audit
trail. This module has the adapter contract, the world that the actions run
against, and `observe`, which turns the notes of a verb into its one event.

An adapter is whatever answers the calls of the contract over some store. Nothing
is assumed of it here: it may fail, answer with anything, and change its store as
it likes.
-/

namespace Memgw

/-! ## The adapter contract -/

/-- The calls an adapter answers. -/
inductive AdapterOp where
  | ingest (episode : Episode) (scope : Scope)
  | upsert (facts : List String) (scope : Scope)
  | update (nativeId content : String)
  | search (query : SearchQuery) (scope : Scope)
  | listScope (scope : Scope) (limit : Nat)
  | get (nativeId : String)
  | delete (nativeId : String)
  | deleteScope (scope : Scope)
  | health

@[reducible] def AdapterOp.Ans : AdapterOp → Type
  | .ingest .. | .upsert .. | .search .. | .listScope .. => List ProviderMemory
  | .update .. => ProviderMemory
  | .get .. => Option ProviderMemory
  | .delete .. => Bool
  | .deleteScope .. => Nat
  | .health => HealthStatus

/-- A configured adapter, over the store `σ` that all adapters of a world share. -/
structure Adapter (σ : Type) where
  capabilities : Capabilities
  /-- Whether it has the optional `list_scope`. -/
  hasListScope : Bool := true
  call : (op : AdapterOp) → σ → Except Exc op.Ans × σ

/-- A provider that serves the same memories whatever happens: it is as eventual as a
    provider can be, and never catches up with a delete. What erasing a scope does to
    its store is given. -/
def Adapter.serving {σ : Type} (memories : List ProviderMemory) (erase : σ → σ) : Adapter σ where
  capabilities :=
    { supportsIngest := true
      supportsUpsert := true
      supportsUpdate := true
      supportsDelete := true
      supportsDeleteByScope := true
      supportsList := true
      searchModes := [.semantic]
      supportsScore := true
      maxLimit := 100
      scopeDims := [.tenant, .subject, .agent, .session]
      supportsLabels := true
      memoryModel := .flatFacts
      dedup := .provider
      supportsExport := false
      supportsImport := true
      consistency := .eventual
      meteredExternally := true
      maxLimitPos := Capabilities.hundredPos }
  call
    | .ingest .., s | .upsert .., s | .search .., s | .listScope .., s => (.ok memories, s)
    | .update nativeId content, s => (.ok { nativeId := nativeId, content := content }, s)
    | .get nativeId, s => (.ok (memories.find? (·.nativeId == nativeId)), s)
    | .delete _, s => (.ok true, s)
    | .deleteScope _, s => (.ok memories.length, erase s)
    | .health, s => (.ok { ok := true }, s)

/-! ## The audit trail -/

inductive LogLevel where
  | info
  | warning
  deriving DecidableEq, Repr

/-- The record that one verb leaves. The request id and the time it took come from
    outside and are left out. -/
structure AuditEvent where
  level : LogLevel
  payload : Fields
  deriving DecidableEq

/-- `_emit`. What the verb noted goes over the fields it started with. -/
def auditEvent (level : LogLevel) (verb tenant : String) (subject : Option String)
    (extra outcome : Fields) : AuditEvent where
  level := level
  payload := setFields (setFields
    [("verb", .str verb), ("tenant", .str tenant), ("subject", (subject.map .str).getD .null)]
    extra) outcome

/-! ## Actions -/

inductive Op (σ : Type) where
  | catalog (op : CatalogOp)
  | adapter (name : String) (adapter : Adapter σ) (op : AdapterOp)
  /-- `event[key] = value`. -/
  | note (key : String) (value : Value)
  | emit (event : AuditEvent)

@[reducible] def Op.Ans {σ : Type} : Op σ → Type
  | .catalog op => op.Ans
  | .adapter _ _ op => op.Ans
  | .note .. | .emit .. => Unit

/-- A program of the gateway. -/
abbrev CoreProg (σ : Type) (α : Type) : Type := Prog (@Op.Ans σ) Exc α

abbrev CoreStep (σ : Type) : Type := Step (@Op.Ans σ) Exc

/-- The state that verbs run against. -/
structure World (σ : Type) where
  catalog : Catalog
  store : σ

def handle {σ : Type} (env : Env) : Handler (@Op.Ans σ) Exc (World σ)
  | .catalog op, w => ((op.exec env w.catalog).1, { w with catalog := (op.exec env w.catalog).2 })
  | .adapter _ a op, w => ((a.call op w.store).1, { w with store := (a.call op w.store).2 })
  | .note .., w => (.ok (), w)
  | .emit .., w => (.ok (), w)

variable {σ α : Type} {env : Env} {w : World σ}

def note (key : String) (value : Value) : CoreProg σ Unit := Prog.perform (Op.note key value)

def transact (op : CatalogOp) : CoreProg σ op.Ans := Prog.perform (Op.catalog op)

/-- A check of the gateway, which may refuse the call. -/
def check (x : Except GatewayError α) : CoreProg σ α := .ofExcept (x.mapError .gateway)

/-- `if b: raise e`. -/
def refuseIf (b : Bool) (e : GatewayError) : CoreProg σ Unit :=
  check (if b then .error e else .ok ())

/-- `observe`: collect what the body notes, and leave one event when it ends. A
    cancellation is no `Exception`, so it passes by without one. -/
def observe (verb tenant : String) (subject : Option String) (body : CoreProg σ α) :
    CoreProg σ α :=
  go [("provider", .null)] body
where
  go (extra : Fields) : CoreProg σ α → CoreProg σ α
    | .ret a =>
      .act (.emit (auditEvent .info verb tenant subject extra [("outcome", .str "ok")]))
        fun _ => .ret a
    | .raise e =>
      if e.isException then
        .act (.emit (auditEvent .warning verb tenant subject extra
          [("outcome", .str "error"), ("error", .str e.typeName),
           ("code", (e.code.map .str).getD .null)])) fun _ => .raise e
      else .raise e
    | .act (.note key value) k => go (setField extra key value) (k (.ok ()))
    | .act (.catalog op) k => .act (.catalog op) fun r => go extra (k r)
    | .act (.adapter name a op) k => .act (.adapter name a op) fun r => go extra (k r)
    | .act (.emit event) k => .act (.emit event) fun r => go extra (k r)

/-! ## Running observed programs -/

/-- Observing a program changes neither its outcome nor the world it leaves. -/
@[simp] theorem run_observe {verb tenant : String} {subject : Option String}
    {body : CoreProg σ α} :
    (observe verb tenant subject body).run (handle env) w = body.run (handle env) w := by
  have hgo : ∀ extra, (observe.go verb tenant subject extra body).run (handle env) w =
      body.run (handle env) w := by
    induction body generalizing w with
    | ret a => intro extra; rfl
    | raise e =>
      intro extra
      simp only [observe.go]
      split <;> rfl
    | act op k ih =>
      intro extra
      cases op with
      | note key value => exact ih (.ok ()) _
      | catalog op => exact ih _ _
      | adapter name a op => exact ih _ _
      | emit event => exact ih _ _
  exact hgo _

@[simp] theorem wp_observe {verb tenant : String} {subject : Option String} {body : CoreProg σ α}
    {Q : Except Exc α → World σ → Prop} :
    (observe verb tenant subject body).wp (handle env) Q w ↔ body.wp (handle env) Q w := by
  simp only [Prog.wp, run_observe]

@[simp] theorem wp_note {key : String} {value : Value} {Q : Except Exc Unit → World σ → Prop} :
    (note key value).wp (handle env) Q w ↔ Q (.ok ()) w := Iff.rfl

theorem wp_transact {op : CatalogOp} {Q : Except Exc op.Ans → World σ → Prop} :
    (transact op).wp (handle env) Q w ↔
      Q (op.exec env w.catalog).1 { w with catalog := (op.exec env w.catalog).2 } :=
  Prog.wp_perform

/-- A check lets the program go on with its value, or ends it. -/
theorem wp_check {x : Except GatewayError α} {Q : Except Exc α → World σ → Prop}
    (hok : ∀ a, x = .ok a → Q (.ok a) w)
    (herr : ∀ e, x = .error e → Q (.error (.gateway e)) w) : (check x).wp (handle env) Q w := by
  cases x with
  | ok a => exact hok a rfl
  | error e => exact herr e rfl

theorem wp_refuseIf {b : Bool} {e : GatewayError} {Q : Except Exc Unit → World σ → Prop}
    (hok : b = false → Q (.ok ()) w) (herr : b = true → Q (.error (.gateway e)) w) :
    (refuseIf b e).wp (handle env) Q w := by
  cases b with
  | false => exact hok rfl
  | true => exact herr rfl

/-- The actions that reach the catalog or an adapter. -/
def Op.isData : Op σ → Bool
  | .catalog _ | .adapter .. => true
  | .note .. | .emit .. => false

@[simp] theorem Op.isData_catalog {op : CatalogOp} : (Op.catalog op : Op σ).isData = true := rfl
@[simp] theorem Op.isData_adapter {name : String} {a : Adapter σ} {op : AdapterOp} :
    (Op.adapter name a op).isData = true := rfl
@[simp] theorem Op.isData_note {key : String} {value : Value} :
    (Op.note key value : Op σ).isData = false := rfl
@[simp] theorem Op.isData_emit {event : AuditEvent} : (Op.emit event : Op σ).isData = false := rfl

/-- The data steps among the steps of a program. -/
def dataSteps (steps : List (CoreStep σ)) : List (CoreStep σ) :=
  steps.filter fun st => st.1.isData

@[simp] theorem dataSteps_cons {st : CoreStep σ}
    {steps : List (CoreStep σ)} :
    dataSteps (st :: steps) = if st.1.isData then st :: dataSteps steps else dataSteps steps :=
  List.filter_cons

@[simp] theorem dataSteps_append {steps steps' : List (CoreStep σ)} :
    dataSteps (steps ++ steps') = dataSteps steps ++ dataSteps steps' :=
  List.filter_append ..

/-- A note that was taken; other steps are free to fail. -/
def NoteTaken : CoreStep σ → Prop
  | ⟨.note .., r⟩ => r = .ok ()
  | _ => True

/-- The events that the steps of a program emit. -/
def events (steps : List (CoreStep σ)) : List AuditEvent :=
  steps.filterMap fun st => match st.1 with
    | .emit event => some event
    | _ => none

/-- The fields of an event, after the notes among some steps. -/
def notedFields (extra : Fields) (steps : List (CoreStep σ)) : Fields :=
  steps.foldl (fun extra st => match st.1 with
    | .note key value => setField extra key value
    | _ => extra) extra

/-- What `observe` emits at the end of its body. -/
def closingEvents (verb tenant : String) (subject : Option String) (extra : Fields) :
    Except Exc α → List AuditEvent
  | .ok _ => [auditEvent .info verb tenant subject extra [("outcome", .str "ok")]]
  | .error e =>
    if e.isException then
      [auditEvent .warning verb tenant subject extra
        [("outcome", .str "error"), ("error", .str e.typeName),
         ("code", (e.code.map .str).getD .null)]]
    else []

/-- Observing a program leaves what it does to the catalog and the adapters as it
    is, step by step. Its notes are taken by the observer, and so never fail, and end up
    in the event that the observer emits. -/
theorem ends_observe_events {verb tenant : String} {subject : Option String}
    {body : CoreProg σ α} {steps : List (CoreStep σ)} {out : Except Exc α}
    (h : (observe verb tenant subject body).Ends steps out) :
    ∃ inner, body.Ends inner out ∧ dataSteps steps = dataSteps inner ∧
      (∀ st ∈ inner, NoteTaken st) ∧
      events steps = events inner ++
        closingEvents verb tenant subject (notedFields [("provider", .null)] inner) out := by
  have hgo : ∀ extra, (observe.go verb tenant subject extra body).Ends steps out →
      ∃ inner, body.Ends inner out ∧ dataSteps steps = dataSteps inner ∧
        (∀ st ∈ inner, NoteTaken st) ∧
        events steps = events inner ++
          closingEvents verb tenant subject (notedFields extra inner) out := by
    clear h
    induction body generalizing steps with
    | ret a =>
      intro extra h
      obtain ⟨r, rest, rfl, hrest⟩ := Prog.ends_act.mp h
      obtain ⟨rfl, rfl⟩ := Prog.ends_ret.mp hrest
      exact ⟨[], .ret, rfl, by simp, rfl⟩
    | raise e =>
      intro extra h
      simp only [observe.go] at h
      split at h
      · rename_i hexc
        obtain ⟨r, rest, rfl, hrest⟩ := Prog.ends_act.mp h
        obtain ⟨rfl, rfl⟩ := Prog.ends_raise.mp hrest
        exact ⟨[], .raise, rfl, by simp, by simp [events, closingEvents, notedFields, hexc]⟩
      · rename_i hexc
        obtain ⟨rfl, rfl⟩ := Prog.ends_raise.mp h
        exact ⟨[], .raise, rfl, by simp, by simp [events, closingEvents, hexc]⟩
    | act op k ih =>
      intro extra h
      cases op with
      | note key value =>
        obtain ⟨inner, hinner, hsteps, htaken, hevents⟩ := ih (.ok ()) _ h
        exact ⟨_, .act hinner, by simpa using hsteps, List.forall_mem_cons.mpr ⟨rfl, htaken⟩,
          hevents⟩
      | catalog op =>
        obtain ⟨r, rest, rfl, hrest⟩ := Prog.ends_act.mp h
        obtain ⟨inner, hinner, hsteps, htaken, hevents⟩ := ih r _ hrest
        exact ⟨_, .act hinner, by simpa using hsteps,
          List.forall_mem_cons.mpr ⟨trivial, htaken⟩, hevents⟩
      | adapter name a op =>
        obtain ⟨r, rest, rfl, hrest⟩ := Prog.ends_act.mp h
        obtain ⟨inner, hinner, hsteps, htaken, hevents⟩ := ih r _ hrest
        exact ⟨_, .act hinner, by simpa using hsteps,
          List.forall_mem_cons.mpr ⟨trivial, htaken⟩, hevents⟩
      | emit event =>
        obtain ⟨r, rest, rfl, hrest⟩ := Prog.ends_act.mp h
        obtain ⟨inner, hinner, hsteps, htaken, hevents⟩ := ih r _ hrest
        exact ⟨_, .act hinner, by simpa using hsteps,
          List.forall_mem_cons.mpr ⟨trivial, htaken⟩, congrArg (event :: ·) hevents⟩
  exact hgo _ h

theorem ends_observe {verb tenant : String} {subject : Option String} {body : CoreProg σ α}
    {steps : List (CoreStep σ)} {out : Except Exc α}
    (h : (observe verb tenant subject body).Ends steps out) :
    ∃ inner, body.Ends inner out ∧ dataSteps steps = dataSteps inner ∧
      ∀ st ∈ inner, NoteTaken st := by
  obtain ⟨inner, hinner, hsteps, htaken, -⟩ := ends_observe_events h
  exact ⟨inner, hinner, hsteps, htaken⟩

/-- An observed program performs the actions of its body, and leaves an event. -/
theorem within_observe {A : Op σ → Prop} {verb tenant : String} {subject : Option String}
    {body : CoreProg σ α} (hemit : ∀ event, A (.emit event)) (h : body.Within A) :
    (observe verb tenant subject body).Within A := by
  have hgo : ∀ extra, (observe.go verb tenant subject extra body).Within A := by
    induction body with
    | ret a => exact fun extra => ⟨hemit _, fun _ => trivial⟩
    | raise e =>
      intro extra
      unfold observe.go
      split
      · exact ⟨hemit _, fun _ => trivial⟩
      · trivial
    | act op k ih =>
      intro extra
      cases op with
      | note key value => exact ih (.ok ()) (h.2 _) _
      | catalog op => exact ⟨h.1, fun r => ih r (h.2 r) _⟩
      | adapter name a op => exact ⟨h.1, fun r => ih r (h.2 r) _⟩
      | emit event => exact ⟨h.1, fun r => ih r (h.2 r) _⟩
  exact hgo _

end Memgw
