-- SUMMARY: What a verb asks of its adapter: nothing when a check refuses it, and one data call otherwise.
import Memgw.Library.Alone
import Memgw.Gateway.Traces
import Memgw.Gateway.Runs

/-!
# The adapter calls of a verb

`Did` says how a verb ends. This module says what the adapters saw of it. Every verb
makes its checks first, and `Refuses` lists them; one that passes makes a single data
call, and after a call that raised at most a question after the provider's health.
-/

namespace Memgw

variable {σ : Type} {env : Env} {w : World σ}

/-! ## The checks -/

/-- The scope of a verb that resolves a provider, and the provider that its caller
    asserts. -/
def Call.scoped : Call → Option (Scope × Option String)
  | .ingest _ _ scope asserted | .upsert _ _ scope asserted | .search _ _ scope asserted
  | .listScope _ scope _ asserted | .deleteScope _ scope asserted => some (scope, asserted)
  | .update .. | .get .. | .delete .. | .rebind .. => none

/-- The gateway id that a verb is given. -/
def Call.names : Call → Option String
  | .update _ gatewayId _ | .get _ gatewayId | .delete _ gatewayId => some gatewayId
  | .ingest .. | .upsert .. | .search .. | .listScope .. | .deleteScope .. | .rebind .. => none

/-- The adapter has the capability that the verb needs. -/
def Call.supported (a : Adapter σ) : Call → Bool
  | .ingest .. => a.capabilities.supportsIngest
  | .upsert .. => a.capabilities.supportsUpsert
  | .update .. => a.capabilities.supportsUpdate
  | .listScope .. => a.hasListScope && a.capabilities.supportsList
  | .delete .. => a.capabilities.supportsDelete
  | .deleteScope .. => a.capabilities.supportsDeleteByScope
  | .search .. | .get .. | .rebind .. => true

/-- One of the gateway's own checks refuses the verb. -/
inductive MemoryCore.Refuses (core : MemoryCore σ) (c : Catalog) : Call → Prop where
  | noFacts {t : String} {scope : Scope} {asserted : Option String} :
      Refuses core c (.upsert t [] scope asserted)
  /-- No provider is resolved, or another one than was asserted. -/
  | unresolved {call : Call} {scope : Scope} {asserted : Option String} {e : GatewayError}
      (hscope : call.scoped = some (scope, asserted))
      (h : chooseProvider scope.subject (getBinding call.tenant scope.subject c)
        core.defaultProvider asserted = .error e) : Refuses core c call
  | unconfigured {call : Call} {scope : Scope} {asserted : Option String} {name : String}
      {e : GatewayError} (hscope : call.scoped = some (scope, asserted))
      (hname : chooseProvider scope.subject (getBinding call.tenant scope.subject c)
        core.defaultProvider asserted = .ok name)
      (h : core.adapter name = .error e) : Refuses core c call
  /-- A dimension of the scope, or its labels, that the provider does not have. -/
  | undeclared {call : Call} {scope : Scope} {asserted : Option String} {name : String}
      {a : Adapter σ} {e : GatewayError} (hscope : call.scoped = some (scope, asserted))
      (hname : chooseProvider scope.subject (getBinding call.tenant scope.subject c)
        core.defaultProvider asserted = .ok name) (ha : core.adapter name = .ok a)
      (h : assertScopeSupported (scope.under call.tenant) a.capabilities = .error e) :
      Refuses core c call
  | incapable {call : Call} {scope : Scope} {asserted : Option String} {name : String}
      {a : Adapter σ} (hscope : call.scoped = some (scope, asserted))
      (hp : core.Prepares c call.tenant scope asserted name a)
      (h : call.supported a = false) : Refuses core c call
  | noAsOf {t : String} {query : SearchQuery} {scope : Scope} {asserted : Option String}
      {name : String} {a : Adapter σ} (hp : core.Prepares c t scope asserted name a)
      (hasOf : query.asOf.isSome = true) (h : .temporal ∉ a.capabilities.searchModes) :
      Refuses core c (.search t query scope asserted)
  | noMode {t : String} {query : SearchQuery} {scope : Scope} {asserted : Option String}
      {name : String} {a : Adapter σ} {e : GatewayError}
      (hp : core.Prepares c t scope asserted name a)
      (h : resolveMode query.mode a.capabilities query.onUnsupported = .error e) :
      Refuses core c (.search t query scope asserted)
  | unknownId {call : Call} {gatewayId : String} (hid : call.names = some gatewayId)
      (h : resolveGatewayId call.tenant gatewayId c = none) : Refuses core c call
  | rowUnconfigured {call : Call} {gatewayId : String} {row : CatalogRow} {e : GatewayError}
      (hid : call.names = some gatewayId)
      (hrow : resolveGatewayId call.tenant gatewayId c = some row)
      (h : core.adapter row.provider = .error e) : Refuses core c call
  | rowIncapable {call : Call} {gatewayId : String} {row : CatalogRow} {a : Adapter σ}
      (hid : call.names = some gatewayId)
      (hrow : resolveGatewayId call.tenant gatewayId c = some row)
      (ha : core.adapter row.provider = .ok a) (h : call.supported a = false) :
      Refuses core c call
  /-- The strategy is not implemented. -/
  | migrate {t subject provider : String} : Refuses core c (.rebind t subject provider .migrate)
  | noTarget {t subject provider : String} {strategy : RebindStrategy} {e : GatewayError}
      (h : core.adapter provider = .error e) : Refuses core c (.rebind t subject provider strategy)

/-- What is asked is asked of an adapter that can do it. -/
theorem MemoryCore.Asks.supported {core : MemoryCore σ} {c : Catalog} {call : Call} {name : String}
    {a : Adapter σ} {op : AdapterOp} (h : core.Asks c call name a op) :
    call.supported a = true := by
  cases h with
  | ingest _ hcap => exact hcap
  | upsert _ _ hcap => exact hcap
  | update _ _ hcap => exact hcap
  | search => rfl
  | listScope _ hhas hcap => simp [Call.supported, hhas, hcap]
  | get => rfl
  | delete _ _ hcap => exact hcap
  | deleteScope _ hcap => exact hcap

/-- A verb with a scope asks the provider that it was prepared for. -/
theorem MemoryCore.Asks.prepared {core : MemoryCore σ} {c : Catalog} {call : Call} {name : String}
    {a : Adapter σ} {op : AdapterOp} (h : core.Asks c call name a op) {scope : Scope}
    {asserted : Option String} (hscope : call.scoped = some (scope, asserted)) :
    core.Prepares c call.tenant scope asserted name a := by
  cases h with
  | ingest hp | search hp | listScope hp | deleteScope hp =>
    obtain ⟨rfl, rfl⟩ := Prod.mk.inj (Option.some.inj hscope)
    exact hp
  | upsert _ hp =>
    obtain ⟨rfl, rfl⟩ := Prod.mk.inj (Option.some.inj hscope)
    exact hp
  | update | get | delete => cases hscope

/-- A verb with a gateway id asks the provider of its row. -/
theorem MemoryCore.Asks.issued {core : MemoryCore σ} {c : Catalog} {call : Call} {name : String}
    {a : Adapter σ} {op : AdapterOp} (h : core.Asks c call name a op) {gatewayId : String}
    (hid : call.names = some gatewayId) :
    ∃ row, resolveGatewayId call.tenant gatewayId c = some row ∧ row.provider = name := by
  cases h with
  | update hrow | get hrow | delete hrow =>
    obtain rfl := Option.some.inj hid
    exact ⟨_, hrow, rfl⟩
  | ingest | upsert | search | listScope | deleteScope => cases hid

theorem MemoryCore.Prepares.unique {core : MemoryCore σ} {c : Catalog} {t : String} {scope : Scope}
    {asserted : Option String} {name name' : String} {a a' : Adapter σ}
    (h : core.Prepares c t scope asserted name a) (h' : core.Prepares c t scope asserted name' a') :
    name = name' ∧ a = a' := by
  obtain rfl := Except.ok.inj (h.chosen.symm.trans h'.chosen)
  exact ⟨rfl, Except.ok.inj (h.configured.symm.trans h'.configured)⟩

/-- A verb has one question. -/
theorem MemoryCore.Asks.unique {core : MemoryCore σ} {c : Catalog} {call : Call}
    {name name' : String} {a a' : Adapter σ} {op op' : AdapterOp}
    (h : core.Asks c call name a op) (h' : core.Asks c call name' a' op') :
    name = name' ∧ a = a' ∧ op = op' := by
  have hrow : ∀ {row row' : CatalogRow} {t gatewayId : String},
      resolveGatewayId t gatewayId c = some row → resolveGatewayId t gatewayId c = some row' →
      core.adapter row.provider = .ok a → core.adapter row'.provider = .ok a' →
      row = row' ∧ a = a' := by
    intro row row' t gatewayId hrow hrow' ha ha'
    obtain rfl := Option.some.inj (hrow.symm.trans hrow')
    exact ⟨rfl, Except.ok.inj (ha.symm.trans ha')⟩
  cases h with
  | ingest hp | upsert _ hp | listScope hp | deleteScope hp =>
    have hp' := h'.prepared rfl
    obtain ⟨rfl, rfl⟩ := hp.unique hp'
    cases h'
    exact ⟨rfl, rfl, rfl⟩
  | search hp _ hmode =>
    cases h' with
    | search hp' _ hmode' =>
      obtain ⟨rfl, rfl⟩ := hp.unique hp'
      obtain rfl := Except.ok.inj (hmode.symm.trans hmode')
      exact ⟨rfl, rfl, rfl⟩
  | update hr ha =>
    cases h' with
    | update hr' ha' =>
      obtain ⟨rfl, rfl⟩ := hrow hr hr' ha ha'
      exact ⟨rfl, rfl, rfl⟩
  | get hr ha =>
    cases h' with
    | get hr' ha' =>
      obtain ⟨rfl, rfl⟩ := hrow hr hr' ha ha'
      exact ⟨rfl, rfl, rfl⟩
  | delete hr ha =>
    cases h' with
    | delete hr' ha' =>
      obtain ⟨rfl, rfl⟩ := hrow hr hr' ha ha'
      exact ⟨rfl, rfl, rfl⟩

/-- A verb that gets to ask its adapter has passed every check. -/
theorem MemoryCore.Asks.not_refuses {core : MemoryCore σ} {c : Catalog} {call : Call}
    {name : String} {a : Adapter σ} {op : AdapterOp} (h : core.Asks c call name a op) :
    ¬ core.Refuses c call := by
  intro hrefuses
  have hsupported := h.supported
  cases hrefuses with
  | noFacts =>
    cases h with
    | upsert hne => exact hne rfl
  | unresolved hscope hno => cases (h.prepared hscope).chosen.symm.trans hno
  | unconfigured hscope hname hno =>
    obtain rfl := Except.ok.inj ((h.prepared hscope).chosen.symm.trans hname)
    cases (h.prepared hscope).configured.symm.trans hno
  | undeclared hscope hname ha hno =>
    obtain rfl := Except.ok.inj ((h.prepared hscope).chosen.symm.trans hname)
    obtain rfl := Except.ok.inj ((h.prepared hscope).configured.symm.trans ha)
    cases (h.prepared hscope).supported.symm.trans hno
  | incapable hscope hp hno =>
    obtain rfl := Except.ok.inj ((h.prepared hscope).chosen.symm.trans hp.chosen)
    obtain rfl := Except.ok.inj (h.configured.symm.trans hp.configured)
    cases hsupported.symm.trans hno
  | noAsOf hp hasOf hno =>
    cases h with
    | search hp' hhas =>
      obtain rfl := Except.ok.inj (hp'.chosen.symm.trans hp.chosen)
      obtain rfl := Except.ok.inj (hp'.configured.symm.trans hp.configured)
      exact hno (hhas hasOf)
  | noMode hp hno =>
    cases h with
    | search hp' _ hmode =>
      obtain rfl := Except.ok.inj (hp'.chosen.symm.trans hp.chosen)
      obtain rfl := Except.ok.inj (hp'.configured.symm.trans hp.configured)
      cases hmode.symm.trans hno
  | unknownId hid hno =>
    obtain ⟨row, hrow, -⟩ := h.issued hid
    cases hrow.symm.trans hno
  | rowUnconfigured hid hrow hno =>
    obtain ⟨row, hrow', rfl⟩ := h.issued hid
    obtain rfl := Option.some.inj (hrow'.symm.trans hrow)
    cases h.configured.symm.trans hno
  | rowIncapable hid hrow ha hno =>
    obtain ⟨row, hrow', rfl⟩ := h.issued hid
    obtain rfl := Option.some.inj (hrow'.symm.trans hrow)
    obtain rfl := Except.ok.inj (h.configured.symm.trans ha)
    cases hsupported.symm.trans hno
  | migrate => cases h
  | noTarget => cases h

/-- A rebind is checked for its strategy and its target only. -/
theorem MemoryCore.not_refuses_rebind {core : MemoryCore σ} {c : Catalog} {a : Adapter σ}
    {t subject provider : String} {strategy : RebindStrategy} (hstrategy : strategy ≠ .migrate)
    (ha : core.adapter provider = .ok a) :
    ¬ core.Refuses c (.rebind t subject provider strategy) := by
  intro hrefuses
  cases hrefuses with
  | unresolved hscope | unconfigured hscope | undeclared hscope | incapable hscope => cases hscope
  | unknownId hid | rowUnconfigured hid | rowIncapable hid => cases hid
  | migrate => exact hstrategy rfl
  | noTarget h => cases ha.symm.trans h

/-! ## What the adapters saw -/

/-- What the request asked of the adapters, and what they answered. -/
def Request.asked (env : Env) (q : Request σ) (w : World σ) : List (CoreStep σ) :=
  ((q.1.exec q.2).trace (handle env) w).filter changesStore

/-- What follows a call that raised: at most a question after the provider's health. -/
def HealthSteps (name : String) (a : Adapter σ) (s : σ) (steps : List (CoreStep σ)) (s' : σ) :
    Prop :=
  (steps = [] ∧ s' = s) ∨
    (steps = [⟨.adapter name a .health, (a.call .health s).1⟩] ∧ s' = (a.call .health s).2)

/-- What the adapters saw of a verb, how it ended, and the world it left. -/
inductive MemoryCore.Conducts (core : MemoryCore σ) (call : Call) (w : World σ) :
    List (CoreStep σ) → Except Exc Reply → World σ → Prop where
  | refused {e : GatewayError} (h : core.Refuses w.catalog call) :
      Conducts core call w [] (.error (.gateway e)) w
  /-- The call raised. No table has changed. -/
  | failed {name : String} {a : Adapter σ} {op : AdapterOp} {e : Exc} {r : Except Exc Reply}
      {health : List (CoreStep σ)} {s' : σ} (hask : core.Asks w.catalog call name a op)
      (hcall : (a.call op w.store).1 = .error e)
      (hhealth : HealthSteps name a (a.call op w.store).2 health s') :
      Conducts core call w (⟨.adapter name a op, .error e⟩ :: health) r
        { catalog := w.catalog, store := s' }
  | answered {name : String} {a : Adapter σ} {op : AdapterOp} {ans : op.Ans}
      {r : Except Exc Reply} {w' : World σ} (hask : core.Asks w.catalog call name a op)
      (hcall : (a.call op w.store).1 = .ok ans) (hstore : w'.store = (a.call op w.store).2) :
      Conducts core call w [⟨.adapter name a op, .ok ans⟩] r w'
  /-- Rebinding asks no adapter. -/
  | rebound {a : Adapter σ} {t subject provider : String} {strategy : RebindStrategy}
      {result : RebindResult} {w' : World σ} (hcall : call = .rebind t subject provider strategy)
      (hstrategy : strategy ≠ .migrate) (ha : core.adapter provider = .ok a) :
      Conducts core call w [] (.ok (.rebound result)) w'

/-! ## Rules -/

section

variable {α β : Type} {core : MemoryCore σ} {name : String} {a : Adapter σ}

/-- The program calls no adapter. -/
def Quiet (p : CoreProg σ α) : Prop := p.Within fun op => ∀ r, changesStore ⟨op, r⟩ = false

theorem wpSeen_quiet {p : CoreProg σ α}
    {Q : List (CoreStep σ) → Except Exc α → World σ → Prop} (hp : Quiet p)
    (h : ∀ r w', w'.store = w.store → Q [] r w') :
    p.wpSeen (handle env) changesStore Q w := by
  refine Prog.wpSeen_of_wp hp (h _ _ ?_)
  refine Prog.run_invariant (I := fun w' : World σ => w'.store = w.store)
    (fun op w' hop hw' => ?_) hp rfl
  exact (store_kept (hop (handle env op w').1)).trans hw'

theorem wpSeen_observe {verb tenant : String} {subject : Option String} {body : CoreProg σ α}
    {Q : List (CoreStep σ) → Except Exc α → World σ → Prop}
    (h : body.wpSeen (handle env) changesStore Q w) :
    (observe verb tenant subject body).wpSeen (handle env) changesStore Q w := by
  have hgo : ∀ extra, (observe.go verb tenant subject extra body).wpSeen (handle env)
      changesStore Q w := by
    induction body generalizing w Q with
    | ret a => exact fun extra => h
    | raise e =>
      intro extra
      simp only [observe.go]
      split <;> exact h
    | act op k ih =>
      intro extra
      rw [Prog.wpSeen_act] at h
      cases op with
      | note key value => exact ih _ h _
      | catalog op => exact Prog.wpSeen_act.mpr (ih _ h _)
      | adapter name a op => exact Prog.wpSeen_act.mpr (ih _ h _)
      | emit event => exact Prog.wpSeen_act.mpr (ih _ h _)
  exact hgo _

theorem wpSeen_note {key : String} {value : Value} {f : Unit → CoreProg σ α}
    {Q : List (CoreStep σ) → Except Exc α → World σ → Prop}
    (h : (f ()).wpSeen (handle env) changesStore Q w) :
    ((note key value).bind f).wpSeen (handle env) changesStore Q w := h

/-- What comes before the call is quiet, and its rules are those of `wp`. -/
theorem wpSeen_before {p : CoreProg σ α} {f : α → CoreProg σ β}
    {Q : List (CoreStep σ) → Except Exc β → World σ → Prop} (hp : Quiet p)
    (h : p.wp (handle env) (fun r w' => match r with
      | .ok v => (f v).wpSeen (handle env) changesStore Q w'
      | .error e => Q [] (.error e) w') w) :
    (p.bind f).wpSeen (handle env) changesStore Q w := by
  refine Prog.wpSeen_bind.mpr (Prog.wpSeen_of_wp hp (Prog.wp_mono (fun r w' hr => ?_) h))
  cases r <;> exact hr

theorem wpSeen_check {x : Except GatewayError α} {f : α → CoreProg σ β}
    {Q : List (CoreStep σ) → Except Exc β → World σ → Prop}
    (hok : ∀ v, x = .ok v → (f v).wpSeen (handle env) changesStore Q w)
    (herr : ∀ e, x = .error e → Q [] (.error (.gateway e)) w) :
    ((check x).bind f).wpSeen (handle env) changesStore Q w :=
  wpSeen_before Prog.within_ofExcept (wp_check hok herr)

theorem wpSeen_refuseIf {b : Bool} {e : GatewayError} {f : Unit → CoreProg σ β}
    {Q : List (CoreStep σ) → Except Exc β → World σ → Prop}
    (hok : b = false → (f ()).wpSeen (handle env) changesStore Q w)
    (herr : b = true → Q [] (.error (.gateway e)) w) :
    ((refuseIf b e).bind f).wpSeen (handle env) changesStore Q w :=
  wpSeen_before within_refuseIf (wp_refuseIf hok herr)

theorem wpSeen_prepare (call : Call) {scope : Scope} {asserted : Option String}
    {f : MemoryCore.Prepared σ → CoreProg σ β}
    (hscope : call.scoped = some (scope, asserted))
    {Q : List (CoreStep σ) → Except Exc β → World σ → Prop}
    (hok : ∀ name a, core.Prepares w.catalog call.tenant scope asserted name a →
      (f { name := name, adapter := a, bound := scope.under call.tenant }).wpSeen (handle env)
        changesStore Q w)
    (herr : ∀ e, core.Refuses w.catalog call → Q [] (.error (.gateway e)) w) :
    ((core.prepare call.tenant scope asserted).bind f).wpSeen (handle env) changesStore Q w := by
  refine wpSeen_before (within_prepare fun _ => rfl) ?_
  simp only [MemoryCore.prepare, resolveProvider, Prog.bind_eq, Prog.wp_bind]
  rw [wp_transact]
  refine wp_check (fun name hname => ?_) (fun e h => herr e (.unresolved hscope h))
  refine wp_check (fun a ha => ?_) (fun e h => herr e (.unconfigured hscope hname h))
  exact wp_check (fun u hs => hok name a ⟨hname, ha, hs⟩)
    (fun e h => herr e (.undeclared hscope hname ha h))

theorem wpSeen_issuedRow (call : Call) {gatewayId : String} {f : CatalogRow → CoreProg σ β}
    (hid : call.names = some gatewayId)
    {Q : List (CoreStep σ) → Except Exc β → World σ → Prop}
    (hok : ∀ row, resolveGatewayId call.tenant gatewayId w.catalog = some row →
      (f row).wpSeen (handle env) changesStore Q w)
    (herr : ∀ e, core.Refuses w.catalog call → Q [] (.error (.gateway e)) w) :
    ((issuedRow call.tenant gatewayId).bind f).wpSeen (handle env) changesStore Q w := by
  refine wpSeen_before (Prog.within_bind (Prog.within_perform fun _ => rfl)
    fun _ => Prog.within_ofExcept) ?_
  simp only [issuedRow, Prog.bind_eq, Prog.wp_bind]
  rw [wp_transact]
  simp only [CatalogOp.exec]
  cases hrow : resolveGatewayId call.tenant gatewayId w.catalog with
  | none => exact wp_check (fun row h => by cases h) (fun e _ => herr e (.unknownId hid hrow))
  | some row =>
    exact wp_check (fun row' h => Except.ok.inj h ▸ hok row hrow) (fun e h => by cases h)

theorem wpSeen_callAdapter {op : AdapterOp}
    {Q : List (CoreStep σ) → Except Exc op.Ans → World σ → Prop} :
    (callAdapter name a op).wpSeen (handle env) changesStore Q w ↔
      Q [⟨.adapter name a op, (a.call op w.store).1⟩] (a.call op w.store).1
        { w with store := (a.call op w.store).2 } :=
  Prog.wpSeen_perform

theorem wpSeen_attempted {op : AdapterOp} {f : Except Exc op.Ans → CoreProg σ β}
    {Q : List (CoreStep σ) → Except Exc β → World σ → Prop}
    (h : ∀ r, (a.call op w.store).1 = r → (f r).wpSeen (handle env) changesStore
      (fun post => Q (⟨.adapter name a op, r⟩ :: post))
      { w with store := (a.call op w.store).2 }) :
    ((callAdapter name a op).attempt.bind f).wpSeen (handle env) changesStore Q w :=
  Prog.wpSeen_bind.mpr (Prog.wpSeen_attempt.mpr (wpSeen_callAdapter.mpr (h _ rfl)))

theorem wpSeen_raiseFailure {exc : Exc} {Q : List (CoreStep σ) → Except Exc α → World σ → Prop}
    (herr : ∀ steps e s', HealthSteps name a w.store steps s' →
      Q steps (.error e) { w with store := s' }) :
    (raiseFailure name a exc : CoreProg σ α).wpSeen (handle env) changesStore Q w := by
  simp only [raiseFailure, failure, Prog.bind_eq, Prog.wpSeen_bind, Prog.wpSeen_tryCatch]
  rw [wpSeen_callAdapter]
  cases hcall : (a.call .health w.store).1 with
  | ok health => exact herr _ _ _ (.inr ⟨by rw [hcall]; rfl, rfl⟩)
  | error e =>
    simp only
    split
    · exact herr _ _ _ (.inr ⟨by rw [hcall]; rfl, rfl⟩)
    · exact herr _ _ _ (.inr ⟨by rw [hcall]; rfl, rfl⟩)

theorem wpSeen_call {op : AdapterOp} {Q : List (CoreStep σ) → Except Exc op.Ans → World σ → Prop}
    (hok : ∀ ans, (a.call op w.store).1 = .ok ans →
      Q [⟨.adapter name a op, .ok ans⟩] (.ok ans) { w with store := (a.call op w.store).2 })
    (herr : ∀ e e' health s', (a.call op w.store).1 = .error e →
      HealthSteps name a (a.call op w.store).2 health s' →
      Q (⟨.adapter name a op, .error e⟩ :: health) (.error e') { w with store := s' }) :
    (call name a op).wpSeen (handle env) changesStore Q w := by
  rw [call, Prog.wpSeen_tryCatch, wpSeen_callAdapter]
  cases hcall : (a.call op w.store).1 with
  | ok ans => exact hok ans hcall
  | error e =>
    cases e with
    | gateway e => exact herr _ _ [] _ hcall (.inl ⟨rfl, rfl⟩)
    | cancelled => exact herr _ _ [] _ hcall (.inl ⟨rfl, rfl⟩)
    | integrity text => exact wpSeen_raiseFailure fun steps e s' h => herr _ e steps s' hcall h
    | other kind text => exact wpSeen_raiseFailure fun steps e s' h => herr _ e steps s' hcall h

theorem wpSeen_searchFailed {query : SearchQuery} {exc : Exc}
    {Q : List (CoreStep σ) → Except Exc SearchResult → World σ → Prop}
    (h : ∀ steps r s', HealthSteps name a w.store steps s' → Q steps r { w with store := s' }) :
    (MemoryCore.searchFailed query name a exc).wpSeen (handle env) changesStore Q w := by
  have houtage : ∀ exc, (MemoryCore.outage query name a exc).wpSeen (handle env) changesStore
      Q w := by
    intro exc
    unfold MemoryCore.outage
    split
    · exact h [] _ _ (.inl ⟨rfl, rfl⟩)
    · exact wpSeen_raiseFailure fun steps e s' hhealth => h steps _ s' hhealth
  cases exc with
  | gateway e =>
    simp only [MemoryCore.searchFailed]
    split
    · exact h [] _ _ (.inl ⟨rfl, rfl⟩)
    · exact houtage _
  | cancelled => exact h [] _ _ (.inl ⟨rfl, rfl⟩)
  | integrity text => exact houtage _
  | other kind text => exact houtage _

/-- A call, and bookkeeping that calls no adapter after it. -/
theorem wpSeen_asked {op : AdapterOp} {f : op.Ans → CoreProg σ α}
    {Q : List (CoreStep σ) → Except Exc α → World σ → Prop} (hf : ∀ ans, Quiet (f ans))
    (hok : ∀ ans r w', (a.call op w.store).1 = .ok ans → w'.store = (a.call op w.store).2 →
      Q [⟨.adapter name a op, .ok ans⟩] r w')
    (herr : ∀ e e' health s', (a.call op w.store).1 = .error e →
      HealthSteps name a (a.call op w.store).2 health s' →
      Q (⟨.adapter name a op, .error e⟩ :: health) (.error e') { w with store := s' }) :
    ((call name a op).bind f).wpSeen (handle env) changesStore Q w := by
  rw [Prog.wpSeen_bind]
  exact wpSeen_call (fun ans hcall => wpSeen_quiet (hf ans) fun r w' => hok ans r w' hcall) herr

/-- A reply that is made of what a program returns. -/
theorem wpSeen_map {p : CoreProg σ α} {g : α → β}
    {Q : List (CoreStep σ) → Except Exc β → World σ → Prop}
    (h : p.wpSeen (handle env) changesStore (fun steps r w' => Q steps (r.map g) w') w) :
    (p.bind fun x => .ret (g x)).wpSeen (handle env) changesStore Q w := by
  rw [Prog.wpSeen_bind]
  refine Prog.wpSeen_mono (fun steps r w' hr => ?_) h
  cases r with
  | ok x => simpa [Except.map] using hr
  | error e => exact hr

end

/-! ## The verbs -/

section

variable {core : MemoryCore σ} {t : String}

theorem quiet_writtenRecords {name : String} {memories : List ProviderMemory} {scope : Scope} :
    Quiet (writtenRecords (σ := σ) t name memories scope) :=
  within_writtenRecords fun _ _ => rfl

theorem quiet_mapHits {name : String} {memories : List ProviderMemory} {scope : Scope} :
    Quiet (mapHits (σ := σ) t name memories scope) :=
  within_mapHits fun _ _ => rfl

theorem quiet_note {key : String} {value : Value} : Quiet (note (σ := σ) key value) :=
  Prog.within_perform fun _ => rfl

theorem quiet_transact {op : CatalogOp} : Quiet (transact (σ := σ) op) :=
  Prog.within_perform fun _ => rfl

theorem quiet_rebindSubject {subject provider : String} :
    Quiet (rebindSubject (σ := σ) t subject provider) :=
  within_rebindSubject fun _ _ _ => rfl

theorem ingest_conducts {episode : Episode} {scope : Scope} {asserted : Option String} :
    (core.exec (.ingest t episode scope asserted)).wpSeen (handle env) changesStore
      (core.Conducts (.ingest t episode scope asserted) w) w := by
  refine wpSeen_map (wpSeen_observe ?_)
  refine wpSeen_prepare (.ingest t episode scope asserted) rfl (fun name a hp => ?_)
    (fun e h => .refused h)
  refine wpSeen_note (wpSeen_refuseIf (fun hcap => ?_) (fun hcap => .refused (.incapable rfl hp ?_)))
  · have hask : core.Asks w.catalog (.ingest t episode scope asserted) name a
        (.ingest episode (scope.under t)) := .ingest hp (by simpa using hcap)
    refine wpSeen_asked (fun memories => ?_) (fun ans r w' h hstore => .answered hask h hstore)
      (fun e e' health s' h hhealth => .failed hask h hhealth)
    refine Prog.within_bind quiet_writtenRecords fun records => ?_
    refine Prog.within_bind (within_bind_subject (fun _ => rfl) fun _ => rfl) fun _ => ?_
    apply Prog.within_bind
    · unfold runIf
      split
      · exact Prog.within_bind quiet_transact fun _ => trivial
      · trivial
    · exact fun _ => Prog.within_bind quiet_note fun _ => trivial
  · simpa [Call.supported] using hcap

theorem upsert_conducts {facts : List String} {scope : Scope} {asserted : Option String} :
    (core.exec (.upsert t facts scope asserted)).wpSeen (handle env) changesStore
      (core.Conducts (.upsert t facts scope asserted) w) w := by
  refine wpSeen_map (wpSeen_refuseIf (fun hne => wpSeen_observe ?_) (fun hnil => .refused ?_))
  · refine wpSeen_prepare (.upsert t facts scope asserted) rfl (fun name a hp => ?_)
      (fun e h => .refused h)
    refine wpSeen_note (wpSeen_refuseIf (fun hcap => ?_)
      (fun hcap => .refused (.incapable rfl hp ?_)))
    · have hask : core.Asks w.catalog (.upsert t facts scope asserted) name a
          (.upsert facts (scope.under t)) := .upsert (by simpa using hne) hp (by simpa using hcap)
      refine wpSeen_asked (fun memories => ?_) (fun ans r w' h hstore => .answered hask h hstore)
        (fun e e' health s' h hhealth => .failed hask h hhealth)
      refine Prog.within_bind quiet_writtenRecords fun records => ?_
      refine Prog.within_bind (within_bind_subject (fun _ => rfl) fun _ => rfl) fun _ => ?_
      exact Prog.within_bind quiet_note fun _ => trivial
    · simpa [Call.supported] using hcap
  · obtain rfl : facts = [] := by simpa using hnil
    exact .noFacts

theorem update_conducts {gatewayId content : String} :
    (core.exec (.update t gatewayId content)).wpSeen (handle env) changesStore
      (core.Conducts (.update t gatewayId content) w) w := by
  refine wpSeen_map (wpSeen_observe ?_)
  refine wpSeen_issuedRow (.update t gatewayId content) rfl (fun row hrow => ?_)
    (fun e h => .refused h)
  refine wpSeen_note (wpSeen_note (wpSeen_check (fun a ha => ?_)
    (fun e h => .refused (.rowUnconfigured rfl hrow h))))
  refine wpSeen_refuseIf (fun hcap => ?_) (fun hcap => .refused (.rowIncapable rfl hrow ha ?_))
  · have hask : core.Asks w.catalog (.update t gatewayId content) row.provider a
        (.update row.nativeId content) := .update hrow ha (by simpa using hcap)
    refine wpSeen_asked (fun memory => ?_) (fun ans r w' h hstore => .answered hask h hstore)
      (fun e e' health s' h hhealth => .failed hask h hhealth)
    refine Prog.within_bind ?_ fun _ => trivial
    refine Prog.within_bind (within_mapPage fun _ => rfl) fun rows => ?_
    split <;> trivial
  · simpa [Call.supported] using hcap

theorem search_conducts {query : SearchQuery} {scope : Scope} {asserted : Option String} :
    (core.exec (.search t query scope asserted)).wpSeen (handle env) changesStore
      (core.Conducts (.search t query scope asserted) w) w := by
  refine wpSeen_map (wpSeen_observe ?_)
  refine wpSeen_prepare (.search t query scope asserted) rfl (fun name a hp => ?_)
    (fun e h => .refused h)
  refine wpSeen_note (wpSeen_note (wpSeen_check (fun u hasOf => ?_) (fun e h => .refused ?_)))
  · have hasOf : query.asOf.isSome = true → .temporal ∈ a.capabilities.searchModes := by
      intro hsome
      simp only [hsome, if_true, assertAsOfSupported] at hasOf
      split at hasOf
      · assumption
      · cases hasOf
    refine wpSeen_check (fun decision hmode => ?_) (fun e h => .refused (.noMode hp h))
    have hask := MemoryCore.Asks.search hp hasOf hmode
    refine wpSeen_attempted (fun r hcall => ?_)
    cases r with
    | error e => exact wpSeen_searchFailed fun health r s' hhealth => .failed hask hcall hhealth
    | ok memories =>
      refine wpSeen_quiet ?_ fun r w' hstore => .answered hask hcall hstore
      exact Prog.within_bind quiet_mapHits fun _ => Prog.within_bind quiet_note fun _ => trivial
  · split at h
    · rename_i hsome
      refine .noAsOf hp hsome fun hmem => ?_
      simp [assertAsOfSupported, hmem] at h
    · cases h

theorem listScope_conducts {scope : Scope} {limit : Nat} {asserted : Option String} :
    (core.exec (.listScope t scope limit asserted)).wpSeen (handle env) changesStore
      (core.Conducts (.listScope t scope limit asserted) w) w := by
  refine wpSeen_map (wpSeen_observe ?_)
  refine wpSeen_prepare (.listScope t scope limit asserted) rfl (fun name a hp => ?_)
    (fun e h => .refused h)
  refine wpSeen_note (wpSeen_refuseIf (fun hcap => ?_)
    (fun hcap => .refused (.incapable rfl hp ?_)))
  · obtain ⟨hhas, hcap⟩ : a.hasListScope = true ∧ a.capabilities.supportsList = true := by
      simpa using hcap
    have hask : core.Asks w.catalog (.listScope t scope limit asserted) name a
        (.listScope (scope.under t) (min limit a.capabilities.maxLimit)) := .listScope hp hhas hcap
    refine wpSeen_asked (fun memories => ?_) (fun ans r w' h hstore => .answered hask h hstore)
      (fun e e' health s' h hhealth => .failed hask h hhealth)
    exact Prog.within_bind quiet_mapHits fun _ => Prog.within_bind quiet_note fun _ => trivial
  · have hno : ¬ (a.hasListScope = true ∧ a.capabilities.supportsList = true) := by
      rintro ⟨hhas, hlist⟩
      simp [hhas, hlist] at hcap
    simpa [Call.supported] using hno

theorem get_conducts {gatewayId : String} :
    (core.exec (.get t gatewayId)).wpSeen (handle env) changesStore
      (core.Conducts (.get t gatewayId) w) w := by
  refine wpSeen_map (wpSeen_observe ?_)
  refine wpSeen_issuedRow (.get t gatewayId) rfl (fun row hrow => ?_)
    (fun e h => .refused h)
  refine wpSeen_note (wpSeen_note (wpSeen_check (fun a ha => ?_)
    (fun e h => .refused (.rowUnconfigured rfl hrow h))))
  have hask := MemoryCore.Asks.get hrow ha
  exact wpSeen_asked (fun memory => Prog.within_ofExcept)
    (fun ans r w' h hstore => .answered hask h hstore)
    (fun e e' health s' h hhealth => .failed hask h hhealth)

theorem delete_conducts {gatewayId : String} :
    (core.exec (.delete t gatewayId)).wpSeen (handle env) changesStore
      (core.Conducts (.delete t gatewayId) w) w := by
  refine wpSeen_map (wpSeen_observe ?_)
  refine wpSeen_issuedRow (.delete t gatewayId) rfl (fun row hrow => ?_)
    (fun e h => .refused h)
  refine wpSeen_note (wpSeen_note (wpSeen_check (fun a ha => ?_)
    (fun e h => .refused (.rowUnconfigured rfl hrow h))))
  refine wpSeen_check (fun u hcap => ?_) (fun e h => .refused (.rowIncapable rfl hrow ha ?_))
  · have hcap : a.capabilities.supportsDelete = true := by
      by_contra hno
      simp [assertDeleteSupported, hno] at hcap
    have hask := MemoryCore.Asks.delete hrow ha hcap
    refine wpSeen_asked (fun b => ?_) (fun ans r w' h hstore => .answered hask h hstore)
      (fun e e' health s' h hhealth => .failed hask h hhealth)
    exact Prog.within_bind quiet_transact fun _ => trivial
  · cases hcap : a.capabilities.supportsDelete with
    | false => exact hcap
    | true => simp [assertDeleteSupported, hcap] at h

theorem deleteScope_conducts {scope : Scope} {asserted : Option String} :
    (core.exec (.deleteScope t scope asserted)).wpSeen (handle env) changesStore
      (core.Conducts (.deleteScope t scope asserted) w) w := by
  refine wpSeen_map (wpSeen_observe ?_)
  refine wpSeen_prepare (.deleteScope t scope asserted) rfl (fun name a hp => ?_)
    (fun e h => .refused h)
  refine wpSeen_note (wpSeen_check (fun u hcap => ?_)
    (fun e h => .refused (.incapable rfl hp ?_)))
  · have hcap : a.capabilities.supportsDeleteByScope = true := by
      by_contra hno
      simp [assertDeleteSupported, hno] at hcap
    have hask := MemoryCore.Asks.deleteScope hp hcap
    refine wpSeen_asked (fun removed => ?_) (fun ans r w' h hstore => .answered hask h hstore)
      (fun e e' health s' h hhealth => .failed hask h hhealth)
    refine Prog.within_bind quiet_transact fun _ => Prog.within_bind quiet_transact fun _ => ?_
    exact Prog.within_bind quiet_note fun _ => Prog.within_bind quiet_note fun _ => trivial
  · cases hcap : a.capabilities.supportsDeleteByScope with
    | false => exact hcap
    | true => simp [assertDeleteSupported, hcap] at h

theorem rebind_conducts {subject provider : String} {strategy : RebindStrategy} :
    (core.exec (.rebind t subject provider strategy)).wpSeen (handle env) changesStore
      (core.Conducts (.rebind t subject provider strategy) w) w := by
  refine wpSeen_map (wpSeen_observe (wpSeen_note ?_))
  refine wpSeen_refuseIf (fun hstrategy => ?_) (fun hstrategy => .refused ?_)
  · refine wpSeen_check (fun a ha => ?_) (fun e h => .refused (.noTarget h))
    refine wpSeen_before quiet_rebindSubject (wp_rebindSubject fun result => ?_)
    exact .rebound rfl (by simpa using hstrategy) ha
  · obtain rfl : strategy = .migrate := by simpa using hstrategy
    exact .migrate

/-- Every run of a verb is one of the listed cases. -/
theorem exec_conducts (core : MemoryCore σ) (call : Call) :
    (core.exec call).wpSeen (handle env) changesStore (core.Conducts call w) w := by
  cases call with
  | ingest => exact ingest_conducts
  | upsert => exact upsert_conducts
  | update => exact update_conducts
  | search => exact search_conducts
  | listScope => exact listScope_conducts
  | get => exact get_conducts
  | delete => exact delete_conducts
  | deleteScope => exact deleteScope_conducts
  | rebind => exact rebind_conducts

theorem Request.conducts (env : Env) (q : Request σ) (w : World σ) :
    q.1.Conducts q.2 w (q.asked env w) (q.answer env w) (q.after env w) :=
  exec_conducts q.1 q.2

end

end Memgw
