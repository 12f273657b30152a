-- SUMMARY: Everything a verb can do to the catalog and the adapters' store, one case for each way it can end.
import Memgw.Gateway.Core

/-!
# What a verb does

A verb that gets past its checks makes one call on one adapter, and then brings
the catalog in line with the answer. `Asks` says which call that is, `Did` lists
the ways a whole verb can end, and `exec_did` shows the list complete. Results
about sequential runs use these two relations and never unfold a verb.
-/

namespace Memgw

variable {σ : Type} {env : Env} {w : World σ}

/-! ## Calls and replies -/

/-- A call of one of the verbs. -/
inductive Call where
  | ingest (tenant : String) (episode : Episode) (scope : Scope) (provider : Option String)
  | upsert (tenant : String) (facts : List String) (scope : Scope) (provider : Option String)
  | update (tenant gatewayId content : String)
  | search (tenant : String) (query : SearchQuery) (scope : Scope) (provider : Option String)
  | listScope (tenant : String) (scope : Scope) (limit : Nat) (provider : Option String)
  | get (tenant gatewayId : String)
  | delete (tenant gatewayId : String)
  | deleteScope (tenant : String) (scope : Scope) (provider : Option String)
  | rebind (tenant subject provider : String) (strategy : RebindStrategy)

inductive Reply where
  | wrote (result : WriteResult)
  | found (result : SearchResult)
  | listed (records : List MemoryRecord)
  | memory (record : MemoryRecord)
  | deleted
  | erased (removed : Nat)
  | rebound (result : RebindResult)
  deriving DecidableEq

/-- The memories that a reply hands to the caller. -/
def Reply.records : Reply → List MemoryRecord
  | .wrote result => result.results
  | .found result => result.results
  | .listed records => records
  | .memory record => [record]
  | .deleted | .erased _ | .rebound _ => []

namespace Call

def tenant : Call → String
  | .ingest t .. | .upsert t .. | .update t .. | .search t .. | .listScope t .. | .get t ..
  | .delete t .. | .deleteScope t .. | .rebind t .. => t

/-- The verbs that only read. -/
def isRead : Call → Bool
  | .search .. | .listScope .. | .get .. => true
  | _ => false

/-- The verbs that write a memory. -/
def isWrite : Call → Bool
  | .ingest .. | .upsert .. | .update .. => true
  | _ => false

end Call

def MemoryCore.exec (core : MemoryCore σ) : Call → CoreProg σ Reply
  | .ingest t episode scope provider => do
    let result ← core.ingest t episode scope provider
    return .wrote result
  | .upsert t facts scope provider => do
    let result ← core.upsert t facts scope provider
    return .wrote result
  | .update t gatewayId content => do
    let record ← core.update t gatewayId content
    return .memory record
  | .search t query scope provider => do
    let result ← core.search t query scope provider
    return .found result
  | .listScope t scope limit provider => do
    let records ← core.listScope t scope limit provider
    return .listed records
  | .get t gatewayId => do
    let record ← core.get t gatewayId
    return .memory record
  | .delete t gatewayId => do
    core.delete t gatewayId
    return .deleted
  | .deleteScope t scope provider => do
    let removed ← core.deleteScope t scope provider
    return .erased removed
  | .rebind t subject provider strategy => do
    let result ← core.rebind t subject provider strategy
    return .rebound result

/-! ## The call a verb makes -/

/-- What `_prepare` has established when it returns. -/
structure MemoryCore.Prepares (core : MemoryCore σ) (c : Catalog) (tenant : String) (scope : Scope)
    (asserted : Option String) (name : String) (a : Adapter σ) : Prop where
  chosen : chooseProvider scope.subject (getBinding tenant scope.subject c) core.defaultProvider
    asserted = .ok name
  configured : core.adapter name = .ok a
  supported : assertScopeSupported (scope.under tenant) a.capabilities = .ok ()

/-- The data call that a verb makes on an adapter once it is past its checks. -/
inductive MemoryCore.Asks (core : MemoryCore σ) (c : Catalog) :
    Call → String → Adapter σ → AdapterOp → Prop where
  | ingest {t : String} {episode : Episode} {scope : Scope} {asserted : Option String}
      {name : String} {a : Adapter σ} (hp : core.Prepares c t scope asserted name a)
      (hcap : a.capabilities.supportsIngest = true) :
      Asks core c (.ingest t episode scope asserted) name a (.ingest episode (scope.under t))
  | upsert {t : String} {facts : List String} {scope : Scope} {asserted : Option String}
      {name : String} {a : Adapter σ} (hne : facts ≠ [])
      (hp : core.Prepares c t scope asserted name a)
      (hcap : a.capabilities.supportsUpsert = true) :
      Asks core c (.upsert t facts scope asserted) name a (.upsert facts (scope.under t))
  | update {t gatewayId content : String} {row : CatalogRow} {a : Adapter σ}
      (hrow : resolveGatewayId t gatewayId c = some row)
      (ha : core.adapter row.provider = .ok a) (hcap : a.capabilities.supportsUpdate = true) :
      Asks core c (.update t gatewayId content) row.provider a (.update row.nativeId content)
  | search {t : String} {query : SearchQuery} {scope : Scope} {asserted : Option String}
      {name : String} {a : Adapter σ} {decision : DegradeResult}
      (hp : core.Prepares c t scope asserted name a)
      (hasOf : query.asOf.isSome = true → .temporal ∈ a.capabilities.searchModes)
      (hmode : resolveMode query.mode a.capabilities query.onUnsupported = .ok decision) :
      Asks core c (.search t query scope asserted) name a
        (.search (query.effective decision.served a.capabilities) (scope.under t))
  | listScope {t : String} {scope : Scope} {limit : Nat} {asserted : Option String}
      {name : String} {a : Adapter σ} (hp : core.Prepares c t scope asserted name a)
      (hhas : a.hasListScope = true) (hcap : a.capabilities.supportsList = true) :
      Asks core c (.listScope t scope limit asserted) name a
        (.listScope (scope.under t) (min limit a.capabilities.maxLimit))
  | get {t gatewayId : String} {row : CatalogRow} {a : Adapter σ}
      (hrow : resolveGatewayId t gatewayId c = some row)
      (ha : core.adapter row.provider = .ok a) :
      Asks core c (.get t gatewayId) row.provider a (.get row.nativeId)
  | delete {t gatewayId : String} {row : CatalogRow} {a : Adapter σ}
      (hrow : resolveGatewayId t gatewayId c = some row)
      (ha : core.adapter row.provider = .ok a) (hcap : a.capabilities.supportsDelete = true) :
      Asks core c (.delete t gatewayId) row.provider a (.delete row.nativeId)
  | deleteScope {t : String} {scope : Scope} {asserted : Option String}
      {name : String} {a : Adapter σ} (hp : core.Prepares c t scope asserted name a)
      (hcap : a.capabilities.supportsDeleteByScope = true) :
      Asks core c (.deleteScope t scope asserted) name a (.deleteScope (scope.under t))

theorem MemoryCore.Asks.configured {core : MemoryCore σ} {c : Catalog} {call : Call} {name : String}
    {a : Adapter σ} {op : AdapterOp} (h : core.Asks c call name a op) :
    core.adapter name = .ok a := by
  cases h with
  | update _ ha _ | get _ ha | delete _ ha _ => exact ha
  | ingest hp _ | upsert _ hp _ | search hp _ _ | listScope hp _ _ | deleteScope hp _ =>
    exact hp.configured

/-- What is behind the call of a search. -/
theorem MemoryCore.Asks.search_inv {core : MemoryCore σ} {c : Catalog} {t : String}
    {query : SearchQuery} {scope : Scope} {asserted : Option String} {name : String}
    {a : Adapter σ} {op : AdapterOp} (h : core.Asks c (.search t query scope asserted) name a op) :
    core.Prepares c t scope asserted name a ∧ ∃ decision : DegradeResult,
      decision.served ∈ a.capabilities.searchModes ∧
        op = .search (query.effective decision.served a.capabilities) (scope.under t) := by
  cases h with
  | search hp _ hmode => exact ⟨hp, _, resolveMode_served hmode, rfl⟩

/-! ## The ways a verb can end -/

/-- The journal entry of an ingest. -/
def ingestedTo (name : String) (memories : List ProviderMemory) : List (String × List String) :=
  [(name, memories.map ProviderMemory.nativeId)]

/-- The world before and after a verb, and how the verb ended. -/
inductive MemoryCore.Did (env : Env) (core : MemoryCore σ) :
    Call → World σ → Except Exc Reply → World σ → Prop where
  /-- One of the gateway's own checks refused it. -/
  | refused {call : Call} {w : World σ} {e : Exc} : Did env core call w (.error e) w
  /-- The adapter raised. The health of the provider may have been asked for. -/
  | failed {call : Call} {w : World σ} {name : String} {a : Adapter σ} {op : AdapterOp} {e e' : Exc}
      {s₁ s₂ : σ} (hask : core.Asks w.catalog call name a op)
      (hcall : a.call op w.store = (.error e, s₁)) (hs : s₂ = s₁ ∨ s₂ = (a.call .health s₁).2) :
      Did env core call w (.error e') { catalog := w.catalog, store := s₂ }
  /-- The adapter raised, and the search was asked to fail open. -/
  | failedOpen {t : String} {query : SearchQuery} {scope : Scope} {asserted : Option String}
      {w : World σ} {name : String} {a : Adapter σ} {op : AdapterOp} {e : Exc} {s₁ : σ}
      (hask : core.Asks w.catalog (.search t query scope asserted) name a op)
      (hcall : a.call op w.store = (.error e, s₁)) (hopen : query.failOpen = true) :
      Did env core (.search t query scope asserted) w
        (.ok (.found { results := [], provider := name, providerUnavailable := true }))
        { catalog := w.catalog, store := s₁ }
  /-- The adapter answered, but the verb failed before it could change a table. -/
  | unsettled {call : Call} {w : World σ} {name : String} {a : Adapter σ} {op : AdapterOp}
      {ans : op.Ans} {s₁ : σ} {c' : Catalog} {e : Exc} (hask : core.Asks w.catalog call name a op)
      (hcall : a.call op w.store = (.ok ans, s₁)) (hc : w.catalog.Still c') :
      Did env core call w (.error e) { catalog := c', store := s₁ }
  | ingested {t : String} {episode : Episode} {scope : Scope} {asserted : Option String}
      {w : World σ} {name : String} {a : Adapter σ} {memories : List ProviderMemory} {s₁ : σ}
      {rows : List CatalogRow} {c₁ c₂ : Catalog} {r : Except Exc Reply}
      (hask : core.Asks w.catalog (.ingest t episode scope asserted) name a
        (.ingest episode (scope.under t)))
      (hcall : a.call (.ingest episode (scope.under t)) w.store = (.ok memories, s₁))
      (hmap : Mapped env t name (hitItems memories) scope true w.catalog rows c₁)
      (hjournal : c₂ = if core.journalEnabled
        then (journal env t scope episode (ingestedTo name memories)
          (insertBinding env t scope.subject name c₁).2).2
        else (insertBinding env t scope.subject name c₁).2)
      (hr : ∀ reply, r = .ok reply →
        reply = .wrote { results := toRecords name memories (fun _ => scope) rows, provider := name } ∧
        (core.journalEnabled = true → ∃ id, (journal env t scope episode (ingestedTo name memories)
          (insertBinding env t scope.subject name c₁).2).1 = .ok id)) :
      Did env core (.ingest t episode scope asserted) w r { catalog := c₂, store := s₁ }
  | upserted {t : String} {facts : List String} {scope : Scope} {asserted : Option String}
      {w : World σ} {name : String} {a : Adapter σ} {memories : List ProviderMemory} {s₁ : σ}
      {rows : List CatalogRow} {c₁ : Catalog}
      (hask : core.Asks w.catalog (.upsert t facts scope asserted) name a
        (.upsert facts (scope.under t)))
      (hcall : a.call (.upsert facts (scope.under t)) w.store = (.ok memories, s₁))
      (hmap : Mapped env t name (hitItems memories) scope true w.catalog rows c₁) :
      Did env core (.upsert t facts scope asserted) w
        (.ok (.wrote { results := toRecords name memories (fun _ => scope) rows, provider := name }))
        { catalog := (insertBinding env t scope.subject name c₁).2, store := s₁ }
  | updated {t gatewayId content : String} {w : World σ} {row : CatalogRow} {a : Adapter σ}
      {memory : ProviderMemory} {s₁ : σ} {rows : List CatalogRow} {c₁ : Catalog}
      {r : Except Exc Reply}
      (hrow : resolveGatewayId t gatewayId w.catalog = some row)
      (hask : core.Asks w.catalog (.update t gatewayId content) row.provider a
        (.update row.nativeId content))
      (hcall : a.call (.update row.nativeId content) w.store = (.ok memory, s₁))
      (hmap : Mapped env t row.provider [(memory.nativeId, content)] row.scope true w.catalog rows c₁)
      (hr : ∀ reply, r = .ok reply →
        reply = .memory (toRecord row.gatewayId row.provider memory row.scope)) :
      Did env core (.update t gatewayId content) w r { catalog := c₁, store := s₁ }
  | searched {t : String} {query : SearchQuery} {scope : Scope} {asserted : Option String}
      {w : World σ} {name : String} {a : Adapter σ} {decision : DegradeResult}
      {memories : List ProviderMemory} {s₁ : σ} {rows : List CatalogRow} {c₁ : Catalog}
      {reply : SearchResult}
      (hask : core.Asks w.catalog (.search t query scope asserted) name a
        (.search (query.effective decision.served a.capabilities) (scope.under t)))
      (hcall : a.call (.search (query.effective decision.served a.capabilities) (scope.under t))
        w.store = (.ok memories, s₁))
      (hmap : Mapped env t name (hitItems memories) scope false w.catalog rows c₁)
      (hresults : reply.results = toRecords name memories CatalogRow.scope rows) :
      Did env core (.search t query scope asserted) w (.ok (.found reply))
        { catalog := c₁, store := s₁ }
  | listed {t : String} {scope : Scope} {limit : Nat} {asserted : Option String}
      {w : World σ} {name : String} {a : Adapter σ}
      {memories : List ProviderMemory} {s₁ : σ} {rows : List CatalogRow} {c₁ : Catalog}
      (hask : core.Asks w.catalog (.listScope t scope limit asserted) name a
        (.listScope (scope.under t) (min limit a.capabilities.maxLimit)))
      (hcall : a.call (.listScope (scope.under t) (min limit a.capabilities.maxLimit)) w.store =
        (.ok memories, s₁))
      (hmap : Mapped env t name (hitItems memories) scope false w.catalog rows c₁) :
      Did env core (.listScope t scope limit asserted) w
        (.ok (.listed (toRecords name memories CatalogRow.scope rows)))
        { catalog := c₁, store := s₁ }
  | got {t gatewayId : String} {w : World σ} {row : CatalogRow} {a : Adapter σ}
      {memory : ProviderMemory} {s₁ : σ}
      (hrow : resolveGatewayId t gatewayId w.catalog = some row)
      (hask : core.Asks w.catalog (.get t gatewayId) row.provider a (.get row.nativeId))
      (hcall : a.call (.get row.nativeId) w.store = (.ok (some memory), s₁)) :
      Did env core (.get t gatewayId) w
        (.ok (.memory (toRecord row.gatewayId row.provider memory row.scope)))
        { catalog := w.catalog, store := s₁ }
  | deleted {t gatewayId : String} {w : World σ} {row : CatalogRow} {a : Adapter σ} {b : Bool}
      {s₁ : σ} (hrow : resolveGatewayId t gatewayId w.catalog = some row)
      (hask : core.Asks w.catalog (.delete t gatewayId) row.provider a (.delete row.nativeId))
      (hcall : a.call (.delete row.nativeId) w.store = (.ok b, s₁)) :
      Did env core (.delete t gatewayId) w (.ok .deleted)
        { catalog := (markDeleted env t gatewayId w.catalog).2, store := s₁ }
  | erased {t : String} {scope : Scope} {asserted : Option String} {w : World σ} {name : String}
      {a : Adapter σ} {removed : Nat} {s₁ : σ}
      (hask : core.Asks w.catalog (.deleteScope t scope asserted) name a
        (.deleteScope (scope.under t)))
      (hcall : a.call (.deleteScope (scope.under t)) w.store = (.ok removed, s₁)) :
      Did env core (.deleteScope t scope asserted) w (.ok (.erased removed))
        { catalog := (deleteJournal t scope (markScopeDeleted env t scope name w.catalog).2).2
          store := s₁ }
  | rebound {t subject provider : String} {strategy : RebindStrategy} {w : World σ}
      {result : RebindResult} :
      Did env core (.rebind t subject provider strategy) w (.ok (.rebound result))
        { w with catalog := (replaceBinding env t subject provider (getBinding t subject w.catalog)
            w.catalog).2 }

/-! ## Rules for the parts of a verb -/

section

variable {core : MemoryCore σ} {t : String}

theorem wp_prepare {scope : Scope} {asserted : Option String}
    {Q : Except Exc (MemoryCore.Prepared σ) → World σ → Prop}
    (hok : ∀ name a, core.Prepares w.catalog t scope asserted name a →
      Q (.ok { name := name, adapter := a, bound := scope.under t }) w)
    (herr : ∀ e, Q (.error e) w) : (core.prepare t scope asserted).wp (handle env) Q w := by
  simp only [MemoryCore.prepare, resolveProvider, Prog.bind_eq, Prog.wp_bind]
  rw [wp_transact]
  refine wp_check (fun name hname => ?_) (fun e _ => herr _)
  refine wp_check (fun a ha => ?_) (fun e _ => herr _)
  exact wp_check (fun u hs => hok name a ⟨hname, ha, hs⟩) (fun e _ => herr _)

theorem wp_issuedRow {gatewayId : String} {Q : Except Exc CatalogRow → World σ → Prop}
    (hok : ∀ row, resolveGatewayId t gatewayId w.catalog = some row → Q (.ok row) w)
    (herr : ∀ e, Q (.error e) w) : (issuedRow t gatewayId).wp (handle env) Q w := by
  simp only [issuedRow, Prog.bind_eq, Prog.wp_bind]
  rw [wp_transact]
  refine wp_check (fun row hrow => ?_) (fun e _ => herr _)
  cases hres : resolveGatewayId t gatewayId w.catalog with
  | none => simp [hres] at hrow
  | some row' =>
    obtain rfl : row' = row := by simpa [CatalogOp.exec, hres] using hrow
    exact hok row' hres

variable {name : String} {a : Adapter σ} {op : AdapterOp}

theorem wp_callAdapter {Q : Except Exc op.Ans → World σ → Prop} :
    (callAdapter name a op).wp (handle env) Q w ↔
      Q (a.call op w.store).1 { w with store := (a.call op w.store).2 } :=
  Prog.wp_perform

/-- Classifying a failure costs at most one question after the provider's health. -/
theorem wp_raiseFailure {α : Type} {exc : Exc} {Q : Except Exc α → World σ → Prop}
    (herr : ∀ e, Q (.error e) { w with store := (a.call .health w.store).2 }) :
    (raiseFailure name a exc : CoreProg σ α).wp (handle env) Q w := by
  simp only [raiseFailure, failure, Prog.bind_eq, Prog.wp_bind, Prog.wp_tryCatch]
  rw [wp_callAdapter]
  cases hcall : (a.call .health w.store).1 with
  | ok health => exact herr _
  | error e =>
    simp only
    split
    · exact herr _
    · exact herr _

theorem wp_searchFailed {query : SearchQuery} {exc : Exc}
    {Q : Except Exc SearchResult → World σ → Prop}
    (hopen : query.failOpen = true →
      Q (.ok { results := [], provider := name, providerUnavailable := true }) w)
    (herr : ∀ e s, (s = w.store ∨ s = (a.call .health w.store).2) →
      Q (.error e) { w with store := s }) :
    (MemoryCore.searchFailed query name a exc).wp (handle env) Q w := by
  have houtage : ∀ exc, (MemoryCore.outage query name a exc).wp (handle env) Q w := by
    intro exc
    unfold MemoryCore.outage
    split
    · rename_i h
      exact hopen h
    · exact wp_raiseFailure (fun e => herr e _ (.inr rfl))
  cases exc with
  | gateway e =>
    simp only [MemoryCore.searchFailed]
    split
    · exact herr _ _ (.inl rfl)
    · exact houtage _
  | cancelled => exact herr _ _ (.inl rfl)
  | integrity text => exact houtage _
  | other kind text => exact houtage _

theorem wp_call {Q : Except Exc op.Ans → World σ → Prop}
    (hok : ∀ ans s₁, a.call op w.store = (.ok ans, s₁) →
      Q (.ok ans) { catalog := w.catalog, store := s₁ })
    (herr : ∀ e e' s₁ s₂, a.call op w.store = (.error e, s₁) →
      (s₂ = s₁ ∨ s₂ = (a.call .health s₁).2) →
      Q (.error e') { catalog := w.catalog, store := s₂ }) :
    (call name a op).wp (handle env) Q w := by
  rw [call, Prog.wp_tryCatch, wp_callAdapter]
  cases hcall : a.call op w.store with
  | mk r s₁ =>
    cases r with
    | ok ans => exact hok ans s₁ hcall
    | error e =>
      cases e with
      | gateway e => exact herr _ _ s₁ s₁ hcall (.inl rfl)
      | cancelled => exact herr _ _ s₁ s₁ hcall (.inl rfl)
      | integrity text => exact wp_raiseFailure (fun e => herr _ e s₁ _ hcall (.inr rfl))
      | other kind text => exact wp_raiseFailure (fun e => herr _ e s₁ _ hcall (.inr rfl))

theorem wp_mapPage {items : List (String × String)} {scope : Scope} {revive : Bool}
    {Q : Except Exc (List CatalogRow) → World σ → Prop}
    (hok : ∀ rows c', Mapped env t name items scope revive w.catalog rows c' →
      Q (.ok rows) { w with catalog := c' })
    (herr : ∀ e c', w.catalog.Still c' → Q (.error e) { w with catalog := c' }) :
    (mapPage t name items scope revive).wp (handle env) Q w := by
  refine Prog.wp_mono (fun r w' hr => ?_) mapPage_spec
  obtain ⟨c', s'⟩ := w'
  obtain ⟨rfl, hr⟩ := hr
  cases r with
  | ok rows => exact hok rows c' hr
  | error e => exact herr e c' hr.1

theorem wp_writtenRecords {memories : List ProviderMemory} {scope : Scope}
    {Q : Except Exc (List MemoryRecord) → World σ → Prop}
    (hok : ∀ rows c', Mapped env t name (hitItems memories) scope true w.catalog rows c' →
      Q (.ok (toRecords name memories (fun _ => scope) rows)) { w with catalog := c' })
    (herr : ∀ e c', w.catalog.Still c' → Q (.error e) { w with catalog := c' }) :
    (writtenRecords t name memories scope).wp (handle env) Q w := by
  rw [writtenRecords_eq, Prog.wp_bind]
  exact wp_mapPage (fun rows c' hmap => hok rows c' hmap) herr

theorem wp_mapHits {memories : List ProviderMemory} {scope : Scope}
    {Q : Except Exc (List MemoryRecord) → World σ → Prop}
    (hok : ∀ rows c', Mapped env t name (hitItems memories) scope false w.catalog rows c' →
      Q (.ok (toRecords name memories CatalogRow.scope rows)) { w with catalog := c' })
    (herr : ∀ e c', w.catalog.Still c' → Q (.error e) { w with catalog := c' }) :
    (mapHits t name memories scope).wp (handle env) Q w := by
  rw [mapHits_eq, Prog.wp_bind]
  exact wp_mapPage (fun rows c' hmap => hok rows c' hmap) herr

/-- Binding leaves what its insertion leaves. -/
theorem wp_bind_subject {subject : String} {Q : Except Exc String → World σ → Prop}
    (hok : ∀ p, Q (.ok p) { w with catalog := (insertBinding env t subject name w.catalog).2 }) :
    (bind t subject name).wp (handle env) Q w :=
  Prog.wp_of_run bind_run (hok _)

theorem wp_rebindSubject {subject : String} {Q : Except Exc RebindResult → World σ → Prop}
    (hok : ∀ result, Q (.ok result) { w with catalog := (replaceBinding env t subject name
      (getBinding t subject w.catalog) w.catalog).2 }) :
    (rebindSubject t subject name).wp (handle env) Q w :=
  Prog.wp_of_run rebindSubject_run (hok _)

end

/-! ## The list is complete -/

section

variable {core : MemoryCore σ} {t : String}

theorem ingest_did {episode : Episode} {scope : Scope} {asserted : Option String} :
    (core.exec (.ingest t episode scope asserted)).wp (handle env)
      (core.Did env (.ingest t episode scope asserted) w) w := by
  simp only [MemoryCore.exec, MemoryCore.ingest, Prog.bind_eq, Prog.wp_bind, wp_observe, wp_note,
    Prog.pure_eq, Prog.wp_ret]
  refine wp_prepare (fun name a hp => ?_) (fun e => .refused)
  refine wp_refuseIf (fun hcap => ?_) (fun _ => .refused)
  have hask : core.Asks w.catalog (.ingest t episode scope asserted) name a
      (.ingest episode (scope.under t)) := .ingest hp (by simpa using hcap)
  refine wp_call (fun memories s₁ hcall => ?_) (fun e e' s₁ s₂ hcall hs => .failed hask hcall hs)
  refine wp_writtenRecords (fun rows c₁ hmap => ?_) (fun e c' hc => .unsettled hask hcall hc)
  refine wp_bind_subject (fun p => ?_)
  cases hj : core.journalEnabled with
  | false =>
    exact .ingested hask hcall hmap (by simp [hj]) (fun reply hreply =>
      ⟨(Except.ok.inj hreply).symm, fun h => by simp [hj] at h⟩)
  | true =>
    simp only [runIf, if_true, Prog.wp_bind]
    rw [wp_transact]
    simp only [CatalogOp.exec]
    cases hx : (journal env t scope episode [(name, memories.map ProviderMemory.nativeId)]
        (insertBinding env t scope.subject name c₁).2).1 with
    | error e =>
      exact .ingested hask hcall hmap (by simp [hj, ingestedTo]) (fun reply hreply => by cases hreply)
    | ok id =>
      exact .ingested hask hcall hmap (by simp [hj, ingestedTo]) (fun reply hreply =>
        ⟨(Except.ok.inj hreply).symm, fun _ => ⟨id, hx⟩⟩)

theorem upsert_did {facts : List String} {scope : Scope} {asserted : Option String} :
    (core.exec (.upsert t facts scope asserted)).wp (handle env)
      (core.Did env (.upsert t facts scope asserted) w) w := by
  simp only [MemoryCore.exec, MemoryCore.upsert, Prog.bind_eq, Prog.wp_bind, wp_observe, wp_note,
    Prog.pure_eq, Prog.wp_ret]
  refine wp_refuseIf (fun hne => ?_) (fun _ => .refused)
  refine wp_prepare (fun name a hp => ?_) (fun e => .refused)
  refine wp_refuseIf (fun hcap => ?_) (fun _ => .refused)
  have hask : core.Asks w.catalog (.upsert t facts scope asserted) name a
      (.upsert facts (scope.under t)) := .upsert (by simpa using hne) hp (by simpa using hcap)
  refine wp_call (fun memories s₁ hcall => ?_) (fun e e' s₁ s₂ hcall hs => .failed hask hcall hs)
  refine wp_writtenRecords (fun rows c₁ hmap => ?_) (fun e c' hc => .unsettled hask hcall hc)
  exact wp_bind_subject (fun p => .upserted hask hcall hmap)

theorem update_did {gatewayId content : String} :
    (core.exec (.update t gatewayId content)).wp (handle env)
      (core.Did env (.update t gatewayId content) w) w := by
  simp only [MemoryCore.exec, MemoryCore.update, Prog.bind_eq, Prog.wp_bind, wp_observe, wp_note,
    Prog.pure_eq, Prog.wp_ret, record]
  refine wp_issuedRow (fun row hrow => ?_) (fun e => .refused)
  refine wp_check (fun a ha => ?_) (fun e _ => .refused)
  refine wp_refuseIf (fun hcap => ?_) (fun _ => .refused)
  have hask : core.Asks w.catalog (.update t gatewayId content) row.provider a
      (.update row.nativeId content) := .update hrow ha (by simpa using hcap)
  refine wp_call (fun memory s₁ hcall => ?_) (fun e e' s₁ s₂ hcall hs => .failed hask hcall hs)
  refine wp_mapPage (fun rows c₁ hmap => ?_) (fun e c' hc => .unsettled hask hcall hc)
  -- `[row] = …` fails to unpack anything but one row
  rcases rows with _ | ⟨_, _ | ⟨_, _⟩⟩
  · exact .updated hrow hask hcall hmap (fun _ hreply => by cases hreply)
  · exact .updated hrow hask hcall hmap (fun _ hreply => (Except.ok.inj hreply).symm)
  · exact .updated hrow hask hcall hmap (fun _ hreply => by cases hreply)

theorem search_did {query : SearchQuery} {scope : Scope} {asserted : Option String} :
    (core.exec (.search t query scope asserted)).wp (handle env)
      (core.Did env (.search t query scope asserted) w) w := by
  simp only [MemoryCore.exec, MemoryCore.search, Prog.bind_eq, Prog.wp_bind, wp_observe, wp_note,
    Prog.pure_eq, Prog.wp_ret, Prog.wp_attempt]
  refine wp_prepare (fun name a hp => ?_) (fun e => .refused)
  refine wp_check (fun u hasOf => ?_) (fun e _ => .refused)
  refine wp_check (fun decision hmode => ?_) (fun e _ => .refused)
  have hasOf : query.asOf.isSome = true → .temporal ∈ a.capabilities.searchModes := by
    intro hsome
    simp only [hsome, if_true, assertAsOfSupported] at hasOf
    split at hasOf
    · assumption
    · cases hasOf
  have hask := MemoryCore.Asks.search hp hasOf hmode
  refine wp_callAdapter.mpr ?_
  cases hcall : a.call (.search (query.effective decision.served a.capabilities) (scope.under t))
      w.store with
  | mk r s₁ =>
    cases r with
    | error e =>
      exact wp_searchFailed (fun hopen => .failedOpen hask hcall hopen)
        (fun e s hs => .failed hask hcall hs)
    | ok memories =>
      simp only [Prog.wp_bind, wp_note, Prog.wp_ret]
      exact wp_mapHits (fun rows c₁ hmap => .searched hask hcall hmap rfl)
        (fun e c' hc => .unsettled hask hcall hc)

theorem listScope_did {scope : Scope} {limit : Nat} {asserted : Option String} :
    (core.exec (.listScope t scope limit asserted)).wp (handle env)
      (core.Did env (.listScope t scope limit asserted) w) w := by
  simp only [MemoryCore.exec, MemoryCore.listScope, Prog.bind_eq, Prog.wp_bind, wp_observe, wp_note,
    Prog.pure_eq, Prog.wp_ret]
  refine wp_prepare (fun name a hp => ?_) (fun e => .refused)
  refine wp_refuseIf (fun hcap => ?_) (fun _ => .refused)
  obtain ⟨hhas, hcap⟩ : a.hasListScope = true ∧ a.capabilities.supportsList = true := by
    simpa using hcap
  have hask : core.Asks w.catalog (.listScope t scope limit asserted) name a
      (.listScope (scope.under t) (min limit a.capabilities.maxLimit)) := .listScope hp hhas hcap
  refine wp_call (fun memories s₁ hcall => ?_) (fun e e' s₁ s₂ hcall hs => .failed hask hcall hs)
  exact wp_mapHits (fun rows c₁ hmap => .listed hask hcall hmap)
    (fun e c' hc => .unsettled hask hcall hc)

theorem get_did {gatewayId : String} :
    (core.exec (.get t gatewayId)).wp (handle env) (core.Did env (.get t gatewayId) w) w := by
  simp only [MemoryCore.exec, MemoryCore.get, Prog.bind_eq, Prog.wp_bind, wp_observe, wp_note,
    Prog.pure_eq, Prog.wp_ret]
  refine wp_issuedRow (fun row hrow => ?_) (fun e => .refused)
  refine wp_check (fun a ha => ?_) (fun e _ => .refused)
  have hask := MemoryCore.Asks.get hrow ha
  refine wp_call (fun memory s₁ hcall => ?_) (fun e e' s₁ s₂ hcall hs => .failed hask hcall hs)
  cases memory with
  | none => exact .unsettled hask hcall (.refl _)
  | some memory => exact .got hrow hask hcall

theorem delete_did {gatewayId : String} :
    (core.exec (.delete t gatewayId)).wp (handle env) (core.Did env (.delete t gatewayId) w) w := by
  simp only [MemoryCore.exec, MemoryCore.delete, Prog.bind_eq, Prog.wp_bind, wp_observe, wp_note,
    Prog.pure_eq, Prog.wp_ret]
  refine wp_issuedRow (fun row hrow => ?_) (fun e => .refused)
  refine wp_check (fun a ha => ?_) (fun e _ => .refused)
  refine wp_check (fun u hcap => ?_) (fun e _ => .refused)
  have hcap : a.capabilities.supportsDelete = true := by
    by_contra hno
    simp [assertDeleteSupported, hno] at hcap
  have hask := MemoryCore.Asks.delete hrow ha hcap
  refine wp_call (fun b s₁ hcall => ?_) (fun e e' s₁ s₂ hcall hs => .failed hask hcall hs)
  refine wp_transact.mpr ?_
  exact .deleted hrow hask hcall

theorem deleteScope_did {scope : Scope} {asserted : Option String} :
    (core.exec (.deleteScope t scope asserted)).wp (handle env)
      (core.Did env (.deleteScope t scope asserted) w) w := by
  simp only [MemoryCore.exec, MemoryCore.deleteScope, Prog.bind_eq, Prog.wp_bind, wp_observe,
    wp_note, Prog.pure_eq, Prog.wp_ret]
  refine wp_prepare (fun name a hp => ?_) (fun e => .refused)
  refine wp_check (fun u hcap => ?_) (fun e _ => .refused)
  have hcap : a.capabilities.supportsDeleteByScope = true := by
    by_contra hno
    simp [assertDeleteSupported, hno] at hcap
  have hask := MemoryCore.Asks.deleteScope hp hcap
  refine wp_call (fun removed s₁ hcall => ?_) (fun e e' s₁ s₂ hcall hs => .failed hask hcall hs)
  refine wp_transact.mpr ?_
  refine wp_transact.mpr ?_
  exact .erased hask hcall

theorem rebind_did {subject provider : String} {strategy : RebindStrategy} :
    (core.exec (.rebind t subject provider strategy)).wp (handle env)
      (core.Did env (.rebind t subject provider strategy) w) w := by
  simp only [MemoryCore.exec, MemoryCore.rebind, Prog.bind_eq, Prog.wp_bind, wp_observe, wp_note,
    Prog.pure_eq, Prog.wp_ret]
  refine wp_refuseIf (fun _ => ?_) (fun _ => .refused)
  refine wp_check (fun a _ => ?_) (fun e _ => .refused)
  exact wp_rebindSubject fun result => .rebound

/-- Every run of a verb is one of the listed cases. -/
theorem exec_did (core : MemoryCore σ) (call : Call) :
    (core.exec call).wp (handle env) (core.Did env call w) w := by
  cases call with
  | ingest => exact ingest_did
  | upsert => exact upsert_did
  | update => exact update_did
  | search => exact search_did
  | listScope => exact listScope_did
  | get => exact get_did
  | delete => exact delete_did
  | deleteScope => exact deleteScope_did
  | rebind => exact rebind_did

end

/-! ## Runs that get through -/

section

variable {core : MemoryCore σ} {t name : String} {a : Adapter σ} {scope : Scope}
  {asserted : Option String}

theorem prepare_run (hp : core.Prepares w.catalog t scope asserted name a) :
    (core.prepare t scope asserted).run (handle env) w =
      (.ok { name := name, adapter := a, bound := scope.under t }, w) := by
  suffices h : (core.prepare t scope asserted).wp (handle env)
      (fun r w' => (r, w') = (.ok { name := name, adapter := a, bound := scope.under t }, w)) w from h
  simp only [MemoryCore.prepare, resolveProvider, Prog.bind_eq, Prog.wp_bind]
  rw [wp_transact]
  simp only [CatalogOp.exec, hp.chosen]
  refine wp_check (fun name' h => ?_) (fun e h => by cases h)
  obtain rfl := Except.ok.inj h
  refine wp_check (fun a' h => ?_) (fun e h => by cases hp.configured.symm.trans h)
  obtain rfl := Except.ok.inj (hp.configured.symm.trans h)
  exact wp_check (fun _ _ => rfl) (fun e h => by cases hp.supported.symm.trans h)

theorem call_run {op : AdapterOp} {ans : op.Ans} {s₁ : σ}
    (hcall : a.call op w.store = (.ok ans, s₁)) :
    (call name a op).run (handle env) w = (.ok ans, { catalog := w.catalog, store := s₁ }) := by
  suffices h : (call name a op).wp (handle env)
      (fun r w' => (r, w') = (.ok ans, { catalog := w.catalog, store := s₁ })) w from h
  rw [call, Prog.wp_tryCatch]
  refine wp_callAdapter.mpr ?_
  rw [hcall]

/-- A page whose first attempt succeeds is mapped as that attempt maps it. -/
theorem mapPage_run {items : List (String × String)} {revive : Bool} {rows : List CatalogRow}
    {c' : Catalog} (hnil : items ≠ [])
    (hmap : mapAttempt env t name items scope revive w.catalog = (.ok rows, c')) :
    (mapPage t name items scope revive).run (handle env) w =
      (.ok rows, { w with catalog := c' }) := by
  suffices h : (mapPage t name items scope revive).wp (handle env) (fun r w' =>
      (r, w') = (.ok rows, { w with catalog := c' })) w from h
  simp only [mapPage, hnil, if_false, retries, mapPage.attempts, Prog.wp_tryCatch]
  refine wp_transact.mpr ?_
  simp only [CatalogOp.exec, hmap]

/-- Without a rival, a page of distinct native ids is mapped. -/
theorem mapPage_succeeds {items : List (String × String)} {revive : Bool}
    (hminted : w.catalog.Minted env) (hnodup : (items.map Prod.fst).Nodup) :
    ∃ rows c', (mapPage t name items scope revive).run (handle env) w =
        (.ok rows, { w with catalog := c' }) ∧
      Mapped env t name items scope revive w.catalog rows c' := by
  obtain ⟨rows, c', hmap⟩ : ∃ rows c',
      mapAttempt env t name items scope revive w.catalog = (.ok rows, c') :=
    mapAttempt_succeeds hminted hnodup
  by_cases hnil : items = []
  · subst hnil
    exact ⟨[], w.catalog, rfl, .nil⟩
  · exact ⟨rows, c', mapPage_run hnil hmap, mapAttempt_ok hmap⟩

theorem hitItems_natives {memories : List ProviderMemory} :
    (hitItems memories).map Prod.fst = memories.map ProviderMemory.nativeId := by
  simp [hitItems]

/-- Without a rival, hits with distinct native ids are mapped. -/
theorem mapHits_succeeds {memories : List ProviderMemory} (hminted : w.catalog.Minted env)
    (hnodup : (memories.map ProviderMemory.nativeId).Nodup) :
    ∃ rows c', (mapHits t name memories scope).run (handle env) w =
        (.ok (toRecords name memories CatalogRow.scope rows), { w with catalog := c' }) ∧
      Mapped env t name (hitItems memories) scope false w.catalog rows c' := by
  obtain ⟨rows, c', hrun, hmap⟩ := mapPage_succeeds hminted (hitItems_natives ▸ hnodup)
  refine ⟨rows, c', ?_, hmap⟩
  rw [mapHits_eq, Prog.run_bind, hrun]
  rfl

/-- And so are the memories of a write. -/
theorem writtenRecords_succeeds {memories : List ProviderMemory} (hminted : w.catalog.Minted env)
    (hnodup : (memories.map ProviderMemory.nativeId).Nodup) :
    ∃ records c', (writtenRecords t name memories scope).run (handle env) w =
      (.ok records, { w with catalog := c' }) := by
  obtain ⟨rows, c', hrun, -⟩ := mapPage_succeeds hminted (hitItems_natives ▸ hnodup)
  refine ⟨toRecords name memories (fun _ => scope) rows, c', ?_⟩
  rw [writtenRecords_eq, Prog.run_bind, hrun]
  rfl

/-- An upsert whose adapter answers with distinct native ids returns. -/
theorem upsert_returns {facts : List String} {memories : List ProviderMemory} {s₁ : σ}
    (hask : core.Asks w.catalog (.upsert t facts scope asserted) name a
      (.upsert facts (scope.under t)))
    (hcall : a.call (.upsert facts (scope.under t)) w.store = (.ok memories, s₁))
    (hminted : w.catalog.Minted env) (hnodup : (memories.map ProviderMemory.nativeId).Nodup) :
    (core.exec (.upsert t facts scope asserted)).wp (handle env)
      (fun r _ => ∃ reply, r = .ok reply) w := by
  cases hask with
  | upsert hne hp hcap =>
    simp only [MemoryCore.exec, MemoryCore.upsert, Prog.bind_eq, Prog.wp_bind, wp_observe, wp_note,
      Prog.pure_eq, Prog.wp_ret]
    refine wp_refuseIf (fun _ => ?_) (fun h => absurd (by simpa using h) hne)
    refine Prog.wp_of_run (prepare_run hp) ?_
    refine wp_refuseIf (fun _ => ?_) (fun h => by simp [hcap] at h)
    refine Prog.wp_of_run (call_run hcall) ?_
    obtain ⟨records, c', hrun⟩ : ∃ records c', (writtenRecords t name memories scope).run
        (handle env) { w with store := s₁ } = (.ok records, { catalog := c', store := s₁ }) :=
      writtenRecords_succeeds hminted hnodup
    refine Prog.wp_of_run hrun ?_
    exact wp_bind_subject fun p => ⟨_, rfl⟩

/-- A search whose adapter answers is what mapping the hits makes of it. -/
theorem search_run (query : SearchQuery) {decision : DegradeResult}
    {memories : List ProviderMemory} {s₁ : σ}
    (hp : core.Prepares w.catalog t scope asserted name a)
    (hasOf : query.asOf.isSome = true → .temporal ∈ a.capabilities.searchModes)
    (hmode : resolveMode query.mode a.capabilities query.onUnsupported = .ok decision)
    (hcall : a.call (.search (query.effective decision.served a.capabilities) (scope.under t))
      w.store = (.ok memories, s₁)) {records : List MemoryRecord} {w' : World σ}
    (hmap : (mapHits t name memories scope).run (handle env) { catalog := w.catalog, store := s₁ } =
      (.ok records, w')) :
    (core.exec (.search t query scope asserted)).run (handle env) w =
      (.ok (.found { results := records, provider := name, degraded := decision.degraded
                     requested := some query.mode, served := some decision.served
                     lost := decision.lost }), w') := by
  suffices h : (core.exec (.search t query scope asserted)).wp (handle env) (fun r w'' =>
      (r, w'') = (.ok (.found { results := records, provider := name, degraded := decision.degraded
                                requested := some query.mode, served := some decision.served
                                lost := decision.lost }), w')) w from h
  simp only [MemoryCore.exec, MemoryCore.search, Prog.bind_eq, Prog.wp_bind, wp_observe, wp_note,
    Prog.pure_eq, Prog.wp_ret, Prog.wp_attempt]
  refine Prog.wp_of_run (prepare_run hp) ?_
  refine wp_check (fun u _ => ?_) (fun e h => ?_)
  · refine wp_check (fun decision' h => ?_) (fun e h => by cases hmode.symm.trans h)
    obtain rfl := Except.ok.inj (hmode.symm.trans h)
    refine wp_callAdapter.mpr ?_
    rw [hcall]
    simp only [Prog.wp_bind, wp_note, Prog.wp_ret]
    exact Prog.wp_of_run hmap rfl
  · split at h
    · rename_i hsome
      simp [assertAsOfSupported, hasOf hsome] at h
    · cases h

/-- A get whose row is live and whose adapter still has the memory hands it out. -/
theorem get_run {gatewayId : String} {row : CatalogRow} {memory : ProviderMemory} {s₁ : σ}
    (hrow : resolveGatewayId t gatewayId w.catalog = some row)
    (ha : core.adapter row.provider = .ok a)
    (hcall : a.call (.get row.nativeId) w.store = (.ok (some memory), s₁)) :
    (core.exec (.get t gatewayId)).run (handle env) w =
      (.ok (.memory (toRecord row.gatewayId row.provider memory row.scope)),
        { catalog := w.catalog, store := s₁ }) := by
  suffices h : (core.exec (.get t gatewayId)).wp (handle env) (fun r w' =>
      (r, w') = (.ok (.memory (toRecord row.gatewayId row.provider memory row.scope)),
        { catalog := w.catalog, store := s₁ })) w from h
  simp only [MemoryCore.exec, MemoryCore.get, Prog.bind_eq, Prog.wp_bind, wp_observe, wp_note,
    Prog.pure_eq, Prog.wp_ret, issuedRow]
  refine wp_transact.mpr ?_
  simp only [CatalogOp.exec, hrow]
  refine wp_check (fun row' h => ?_) (fun e h => by cases h)
  obtain rfl := Except.ok.inj h
  refine wp_check (fun a' h => ?_) (fun e h => by cases ha.symm.trans h)
  obtain rfl := Except.ok.inj (ha.symm.trans h)
  exact Prog.wp_of_run (call_run hcall) rfl

/-- A get of an id without a live row of the tenant is refused. -/
theorem get_missing_run {gatewayId : String}
    (hrow : resolveGatewayId t gatewayId w.catalog = none) :
    (core.exec (.get t gatewayId)).run (handle env) w =
      (.error (.gateway (ErrorClass.memoryNotFound.error
        s!"no memory {Text.quoted gatewayId}" [])), w) := by
  suffices h : (core.exec (.get t gatewayId)).wp (handle env) (fun r w' =>
      (r, w') = (.error (.gateway (ErrorClass.memoryNotFound.error
        s!"no memory {Text.quoted gatewayId}" [])), w)) w from h
  simp only [MemoryCore.exec, MemoryCore.get, Prog.bind_eq, Prog.wp_bind, wp_observe, issuedRow]
  refine wp_transact.mpr ?_
  simp only [CatalogOp.exec, hrow]
  exact wp_check (fun row h => by cases h) (fun e h => by cases h; rfl)

/-- A verb that found a row and its adapter goes on with them. -/
theorem issuedRow_run {gatewayId : String} {row : CatalogRow}
    (hrow : resolveGatewayId t gatewayId w.catalog = some row) :
    (issuedRow t gatewayId).run (handle env) w = (.ok row, w) := by
  suffices h : (issuedRow t gatewayId).wp (handle env) (fun r w' => (r, w') = (.ok row, w)) w from h
  simp only [issuedRow, Prog.bind_eq, Prog.wp_bind]
  refine wp_transact.mpr ?_
  simp only [CatalogOp.exec, hrow]
  exact wp_check (fun row' h => by cases h; rfl) (fun e h => by cases h)

/-- Once its adapter has answered, an ingest returns. -/
theorem ingest_returns {episode : Episode} {memories : List ProviderMemory} {s₁ : σ}
    (hask : core.Asks w.catalog (.ingest t episode scope asserted) name a
      (.ingest episode (scope.under t)))
    (hcall : a.call (.ingest episode (scope.under t)) w.store = (.ok memories, s₁))
    (hminted : w.catalog.Minted env) (hnumbered : w.catalog.Numbered env)
    (hnodup : (memories.map ProviderMemory.nativeId).Nodup) :
    (core.exec (.ingest t episode scope asserted)).wp (handle env)
      (fun r _ => ∃ reply, r = .ok reply) w := by
  cases hask with
  | ingest hp hcap =>
    simp only [MemoryCore.exec, MemoryCore.ingest, Prog.bind_eq, Prog.wp_bind, wp_observe, wp_note,
      Prog.pure_eq, Prog.wp_ret]
    refine Prog.wp_of_run (prepare_run hp) ?_
    refine wp_refuseIf (fun _ => ?_) (fun h => by simp [hcap] at h)
    refine Prog.wp_of_run (call_run hcall) ?_
    obtain ⟨rows, c', hrun, hmap⟩ : ∃ rows c', (mapPage t name (hitItems memories) scope true).run
        (handle env) { w with store := s₁ } = (.ok rows, { catalog := c', store := s₁ }) ∧
          Mapped env t name (hitItems memories) scope true w.catalog rows c' :=
      mapPage_succeeds hminted (hitItems_natives ▸ hnodup)
    have hwritten : (writtenRecords t name memories scope).run (handle env)
        { w with store := s₁ } = (.ok (toRecords name memories (fun _ => scope) rows),
          { catalog := c', store := s₁ }) := by
      rw [writtenRecords_eq, Prog.run_bind, hrun]
      rfl
    refine Prog.wp_of_run hwritten ?_
    refine wp_bind_subject fun p => ?_
    cases hj : core.journalEnabled with
    | false => exact ⟨_, rfl⟩
    | true =>
      simp only [runIf, if_true, Prog.wp_bind]
      refine wp_transact.mpr ?_
      have hnum : (insertBinding env t scope.subject name c').2.Numbered env := by
        refine hnumbered.mono (fun j hj => hmap.journal ▸ ?_) (hmap.ticks.trans ?_)
        · simpa using hj
        · simp
      obtain ⟨id, hid⟩ : ∃ id, (journal env t scope episode
          [(name, memories.map ProviderMemory.nativeId)]
          (insertBinding env t scope.subject name c').2).1 = .ok id := journal_succeeds hnum
      simp only [CatalogOp.exec, hid, Prog.wp_ret]
      exact ⟨_, rfl⟩

theorem update_returns {gatewayId content : String} {row : CatalogRow} {memory : ProviderMemory}
    {s₁ : σ} (hrow : resolveGatewayId t gatewayId w.catalog = some row)
    (ha : core.adapter row.provider = .ok a) (hcap : a.capabilities.supportsUpdate = true)
    (hcall : a.call (.update row.nativeId content) w.store = (.ok memory, s₁))
    (hid : memory.nativeId = row.nativeId) (hminted : w.catalog.Minted env) :
    (core.exec (.update t gatewayId content)).wp (handle env)
      (fun r _ => r = .ok (.memory (toRecord row.gatewayId row.provider memory row.scope))) w := by
  obtain ⟨r, hr, -, ht, hlive, rfl⟩ := resolveGatewayId_some hrow
  simp only [MemoryCore.exec, MemoryCore.update, Prog.bind_eq, Prog.wp_bind, wp_observe, wp_note,
    Prog.pure_eq, Prog.wp_ret]
  refine Prog.wp_of_run (issuedRow_run hrow) ?_
  refine wp_check (fun a' h => ?_) (fun e h => by cases ha.symm.trans h)
  obtain rfl := Except.ok.inj (ha.symm.trans h)
  refine wp_refuseIf (fun _ => ?_) (fun h => by simp [hcap] at h)
  refine Prog.wp_of_run (call_run hcall) ?_
  obtain ⟨rows, c', hrun, hmap⟩ : ∃ rows c', (recordMany t r.toRow.provider
      [(memory.nativeId, content)] r.toRow.scope).run (handle env) { w with store := s₁ } =
        (.ok rows, { catalog := c', store := s₁ }) ∧
      Mapped env t r.toRow.provider [(memory.nativeId, content)] r.toRow.scope true w.catalog
        rows c' :=
    mapPage_succeeds hminted (by simp)
  simp only [record, Prog.bind_eq, Prog.wp_bind]
  refine Prog.wp_of_run hrun ?_
  -- the page of one native id has one row
  have hsingle : rows = [r.toRow] := by
    obtain ⟨r', hr', -, ht', hp', hn', hsame⟩ := hmap.survives hr
    obtain rfl := hsame hlive
    have hindexed : indexed c'.memoryIndex t r'.toRow.provider memory.nativeId = some r' := by
      rw [hid, ← ht]
      exact indexed_of_mem hr'
    simp [hmap.rows, liveRows, hindexed, hlive]
  rw [hsingle]
  exact trivial

theorem delete_returns {gatewayId : String} {row : CatalogRow} {b : Bool} {s₁ : σ}
    (hrow : resolveGatewayId t gatewayId w.catalog = some row)
    (ha : core.adapter row.provider = .ok a) (hcap : a.capabilities.supportsDelete = true)
    (hcall : a.call (.delete row.nativeId) w.store = (.ok b, s₁)) :
    (core.exec (.delete t gatewayId)).wp (handle env) (fun r _ => r = .ok .deleted) w := by
  simp only [MemoryCore.exec, MemoryCore.delete, Prog.bind_eq, Prog.wp_bind, wp_observe, wp_note,
    Prog.pure_eq, Prog.wp_ret]
  refine Prog.wp_of_run (issuedRow_run hrow) ?_
  refine wp_check (fun a' h => ?_) (fun e h => by cases ha.symm.trans h)
  obtain rfl := Except.ok.inj (ha.symm.trans h)
  refine wp_check (fun u _ => ?_) (fun e h => by simp [assertDeleteSupported, hcap] at h)
  refine Prog.wp_of_run (call_run hcall) ?_
  exact wp_transact.mpr trivial

theorem deleteScope_returns {removed : Nat} {s₁ : σ}
    (hask : core.Asks w.catalog (.deleteScope t scope asserted) name a
      (.deleteScope (scope.under t)))
    (hcall : a.call (.deleteScope (scope.under t)) w.store = (.ok removed, s₁)) :
    (core.exec (.deleteScope t scope asserted)).wp (handle env)
      (fun r _ => r = .ok (.erased removed)) w := by
  cases hask with
  | deleteScope hp hcap =>
    simp only [MemoryCore.exec, MemoryCore.deleteScope, Prog.bind_eq, Prog.wp_bind, wp_observe,
      wp_note, Prog.pure_eq, Prog.wp_ret]
    refine Prog.wp_of_run (prepare_run hp) ?_
    refine wp_check (fun u _ => ?_) (fun e h => by simp [assertDeleteSupported, hcap] at h)
    refine Prog.wp_of_run (call_run hcall) ?_
    refine wp_transact.mpr ?_
    exact wp_transact.mpr rfl

end

end Memgw
