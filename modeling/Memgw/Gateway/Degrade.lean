-- SUMMARY: What a configured provider can do, and the checks that refuse what it cannot.
import Memgw.Gateway.Types

/-!
# Capabilities and the degradation matrix

Degradation may reduce quality. It may never reduce isolation or deletability, so
of the four checks below only the one for the search mode knows a fallback.
-/

namespace Memgw

inductive MemoryModel where
  | flatFacts
  | temporalGraph
  | memoryBlocks
  | documents
  deriving DecidableEq, Repr

inductive Dedup where
  | none
  | provider
  | gateway
  deriving DecidableEq, Repr

inductive Consistency where
  | readAfterWrite
  | eventual
  deriving DecidableEq, Repr

structure Capabilities where
  supportsIngest : Bool
  supportsUpsert : Bool
  supportsUpdate : Bool
  supportsDelete : Bool
  supportsDeleteByScope : Bool
  supportsList : Bool := false
  searchModes : List SearchMode
  supportsScore : Bool
  maxLimit : Nat
  scopeDims : List ScopeDim
  supportsLabels : Bool
  memoryModel : MemoryModel
  dedup : Dedup
  supportsExport : Bool
  supportsImport : Bool
  consistency : Consistency
  experimental : Bool := false
  meteredExternally : Bool
  maxLimitPos : 0 < maxLimit := by decide
  deriving DecidableEq

theorem Capabilities.hundredPos : 0 < 100 := by decide

/-- `list(caps.search_modes)` in the details of an error. -/
def Capabilities.available (caps : Capabilities) : Value :=
  .strs (caps.searchModes.map SearchMode.name)

/-- The only permitted substitutions, with what each of them loses. -/
def substitutions : SearchMode → Option (SearchMode × List String)
  | .graph => some (.semantic, ["graph_traversal"])
  | .temporal => some (.semantic, ["fact_invalidation"])
  | .hybrid => some (.semantic, ["keyword_match"])
  | .semantic | .keyword => none

structure DegradeResult where
  served : SearchMode
  degraded : Bool
  lost : List String
  deriving DecidableEq, Repr

/-- Point-in-time recall never degrades: dropping `as_of` would answer another
    question than the one asked. -/
def assertAsOfSupported (caps : Capabilities) : Except GatewayError Unit :=
  if .temporal ∈ caps.searchModes then .ok ()
  else .error <| ErrorClass.unsupportedCapability.error
    ("provider cannot answer as-of a past time; serving the present instead " ++
      "would answer a different question")
    [("available", caps.available)]

def resolveMode (requested : SearchMode) (caps : Capabilities) (onUnsupported : OnUnsupported) :
    Except GatewayError DegradeResult :=
  if requested ∈ caps.searchModes then
    .ok { served := requested, degraded := false, lost := [] }
  else if onUnsupported = .reject then
    .error <| ErrorClass.unsupportedCapability.error
      s!"provider does not support {Text.quoted requested.name} search"
      [("requested", .str requested.name), ("available", caps.available)]
  else
    match substitutions requested with
    | some (served, lost) =>
      if served ∈ caps.searchModes then .ok { served := served, degraded := true, lost := lost }
      else .error (noFallback requested)
    | none => .error (noFallback requested)
where
  noFallback (requested : SearchMode) : GatewayError :=
    ErrorClass.unsupportedCapability.error
      s!"no permitted fallback for {Text.quoted requested.name} search"
      [("requested", .str requested.name), ("available", caps.available)]

/-- `[dim for dim in scope.dims() if dim not in caps.scope_dims]`. -/
def Capabilities.missing (caps : Capabilities) (scope : Scope) : List ScopeDim :=
  (scope.dims.map Prod.fst).filter (· ∉ caps.scopeDims)

/-- Dropping a dimension would leak memories across subjects, so this never
    degrades either. -/
def assertScopeSupported (scope : Scope) (caps : Capabilities) : Except GatewayError Unit :=
  if caps.missing scope ≠ [] then
    .error <| ErrorClass.unsupportedCapability.error
      ("provider cannot honour every scope dimension; dropping one would leak " ++
        "memories across subjects")
      [("missing_scope_dims", .strs ((caps.missing scope).map ScopeDim.name)),
       ("scope_dims", .strs (caps.scopeDims.map ScopeDim.name))]
  else if !scope.labels.isEmpty && !caps.supportsLabels then
    .error <| ErrorClass.unsupportedCapability.error "provider does not support labels"
      [("labels", .strs ((scope.labels.items.map Prod.fst).mergeSort (· ≤ ·)))]
  else .ok ()

/-- A silently skipped delete is a broken erasure promise. -/
def assertDeleteSupported (caps : Capabilities) (byScope : Bool) : Except GatewayError Unit :=
  if bif byScope then caps.supportsDeleteByScope else caps.supportsDelete then .ok ()
  else .error <| ErrorClass.unsupportedCapability.error
    (if byScope then "provider cannot delete by scope" else "provider cannot delete")
    [("by_scope", .bool byScope)]

/-- A mode that the provider has is served as it is. -/
theorem resolveMode_of_mem {requested : SearchMode} {caps : Capabilities} {o : OnUnsupported}
    (h : requested ∈ caps.searchModes) :
    resolveMode requested caps o = .ok { served := requested, degraded := false, lost := [] } :=
  if_pos h

/-- Whatever mode is served is one the provider has. -/
theorem resolveMode_served {requested : SearchMode} {caps : Capabilities} {o : OnUnsupported}
    {d : DegradeResult} (h : resolveMode requested caps o = .ok d) : d.served ∈ caps.searchModes := by
  unfold resolveMode at h
  split at h
  · rename_i hmem
    obtain rfl := Except.ok.inj h
    exact hmem
  · split at h
    · cases h
    · split at h
      · rename_i served lost _
        split at h
        · rename_i hmem
          obtain rfl := Except.ok.inj h
          exact hmem
        · cases h
      · cases h

/-- A scope is let through exactly when the provider has each of its dimensions
    and, if it carries labels, labels as well. -/
theorem assertScopeSupported_ok {scope : Scope} {caps : Capabilities} :
    assertScopeSupported scope caps = .ok () ↔
      (∀ dim ∈ scope.dims.map Prod.fst, dim ∈ caps.scopeDims) ∧
        (scope.labels.isEmpty = true ∨ caps.supportsLabels = true) := by
  have hmissing :
      caps.missing scope = [] ↔ ∀ dim ∈ scope.dims.map Prod.fst, dim ∈ caps.scopeDims := by
    simp [Capabilities.missing, List.filter_eq_nil_iff]
  unfold assertScopeSupported
  rw [← hmissing]
  by_cases hnil : caps.missing scope = []
  · cases hempty : scope.labels.isEmpty <;> cases hlabels : caps.supportsLabels <;> simp [hnil]
  · simp [hnil]

end Memgw
