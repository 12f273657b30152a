-- SUMMARY: What a verb says to its adapter whatever it is answered, and how each failure of an adapter ends the verb.
import Memgw.Gateway.Calls

/-!
# Conversations with an adapter

`Conducts` says what the adapters saw of a verb that runs alone. When verbs overlap the
world changes between any two of its steps, and what can be said is said of its steps
alone, for every list of answers: which call it may make, that it makes one at most, and
how it ends when that call raises. Nothing here depends on a world.
-/

namespace Memgw

variable {σ α β : Type}

/-! ## What an adapter may be asked -/

/-- The scope carries the caller's tenant, and nothing that the provider does not have. -/
structure Capabilities.Covers (caps : Capabilities) (tenant : String) (scope : Scope) : Prop where
  stamped : scope.tenant = some tenant
  dims : ∀ dim ∈ scope.dims.map Prod.fst, dim ∈ caps.scopeDims
  labels : scope.labels.isEmpty = true ∨ caps.supportsLabels = true

/-- The contract of an adapter: each call is one that it declares, within its limits. -/
def AdapterOp.Honours (tenant : String) (a : Adapter σ) : AdapterOp → Prop
  | .ingest _ scope => a.capabilities.supportsIngest = true ∧ a.capabilities.Covers tenant scope
  | .upsert facts scope =>
    facts ≠ [] ∧ a.capabilities.supportsUpsert = true ∧ a.capabilities.Covers tenant scope
  | .update .. => a.capabilities.supportsUpdate = true
  | .search query scope =>
    query.mode ∈ a.capabilities.searchModes ∧ query.limit ≤ a.capabilities.maxLimit ∧
      (query.asOf.isSome = true → .temporal ∈ a.capabilities.searchModes) ∧
        a.capabilities.Covers tenant scope
  | .listScope scope limit =>
    a.hasListScope = true ∧ a.capabilities.supportsList = true ∧
      limit ≤ a.capabilities.maxLimit ∧ a.capabilities.Covers tenant scope
  | .get _ | .health => True
  | .delete _ => a.capabilities.supportsDelete = true
  | .deleteScope scope =>
    a.capabilities.supportsDeleteByScope = true ∧ a.capabilities.Covers tenant scope

theorem covers_under {caps : Capabilities} {t : String} {scope : Scope}
    (h : assertScopeSupported (scope.under t) caps = .ok ()) : caps.Covers t (scope.under t) where
  stamped := rfl
  dims := (assertScopeSupported_ok.mp h).1
  labels := (assertScopeSupported_ok.mp h).2

/-- A provider that cannot tell tenants apart is asked nothing about a scope of one. -/
theorem Capabilities.Covers.tenant {caps : Capabilities} {t : String} {scope : Scope}
    (h : caps.Covers t scope) (ht : t ≠ "") : .tenant ∈ caps.scopeDims := by
  refine h.dims _ (List.mem_map.mpr ⟨(.tenant, t), ?_, rfl⟩)
  simp [Scope.dims, Scope.tenant?, h.stamped, ht]

/-! ## How a failure ends a verb -/

/-- What becomes of a verb whose call raised. -/
inductive Failure where
  /-- It raises the same. -/
  | passed
  /-- It asks whether the provider is down, and raises what that says. -/
  | classified
  /-- It answers without results. -/
  | opened
  deriving DecidableEq, Repr

/-- `_call`. -/
def Exc.failure : Exc → Failure
  | .gateway _ | .cancelled => .passed
  | .integrity _ | .other .. => .classified

/-- The handlers of `search`. -/
def SearchQuery.onFailure (query : SearchQuery) : Exc → Failure
  | .gateway e =>
    if e.cls = .unsupportedCapability ∨ e.cls = .invalidRequest then .passed
    else if query.failOpen then .opened else .classified
  | .cancelled => .passed
  | .integrity _ | .other .. => if query.failOpen then .opened else .classified

def Call.onFailure : Call → Exc → Failure
  | .search _ query _ _, e => query.onFailure e
  | _, e => e.failure

/-- The health of a provider that could be asked for it, or could not. -/
def down : Except Exc HealthStatus → Bool
  | .ok health => !health.ok
  | .error _ => true

/-- What a failure is, by what the provider said of its health. -/
def classify (name : String) (exc : Exc) : Except Exc HealthStatus → Exc
  | .error .cancelled => .cancelled
  | r => .gateway <|
    if down r then
      ErrorClass.providerUnhealthy.error s!"provider {Text.quoted name} is unavailable"
        [("provider", .str name), ("cause", .str exc.str)]
    else
      ErrorClass.providerError.error s!"provider {Text.quoted name} failed the call"
        [("provider", .str name), ("cause", .str exc.str), ("retryable", .bool true)]

/-- A search that failed open. -/
def unavailable (name : String) : SearchResult :=
  { results := [], provider := name, providerUnavailable := true }

/-- What a verb does after its call raised `exc`, and how it ends. -/
inductive Failure.Ends (name : String) (a : Adapter σ) (exc : Exc) :
    Failure → List (CoreStep σ) → Except Exc Reply → Prop where
  | passed : Ends name a exc .passed [] (.error exc)
  | opened : Ends name a exc .opened [] (.ok (.found (unavailable name)))
  | classified {r : Except Exc HealthStatus} :
      Ends name a exc .classified [⟨.adapter name a .health, r⟩] (.error (classify name exc r))

/-- All that a verb says to the adapters, and how it ends. -/
inductive MemoryCore.Conversation (core : MemoryCore σ) (call : Call) :
    List (CoreStep σ) → Except Exc Reply → Prop where
  | silent {out : Except Exc Reply} : Conversation core call [] out
  | answered {name : String} {a : Adapter σ} {op : AdapterOp} {ans : op.Ans}
      {out : Except Exc Reply} (ha : core.adapter name = .ok a) (h : op.Honours call.tenant a) :
      Conversation core call [⟨.adapter name a op, .ok ans⟩] out
  | failed {name : String} {a : Adapter σ} {op : AdapterOp} {e : Exc} {health : List (CoreStep σ)}
      {out : Except Exc Reply} (ha : core.adapter name = .ok a) (h : op.Honours call.tenant a)
      (hends : (call.onFailure e).Ends name a e health out) :
      Conversation core call (⟨.adapter name a op, .error e⟩ :: health) out

/-- Whatever a verb says is said to a configured adapter, within its contract. -/
theorem MemoryCore.Conversation.honours {core : MemoryCore σ} {call : Call}
    {steps : List (CoreStep σ)} {out : Except Exc Reply} (h : core.Conversation call steps out)
    {st : CoreStep σ} (hst : st ∈ steps) {name : String} {a : Adapter σ} {op : AdapterOp}
    (hop : st.1 = .adapter name a op) : core.adapter name = .ok a ∧ op.Honours call.tenant a := by
  cases h with
  | silent => cases hst
  | answered ha h =>
    obtain rfl := List.mem_singleton.mp hst
    cases hop
    exact ⟨ha, h⟩
  | failed ha h hends =>
    rcases List.mem_cons.mp hst with rfl | hst
    · cases hop
      exact ⟨ha, h⟩
    · generalize Call.onFailure call _ = failure at hends
      cases hends with
      | passed => cases hst
      | opened => cases hst
      | classified =>
        obtain rfl := List.mem_singleton.mp hst
        cases hop
        exact ⟨ha, trivial⟩

/-- An exception that a verb passes on is the gateway's, or a cancellation. -/
theorem Call.onFailure_passed {call : Call} {exc : Exc} (h : call.onFailure exc = .passed) :
    (∃ e, exc = .gateway e) ∨ exc = .cancelled := by
  have hsearch : ∀ query : SearchQuery, (if query.failOpen then Failure.opened else .classified) ≠
      .passed := by
    intro query
    split <;> exact Failure.noConfusion
  cases exc with
  | gateway e => exact .inl ⟨e, rfl⟩
  | cancelled => exact .inr rfl
  | integrity text =>
    cases call with
    | search t query scope asserted => exact absurd h (hsearch query)
    | _ => cases h
  | other kind text =>
    cases call with
    | search t query scope asserted => exact absurd h (hsearch query)
    | _ => cases h

theorem Failure.Ends.translated {name : String} {a : Adapter σ} {exc : Exc} {failure : Failure}
    {steps : List (CoreStep σ)} {out : Except Exc Reply} (h : failure.Ends name a exc steps out)
    (hpassed : failure = .passed → (∃ e, exc = .gateway e) ∨ exc = .cancelled) {e : Exc}
    (he : out = .error e) : (∃ e', e = .gateway e') ∨ e = .cancelled := by
  cases h with
  | passed =>
    cases he
    exact hpassed rfl
  | opened => cases he
  | classified =>
    cases he
    unfold classify
    split
    · exact .inr rfl
    · exact .inl ⟨_, rfl⟩

/-- No exception of a provider ends a verb as it was raised. -/
theorem MemoryCore.Conversation.translated {core : MemoryCore σ} {call : Call}
    {steps : List (CoreStep σ)} {out : Except Exc Reply} (h : core.Conversation call steps out)
    {st : CoreStep σ} (hst : st ∈ steps) {exc e : Exc} (hraised : st.2 = .error exc)
    (he : out = .error e) : (∃ e', e = .gateway e') ∨ e = .cancelled := by
  cases h with
  | silent => cases hst
  | answered ha h =>
    obtain rfl := List.mem_singleton.mp hst
    cases hraised
  | failed ha h hends => exact hends.translated Call.onFailure_passed he

/-! ## Rules -/

/-- However the program ends, what it said to the adapters and its outcome satisfy `Φ`. -/
@[reducible] def Talks (p : CoreProg σ α) (Φ : List (CoreStep σ) → Except Exc α → Prop) : Prop :=
  p.Shows NoteTaken changesStore Φ

section

variable {Φ : List (CoreStep σ) → Except Exc α → Prop} {Ψ : List (CoreStep σ) → Except Exc β → Prop}

theorem talks_observe {verb tenant : String} {subject : Option String} {body : CoreProg σ α}
    (h : Talks body Φ) : Talks (observe verb tenant subject body) Φ := by
  intro steps out hends _
  obtain ⟨inner, hinner, hsteps, htaken⟩ := ends_observe hends
  have hsame : steps.filter changesStore = inner.filter changesStore := by
    have hdata : ∀ st : CoreStep σ, st.1.isData = false → changesStore st = false :=
      fun st hst => (changes_nothing hst).2.2
    rw [← filter_dataSteps hdata, hsteps, filter_dataSteps hdata]
  rw [hsame]
  exact h inner out hinner htaken

/-- What comes before the call says nothing. -/
theorem talks_before {p : CoreProg σ α} {f : α → CoreProg σ β} (hp : Quiet p)
    (hf : ∀ a, Talks (f a) Ψ) (herr : ∀ e, Ψ [] (.error e)) : Talks (p.bind f) Ψ := by
  refine Prog.shows_bind (Prog.shows_of_within hp fun out => ?_)
  cases out with
  | ok a => exact hf a
  | error e => exact herr e

theorem talks_note {key : String} {value : Value} {f : Unit → CoreProg σ β} (h : Talks (f ()) Ψ) :
    Talks ((note key value).bind f) Ψ := by
  refine Prog.shows_bind (Prog.shows_perform fun r hr => ?_)
  obtain rfl : r = .ok () := hr
  exact h

theorem talks_check {x : Except GatewayError α} {f : α → CoreProg σ β}
    (hok : ∀ v, x = .ok v → Talks (f v) Ψ) (herr : ∀ e, Ψ [] (.error e)) :
    Talks ((check x).bind f) Ψ := by
  cases x with
  | ok v => exact hok v rfl
  | error e => exact Prog.shows_raise (herr _)

theorem talks_refuseIf {b : Bool} {e : GatewayError} {f : Unit → CoreProg σ β}
    (hok : b = false → Talks (f ()) Ψ) (herr : ∀ e, Ψ [] (.error e)) :
    Talks ((refuseIf b e).bind f) Ψ := by
  cases b with
  | false => exact hok rfl
  | true => exact Prog.shows_raise (herr _)

variable {core : MemoryCore σ} {t name : String} {a : Adapter σ}

theorem talks_prepare {scope : Scope} {asserted : Option String}
    {f : MemoryCore.Prepared σ → CoreProg σ β}
    (hok : ∀ name a, core.adapter name = .ok a → a.capabilities.Covers t (scope.under t) →
      Talks (f { name := name, adapter := a, bound := scope.under t }) Ψ)
    (herr : ∀ e, Ψ [] (.error e)) : Talks ((core.prepare t scope asserted).bind f) Ψ := by
  rw [MemoryCore.prepare, Prog.bind_eq, Prog.bind_assoc]
  refine talks_before ?_ (fun name => ?_) herr
  · exact Prog.within_bind (Prog.within_perform fun _ => rfl) fun _ => Prog.within_ofExcept
  · rw [Prog.bind_eq, Prog.bind_assoc]
    refine talks_check (fun a ha => ?_) herr
    rw [Prog.bind_eq, Prog.bind_assoc]
    exact talks_check (fun u hs => hok name a ha (covers_under hs)) herr

theorem talks_issuedRow {gatewayId : String} {f : CatalogRow → CoreProg σ β}
    (hok : ∀ row, Talks (f row) Ψ) (herr : ∀ e, Ψ [] (.error e)) :
    Talks ((issuedRow t gatewayId).bind f) Ψ :=
  talks_before (Prog.within_bind (Prog.within_perform fun _ => rfl) fun _ => Prog.within_ofExcept)
    hok herr

/-- Whoever asks for the health of a provider raises what it says. -/
theorem talks_raiseFailure {exc : Exc}
    (h : ∀ r, Φ [⟨.adapter name a .health, r⟩] (.error (classify name exc r))) :
    Talks (raiseFailure name a exc) Φ := by
  intro steps out hends _
  obtain ⟨r, rest, rfl, hrest⟩ := Prog.ends_act.mp hends
  cases r with
  | ok health =>
    obtain ⟨rfl, rfl⟩ := Prog.ends_raise.mp hrest
    exact h (.ok health)
  | error e =>
    cases e with
    | cancelled =>
      obtain ⟨rfl, rfl⟩ := Prog.ends_raise.mp hrest
      exact h (.error .cancelled)
    | gateway e =>
      obtain ⟨rfl, rfl⟩ := Prog.ends_raise.mp hrest
      exact h (.error (.gateway e))
    | integrity text =>
      obtain ⟨rfl, rfl⟩ := Prog.ends_raise.mp hrest
      exact h (.error (.integrity text))
    | other kind text =>
      obtain ⟨rfl, rfl⟩ := Prog.ends_raise.mp hrest
      exact h (.error (.other kind text))

theorem talks_callAdapter {op : AdapterOp} {Φ : List (CoreStep σ) → Except Exc op.Ans → Prop}
    (h : ∀ r, Φ [⟨.adapter name a op, r⟩] r) : Talks (callAdapter name a op) Φ :=
  Prog.shows_perform fun r _ => h r

theorem talks_call {op : AdapterOp} {Φ : List (CoreStep σ) → Except Exc op.Ans → Prop}
    (hok : ∀ ans, Φ [⟨.adapter name a op, .ok ans⟩] (.ok ans))
    (hpassed : ∀ e, e.failure = .passed → Φ [⟨.adapter name a op, .error e⟩] (.error e))
    (hclassified : ∀ e r, e.failure = .classified →
      Φ [⟨.adapter name a op, .error e⟩, ⟨.adapter name a .health, r⟩]
        (.error (classify name e r))) : Talks (call name a op) Φ := by
  refine Prog.shows_bind (Prog.shows_attempt (talks_callAdapter fun r => ?_))
  cases r with
  | ok ans => exact Prog.shows_ret (hok ans)
  | error e =>
    cases e with
    | gateway e => exact Prog.shows_raise (hpassed _ rfl)
    | cancelled => exact Prog.shows_raise (hpassed _ rfl)
    | integrity text => exact talks_raiseFailure fun r => hclassified _ r rfl
    | other kind text => exact talks_raiseFailure fun r => hclassified _ r rfl

/-- A call, and bookkeeping that says nothing after it. -/
theorem talks_asked {op : AdapterOp} {f : op.Ans → CoreProg σ β} (hf : ∀ ans, Quiet (f ans))
    (hok : ∀ ans out, Ψ [⟨.adapter name a op, .ok ans⟩] out)
    (hpassed : ∀ e, e.failure = .passed → Ψ [⟨.adapter name a op, .error e⟩] (.error e))
    (hclassified : ∀ e r, e.failure = .classified →
      Ψ [⟨.adapter name a op, .error e⟩, ⟨.adapter name a .health, r⟩]
        (.error (classify name e r))) : Talks ((call name a op).bind f) Ψ :=
  Prog.shows_bind (talks_call (fun ans => Prog.shows_of_within (hf ans) (hok ans)) hpassed hclassified)

theorem talks_outage {query : SearchQuery} {exc : Exc}
    {Φ : List (CoreStep σ) → Except Exc SearchResult → Prop}
    (hopened : query.failOpen = true → Φ [] (.ok (unavailable name)))
    (hclassified : query.failOpen = false → ∀ r,
      Φ [⟨.adapter name a .health, r⟩] (.error (classify name exc r))) :
    Talks (MemoryCore.outage query name a exc) Φ := by
  unfold MemoryCore.outage
  cases hopen : query.failOpen with
  | false => exact talks_raiseFailure (hclassified hopen)
  | true =>
    exact talks_note (talks_note (Prog.shows_ret (hopened hopen)))

/-- A search has handlers of its own. -/
theorem talks_searchFailed {query : SearchQuery} {exc : Exc}
    {Φ : List (CoreStep σ) → Except Exc SearchResult → Prop}
    (hpassed : query.onFailure exc = .passed → Φ [] (.error exc))
    (hopened : query.onFailure exc = .opened → Φ [] (.ok (unavailable name)))
    (hclassified : query.onFailure exc = .classified → ∀ r,
      Φ [⟨.adapter name a .health, r⟩] (.error (classify name exc r))) :
    Talks (MemoryCore.searchFailed query name a exc) Φ := by
  cases exc with
  | cancelled => exact Prog.shows_raise (hpassed rfl)
  | integrity text =>
    exact talks_outage (fun h => hopened (by simp [SearchQuery.onFailure, h]))
      (fun h => hclassified (by simp [SearchQuery.onFailure, h]))
  | other kind text =>
    exact talks_outage (fun h => hopened (by simp [SearchQuery.onFailure, h]))
      (fun h => hclassified (by simp [SearchQuery.onFailure, h]))
  | gateway e =>
    simp only [MemoryCore.searchFailed]
    split
    · rename_i hshort
      exact Prog.shows_raise (hpassed (if_pos hshort))
    · rename_i hshort
      exact talks_outage (fun h => hopened (by simp [SearchQuery.onFailure, hshort, h]))
        (fun h => hclassified (by simp [SearchQuery.onFailure, hshort, h]))

/-- A reply that is made of what a program returns. -/
theorem talks_map {p : CoreProg σ α} {g : α → β}
    (h : Talks p fun steps r => Ψ steps (r.map g)) : Talks (p.bind fun x => .ret (g x)) Ψ := by
  refine Prog.shows_bind (h.mono fun steps r hr => ?_)
  cases r with
  | error e => exact hr
  | ok x => exact Prog.shows_ret (by simpa [Except.map] using hr)

end

/-! ## The verbs -/

section

variable {core : MemoryCore σ} {t : String}

/-- A verb with one call, past its checks. -/
theorem talks_verb {call : Call} {name : String} {a : Adapter σ} {op : AdapterOp}
    {f : op.Ans → CoreProg σ α} {g : α → Reply} (ha : core.adapter name = .ok a)
    (h : op.Honours call.tenant a) (hcall : call.onFailure = Exc.failure)
    (hf : ∀ ans, Quiet (f ans)) :
    Talks ((Memgw.call name a op).bind f) fun steps r => core.Conversation call steps (r.map g) := by
  have hends : ∀ {e : Exc} {failure : Failure}, e.failure = failure →
      call.onFailure e = failure := fun h => by rw [hcall, h]
  refine talks_asked hf (fun ans out => .answered ha h) (fun e he => ?_) (fun e r he => ?_)
  · exact .failed ha h (by rw [hends he]; exact .passed)
  · exact .failed ha h (by rw [hends he]; exact .classified)

theorem exec_talks (core : MemoryCore σ) (call : Call) :
    Talks (core.exec call) (core.Conversation call) := by
  cases call with
  | ingest t episode scope asserted =>
    refine talks_map (talks_observe (talks_prepare (fun name a ha hcovers => ?_) fun e => .silent))
    refine talks_note (talks_refuseIf (fun hcap => ?_) fun e => .silent)
    refine talks_verb ha ⟨by simpa using hcap, hcovers⟩ rfl fun memories => ?_
    refine Prog.within_bind quiet_writtenRecords fun records => ?_
    refine Prog.within_bind (within_bind_subject (fun _ => rfl) fun _ => rfl) fun _ => ?_
    refine Prog.within_bind ?_ fun _ => Prog.within_bind quiet_note fun _ => trivial
    unfold runIf
    split
    · exact Prog.within_bind quiet_transact fun _ => trivial
    · trivial
  | upsert t facts scope asserted =>
    refine talks_map (talks_refuseIf (fun hne => talks_observe ?_) fun e => .silent)
    refine talks_prepare (fun name a ha hcovers => ?_) fun e => .silent
    refine talks_note (talks_refuseIf (fun hcap => ?_) fun e => .silent)
    refine talks_verb ha ⟨by simpa using hne, by simpa using hcap, hcovers⟩ rfl fun memories => ?_
    refine Prog.within_bind quiet_writtenRecords fun records => ?_
    refine Prog.within_bind (within_bind_subject (fun _ => rfl) fun _ => rfl) fun _ => ?_
    exact Prog.within_bind quiet_note fun _ => trivial
  | update t gatewayId content =>
    refine talks_map (talks_observe (talks_issuedRow (fun row => ?_) fun e => .silent))
    refine talks_note (talks_note (talks_check (fun a ha => ?_) fun e => .silent))
    refine talks_refuseIf (fun hcap => ?_) fun e => .silent
    refine talks_verb ha (by simpa [AdapterOp.Honours] using hcap) rfl fun memory => ?_
    refine Prog.within_bind ?_ fun _ => trivial
    refine Prog.within_bind (within_mapPage fun _ => rfl) fun rows => ?_
    split <;> trivial
  | search t query scope asserted =>
    refine talks_map (talks_observe (talks_prepare (fun name a ha hcovers => ?_) fun e => .silent))
    refine talks_note (talks_note (talks_check (fun u hasOf => ?_) fun e => .silent))
    have hasOf : query.asOf.isSome = true → .temporal ∈ a.capabilities.searchModes := by
      intro hsome
      simp only [hsome, if_true, assertAsOfSupported] at hasOf
      split at hasOf
      · assumption
      · cases hasOf
    refine talks_check (fun decision hmode => ?_) fun e => .silent
    have h : (AdapterOp.search (query.effective decision.served a.capabilities)
        (scope.under t)).Honours t a :=
      ⟨resolveMode_served hmode, Nat.min_le_right .., hasOf, hcovers⟩
    refine Prog.shows_bind (Prog.shows_attempt (talks_callAdapter fun r => ?_))
    cases r with
    | ok memories =>
      refine Prog.shows_of_within ?_ fun out => .answered ha h
      exact Prog.within_bind quiet_mapHits fun _ => Prog.within_bind quiet_note fun _ => trivial
    | error e =>
      have hends : ∀ {failure : Failure} {health : List (CoreStep σ)} {out : Except Exc Reply},
          query.onFailure e = failure → failure.Ends name a e health out →
            core.Conversation (.search t query scope asserted)
              (⟨.adapter name a (.search (query.effective decision.served a.capabilities)
                (scope.under t)), .error e⟩ :: health) out :=
        fun hf hfailed => by
          subst hf
          exact .failed ha h hfailed
      exact talks_searchFailed (fun hf => hends hf .passed) (fun hf => hends hf .opened)
        (fun hf r => hends hf .classified)
  | listScope t scope limit asserted =>
    refine talks_map (talks_observe (talks_prepare (fun name a ha hcovers => ?_) fun e => .silent))
    refine talks_note (talks_refuseIf (fun hcap => ?_) fun e => .silent)
    obtain ⟨hhas, hcap⟩ : a.hasListScope = true ∧ a.capabilities.supportsList = true := by
      simpa using hcap
    refine talks_verb ha ⟨hhas, hcap, Nat.min_le_right .., hcovers⟩ rfl fun memories => ?_
    exact Prog.within_bind quiet_mapHits fun _ => Prog.within_bind quiet_note fun _ => trivial
  | get t gatewayId =>
    refine talks_map (talks_observe (talks_issuedRow (fun row => ?_) fun e => .silent))
    refine talks_note (talks_note (talks_check (fun a ha => ?_) fun e => .silent))
    exact talks_verb ha trivial rfl fun memory => Prog.within_ofExcept
  | delete t gatewayId =>
    refine talks_map (talks_observe (talks_issuedRow (fun row => ?_) fun e => .silent))
    refine talks_note (talks_note (talks_check (fun a ha => ?_) fun e => .silent))
    refine talks_check (fun u hcap => ?_) fun e => .silent
    refine talks_verb ha ?_ rfl fun b => Prog.within_bind quiet_transact fun _ => trivial
    by_contra hno
    simp [assertDeleteSupported, AdapterOp.Honours] at hcap hno
    simp [hno] at hcap
  | deleteScope t scope asserted =>
    refine talks_map (talks_observe (talks_prepare (fun name a ha hcovers => ?_) fun e => .silent))
    refine talks_note (talks_check (fun u hcap => ?_) fun e => .silent)
    refine talks_verb ha ⟨?_, hcovers⟩ rfl fun removed => ?_
    · by_contra hno
      simp [assertDeleteSupported, hno] at hcap
    · refine Prog.within_bind quiet_transact fun _ => Prog.within_bind quiet_transact fun _ => ?_
      exact Prog.within_bind quiet_note fun _ => Prog.within_bind quiet_note fun _ => trivial
  | rebind t subject provider strategy =>
    refine talks_map (talks_observe (talks_note ?_))
    refine talks_refuseIf (fun hstrategy => ?_) fun e => .silent
    refine talks_check (fun a ha => ?_) fun e => .silent
    refine Prog.shows_of_within ?_ fun out => .silent
    exact Prog.within_bind quiet_rebindSubject fun _ => Prog.within_bind quiet_note fun _ => trivial

end

end Memgw
