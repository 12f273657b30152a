-- SUMMARY: The Mem0 adapter as programs over the calls of its client, and what it may rely on in that client.
import Memgw.Gateway.Effects
import Memgw.Library.Batches

/-!
# The Mem0 adapter

Scope maps to entity ids: the subject to `user_id`, the agent to `agent_id` and the
session to `run_id`. Mem0 has no tenant, so the tenant rides inside `user_id`. A
write names what is set; a read names every dimension, with a wildcard for those
the caller left open.

The client is a parameter. The methods below are programs over its calls, and
`Client.Lawful` says what a client has to do for them to mean anything.
-/

namespace Memgw.Mem0

/-! ## Entity ids -/

/-- `ANY`, the filter value that matches whatever is stored. -/
def any : String := "*"

/-- `PAGE`. -/
def page : Nat := 1000

/-- `tenant:subject`, or just the subject when the gateway set no tenant. -/
def userId (scope : Scope) : String :=
  match scope.tenant? with
  | some tenant => tenant ++ ":" ++ scope.subject.val
  | none => scope.subject.val

/-- The entity ids that a call names. -/
structure Entities where
  userId : String
  agentId : Option String := none
  runId : Option String := none
  deriving DecidableEq

/-- `build_filters`. -/
def buildFilters (scope : Scope) : Entities where
  userId := userId scope
  agentId := some ((scope.agent.map Subtype.val).getD any)
  runId := some ((scope.session.map Subtype.val).getD any)

/-- `write_ids`. -/
def writeIds (scope : Scope) : Entities where
  userId := userId scope
  agentId := scope.agent.map Subtype.val
  runId := scope.session.map Subtype.val

/-! ## The client -/

/-- One object in an answer, as far as the adapter reads it. -/
structure Item where
  id : Option String
  memory : Option String := none
  text : Option String := none
  data : Option String := none
  createdAt : Option Time := none
  updatedAt : Option Time := none
  score : Option Measure := none
  fields : Fields := []
  deriving DecidableEq

/-- What stands under `results`. An entry of a list need not be an object. -/
inductive Results where
  | one (item : Item)
  | many (entries : List (Option Item))

inductive Answer where
  | null
  | list (entries : List (Option Item))
  | object (results : Option Results)

inductive ClientOp where
  | add (messages : List (Role × String)) (metadata : Option Labels) (infer : Bool) (ids : Entities)
  | update (nativeId text : String)
  | search (query : String) (topK : Nat) (filters : Entities) (threshold : Score)
  | getAll (filters : Entities) (topK : Nat)
  /-- An empty object counts as no answer. -/
  | get (nativeId : String)
  | delete (nativeId : String)

@[reducible] def ClientOp.Ans : ClientOp → Type
  | .add .. | .search .. | .getAll .. => Answer
  | .get .. => Option Item
  | .update .. | .delete .. => Unit

/-- A client over the state `κ`. -/
abbrev Client (κ : Type) : Type := Handler ClientOp.Ans Exc κ

abbrev ClientProg (α : Type) : Type := Prog ClientOp.Ans Exc α

def ask (op : ClientOp) : ClientProg op.Ans := Prog.perform op

/-! ## Reading answers -/

def Answer.entries : Answer → List (Option Item)
  | .null | .object none => []
  | .list entries => entries
  | .object (some (.one item)) => [some item]
  | .object (some (.many entries)) => entries

/-- The objects of an answer. -/
def Answer.items (answer : Answer) : List Item := answer.entries.filterMap id

/-- A text when it is truthy. -/
def truthy (s : Option String) : Option String := s.filter (· != "")

/-- `_content`, when it is truthy. -/
def content (item : Item) : Option String :=
  ((truthy item.memory).or (truthy item.text)).or (truthy item.data)

/-- `_to_memory`. `str(None)` is a text too. -/
def toMemory (item : Item) : ProviderMemory where
  nativeId := item.id.getD "None"
  content := (content item).getD ""
  createdAt := item.createdAt
  updatedAt := item.updatedAt
  score := item.score
  raw := item.fields

/-- `_to_memories`. -/
def toMemories (answer : Answer) : List ProviderMemory :=
  (answer.items.filter fun item => (content item).isSome).map toMemory

theorem mem_toMemories {answer : Answer} {m : ProviderMemory} :
    m ∈ toMemories answer ↔
      ∃ item ∈ answer.items, (content item).isSome = true ∧ m = toMemory item := by
  simp only [toMemories, List.mem_map, List.mem_filter]
  constructor
  · rintro ⟨item, ⟨hitem, htext⟩, rfl⟩
    exact ⟨item, hitem, htext, rfl⟩
  · rintro ⟨item, hitem, htext, rfl⟩
    exact ⟨item, ⟨hitem, htext⟩, rfl⟩

/-! ## The adapter -/

def capabilities : Capabilities where
  supportsIngest := true
  supportsUpsert := true
  supportsUpdate := true
  supportsDelete := true
  supportsDeleteByScope := true
  supportsList := true
  searchModes := [.semantic]
  supportsScore := true
  maxLimit := 100
  scopeDims := [.tenant, .subject, .agent, .session]
  supportsLabels := true
  memoryModel := .flatFacts
  dedup := .provider
  supportsExport := false
  supportsImport := true
  consistency := .eventual
  meteredExternally := true
  maxLimitPos := Capabilities.hundredPos

/-- `except Exception as exc: return HealthStatus(ok=False, detail=str(exc))`. -/
def unhealthy (e : Exc) : ClientProg HealthStatus :=
  if e.isException then .ret { ok := false, detail := some e.str } else .raise e

def health : ClientProg HealthStatus :=
  Prog.tryCatch (do
    let _ ← ask (.getAll { userId := "__memgw_health__" } 1)
    return { ok := true }) unhealthy

/-- `dict(scope.labels) or None`. -/
def metadata (scope : Scope) : Option Labels :=
  if scope.labels.isEmpty then none else some scope.labels

def ingest (episode : Episode) (scope : Scope) : ClientProg (List ProviderMemory) := do
  let messages := match episode.messages with
    | some messages => messages.map fun m => (m.role, m.content)
    | none => [(.user, episode.asText)]
  let raw ← ask (.add messages (metadata scope) true (writeIds scope))
  return toMemories raw

def upsert (facts : List String) (scope : Scope) : ClientProg (List ProviderMemory) :=
  match facts with
  | [] => .ret []
  | fact :: facts => do
    let raw ← ask (.add [(.user, fact)] (metadata scope) false (writeIds scope))
    let out ← upsert facts scope
    return toMemories raw ++ out

def get (nativeId : String) : ClientProg (Option ProviderMemory) := do
  let raw ← ask (.get nativeId)
  return raw.map toMemory

def update (nativeId content : String) : ClientProg ProviderMemory := do
  ask (.update nativeId content)
  let got ← get nativeId
  match got with
  | none => .raise (.gateway (ErrorClass.providerError.error
      s!"mem0 lost {Text.quoted nativeId} during update" []))
  | some memory => return memory

def search (query : SearchQuery) (scope : Scope) : ClientProg (List ProviderMemory) :=
  if query.mode ≠ .semantic then
    .raise (.gateway (ErrorClass.unsupportedCapability.error
      s!"mem0 adapter cannot serve {Text.quoted query.mode.name} search"
      [("available", .strs ["semantic"])]))
  else do
    let raw ← ask (.search query.query query.limit (buildFilters scope) (query.minScore.getD 0))
    return toMemories raw

def delete (nativeId : String) : ClientProg Bool := do
  ask (.delete nativeId)
  return true

/-- `for memory in page: await self._client.delete(memory.native_id)`. -/
def deletePage : List ProviderMemory → ClientProg Unit
  | [] => .ret ()
  | memory :: memories => do
    ask (.delete memory.nativeId)
    deletePage memories

/-- The loop of `delete_scope`. A client that never runs out of full pages keeps it
    going until the task is cancelled, after `rounds` of them here. -/
def drain (filters : Entities) (rounds removed : Nat) : ClientProg Nat :=
  match rounds with
  | 0 => .raise .cancelled
  | rounds + 1 => do
    let raw ← ask (.getAll filters page)
    if toMemories raw = [] then return removed
    else do
      deletePage (toMemories raw)
      if (toMemories raw).length < page then return removed + (toMemories raw).length
      else drain filters rounds (removed + (toMemories raw).length)

def deleteScope (rounds : Nat) (scope : Scope) : ClientProg Nat :=
  drain (buildFilters scope) rounds 0

def listScope (scope : Scope) (limit : Nat) : ClientProg (List ProviderMemory) := do
  let raw ← ask (.getAll (buildFilters scope) limit)
  return (toMemories raw).take limit

def program (rounds : Nat) : (op : AdapterOp) → ClientProg op.Ans
  | .ingest episode scope => ingest episode scope
  | .upsert facts scope => upsert facts scope
  | .update nativeId content => update nativeId content
  | .search query scope => search query scope
  | .listScope scope limit => listScope scope limit
  | .get nativeId => get nativeId
  | .delete nativeId => delete nativeId
  | .deleteScope scope => deleteScope rounds scope
  | .health => health

def adapter {κ : Type} (client : Client κ) (rounds : Nat) : Adapter κ where
  capabilities := capabilities
  call op s := (program rounds op).run client s

/-! ## What the adapter relies on -/

/-- A memory as the client keeps it. -/
structure Stored where
  id : String
  memory : String
  ids : Entities
  metadata : Labels
  deriving DecidableEq

/-- One entry of a filter: the wildcard takes every value, an absent entry none. -/
def entryMatches (asked stored : Option String) : Bool :=
  asked == some any || stored == asked

def Entities.selects (filters : Entities) (m : Stored) : Bool :=
  entryMatches (some filters.userId) (some m.ids.userId) &&
    entryMatches filters.agentId m.ids.agentId && entryMatches filters.runId m.ids.runId

/-- The object that stands for a stored memory in an answer. -/
structure Item.Shows (item : Item) (m : Stored) : Prop where
  id : item.id = some m.id
  memory : item.memory = some m.memory
  text : item.text = none
  data : item.data = none

/-- The client keeps what is added to it with the metadata it was given, and answers
    a search or a listing with the memories that match the filters, a listing with all
    of them as far as the limit allows. -/
structure Client.Lawful {κ : Type} (client : Client κ) (stored : κ → List Stored) : Prop where
  one : ∀ s, ∀ m ∈ stored s, ∀ m' ∈ stored s, m.id = m'.id → m = m'
  add : ∀ messages metadata infer ids s,
    ∀ m ∈ stored (client (.add messages metadata infer ids) s).2,
      m ∈ stored s ∨ (m.ids = ids ∧ m.metadata = metadata.getD {})
  search_keeps : ∀ query topK filters threshold s,
    stored (client (.search query topK filters threshold) s).2 = stored s
  search : ∀ query topK filters threshold s answer,
    (client (.search query topK filters threshold) s).1 = .ok answer →
      ∀ item ∈ answer.items, ∃ m ∈ stored s, filters.selects m = true ∧ item.Shows m
  getAll_keeps : ∀ filters topK s, stored (client (.getAll filters topK) s).2 = stored s
  getAll : ∀ filters topK s, ∃ answer, (client (.getAll filters topK) s).1 = .ok answer ∧
    answer.items.length ≤ topK ∧
    (∀ item ∈ answer.items, ∃ m ∈ stored s, filters.selects m = true ∧ item.Shows m) ∧
      ((stored s).countP filters.selects ≤ topK →
        ∀ m ∈ stored s, filters.selects m = true → ∃ item ∈ answer.items, item.Shows m)
  delete_only : ∀ id s, ∀ m ∈ stored s, m.id ≠ id → m ∈ stored (client (.delete id) s).2
  delete_keeps : ∀ id s, ∀ m ∈ stored (client (.delete id) s).2, m ∈ stored s

theorem Item.Shows.content {item : Item} {m : Stored} (h : item.Shows m) :
    content item = truthy (some m.memory) := by
  simp [Mem0.content, h.memory, h.text, h.data, truthy]

theorem Item.Shows.nativeId {item : Item} {m : Stored} (h : item.Shows m) :
    (toMemory item).nativeId = m.id := by
  simp [toMemory, h.id]

/-- A filter built for a scope names the user id itself, unless that is the wildcard. -/
theorem Entities.userId_of_selects {filters : Entities} {m : Stored}
    (h : filters.selects m = true) (hany : filters.userId ≠ any) :
    m.ids.userId = filters.userId := by
  simp only [Entities.selects, entryMatches, Bool.and_eq_true, Bool.or_eq_true, beq_iff_eq,
    Option.some.injEq] at h
  exact h.1.1.resolve_left hany

section

variable {κ : Type} {client : Client κ} {stored : κ → List Stored} {s : κ}

/-- What a search hands out are stored memories that its filters select. -/
theorem search_selects (hlawful : client.Lawful stored) {query : SearchQuery} {scope : Scope} :
    (search query scope).wp client (fun r s' => stored s' = stored s ∧ ∀ memories, r = .ok memories →
      ∀ m ∈ memories, ∃ w ∈ stored s, (buildFilters scope).selects w = true ∧ w.memory ≠ "" ∧
        w.id = m.nativeId) s := by
  unfold search
  split
  · exact ⟨rfl, fun _ h => by cases h⟩
  · simp only [ask, Prog.bind_eq, Prog.wp_bind, Prog.pure_eq, Prog.wp_ret]
    refine Prog.wp_perform.mpr ?_
    have hkeep := hlawful.search_keeps query.query query.limit (buildFilters scope)
      (query.minScore.getD 0) s
    cases hr : (client (.search query.query query.limit (buildFilters scope)
        (query.minScore.getD 0)) s).1 with
    | error e => exact ⟨hkeep, fun _ h => by cases h⟩
    | ok answer =>
      refine ⟨hkeep, fun memories h m hm => ?_⟩
      obtain rfl := Except.ok.inj h
      obtain ⟨item, hitem, htext, rfl⟩ := mem_toMemories.mp hm
      obtain ⟨w, hw, hsel, hshows⟩ := hlawful.search _ _ _ _ _ _ hr item hitem
      refine ⟨w, hw, hsel, fun hempty => ?_, hshows.nativeId.symm⟩
      simp [hshows.content, hempty, truthy] at htext

/-- One listing: what it shows is selected, and it is complete when the limit allows. -/
theorem getAll_selects (hlawful : client.Lawful stored) {filters : Entities} {topK : Nat} :
    (ask (.getAll filters topK)).wp client (fun r s' => stored s' = stored s ∧
      ∃ answer, r = .ok answer ∧ (toMemories answer).length ≤ topK ∧
        (∀ m ∈ toMemories answer, ∃ w ∈ stored s, filters.selects w = true ∧ w.memory ≠ "" ∧
          w.id = m.nativeId) ∧
        ((stored s).countP filters.selects ≤ topK → ∀ w ∈ stored s, filters.selects w = true →
          w.memory ≠ "" → ∃ m ∈ toMemories answer, m.nativeId = w.id)) s := by
  refine Prog.wp_perform.mpr ⟨hlawful.getAll_keeps filters topK s, ?_⟩
  obtain ⟨answer, hanswer, hlen, hsound, hcomplete⟩ := hlawful.getAll filters topK s
  refine ⟨answer, hanswer, ?_, fun m hm => ?_, fun hcount w hw hsel htext => ?_⟩
  · rw [toMemories, List.length_map]
    exact (List.length_filter_le ..).trans hlen
  · obtain ⟨item, hitem, htext, rfl⟩ := mem_toMemories.mp hm
    obtain ⟨w, hw, hsel, hshows⟩ := hsound item hitem
    refine ⟨w, hw, hsel, fun hempty => ?_, hshows.nativeId.symm⟩
    simp [hshows.content, hempty, truthy] at htext
  · obtain ⟨item, hitem, hshows⟩ := hcomplete hcount w hw hsel
    refine ⟨toMemory item, mem_toMemories.mpr ⟨item, hitem, ?_, rfl⟩, hshows.nativeId⟩
    simp [hshows.content, truthy, htext]

/-- What a listing of a scope hands out are stored memories that its filters select. -/
theorem listScope_selects (hlawful : client.Lawful stored) {scope : Scope} {limit : Nat} :
    (listScope scope limit).wp client (fun r _ => ∀ memories, r = .ok memories →
      ∀ m ∈ memories, ∃ w ∈ stored s, (buildFilters scope).selects w = true ∧ w.memory ≠ "" ∧
        w.id = m.nativeId) s := by
  simp only [listScope, Prog.bind_eq]
  refine Prog.wp_bind_of (getAll_selects hlawful) ?_ ?_
  · rintro answer s' ⟨-, answer', hans, -, hsound, -⟩ memories h m hm
    obtain rfl := Except.ok.inj hans
    obtain rfl := Except.ok.inj h
    exact hsound m (List.mem_of_mem_take hm)
  · rintro e s' - memories h
    cases h

/-- A listing that is allowed to be long enough shows everything that matches. -/
theorem listScope_complete (hlawful : client.Lawful stored) {scope : Scope} {w : Stored}
    (hw : w ∈ stored s) (hsel : (buildFilters scope).selects w = true) (htext : w.memory ≠ "") :
    (listScope scope (stored s).length).wp client (fun r _ => ∃ memories, r = .ok memories ∧
      ∃ m ∈ memories, m.nativeId = w.id) s := by
  simp only [listScope, Prog.bind_eq]
  refine Prog.wp_bind_of (getAll_selects hlawful) ?_ ?_
  · rintro answer s' ⟨-, answer', hans, hlen, -, hcomplete⟩
    obtain rfl := Except.ok.inj hans
    obtain ⟨m, hm, hid⟩ := hcomplete List.countP_le_length w hw hsel htext
    refine ⟨_, rfl, m, ?_, hid⟩
    rwa [List.take_of_length_le hlen]
  · rintro e s' ⟨-, answer', hans, -⟩
    cases hans

/-- Deleting a page removes nothing but what stands on it. -/
theorem deletePage_only (hlawful : client.Lawful stored) {memories : List ProviderMemory} :
    (deletePage memories).wp client (fun _ s' => (∀ w ∈ stored s', w ∈ stored s) ∧
      ∀ w ∈ stored s, (∀ m ∈ memories, m.nativeId ≠ w.id) → w ∈ stored s') s := by
  induction memories generalizing s with
  | nil => exact ⟨fun _ hw => hw, fun _ hw _ => hw⟩
  | cons m memories ih =>
    simp only [deletePage, ask, Prog.bind_eq, Prog.wp_bind]
    refine Prog.wp_perform.mpr ?_
    have hless := hlawful.delete_keeps m.nativeId s
    have honly := hlawful.delete_only m.nativeId s
    cases (client (.delete m.nativeId) s).1 with
    | error e =>
      refine ⟨hless, fun w hw hne => honly w hw ?_⟩
      exact (hne m (List.mem_cons_self ..)).symm
    | ok u =>
      refine Prog.wp_mono (fun r s' hr => ⟨fun w hw => hless w (hr.1 w hw), fun w hw hne => ?_⟩) ih
      refine hr.2 w (honly w hw ?_) (fun m' hm' => hne m' (List.mem_cons_of_mem m hm'))
      exact (hne m (List.mem_cons_self ..)).symm

/-- Draining removes nothing but memories that the filters select. -/
theorem drain_only (hlawful : client.Lawful stored) {filters : Entities} {rounds removed : Nat} :
    (drain filters rounds removed).wp client (fun _ s' => (∀ w ∈ stored s', w ∈ stored s) ∧
      ∀ w ∈ stored s, w ∉ stored s' → filters.selects w = true ∧ w.memory ≠ "") s := by
  induction rounds generalizing removed s with
  | zero => exact ⟨fun _ hw => hw, fun _ hw hno => absurd hw hno⟩
  | succ rounds ih =>
    simp only [drain, Prog.bind_eq]
    refine Prog.wp_bind_of (getAll_selects hlawful) ?_ ?_
    · rintro answer s₁ ⟨hsame, answer', hans, -, hsound, -⟩
      obtain rfl := Except.ok.inj hans
      split
      · exact ⟨fun w hw => hsame ▸ hw, fun w hw hno => absurd (hsame ▸ hw) hno⟩
      · -- what this page takes away is on the page, and so selected
        have hpage : ∀ w ∈ stored s, ¬ (∀ m ∈ toMemories answer, m.nativeId ≠ w.id) →
            filters.selects w = true ∧ w.memory ≠ "" := by
          intro w hw hon
          push Not at hon
          obtain ⟨m, hm, hid⟩ := hon
          obtain ⟨w', hw', hsel, htext, hid'⟩ := hsound m hm
          obtain rfl := hlawful.one s w' hw' w hw (hid'.trans hid)
          exact ⟨hsel, htext⟩
        refine Prog.wp_bind_of (deletePage_only hlawful) ?_ ?_
        · rintro u s₂ ⟨hless, honly⟩
          rw [hsame] at hless honly
          have hgone : ∀ w ∈ stored s, w ∉ stored s₂ → filters.selects w = true ∧ w.memory ≠ "" :=
            fun w hw hno => hpage w hw fun hne => hno (honly w hw hne)
          split
          · exact ⟨hless, hgone⟩
          · refine Prog.wp_mono (fun r s' hr => ⟨fun w hw => hless w (hr.1 w hw),
              fun w hw hno => ?_⟩) ih
            by_cases hw₂ : w ∈ stored s₂
            · exact hr.2 w hw₂ hno
            · exact hgone w hw hw₂
        · rintro e s₂ ⟨hless, honly⟩
          rw [hsame] at hless honly
          exact ⟨hless, fun w hw hno => hpage w hw fun hne => hno (honly w hw hne)⟩
    · rintro e s₁ ⟨hsame, answer', hans, -⟩
      cases hans

/-- Adding puts in nothing but memories under the ids and the metadata given. -/
theorem add_written (hlawful : client.Lawful stored) {messages : List (Role × String)}
    {scope : Scope} {infer : Bool} {w : Stored}
    (hw : w ∈ stored (client (.add messages (metadata scope) infer (writeIds scope)) s).2) :
    w ∈ stored s ∨ (w.ids = writeIds scope ∧ w.metadata = scope.labels) := by
  refine (hlawful.add _ _ _ _ _ w hw).imp id (fun h => ⟨h.1, h.2.trans ?_⟩)
  unfold metadata
  split
  · rename_i hempty
    exact (Labels.eq_empty hempty).symm
  · rfl

end

/-! ## Adding facts -/

/-- What is added to the client without inference is stored as a new memory, unless the
    call raises; a call that raises, or lists, stores nothing. -/
structure Client.Adds {κ E : Type} (client : Client κ) (holds : κ → Set E) : Prop where
  add : ∀ text metadata ids s answer,
    (client (.add [(.user, text)] metadata false ids) s).1 = .ok answer →
      holds s ⊆ holds (client (.add [(.user, text)] metadata false ids) s).2 ∧
        ∃ x ∈ holds (client (.add [(.user, text)] metadata false ids) s).2, x ∉ holds s
  raised : ∀ text metadata ids s e,
    (client (.add [(.user, text)] metadata false ids) s).1 = .error e →
      holds (client (.add [(.user, text)] metadata false ids) s).2 = holds s
  getAll : ∀ filters topK s, holds (client (.getAll filters topK) s).2 = holds s

/-- The client takes the fact that an upsert adds. -/
def Client.Accepts {κ : Type} (client : Client κ) (scope : Scope) (s : κ) (fact : String) : Prop :=
  ∃ answer, (client (.add [(.user, fact)] (metadata scope) false (writeIds scope)) s).1 = .ok answer

/-- What an upsert does for one fact. -/
def addFact (scope : Scope) (fact : String) : ClientProg (List ProviderMemory) := do
  let raw ← ask (.add [(.user, fact)] (metadata scope) false (writeIds scope))
  return toMemories raw

theorem upsert_eq_batch {facts : List String} {scope : Scope} :
    upsert facts scope = Prog.batch (addFact scope) facts := by
  induction facts with
  | nil => rfl
  | cons fact facts ih =>
    rw [upsert, ih, Prog.batch, addFact, Prog.bind_eq, Prog.bind_eq, Prog.bind_assoc]
    rfl

section

variable {κ E : Type} {client : Client κ} {holds : κ → Set E} {s : κ}

theorem addFact_run {scope : Scope} {fact : String} :
    (addFact scope fact).run client s =
      ((client (.add [(.user, fact)] (metadata scope) false (writeIds scope)) s).1.map toMemories,
        (client (.add [(.user, fact)] (metadata scope) false (writeIds scope)) s).2) := by
  rw [addFact, ask, Prog.bind_eq, Prog.run_bind, Prog.run_perform]
  generalize client (.add [(.user, fact)] (metadata scope) false (writeIds scope)) s = result
  obtain ⟨r, s'⟩ := result
  cases r <;> rfl

theorem addFact_adds (hadds : client.Adds holds) {scope : Scope} :
    Prog.Adds client holds (addFact scope) where
  returns fact s a s' hrun := by
    rw [addFact_run] at hrun
    obtain ⟨hanswer, rfl⟩ := Prod.mk.inj hrun
    cases hadd : (client (.add [(.user, fact)] (metadata scope) false (writeIds scope)) s).1 with
    | ok answer => exact hadds.add _ _ _ _ _ hadd
    | error e =>
      rw [hadd] at hanswer
      cases hanswer
  raises fact s e s' hrun := by
    rw [addFact_run] at hrun
    obtain ⟨hanswer, rfl⟩ := Prod.mk.inj hrun
    cases hadd : (client (.add [(.user, fact)] (metadata scope) false (writeIds scope)) s).1 with
    | ok answer => exact (hadds.add _ _ _ _ _ hadd).1
    | error e => exact (hadds.raised _ _ _ _ _ hadd).ge

/-- An upsert has left nothing with the client exactly when the client did not take
    its first fact. -/
theorem upsert_leaves_nothing_iff (hadds : client.Adds holds) {facts : List String}
    {scope : Scope} : holds ((upsert facts scope).run client s).2 = holds s ↔
      ∀ fact ∈ facts.head?, ¬ client.Accepts scope s fact := by
  rw [upsert_eq_batch, (addFact_adds hadds).leaves_nothing_iff rfl]
  refine forall₂_congr fun fact _ => ?_
  rw [addFact_run]
  unfold Client.Accepts
  cases hadd : (client (.add [(.user, fact)] (metadata scope) false (writeIds scope)) s).1 with
  | ok answer => simp [Except.map]
  | error e => simp [Except.map, hadds.raised _ _ _ _ _ hadd]

theorem health_holds (hadds : client.Adds holds) : holds (health.run client s).2 = holds s := by
  have hwp : health.wp client (fun _ s' => holds s' = holds s) s := by
    rw [health, Prog.wp_tryCatch, Prog.bind_eq, Prog.wp_bind]
    refine Prog.wp_perform.mpr ?_
    have hkept := hadds.getAll { userId := "__memgw_health__" } 1 s
    cases (client (.getAll { userId := "__memgw_health__" } 1) s).1 with
    | ok answer => exact hkept
    | error e =>
      simp only [unhealthy]
      split <;> exact hkept
  exact hwp

end

end Memgw.Mem0
