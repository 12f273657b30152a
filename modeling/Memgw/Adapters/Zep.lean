-- SUMMARY: The Zep adapter as programs over the calls of its client, and what it may rely on in that client.
import Memgw.Gateway.Effects
import Memgw.Library.Batches

/-!
# The Zep adapter

Zep keeps a graph of facts for each user, and a fact is true over an interval. It
scopes the graph by user and by nothing finer, so the adapter declares a tenant and
a subject, and the tenant rides inside `user_id`.

The client is a parameter, as it is for Mem0. The adapter has a state of its own
besides: the users it has already made sure of.
-/

namespace Memgw.Zep

def userId (scope : Scope) : String :=
  match scope.tenant? with
  | some tenant => tenant ++ ":" ++ scope.subject.val
  | none => scope.subject.val

/-! ## The client -/

/-- An edge of the graph, as far as the adapter reads one. -/
structure Edge where
  uuid_ : Option String := none
  uuid : Option String := none
  fact : Option String := none
  content : Option String := none
  createdAt : Option Time := none
  validAt : Option Time := none
  invalidAt : Option Time := none
  score : Option Measure := none
  fields : Fields := []
  deriving DecidableEq

inductive ClientOp where
  | userAdd (userId : String)
  | userDelete (userId : String)
  | graphAdd (userId data : String)
  /-- `scope` says whether edges or nodes are asked for. The answer is its edges. -/
  | graphSearch (query userId : String) (scope : Option String) (limit : Nat)
  | edgesOf (userId : String) (limit : Nat)
  | edgeGet (uuid : String)
  | edgeDelete (uuid : String)

@[reducible] def ClientOp.Ans : ClientOp → Type
  | .graphSearch .. | .edgesOf .. => Option (List Edge)
  | .edgeGet .. => Option Edge
  | .graphAdd .. => Edge
  | .userAdd .. | .userDelete .. | .edgeDelete .. => Unit

/-- A client over the state `κ`, and the status codes that its exceptions carry. -/
structure Client (κ : Type) where
  answer : Handler ClientOp.Ans Exc κ
  statusCode : Exc → Option Nat

/-! ## Actions -/

/-- What the adapter acts on: its client, and the users it knows. -/
structure State (κ : Type) where
  client : κ
  knownUsers : List String

inductive Action where
  | ask (op : ClientOp)
  /-- `user_id in self._known_users`. -/
  | knows (userId : String)
  | remember (userId : String)
  | forget (userId : String)

@[reducible] def Action.Ans : Action → Type
  | .ask op => op.Ans
  | .knows _ => Bool
  | .remember _ | .forget _ => Unit

variable {κ : Type}

def Client.handle (client : Client κ) : Handler Action.Ans Exc (State κ)
  | .ask op, s => ((client.answer op s.client).1, { s with client := (client.answer op s.client).2 })
  | .knows userId, s => (.ok (s.knownUsers.contains userId), s)
  | .remember userId, s => (.ok (), { s with knownUsers := s.knownUsers.insert userId })
  | .forget userId, s => (.ok (), { s with knownUsers := s.knownUsers.filter (· != userId) })

abbrev ZepProg (α : Type) : Type := Prog Action.Ans Exc α

def ask (op : ClientOp) : ZepProg op.Ans := Prog.perform (Action.ask op)

theorem wp_ask {client : Client κ} {op : ClientOp} {s : State κ}
    {Q : Except Exc op.Ans → State κ → Prop} :
    (ask op).wp client.handle Q s ↔
      Q (client.answer op s.client).1 { s with client := (client.answer op s.client).2 } :=
  Prog.wp_perform

/-! ## Reading answers -/

/-- `a or b`, of texts that may be absent. -/
def orElse (a b : Option String) : Option String := (a.filter (· != "")).or b

/-- `_to_memory`. -/
def toMemory (edge : Edge) : ProviderMemory where
  nativeId := (orElse edge.uuid_ edge.uuid).getD ""
  content := (orElse edge.fact edge.content).getD ""
  createdAt := edge.createdAt
  validFrom := edge.validAt
  validTo := edge.invalidAt
  score := edge.score
  raw := edge.fields

/-- `minScore is None or (score or 0.0) >= minScore`. -/
def scoresEnough (minScore : Option Score) (score : Option Measure) : Bool :=
  match minScore with
  | none => true
  | some least => (score.getD (.number 0)).atLeast least

/-- `_to_memories`. -/
def toMemories (edges : Option (List Edge)) (minScore : Option Score) : List ProviderMemory :=
  ((edges.getD []).map toMemory).filter fun m => scoresEnough minScore m.score

/-- `text in str(exc).lower()`. The texts looked for are in plain letters. -/
def mentions (exc : Exc) (text : String) : Bool :=
  decide (text.toList <:+: exc.str.toList.map Char.toLower)

/-- `_is_not_found`. -/
def isNotFound (statusCode : Exc → Option Nat) (exc : Exc) : Bool :=
  statusCode exc == some 404 || mentions exc "not found"

/-- `_is_conflict`. -/
def isConflict (statusCode : Exc → Option Nat) (exc : Exc) : Bool :=
  statusCode exc == some 400 || statusCode exc == some 409 || mentions exc "exist"

/-! ## The adapter -/

/-- `MODES`. -/
def modes : List SearchMode := [.semantic, .graph, .temporal]

def capabilities : Capabilities where
  supportsIngest := true
  supportsUpsert := true
  supportsUpdate := false
  supportsDelete := true
  supportsDeleteByScope := true
  supportsList := true
  searchModes := modes
  supportsScore := true
  maxLimit := 50
  scopeDims := [.tenant, .subject]
  supportsLabels := false
  memoryModel := .temporalGraph
  dedup := .provider
  supportsExport := false
  supportsImport := true
  consistency := .eventual
  experimental := true
  meteredExternally := true

variable (statusCode : Exc → Option Nat)

/-- A missing user is a healthy Zep answering honestly. -/
def health : ZepProg HealthStatus :=
  Prog.tryCatch (do
    let _ ← ask (.graphSearch "__memgw_health__" "__memgw__" none 1)
    return { ok := true }) fun e =>
      if e.isException = false then .raise e
      else if isNotFound statusCode e then .ret { ok := true }
      else .ret { ok := false, detail := some e.str }

def ensureUser (scope : Scope) : ZepProg String := do
  if ← Prog.perform (Action.knows (userId scope)) then return userId scope
  else do
    Prog.tryCatch (ask (.userAdd (userId scope))) fun e =>
      if e.isException && isConflict statusCode e then .ret () else .raise e
    Prog.perform (Action.remember (userId scope))
    return userId scope

/-- `_add`. -/
def add (data : String) (scope : Scope) : ZepProg (List ProviderMemory) := do
  let user ← ensureUser statusCode scope
  let raw ← ask (.graphAdd user data)
  match (orElse raw.uuid_ raw.uuid).filter (· != "") with
  | none => .raise (.gateway (ErrorClass.providerError.error
      "zep accepted the episode but returned no id" []))
  | some nativeId => return [{ nativeId := nativeId, content := data, raw := raw.fields }]

def ingest (episode : Episode) (scope : Scope) : ZepProg (List ProviderMemory) :=
  add statusCode episode.asText scope

def upsert (facts : List String) (scope : Scope) : ZepProg (List ProviderMemory) :=
  match facts with
  | [] => .ret []
  | fact :: facts => do
    let added ← add statusCode fact scope
    let out ← upsert facts scope
    return added ++ out

def update : ZepProg ProviderMemory :=
  .raise (.gateway (ErrorClass.unsupportedCapability.error
    ("Zep has no update verb: correct a fact by adding an episode that " ++
      "contradicts it, and the graph invalidates the old edge") [("provider", .str "zep")]))

/-- A graph query reads edges as well: a memory is a fact. -/
def search (query : SearchQuery) (scope : Scope) : ZepProg (List ProviderMemory) :=
  if query.mode ∉ modes then
    .raise (.gateway (ErrorClass.unsupportedCapability.error
      s!"zep adapter cannot serve {Text.quoted query.mode.name} search"
      [("available", .strs (modes.map SearchMode.name))]))
  else do
    let raw ← ask (.graphSearch query.query (userId scope) (some "edges") (min query.limit 50))
    return toMemories raw query.minScore

def listScope (scope : Scope) (limit : Nat) : ZepProg (List ProviderMemory) := do
  let edges ← ask (.edgesOf (userId scope) (min limit 50))
  return (edges.getD []).map toMemory

def get (nativeId : String) : ZepProg (Option ProviderMemory) := do
  let raw ← ask (.edgeGet nativeId)
  return raw.map toMemory

def delete (nativeId : String) : ZepProg Bool := do
  ask (.edgeDelete nativeId)
  return true

/-- Deleting the user takes its graph with it. The count is taken before, and does
    not stop the deletion when it fails. -/
def deleteScope (scope : Scope) : ZepProg Nat := do
  let removed ← Prog.tryCatch (do
    let doomed ← ask (.edgesOf (userId scope) 1000)
    return (doomed.getD []).length) fun e => if e.isException then .ret 0 else .raise e
  ask (.userDelete (userId scope))
  Prog.perform (Action.forget (userId scope))
  return removed

def program : (op : AdapterOp) → ZepProg op.Ans
  | .ingest episode scope => ingest statusCode episode scope
  | .upsert facts scope => upsert statusCode facts scope
  | .update .. => update
  | .search query scope => search query scope
  | .listScope scope limit => listScope scope limit
  | .get nativeId => get nativeId
  | .delete nativeId => delete nativeId
  | .deleteScope scope => deleteScope scope
  | .health => health statusCode

def adapter (client : Client κ) : Adapter (State κ) where
  capabilities := capabilities
  call op s := (program client.statusCode op).run client.handle s

/-! ## What the adapter relies on -/

/-- The native id that the adapter reads off an edge. -/
def Edge.id (edge : Edge) : String := (toMemory edge).nativeId

/-- The client keeps each edge under a user, and filters exactly on the user. -/
structure Client.Lawful (client : Client κ) (owns : κ → String → String → Prop) : Prop where
  one : ∀ s user user' uuid, owns s user uuid → owns s user' uuid → user = user'
  search_keeps : ∀ query user scope limit s,
    owns (client.answer (.graphSearch query user scope limit) s).2 = owns s
  search : ∀ query user scope limit s edges,
    (client.answer (.graphSearch query user scope limit) s).1 = .ok (some edges) →
      ∀ edge ∈ edges, owns s user edge.id
  edgesOf_keeps : ∀ user limit s, owns (client.answer (.edgesOf user limit) s).2 = owns s
  edgesOf : ∀ user limit s edges, (client.answer (.edgesOf user limit) s).1 = .ok (some edges) →
    ∀ edge ∈ edges, owns s user edge.id
  userDelete : ∀ user s user' uuid, user' ≠ user → owns s user' uuid →
    owns (client.answer (.userDelete user) s).2 user' uuid

section

variable {client : Client κ} {owns : κ → String → String → Prop} {s : State κ}

/-- What a search hands out belongs to the user of its scope. -/
theorem search_owned (hlawful : client.Lawful owns) {query : SearchQuery} {scope : Scope} :
    (search query scope).wp client.handle (fun r _ => ∀ memories, r = .ok memories →
      ∀ m ∈ memories, owns s.client (userId scope) m.nativeId) s := by
  unfold search
  split
  · exact fun _ h => by cases h
  · simp only [Prog.bind_eq, Prog.wp_bind, Prog.pure_eq, Prog.wp_ret]
    refine wp_ask.mpr ?_
    cases hr : (client.answer (.graphSearch query.query (userId scope) (some "edges")
        (min query.limit 50)) s.client).1 with
    | error e => exact fun _ h => by cases h
    | ok edges =>
      intro memories h m hm
      obtain rfl := Except.ok.inj h
      simp only [toMemories, List.mem_filter, List.mem_map] at hm
      obtain ⟨⟨edge, hedge, rfl⟩, -⟩ := hm
      cases edges with
      | none => simp at hedge
      | some edges => exact hlawful.search _ _ _ _ _ _ hr edge hedge

theorem listScope_owned (hlawful : client.Lawful owns) {scope : Scope} {limit : Nat} :
    (listScope scope limit).wp client.handle (fun r _ => ∀ memories, r = .ok memories →
      ∀ m ∈ memories, owns s.client (userId scope) m.nativeId) s := by
  simp only [listScope, Prog.bind_eq, Prog.wp_bind, Prog.pure_eq, Prog.wp_ret]
  refine wp_ask.mpr ?_
  cases hr : (client.answer (.edgesOf (userId scope) (min limit 50)) s.client).1 with
  | error e => exact fun _ h => by cases h
  | ok edges =>
    intro memories h m hm
    obtain rfl := Except.ok.inj h
    obtain ⟨edge, hedge, rfl⟩ := List.mem_map.mp hm
    cases edges with
    | none => simp at hedge
    | some edges => exact hlawful.edgesOf _ _ _ _ hr edge hedge

/-- Erasing a scope leaves the edges of other users in place. -/
theorem deleteScope_keeps (hlawful : client.Lawful owns) {scope : Scope} {user uuid : String}
    (hne : user ≠ userId scope) (howns : owns s.client user uuid) :
    (deleteScope scope).wp client.handle (fun _ s' => owns s'.client user uuid) s := by
  have hdelete : ∀ (s : State κ) (removed : Nat), owns s.client user uuid →
      (Prog.bind (ask (.userDelete (userId scope))) fun _ =>
        Prog.bind (Prog.perform (Action.forget (userId scope))) fun _ =>
          (.ret removed : ZepProg Nat)).wp client.handle (fun _ s' => owns s'.client user uuid) s := by
    intro s removed howns
    rw [Prog.wp_bind]
    refine wp_ask.mpr ?_
    have hkept := hlawful.userDelete (userId scope) s.client user uuid hne howns
    cases (client.answer (.userDelete (userId scope)) s.client).1 with
    | error e => exact hkept
    | ok u => exact hkept
  simp only [deleteScope, Prog.bind_eq, Prog.pure_eq]
  rw [Prog.wp_bind, Prog.wp_tryCatch, Prog.wp_bind]
  refine wp_ask.mpr ?_
  have hkept : owns (client.answer (.edgesOf (userId scope) 1000) s.client).2 user uuid := by
    rw [hlawful.edgesOf_keeps]
    exact howns
  cases (client.answer (.edgesOf (userId scope) 1000) s.client).1 with
  | ok edges => exact hdelete _ _ hkept
  | error e =>
    cases he : e.isException with
    | true => simpa [he] using hdelete _ 0 hkept
    | false => simpa [he] using hkept

end

/-! ## Adding facts -/

/-- An episode that the client takes is stored as a new one, and a call that raises, or
    adds a user, or searches, stores none. -/
structure Client.Adds {E : Type} (client : Client κ) (holds : κ → Set E) : Prop where
  graphAdd : ∀ user data s edge, (client.answer (.graphAdd user data) s).1 = .ok edge →
    holds s ⊆ holds (client.answer (.graphAdd user data) s).2 ∧
      ∃ x ∈ holds (client.answer (.graphAdd user data) s).2, x ∉ holds s
  raised : ∀ user data s e, (client.answer (.graphAdd user data) s).1 = .error e →
    holds (client.answer (.graphAdd user data) s).2 = holds s
  userAdd : ∀ user s, holds (client.answer (.userAdd user) s).2 = holds s
  graphSearch : ∀ query user scope limit s,
    holds (client.answer (.graphSearch query user scope limit) s).2 = holds s

/-- The client has the user of the scope, or takes it, and then takes the fact. -/
def Client.Accepts (client : Client κ) (scope : Scope) (s : State κ) (fact : String) : Prop :=
  ∃ user s₁ edge, (ensureUser client.statusCode scope).run client.handle s = (.ok user, s₁) ∧
    (client.answer (.graphAdd user fact) s₁.client).1 = .ok edge

theorem upsert_eq_batch {facts : List String} {scope : Scope} :
    upsert statusCode facts scope =
      Prog.batch (fun fact => add statusCode fact scope) facts := by
  induction facts with
  | nil => rfl
  | cons fact facts ih =>
    rw [upsert, ih]
    rfl

section

variable {E : Type} {client : Client κ} {holds : κ → Set E} {s : State κ}

theorem ensureUser_holds (hadds : client.Adds holds) {scope : Scope} :
    (ensureUser client.statusCode scope).wp client.handle
      (fun _ s' => holds s'.client = holds s.client) s := by
  simp only [ensureUser, Prog.bind_eq, Prog.wp_bind, Prog.pure_eq]
  refine Prog.wp_perform.mpr ?_
  simp only [Client.handle]
  split
  · rfl
  · rw [Prog.wp_bind, Prog.wp_tryCatch]
    refine wp_ask.mpr ?_
    have hkept := hadds.userAdd (userId scope) s.client
    cases (client.answer (.userAdd (userId scope)) s.client).1 with
    | ok u => exact hkept
    | error e =>
      simp only
      split
      · exact hkept
      · exact hkept

/-- Adding a fact stores an episode exactly when the client takes it, even if no id came
    back for it, and returns nothing when the client does not. -/
theorem add_holds (hadds : client.Adds holds) {fact : String} {scope : Scope} :
    (add client.statusCode fact scope).wp client.handle (fun r s' =>
      (client.Accepts scope s fact → holds s.client ⊆ holds s'.client ∧
        ∃ x ∈ holds s'.client, x ∉ holds s.client) ∧
      (¬ client.Accepts scope s fact → holds s'.client = holds s.client ∧
        ∃ e, r = .error e)) s := by
  simp only [add, Prog.bind_eq, Prog.wp_bind, Prog.pure_eq]
  cases hrun : (ensureUser client.statusCode scope).run client.handle s with
  | mk r s₁ =>
    have hkept : holds s₁.client = holds s.client :=
      Prog.of_wp (ensureUser_holds hadds) hrun
    refine Prog.wp_of_run hrun ?_
    cases r with
    | error e =>
      refine ⟨?_, fun _ => ⟨hkept, e, rfl⟩⟩
      rintro ⟨user, s₂, edge, hrun', -⟩
      cases hrun.symm.trans hrun'
    | ok user =>
      simp only
      refine wp_ask.mpr ?_
      cases hadd : (client.answer (.graphAdd user fact) s₁.client).1 with
      | error e =>
        refine ⟨?_, fun _ => ⟨(hadds.raised _ _ _ _ hadd).trans hkept, e, rfl⟩⟩
        rintro ⟨user', s₂, edge, hrun', hadd'⟩
        cases hrun.symm.trans hrun'
        cases hadd.symm.trans hadd'
      | ok edge =>
        have haccepts : client.Accepts scope s fact := ⟨user, s₁, edge, hrun, hadd⟩
        have hgrown := hkept ▸ hadds.graphAdd _ _ _ _ hadd
        simp only
        split <;> exact ⟨fun _ => hgrown, fun h => absurd haccepts h⟩

theorem add_adds (hadds : client.Adds holds) {scope : Scope} :
    Prog.Adds client.handle (fun s => holds s.client)
      (fun fact => add client.statusCode fact scope) where
  returns fact s a s' hrun := by
    obtain ⟨hok, herr⟩ := Prog.of_wp (add_holds hadds) hrun
    by_cases haccepts : client.Accepts scope s fact
    · exact hok haccepts
    · obtain ⟨-, e, he⟩ := herr haccepts
      cases he
  raises fact s e s' hrun := by
    obtain ⟨hok, herr⟩ := Prog.of_wp (add_holds hadds) hrun
    by_cases haccepts : client.Accepts scope s fact
    · exact (hok haccepts).1
    · exact (herr haccepts).1.ge

/-- An upsert has left nothing with the client exactly when the client did not take
    its first fact. -/
theorem upsert_leaves_nothing_iff (hadds : client.Adds holds) {facts : List String}
    {scope : Scope} :
    holds ((upsert client.statusCode facts scope).run client.handle s).2.client = holds s.client ↔
      ∀ fact ∈ facts.head?, ¬ client.Accepts scope s fact := by
  rw [upsert_eq_batch]
  refine ((add_adds hadds).leaves_nothing_iff rfl).trans (forall₂_congr fun fact _ => ?_)
  obtain ⟨hok, herr⟩ := Prog.of_wp (add_holds hadds)
    (rfl : (add client.statusCode fact scope).run client.handle s = (_, _))
  constructor
  · rintro ⟨-, hsame⟩ haccepts
    obtain ⟨-, x, hx, hnew⟩ := hok haccepts
    exact hnew (hsame ▸ hx)
  · intro hno
    obtain ⟨hsame, e, he⟩ := herr hno
    exact ⟨⟨e, he⟩, hsame⟩

theorem health_holds (hadds : client.Adds holds) :
    (health client.statusCode).wp client.handle (fun _ s' => holds s'.client = holds s.client)
      s := by
  rw [health, Prog.wp_tryCatch, Prog.bind_eq, Prog.wp_bind]
  refine wp_ask.mpr ?_
  have hkept := hadds.graphSearch "__memgw_health__" "__memgw__" none 1 s.client
  cases (client.answer (.graphSearch "__memgw_health__" "__memgw__" none 1) s.client).1 with
  | ok edges => exact hkept
  | error e =>
    simp only
    split
    · exact hkept
    · split <;> exact hkept

end

/-! ## Episodes and edges -/

/-- What Zep makes of what is added to it. -/
structure Graph where
  /-- The uuids that episodes were given. -/
  episodes : Set String
  /-- The edge with the second uuid is in the graph, and was made from the episode with
      the first one. -/
  made : String → String → Prop

/-- The client gives an episode a uuid of its own when it is added, and may make edges
    from it, under other uuids, at any time. What it deletes is the edge that it is given
    the uuid of. -/
structure Client.Builds (client : Client κ) (graph : κ → Graph) : Prop where
  apart : ∀ s episode uuid, (graph s).made episode uuid → uuid ∉ (graph s).episodes
  graphAdd : ∀ user data s edge, (client.answer (.graphAdd user data) s).1 = .ok edge →
    ∀ uuid ∈ orElse edge.uuid_ edge.uuid,
      uuid ∈ (graph (client.answer (.graphAdd user data) s).2).episodes
  episodes : ∀ op s, (graph s).episodes ⊆ (graph (client.answer op s).2).episodes
  edgeDelete : ∀ uuid s episode uuid', uuid' ≠ uuid → (graph s).made episode uuid' →
    (graph (client.answer (.edgeDelete uuid) s).2).made episode uuid'

section

variable {client : Client κ} {graph : κ → Graph} {s : State κ}

/-- An episode stays one, whatever program runs. -/
theorem episodes_kept (hbuilds : client.Builds graph) {α : Type} {p : ZepProg α} :
    p.wp client.handle (fun _ s' => (graph s.client).episodes ⊆ (graph s'.client).episodes) s := by
  refine Prog.run_invariant
    (I := fun s' : State κ => (graph s.client).episodes ⊆ (graph s'.client).episodes) ?_
    Prog.within_any subset_rfl
  intro op s' _ hs'
  cases op with
  | ask op => exact hs'.trans (hbuilds.episodes op s'.client)
  | knows | remember | forget => exact hs'

/-- What a write hands out are ids of episodes. -/
def Episodes (graph : κ → Graph) (r : Except Exc (List ProviderMemory)) (s : State κ) : Prop :=
  ∀ memories, r = .ok memories → ∀ m ∈ memories, m.nativeId ∈ (graph s.client).episodes

theorem add_episodes (hbuilds : client.Builds graph) {data : String} {scope : Scope} :
    (add client.statusCode data scope).wp client.handle (Episodes graph) s := by
  simp only [add, Prog.bind_eq, Prog.wp_bind, Prog.pure_eq]
  refine Prog.wp_mono (fun r s₁ _ => ?_) (episodes_kept hbuilds)
  cases r with
  | error e => exact fun _ h => by cases h
  | ok user =>
    simp only
    refine wp_ask.mpr ?_
    cases hadd : (client.answer (.graphAdd user data) s₁.client).1 with
    | error e => exact fun _ h => by cases h
    | ok edge =>
      simp only
      split
      · exact fun _ h => by cases h
      · rename_i nativeId hid
        intro memories h m hm
        obtain rfl := Except.ok.inj h
        obtain rfl := List.mem_singleton.mp hm
        exact hbuilds.graphAdd _ _ _ _ hadd nativeId (Option.filter_eq_some_iff.mp hid).1

theorem upsert_episodes (hbuilds : client.Builds graph) {facts : List String} {scope : Scope} :
    (upsert client.statusCode facts scope).wp client.handle (Episodes graph) s := by
  induction facts generalizing s with
  | nil =>
    intro memories h m hm
    obtain rfl := Except.ok.inj h
    cases hm
  | cons fact facts ih =>
    simp only [upsert, Prog.bind_eq, Prog.pure_eq]
    refine Prog.wp_bind_of (add_episodes hbuilds) (fun added s₁ hadded => ?_)
      (fun e s₁ _ _ h => by cases h)
    refine Prog.wp_bind_of (Prog.wp_and ih (episodes_kept hbuilds)) (fun out s₂ hout => ?_)
      (fun e s₂ _ _ h => by cases h)
    intro memories h m hm
    obtain rfl := Except.ok.inj h
    rcases List.mem_append.mp hm with hm | hm
    · exact hout.2 (hadded added rfl m hm)
    · exact hout.1 out rfl m hm

/-- Deleting by an episode's id takes no edge. -/
theorem delete_episode (hbuilds : client.Builds graph) {episode : String}
    (hepisode : episode ∈ (graph s.client).episodes) {uuid : String}
    (hmade : (graph s.client).made episode uuid) :
    (delete episode).wp client.handle (fun _ s' => (graph s'.client).made episode uuid) s := by
  simp only [delete, Prog.bind_eq, Prog.wp_bind, Prog.pure_eq]
  refine wp_ask.mpr ?_
  have hne : uuid ≠ episode := fun h => hbuilds.apart _ _ _ hmade (h ▸ hepisode)
  have hkept := hbuilds.edgeDelete episode s.client episode uuid hne hmade
  cases (client.answer (.edgeDelete episode) s.client).1 with
  | error e => exact hkept
  | ok u => exact hkept

end

end Memgw.Zep
