-- SUMMARY: What deleting a memory by the id of its write does at Zep: the write names an episode, reads name edges, and none goes.
import Memgw.Gateway.Calls
import Memgw.Properties.PointInTime

/-!
# Episodes and their edges

A write through the Zep adapter hands out the id of the episode that it added. What
searches and listings hand out are edges, which Zep makes from the episodes and gives
uuids of their own. A deletion by the id of the write asks Zep to delete an edge with
the uuid of an episode: there is none, so every edge made from the episode stays, and
a later read shows it.
-/

namespace Memgw

variable {σ : Type} {env : Env}

/-! ## What a read shows -/

/-- A memory that the adapter hands to a read, and the provider that it is read under. -/
inductive MemoryCore.Hands (core : MemoryCore σ) (w : World σ) :
    Call → String → ProviderMemory → Prop where
  | search {t : String} {query served : SearchQuery} {scope bound : Scope}
      {asserted : Option String} {name : String} {a : Adapter σ} {memories : List ProviderMemory}
      {m : ProviderMemory}
      (hask : core.Asks w.catalog (.search t query scope asserted) name a (.search served bound))
      (hans : (a.call (.search served bound) w.store).1 = .ok memories) (hm : m ∈ memories) :
      Hands core w (.search t query scope asserted) name m
  | listScope {t : String} {scope bound : Scope} {limit most : Nat} {asserted : Option String}
      {name : String} {a : Adapter σ} {memories : List ProviderMemory} {m : ProviderMemory}
      (hask : core.Asks w.catalog (.listScope t scope limit asserted) name a
        (.listScope bound most))
      (hans : (a.call (.listScope bound most) w.store).1 = .ok memories) (hm : m ∈ memories) :
      Hands core w (.listScope t scope limit asserted) name m

/-- The verbs that hand out what their adapter finds. -/
def Call.finds : Call → Bool
  | .search .. | .listScope .. => true
  | .ingest .. | .upsert .. | .update .. | .get .. | .delete .. | .deleteScope .. | .rebind .. =>
    false

/-- A page shows a native id exactly when it was handed it, and the catalog does not
    have it as deleted. -/
theorem Mapped.shows_iff {t provider : String} {scope : Scope} {c c' : Catalog}
    {rows : List CatalogRow} {memories : List ProviderMemory} {native : String}
    (h : Mapped env t provider (hitItems memories) scope false c rows c') :
    (∃ record ∈ toRecords provider memories CatalogRow.scope rows, record.nativeId = native) ↔
      (∃ m ∈ memories, m.nativeId = native) ∧ ¬ c.Tombstoned t provider native := by
  constructor
  · rintro ⟨record, hrecord, rfl⟩
    obtain ⟨m, hm, hfree, r, -, -, rfl⟩ := h.mem_shown_iff.mp hrecord
    exact ⟨⟨m, hm, rfl⟩, hfree⟩
  · rintro ⟨⟨m, hm, rfl⟩, hfree⟩
    obtain ⟨r, hr, hkey⟩ := h.keyed hm
    exact ⟨_, h.mem_shown_iff.mpr ⟨m, hm, hfree, r, hr, hkey, rfl⟩, rfl⟩

/-- A search or a listing that returned shows what it was handed, but for what the tenant
    has deleted. -/
theorem read_shows_iff {q : Request σ} {w : World σ} {reply : Reply} {native : String}
    (hfinds : q.2.finds = true) (hok : q.answer env w = .ok reply) :
    (∃ record ∈ reply.records, record.nativeId = native) ↔
      ∃ name m, q.1.Hands w q.2 name m ∧ m.nativeId = native ∧
        ¬ w.catalog.Tombstoned q.2.tenant name native := by
  obtain ⟨core, call⟩ := q
  have hdid := hok ▸ Request.did env (core, call) w
  generalize Request.after env (core, call) w = w' at hdid
  cases hdid with
  | failedOpen hask hcall =>
    refine ⟨fun ⟨_, h, _⟩ => absurd h List.not_mem_nil, ?_⟩
    rintro ⟨name, m, hhands, -⟩
    cases hhands with
    | search hask' hans =>
      obtain ⟨rfl, rfl, rfl⟩ := hask.unique hask'
      cases (congrArg Prod.fst hcall).symm.trans hans
  | searched hask hcall hmap hresults =>
    simp only [Reply.records, hresults]
    refine hmap.shows_iff.trans ⟨?_, ?_⟩
    · rintro ⟨⟨m, hm, hn⟩, hfree⟩
      exact ⟨_, m, .search hask (congrArg Prod.fst hcall) hm, hn, hfree⟩
    · rintro ⟨name, m, hhands, hn, hfree⟩
      cases hhands with
      | search hask' hans hm =>
        obtain ⟨rfl, rfl, hop⟩ := hask.unique hask'
        cases hop
        obtain rfl := Except.ok.inj ((congrArg Prod.fst hcall).symm.trans hans)
        exact ⟨⟨m, hm, hn⟩, hfree⟩
  | listed hask hcall hmap =>
    refine hmap.shows_iff.trans ⟨?_, ?_⟩
    · rintro ⟨⟨m, hm, hn⟩, hfree⟩
      exact ⟨_, m, .listScope hask (congrArg Prod.fst hcall) hm, hn, hfree⟩
    · rintro ⟨name, m, hhands, hn, hfree⟩
      cases hhands with
      | listScope hask' hans hm =>
        obtain ⟨rfl, rfl, hop⟩ := hask.unique hask'
        cases hop
        obtain rfl := Except.ok.inj ((congrArg Prod.fst hcall).symm.trans hans)
        exact ⟨⟨m, hm, hn⟩, hfree⟩
  | ingested | upserted | updated | got | deleted | erased | rebound => cases hfinds

/-! ## What a write names -/

section

variable {κ : Type} {client : Zep.Client κ} {graph : κ → Zep.Graph}

/-- Every provider of the gateway is served by the adapter over this client. -/
def MemoryCore.OverZep (client : Zep.Client κ) (core : MemoryCore (Zep.State κ)) : Prop :=
  ∀ name a, core.adapter name = .ok a → a = Zep.adapter client

/-- An episode stays one, whatever verb is served. -/
theorem MemoryCore.Did.keeps_episode {core : MemoryCore (Zep.State κ)} {call : Call}
    {w w' : World (Zep.State κ)} {r : Except Exc Reply} (h : core.Did env call w r w')
    (hbuilds : client.Builds graph) (hzep : core.OverZep client) {episode : String}
    (hepisode : episode ∈ (graph w.store.client).episodes) :
    episode ∈ (graph w'.store.client).episodes := by
  refine h.keeps_store (I := fun s => episode ∈ (graph s.client).episodes) ?_ hepisode
  intro name a op s ha hs
  obtain rfl := hzep name a ha
  exact Zep.episodes_kept hbuilds hs

theorem serve_episode {qs : List (Request (Zep.State κ))} {w : World (Zep.State κ)}
    (hbuilds : client.Builds graph) (hzep : ∀ q ∈ qs, q.1.OverZep client) {episode : String}
    (hepisode : episode ∈ (graph w.store.client).episodes) :
    episode ∈ (graph (serve env qs w).store.client).episodes :=
  serve_invariant (I := fun w => episode ∈ (graph w.store.client).episodes)
    (fun q hq _ _ _ hdid hw => hdid.keeps_episode hbuilds (hzep q hq) hw) hepisode

/-- A record of a write is for a row with its native id, which is the id of an episode. -/
theorem MemoryCore.Did.wrote_episode {core : MemoryCore (Zep.State κ)} {call : Call}
    {w w' : World (Zep.State κ)} {reply : WriteResult}
    (h : core.Did env call w (.ok (.wrote reply)) w') (hbuilds : client.Builds graph)
    (hzep : core.OverZep client) {record : MemoryRecord} (hrecord : record ∈ reply.results) :
    (∃ row ∈ w'.catalog.memoryIndex, row.gatewayId = record.id ∧
      row.nativeId = record.nativeId) ∧
      record.nativeId ∈ (graph w'.store.client).episodes := by
  have hnamed : ∀ {t name : String} {memories : List ProviderMemory} {scope : Scope}
      {rows : List CatalogRow} {c₁ : Catalog} {r : Except Exc (List ProviderMemory)}
      {s₁ : Zep.State κ}, Mapped env t name (hitItems memories) scope true w.catalog rows c₁ →
      Zep.Episodes graph r s₁ → r = .ok memories →
      record ∈ toRecords name memories (fun _ => scope) rows →
      (∃ row ∈ c₁.memoryIndex, row.gatewayId = record.id ∧ row.nativeId = record.nativeId) ∧
        record.nativeId ∈ (graph s₁.client).episodes := by
    intro t name memories scope rows c₁ r s₁ hmap hepisodes hr hrecord
    obtain ⟨row, hrow, -, -, hn, hid, -⟩ := hmap.record_row hrecord
    obtain ⟨m, hm, source, -, -, hrec⟩ := mem_toRecords hrecord
    have hnative : record.nativeId = m.nativeId := congrArg MemoryRecord.nativeId hrec
    exact ⟨⟨row, hrow, hid, hn⟩, hnative ▸ hepisodes memories hr m hm⟩
  cases h with
  | ingested hask hcall hmap hjournal hr =>
    obtain ⟨hreply, -⟩ := hr _ rfl
    obtain rfl := Reply.wrote.inj hreply
    obtain rfl := hzep _ _ hask.configured
    subst hjournal
    have hrow := hnamed hmap (Prog.of_wp (Zep.add_episodes hbuilds) hcall) rfl hrecord
    split <;> simpa using hrow
  | upserted hask hcall hmap =>
    obtain rfl := hzep _ _ hask.configured
    simpa using hnamed hmap (Prog.of_wp (Zep.upsert_episodes hbuilds) hcall) rfl hrecord
  | updated _ _ _ _ hr => cases hr _ rfl

/-! ## The deletion -/

/-- Marking rows of other native ids makes no difference. -/
theorem tombstoned_bury_iff {c : Catalog} {p : IndexRow → Bool} {t name native : String}
    (hother : ∀ r ∈ c.memoryIndex, p r = true → r.nativeId ≠ native) :
    (bury env p c).Tombstoned t name native ↔ c.Tombstoned t name native := by
  constructor
  · rintro ⟨r, hr, ht, hp, hn, hdead⟩
    obtain ⟨r₀, h₀, rfl⟩ := mem_bury.mp hr
    cases hp₀ : p r₀ with
    | true =>
      rw [hp₀] at hn
      exact absurd hn (hother r₀ h₀ hp₀)
    | false =>
      simp only [hp₀, if_neg Bool.false_ne_true] at ht hp hn hdead
      exact ⟨r₀, h₀, ht, hp, hn, hdead⟩
  · rintro ⟨r, hr, ht, hp, hn, hdead⟩
    refine ⟨_, mem_bury.mpr ⟨r, hr, rfl⟩, ?_⟩
    cases hp₀ : p r with
    | true => exact absurd hn (hother r hr hp₀)
    | false => exact ⟨ht, hp, hn, hdead⟩

/-- Deleting an episode's row takes no edge that was made from the episode, and has none
    down as deleted that was not before. -/
theorem MemoryCore.Did.deleted_episode {core : MemoryCore (Zep.State κ)} {t gatewayId : String}
    {w w' : World (Zep.State κ)} (h : core.Did env (.delete t gatewayId) w (.ok .deleted) w')
    (hbuilds : client.Builds graph) (hzep : core.OverZep client) {row : IndexRow}
    (hrow : row ∈ w.catalog.memoryIndex) (hid : row.gatewayId = gatewayId)
    (hepisode : row.nativeId ∈ (graph w.store.client).episodes) {uuid : String}
    (hmade : (graph w.store.client).made row.nativeId uuid) :
    (graph w'.store.client).made row.nativeId uuid ∧
      ∀ name, w'.catalog.Tombstoned t name uuid ↔ w.catalog.Tombstoned t name uuid := by
  cases h with
  | deleted hresolve hask hcall =>
    obtain ⟨found, hfound, hid', ht, hlive, rfl⟩ := resolveGatewayId_some hresolve
    obtain rfl := eq_of_gatewayId hfound hrow (hid'.trans hid.symm)
    obtain rfl := hzep _ _ hask.configured
    refine ⟨Prog.of_wp (Zep.delete_episode hbuilds hepisode hmade) hcall, fun name => ?_⟩
    have hne : uuid ≠ found.nativeId := fun h => hbuilds.apart _ _ _ hmade (h ▸ hepisode)
    -- only the row of the episode is marked
    refine tombstoned_bury_iff fun r hr hissued hn => hne (hn.symm.trans ?_)
    obtain rfl := eq_of_gatewayId hr hrow ((IndexRow.issued_iff.mp hissued).1.trans hid.symm)
    rfl

/-- The worlds before and after a deletion by the id that a write returned for one of its
    memories. Between the two requests there may be any others. -/
structure DeletedByWrite (env : Env) (client : Zep.Client κ) (t : String) (record : MemoryRecord)
    (w w' : World (Zep.State κ)) : Prop where
  run : ∃ (w₀ : World (Zep.State κ)) (write : Request (Zep.State κ)) (reply : WriteResult)
      (between : List (Request (Zep.State κ))),
    (∀ q ∈ write :: between, q.1.OverZep client) ∧ write.2.tenant = t ∧
      write.answer env w₀ = .ok (.wrote reply) ∧ record ∈ reply.results ∧
      w = serve env (write :: between) w₀
  deleted : ∃ core : MemoryCore (Zep.State κ), core.OverZep client ∧
    Request.answer env (core, .delete t record.id) w = .ok .deleted ∧
    w' = Request.after env (core, .delete t record.id) w

/-- When the deletion comes, the record's row still names the episode. -/
theorem DeletedByWrite.episode {t : String} {record : MemoryRecord} {w w' : World (Zep.State κ)}
    (h : DeletedByWrite env client t record w w') (hbuilds : client.Builds graph) :
    (∃ row ∈ w.catalog.memoryIndex, row.gatewayId = record.id ∧
      row.nativeId = record.nativeId) ∧
      record.nativeId ∈ (graph w.store.client).episodes := by
  obtain ⟨w₀, write, reply, between, hzep, -, hwrote, hrecord, rfl⟩ := h.run
  have hdid := hwrote ▸ write.did env w₀
  obtain ⟨⟨row, hrow, hid, hn⟩, hepisode⟩ :=
    MemoryCore.Did.wrote_episode hdid hbuilds (hzep write (List.mem_cons_self ..)) hrecord
  constructor
  · obtain ⟨row', hrow', hid', hn'⟩ := serve_row_persists hrow
    exact ⟨row', hrow', hid'.trans hid, hn'.trans hn⟩
  · exact serve_episode hbuilds (fun q hq => hzep q (List.mem_cons_of_mem write hq)) hepisode

end

/-! ## An edge that stays -/

/-- A graph with room for one episode, and for the edge made from it. -/
structure SmallGraph where
  added : Bool
  held : Bool

def SmallGraph.edges (s : SmallGraph) : List Zep.Edge :=
  if s.held then [{ uuid_ := some "edge", fact := some "likes tea" }] else []

/-- The client of such a graph. -/
def smallClient : Zep.Client SmallGraph where
  answer
    | .graphAdd .., s =>
      if s.added then (.error (.other "ApiError" "quota exceeded"), s)
      else (.ok { uuid_ := some "episode" }, { added := true, held := true })
    | .graphSearch .., s | .edgesOf .., s => (.ok (some s.edges), s)
    | .edgeGet uuid, s => (.ok (s.edges.find? fun edge => edge.uuid_ == some uuid), s)
    | .edgeDelete uuid, s => (.ok (), { s with held := s.held && uuid != "edge" })
    | .userDelete _, s => (.ok (), { s with held := false })
    | .userAdd _, s => (.ok (), s)
  statusCode _ := none

def SmallGraph.graph (s : SmallGraph) : Zep.Graph where
  episodes := {uuid | s.added = true ∧ uuid = "episode"}
  made episode uuid := s.held = true ∧ episode = "episode" ∧ uuid = "edge"

theorem smallClient_builds : smallClient.Builds SmallGraph.graph where
  apart s episode uuid hmade hepisode := by
    obtain ⟨-, -, rfl⟩ := hmade
    exact absurd hepisode.2 (by decide)
  graphAdd user data s edge h := by
    obtain ⟨added, held⟩ := s
    cases added with
    | true => cases h
    | false =>
      obtain rfl := Except.ok.inj h
      intro uuid huuid
      exact ⟨rfl, (Option.some.inj huuid).symm⟩
  episodes op s := by
    rintro uuid ⟨hadded, huuid⟩
    refine ⟨?_, huuid⟩
    cases op with
    | graphAdd => simp [smallClient, hadded]
    | userAdd | userDelete | graphSearch | edgesOf | edgeGet | edgeDelete => exact hadded
  edgeDelete uuid s episode uuid' hne hmade := by
    obtain ⟨hheld, hepisode, rfl⟩ := hmade
    exact ⟨by simp [smallClient, hheld, hne.symm], hepisode, rfl⟩

def smallGateway : MemoryCore (Zep.State SmallGraph) where
  providers := [("zep", Zep.adapter smallClient)]
  defaultProvider := some "zep"

theorem smallGateway_overZep : smallGateway.OverZep smallClient :=
  fun _ _ h => MemoryCore.adapter_single rfl h

def teaDrinker : Scope := { subject := ⟨"u_1", u_1_mustBeReal⟩ }

def blankWorld : World (Zep.State SmallGraph) where
  catalog := {}
  store := { client := { added := false, held := false }, knownUsers := [] }

def teaWrite : Request (Zep.State SmallGraph) :=
  (smallGateway, .upsert "a" ["likes tea"] teaDrinker none)

def teaList : Request (Zep.State SmallGraph) := (smallGateway, .listScope "a" teaDrinker 10 none)

def dropId (gatewayId : String) : Request (Zep.State SmallGraph) :=
  (smallGateway, .delete "a" gatewayId)

/-- The record that the write returns. -/
def teaRecord : MemoryRecord where
  id := "mg"
  provider := "zep"
  nativeId := "episode"
  content := "likes tea"
  scope := teaDrinker

theorem tea_deleted : DeletedByWrite .counting smallClient "a" teaRecord
    (serve .counting [teaWrite, teaList] blankWorld)
    (serve .counting [teaWrite, teaList, dropId "mg"] blankWorld) where
  run := by
    refine ⟨blankWorld, teaWrite, { results := [teaRecord], provider := "zep" }, [teaList], ?_,
      rfl, by decide, List.mem_singleton_self _, rfl⟩
    intro q hq
    rcases List.mem_cons.mp hq with rfl | hq
    · exact smallGateway_overZep
    · obtain rfl := List.mem_singleton.mp hq
      exact smallGateway_overZep
  deleted := ⟨smallGateway, smallGateway_overZep, by decide, rfl⟩

/-- The world after both the episode's id and the edge's own id were deleted. -/
def emptiedWorld : World (Zep.State SmallGraph) :=
  serve .counting [dropId "mgII"] (serve .counting [teaWrite, teaList, dropId "mg"] blankWorld)

end Memgw
