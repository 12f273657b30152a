-- SUMMARY: When a point-in-time search is answered with the past: the adapter passes no time on, so the provider decides.
import Memgw.Adapters.Zep
import Memgw.Properties.Reads

/-!
# Point-in-time recall

A query with `as_of` is let through to any provider that has temporal search. Zep
has, but its adapter asks the graph for the user's edges and for nothing about
time, in whatever mode the query is served. What comes back was true then exactly
when every edge that the graph chose to answer with was.
-/

namespace Memgw

open Zep

variable {κ : Type} {env : Env} {client : Client κ}

/-- `valid_from` is unset or not after the time, `valid_to` unset or after it. -/
def validAt (validFrom validTo : Option Time) (t : Time) : Bool :=
  validFrom.all (· ≤ t) && validTo.all (t < ·)

def MemoryRecord.validAt (record : MemoryRecord) (t : Time) : Bool :=
  Memgw.validAt record.validFrom record.validTo t

def Zep.Edge.trueAt (edge : Edge) (t : Time) : Bool := Memgw.validAt edge.validAt edge.invalidAt t

/-! ## The adapter's call -/

/-- The edges that the graph answers a search with. -/
def Zep.answeredEdges (client : Client κ) (query : String) (limit : Nat) (scope : Scope) (s : κ) :
    List Edge :=
  match (client.answer (.graphSearch query (userId scope) (some "edges") limit) s).1 with
  | .ok edges => edges.getD []
  | .error _ => []

/-- Nothing of the time asked about reaches the provider. -/
theorem Zep.search_ignores_asOf (query : SearchQuery) (scope : Scope) (asOf : Option Time) :
    search { query with asOf := asOf } scope = search query scope := rfl

/-- An answered search hands out the edges that score enough, and one that raises
    has no edges to hand out. -/
theorem Zep.search_edges {query : SearchQuery} {scope : Scope} {s : State κ}
    (hmode : query.mode ∈ modes) :
    (search query scope).wp client.handle (fun r _ => match r with
      | .ok memories => ∀ m, m ∈ memories ↔
          ∃ edge ∈ answeredEdges client query.query (min query.limit 50) scope s.client,
            scoresEnough query.minScore edge.score = true ∧ m = toMemory edge
      | .error _ => answeredEdges client query.query (min query.limit 50) scope s.client = []) s := by
  rw [search, if_neg (not_not_intro hmode)]
  simp only [Prog.bind_eq, Prog.wp_bind, Prog.pure_eq, Prog.wp_ret]
  refine wp_ask.mpr ?_
  unfold answeredEdges
  cases (client.answer (.graphSearch query.query (userId scope) (some "edges") (min query.limit 50))
      s.client).1 with
  | error e => rfl
  | ok edges =>
    intro m
    simp only [toMemories, List.mem_filter, List.mem_map]
    constructor
    · rintro ⟨⟨edge, hedge, rfl⟩, hscore⟩
      exact ⟨edge, hedge, hscore, rfl⟩
    · rintro ⟨edge, hedge, hscore, rfl⟩
      exact ⟨⟨edge, hedge, rfl⟩, hscore⟩

/-- The gateway's limit for this provider is the one that the adapter applies again. -/
theorem Zep.limit_effective (query : SearchQuery) (served : SearchMode) :
    min (query.effective served capabilities).limit 50 = min query.limit 50 := by
  have hcaps : (query.effective served capabilities).limit = min query.limit 50 := rfl
  rw [hcaps, Nat.min_assoc, Nat.min_self]

theorem Zep.adapter_search {query : SearchQuery} {served : SearchMode} {scope : Scope}
    {s s' : State κ} {r : Except Exc (List ProviderMemory)} (hserved : served ∈ modes)
    (hcall : (Zep.adapter client).call (.search (query.effective served capabilities) scope) s =
      (r, s')) :
    match r with
    | .ok memories => ∀ m, m ∈ memories ↔
        ∃ edge ∈ answeredEdges client query.query (min query.limit 50) scope s.client,
          scoresEnough query.minScore edge.score = true ∧ m = toMemory edge
    | .error _ => answeredEdges client query.query (min query.limit 50) scope s.client = [] := by
  have hsearch := @search_edges κ client (query.effective served capabilities) scope s hserved
  rw [limit_effective] at hsearch
  have hrun : (search (query.effective served capabilities) scope).run client.handle s = (r, s') :=
    hcall
  rw [Prog.wp, hrun] at hsearch
  cases r <;> exact hsearch

/-! ## The verb -/

theorem search_validAt_iff (env : Env) (core : MemoryCore (State κ)) (client : Client κ)
    (t name : String) (query : SearchQuery) (scope : Scope) (asserted : Option String)
    (w : World (State κ)) (reply : SearchResult)
    (hchosen : chooseProvider scope.subject (getBinding t scope.subject w.catalog)
      core.defaultProvider asserted = .ok name)
    (hzep : core.adapter name = .ok (Zep.adapter client))
    (hok : Request.answer env (core, .search t query scope asserted) w = .ok (.found reply)) :
    ∀ time, query.asOf = some time →
      ((∀ record ∈ reply.results, record.validAt time = true) ↔
        ∀ edge ∈ answeredEdges client query.query (min query.limit 50) (scope.under t)
            w.store.client,
          scoresEnough query.minScore edge.score = true →
            ¬ w.catalog.Tombstoned t name edge.id → edge.trueAt time = true) := by
  intro time _
  have hdid := hok ▸ Request.did env (core, .search t query scope asserted) w
  generalize Request.after env (core, .search t query scope asserted) w = w' at hdid
  have hadapter : ∀ {name' : String} {a : Adapter (State κ)},
      core.Prepares w.catalog t scope asserted name' a → name' = name ∧ a = Zep.adapter client := by
    intro name' a hp
    obtain rfl := Except.ok.inj (hp.chosen.symm.trans hchosen)
    exact ⟨rfl, Except.ok.inj (hp.configured.symm.trans hzep)⟩
  cases hdid with
  | failedOpen hask hcall hopen =>
    obtain ⟨hp, decision, hserved, rfl⟩ := hask.search_inv
    obtain ⟨rfl, rfl⟩ := hadapter hp
    simp [adapter_search hserved hcall]
  | @searched _ _ _ _ _ provider _ _ memories _ rows _ _ hask hcall hmap hresults =>
    obtain ⟨hp, decision, hserved, hop⟩ := hask.search_inv
    obtain ⟨rfl, rfl⟩ := hadapter hp
    have hmode := congrArg SearchQuery.mode (AdapterOp.search.inj hop).1
    have hserved := Eq.mpr (congrArg (· ∈ modes) hmode) hserved
    have hmemories : ∀ m : ProviderMemory, m ∈ memories ↔
        ∃ edge ∈ answeredEdges client query.query (min query.limit 50) (scope.under t) w.store.client,
          scoresEnough query.minScore edge.score = true ∧ m = toMemory edge :=
      adapter_search hserved hcall
    rw [hresults]
    constructor
    · -- an edge that no tombstone hides becomes a record with its interval
      intro hrecords edge hedge hscore hfree
      have hmem := (hmemories (toMemory edge)).mpr ⟨edge, hedge, hscore, rfl⟩
      obtain ⟨r, hr, hkey⟩ := hmap.keyed hmem
      exact hrecords _ (hmap.mem_shown_iff.mpr ⟨_, hmem, hfree, r, hr, hkey, rfl⟩)
    · intro hedges record hrecord
      obtain ⟨m, hm, hfree, r, -, -, rfl⟩ := hmap.mem_shown_iff.mp hrecord
      obtain ⟨edge, hedge, hscore, rfl⟩ := (hmemories m).mp hm
      exact hedges edge hedge hscore hfree

/-! ## The present in answer to a question about the past -/

/-- A client whose graph answers every search with one edge. -/
def oneEdgeClient (edge : Edge) : Client Unit where
  answer
    | .graphSearch .., s => (.ok (some [edge]), s)
    | .edgesOf .., s => (.ok (some [edge]), s)
    | .edgeGet _, s => (.ok (some edge), s)
    | .graphAdd .., s => (.ok edge, s)
    | .userAdd _, s | .userDelete _, s | .edgeDelete _, s => (.ok (), s)
  statusCode _ := none

def zepGateway (edge : Edge) : MemoryCore (State Unit) where
  providers := [("zep", Zep.adapter (oneEdgeClient edge))]
  defaultProvider := some "zep"

/-- What is true now, and was not at the time asked about. -/
def recentEdge : Edge := { uuid_ := some "e", fact := some "lives in Hanoi", validAt := some 20 }

def pastSearch (edge : Edge) : Request (State Unit) :=
  (zepGateway edge, .search "a" { query := "where", mode := .temporal, asOf := some 10
                                  limitPos := SearchQuery.defaultLimitPos }
    { subject := ⟨"u_1", u_1_mustBeReal⟩ } none)

def emptyWorld : World (State Unit) := { catalog := {}, store := { client := (), knownUsers := [] } }

/-- What the gateway answers from the edge, which held from `start` on. -/
def hanoiReply (start : Time) : SearchResult where
  results := [{ id := "mg", provider := "zep", nativeId := "e", content := "lives in Hanoi"
                scope := { subject := ⟨"u_1", u_1_mustBeReal⟩ }, validFrom := some start }]
  provider := "zep"
  requested := some .temporal
  served := some .temporal

theorem recent_edge_answers_the_past :
    ∃ reply, (pastSearch recentEdge).answer .counting emptyWorld = .ok (.found reply) ∧
      ∃ record ∈ reply.results, record.validAt 10 = false :=
  ⟨hanoiReply 20, by decide, _, List.mem_singleton_self _, by decide⟩

/-- An edge that was valid then is answered with as well, and that answer is right. -/
theorem old_edge_answers_the_past :
    ∃ reply, (pastSearch { recentEdge with validAt := some 5 }).answer .counting emptyWorld =
      .ok (.found reply) ∧ ∀ record ∈ reply.results, record.validAt 10 = true := by
  have hreply : (pastSearch { recentEdge with validAt := some 5 }).answer .counting emptyWorld =
      .ok (.found (hanoiReply 5)) := by decide
  refine ⟨hanoiReply 5, hreply, ?_⟩
  apply (search_validAt_iff .counting _ (oneEdgeClient { recentEdge with validAt := some 5 }) "a"
    "zep" _ _ none emptyWorld _ rfl rfl hreply 10 rfl).mpr
  intro edge hedge _ _
  obtain rfl := List.mem_singleton.mp hedge
  decide

end Memgw
