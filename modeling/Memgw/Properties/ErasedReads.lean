-- SUMMARY: When the memories that a scope erasure removed stay away from later reads: each of them needs a tombstone.
import Memgw.Properties.Reads

/-!
# Erased memories and later reads

A provider may go on serving what it was asked to erase. Reads drop such a hit when
the catalog has a tombstone for it, and the erasure leaves one for the live rows
that its own scope selects. A memory that the catalog had never mapped, or had
mapped under a wider scope, gets none; whether an erased memory stays away is
decided by that alone.
-/

namespace Memgw

variable {σ : Type} {env : Env}

/-- The memories that a store held before a call and no longer holds after it. -/
def Removed (holds : σ → String → Prop) (before after : σ) : Set String :=
  { n | holds before n ∧ ¬ holds after n }

/-- A request that writes nothing. Its adapters may answer with whatever they like,
    except that `get` answers with the memory it was asked for. -/
def Request.Quiet (q : Request σ) : Prop := q.2.isWrite = false ∧ q.1.NamesGets

/-- However the provider behaves, no read by the tenant hands out one of the memories
    while nothing is written. -/
def StaysErased (env : Env) (tenant provider : String) (natives : Set String) (w : World σ) : Prop :=
  ∀ (later : List (Request σ)) (q : Request σ), (∀ q' ∈ later, q'.Quiet) → q.Quiet →
    q.2.isRead = true → q.2.tenant = tenant →
    ∀ reply, q.answer env (serve env later w) = .ok reply → ∀ record ∈ reply.records,
      ¬ (record.provider = provider ∧ record.nativeId ∈ natives)

/-- The index has a row for the memory which is deleted, or which the erasure of the
    scope deletes. -/
def Catalog.Covers (c : Catalog) (tenant : String) (scope : Scope) (provider native : String) :
    Prop :=
  ∃ r ∈ c.memoryIndex, r.tenantId = tenant ∧ r.provider = provider ∧ r.nativeId = native ∧
    (r.live = false ∨ r.inScope tenant scope provider = true)

/-! ## A tombstone keeps a memory away -/

/-- Only a write touches a dead row. -/
theorem MemoryCore.Did.keeps_dead {core : MemoryCore σ} {call : Call} {w w' : World σ}
    {r : Except Exc Reply} (h : core.Did env call w r w') (hwrite : call.isWrite = false)
    {row : IndexRow} (hrow : row ∈ w.catalog.memoryIndex) (hdead : row.live = false) :
    row ∈ w'.catalog.memoryIndex := by
  have hbury : ∀ p : IndexRow → Bool, (p row = true → row.live = true) →
      row ∈ (bury env p w.catalog).memoryIndex := by
    intro p hp
    refine mem_bury.mpr ⟨row, hrow, ?_⟩
    cases hsel : p row with
    | false => rfl
    | true => simp [hp hsel] at hdead
  cases h with
  | refused | failed | failedOpen | got => exact hrow
  | unsettled _ _ hc => exact hc.index ▸ hrow
  | searched _ _ hmap _ => exact hmap.read_keeps hrow
  | listed _ _ hmap => exact hmap.read_keeps hrow
  | deleted => exact hbury _ fun h => (IndexRow.issued_iff.mp h).2.2
  | erased => exact hbury _ fun h => (IndexRow.inScope_iff.mp h).2.2.2.1
  | rebound => simpa using hrow
  | ingested | upserted | updated => cases hwrite

theorem staysErased_of_dead {tenant provider : String} {natives : Set String} {w : World σ}
    (hdead : ∀ n ∈ natives, ∃ r ∈ w.catalog.memoryIndex, r.tenantId = tenant ∧
      r.provider = provider ∧ r.nativeId = n ∧ r.live = false) :
    StaysErased env tenant provider natives w := by
  intro later q hlater hq hread htenant reply hreply record hrecord ⟨hprovider, hnative⟩
  obtain ⟨r, hr, ht, hp, hn, hlive⟩ := hdead _ hnative
  have hr' : r ∈ (serve env later w).catalog.memoryIndex :=
    serve_invariant (I := fun w' => r ∈ w'.catalog.memoryIndex)
      (fun q' hq' _ _ _ hdid hmem => hdid.keeps_dead (hlater q' hq').1 hmem hlive) hr
  have hdid := hreply ▸ q.did env (serve env later w)
  -- the record stands on a live row with the key of the dead one
  obtain ⟨r₁, hr₁, ht₁, hp₁, hn₁, -, hlive₁⟩ := hdid.read_row hread hrecord
  have hr' := (hdid.read_extends hread).rows r hr'
  have heq := eq_of_nativeKey hr₁ hr' (ht₁.trans (htenant.trans ht.symm))
    (hp₁.trans (hprovider.trans hp.symm)) ((hn₁ hq.2).trans hn.symm)
  rw [heq, hlive] at hlive₁
  cases hlive₁

/-! ## Without one it can come back -/

theorem serving_adapter {provider : String} {memories : List ProviderMemory} {erase : σ → σ} :
    (MemoryCore.serving provider memories erase).adapter provider =
      .ok (.serving memories erase) := by
  simp [MemoryCore.adapter, MemoryCore.serving]

theorem serving_namesGets {provider : String} {memories : List ProviderMemory} {erase : σ → σ} :
    (MemoryCore.serving provider memories erase).NamesGets := by
  intro name a ha nativeId s memory s' hcall
  have hname : name = provider := by
    by_contra hne
    simp [MemoryCore.adapter, MemoryCore.serving, List.lookup_cons, beq_false_of_ne hne] at ha
  obtain rfl : Adapter.serving memories erase = a :=
    Except.ok.inj (serving_adapter.symm.trans (hname ▸ ha))
  obtain ⟨hfind, -⟩ : memories.find? (·.nativeId == nativeId) = some memory ∧ s = s' := by
    simpa [Adapter.serving] using hcall
  simpa using List.find?_some hfind

theorem serving_prepares {c : Catalog} {tenant provider : String} {scope : Scope}
    {memories : List ProviderMemory} {erase : σ → σ}
    (h : chooseProvider scope.subject (getBinding tenant scope.subject c) (some provider) none =
      .ok provider) :
    (MemoryCore.serving provider memories erase).Prepares c tenant scope none provider
      (.serving memories erase) where
  chosen := h
  configured := serving_adapter
  supported := by
    refine assertScopeSupported_ok.mpr ⟨fun dim _ => ?_, .inr rfl⟩
    cases dim <;> simp [Adapter.serving]

/-- The request with which a tenant comes across whatever its provider serves. -/
def servedSearch (tenant provider : String) (scope : Scope) (memory : ProviderMemory) : Request σ :=
  (.serving provider [memory] id,
    .search tenant { query := "", limitPos := SearchQuery.defaultLimitPos } scope none)

/-- It hands out the memory unless the index has it deleted. -/
theorem servedSearch_shows {tenant provider : String} (scope : Scope) (memory : ProviderMemory)
    {w : World σ} (hminted : w.catalog.Minted env)
    (hchosen : chooseProvider scope.subject (getBinding tenant scope.subject w.catalog)
      (some provider) none = .ok provider)
    (halive : ∀ r ∈ w.catalog.memoryIndex, r.tenantId = tenant → r.provider = provider →
      r.nativeId = memory.nativeId → r.live = true) :
    ∃ reply, (servedSearch tenant provider scope memory).answer env w = .ok reply ∧
      ∃ record ∈ reply.records, record.provider = provider ∧
        record.nativeId = memory.nativeId := by
  obtain ⟨rows, c', hrun, hmap⟩ : ∃ rows c', (mapHits tenant provider [memory] scope).run
        (handle env) w =
      (.ok (toRecords provider [memory] CatalogRow.scope rows), { w with catalog := c' }) ∧
      Mapped env tenant provider (hitItems [memory]) scope false w.catalog rows c' :=
    mapHits_succeeds hminted (by simp)
  have hprep : (MemoryCore.serving provider [memory] (id : σ → σ)).Prepares w.catalog tenant scope
      none provider (.serving [memory] id) := serving_prepares hchosen
  have hsearch := search_run { query := "" } hprep (by simp)
    (resolveMode_of_mem (List.mem_singleton_self _)) rfl hrun
  refine ⟨_, congrArg Prod.fst hsearch, ?_⟩
  obtain ⟨r, -, -, hshown⟩ :=
    hmap.shows (List.mem_singleton_self memory) halive CatalogRow.scope
  exact ⟨_, hshown, rfl, rfl⟩

/-- After an erasure that succeeded, the memories it removed stay away from reads
    exactly when the index covered each of them. -/
theorem deleteScope_staysErased_iff (env : Env) (holds : σ → String → Prop) (history : List (Request σ))
    (store : σ) (core : MemoryCore σ) (tenant : String) (scope : Scope) (asserted : Option String)
    (removed : Nat)
    (hok : Request.answer env (core, .deleteScope tenant scope asserted)
      (serve env history { catalog := {}, store := store }) = .ok (.erased removed)) :
    let w := serve env history { catalog := {}, store := store }
    let w' := Request.after env (core, .deleteScope tenant scope asserted) w
    ∃ provider, chooseProvider scope.subject (getBinding tenant scope.subject w.catalog)
        core.defaultProvider asserted = .ok provider ∧
      (StaysErased env tenant provider (Removed holds w.store w'.store) w' ↔
        ∀ n ∈ Removed holds w.store w'.store, w.catalog.Covers tenant scope provider n) := by
  intro w w'
  have hminted : w.catalog.Minted env := serve_minted
  have hdid : core.Did env (.deleteScope tenant scope asserted) w (.ok (.erased removed)) w' :=
    hok ▸ Request.did env (core, .deleteScope tenant scope asserted) w
  have hminted' : w'.catalog.Minted env := hdid.minted hminted
  clear_value w w'
  generalize hs' : w'.store = s'
  cases hdid with
  | @erased _ _ _ _ provider a _ s₁ hask hcall =>
    cases hask with
    | deleteScope hp _ =>
      refine ⟨provider, hp.chosen, fun hstays n hn => ?_, fun hcovers => ?_⟩
      · -- a provider that still serves the memory would show it
        by_contra hno
        have halive : ∀ r ∈ (bury env (IndexRow.inScope tenant scope provider) w.catalog).memoryIndex,
            r.tenantId = tenant → r.provider = provider → r.nativeId = n → r.live = true := by
          intro r hr ht hpr hnat
          obtain ⟨r₀, h₀, rfl⟩ := mem_bury.mp hr
          cases hsel : r₀.inScope tenant scope provider with
          | true =>
            simp only [hsel, if_true] at ht hpr hnat
            exact absurd ⟨r₀, h₀, ht, hpr, hnat, .inr hsel⟩ hno
          | false =>
            simp only [hsel] at ht hpr hnat ⊢
            by_contra hdead
            exact hno ⟨r₀, h₀, ht, hpr, hnat, .inl (by simpa using hdead)⟩
        obtain ⟨reply, hreply, record, hrecord, hprovider, hnative⟩ :=
          servedSearch_shows scope { nativeId := n, content := "" } hminted'
            (chooseProvider_default hp.chosen) halive
        exact hstays [] (servedSearch tenant provider scope _) (by simp) ⟨rfl, serving_namesGets⟩
          rfl rfl reply hreply record hrecord ⟨hprovider, hnative ▸ hn⟩
      · refine staysErased_of_dead (fun n hn => ?_)
        obtain ⟨r, hr, ht, hpr, hnat, hdead⟩ := hcovers n hn
        refine ⟨_, mem_bury.mpr ⟨r, hr, rfl⟩, ?_⟩
        rcases hdead with hdead | hin
        · have hout : r.inScope tenant scope provider = false := by
            rw [Bool.eq_false_iff]
            intro h
            simp [(IndexRow.inScope_iff.mp h).2.2.2.1] at hdead
          simp [hout, ht, hpr, hnat, hdead]
        · simp [hin, IndexRow.deleted, IndexRow.live, ht, hpr, hnat]

/-! ## An erased memory that comes back -/

/-- A gateway over a provider that still serves its one memory after erasing it. -/
def lateGateway : MemoryCore (List String) :=
  .serving "mem0" [{ nativeId := "n", content := "tea" }] fun _ => []

def lateScope : Scope := { subject := ⟨"u_1", u_1_mustBeReal⟩ }

/-- The memory is at the provider, and the gateway has never seen it. -/
def lateWorld : World (List String) := { catalog := {}, store := ["n"] }

def lateErasure : Request (List String) := (lateGateway, .deleteScope "a" lateScope none)

def lateSearch : Request (List String) :=
  (lateGateway, .search "a" { query := "tea", limitPos := SearchQuery.defaultLimitPos }
    lateScope none)

theorem unmapped_memory_returns :
    lateErasure.answer .counting lateWorld = .ok (.erased 1) ∧
      ¬ StaysErased .counting "a" "mem0"
        (Removed (fun s n => n ∈ s) lateWorld.store (lateErasure.after .counting lateWorld).store)
        (lateErasure.after .counting lateWorld) := by
  refine ⟨by decide, fun h => ?_⟩
  have hreply : lateSearch.answer .counting (lateErasure.after .counting lateWorld) =
      .ok (.found {
        results := [{ id := "mgI", provider := "mem0", nativeId := "n", content := "tea"
                      scope := lateScope }]
        provider := "mem0", requested := some .semantic, served := some .semantic }) := by decide
  exact h [] lateSearch (by simp) ⟨rfl, serving_namesGets⟩ rfl rfl _ hreply _
    (List.mem_singleton_self _) ⟨rfl, by decide, by decide⟩

/-- Had a search seen the memory under the scope first, it would stay away. -/
theorem mapped_memory_stays_erased :
    StaysErased .counting "a" "mem0"
      (Removed (fun s n => n ∈ s) (serve .counting [lateSearch] lateWorld).store
        (lateErasure.after .counting (serve .counting [lateSearch] lateWorld)).store)
      (lateErasure.after .counting (serve .counting [lateSearch] lateWorld)) := by
  obtain ⟨provider, hchosen, hiff⟩ := deleteScope_staysErased_iff .counting
    (fun s n => n ∈ s) [lateSearch] ["n"] lateGateway "a" lateScope none 1 (by decide)
  obtain rfl : "mem0" = provider := Except.ok.inj hchosen
  refine hiff.mpr (fun n hn => ?_)
  obtain rfl : n = "n" := List.mem_singleton.mp hn.1
  have hcovers : ∃ r ∈ (serve .counting [lateSearch] lateWorld).catalog.memoryIndex.rows,
      r.tenantId = "a" ∧ r.provider = "mem0" ∧ r.nativeId = "n" ∧
        (r.live = false ∨ r.inScope "a" lateScope "mem0" = true) := by decide
  exact hcovers

end Memgw
