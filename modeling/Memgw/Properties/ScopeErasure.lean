-- SUMMARY: What a scope erasure loses besides the rows it erases: the catalog's predicates leave out the labels.
import Memgw.Properties.SelfHosted
import Memgw.Properties.Reads

/-!
# Scope erasure

Three stores are pruned with three copies of the scope's condition. Only the
adapter's copy has the labels, so an erasure under labels may bury index rows and
delete episodes whose memories the adapter keeps. Apart from that the copies agree:
a row behind an id that the catalog's copy selects satisfies the rest of the
adapter's, by the invariant of `SelfHosted`.
-/

namespace Memgw

open Pgvector

variable {env : Env} {w w' : World State} {core : MemoryCore State}

/-! ## What must not be lost -/

/-- The provider answers a get of the native id with a memory. -/
def MemoryCore.Holds (core : MemoryCore State) (s : State) (provider native : String) : Prop :=
  ∃ a memory, core.adapter provider = .ok a ∧ (a.call (.get native) s).1 = .ok (some memory)

def MemoryCore.Readable (env : Env) (core : MemoryCore State) (t gatewayId : String)
    (w : World State) (record : MemoryRecord) : Prop :=
  Request.answer env (core, .get t gatewayId) w = .ok (.memory record)

/-- `_map_hits` of `search` and `list_scope`: a page of hits is mapped, and a hit on the
    memory is handed out under the gateway id. -/
structure HitsMapped (env : Env) (t provider native gatewayId : String) (w : World State) : Prop where
  mapped : ∀ memories scope, (memories.map ProviderMemory.nativeId).Nodup →
    ∃ records w', (mapHits t provider memories scope).run (handle env) w = (.ok records, w')
  shown : ∀ memories scope records w',
    (mapHits t provider memories scope).run (handle env) w = (.ok records, w') →
      (∃ m ∈ memories, m.nativeId = native) →
        ∃ record ∈ records, record.id = gatewayId ∧ record.nativeId = native

/-- From `w` to `w'` nothing is lost of what the adapters still hold. -/
structure LosesNothing (env : Env) (core : MemoryCore State) (t : String) (w w' : World State) :
    Prop where
  reads : ∀ gatewayId record, core.Readable env t gatewayId w record →
    core.Holds w'.store record.provider record.nativeId →
      (∃ record', core.Readable env t gatewayId w' record') ∧
        HitsMapped env t record.provider record.nativeId gatewayId w'
  journal : ∀ j ∈ w.catalog.episodeJournal,
    (∀ part ∈ j.ingestedTo, ∀ n ∈ part.2, core.Holds w'.store part.1 n) →
      j ∈ w'.catalog.episodeJournal

/-- Whatever row of the table stands behind an id that the index has in the scope, its
    labels agree with those of the scope. -/
def IndexedAgree (c : Catalog) (t : String) (scope : Scope) (provider : String) (rows : Rows) :
    Prop :=
  ∀ r ∈ c.memoryIndex, r.inScope t scope provider = true → ∀ row ∈ rows,
    row.nativeId = r.nativeId → row.labels.agree scope.labels = true

/-- Every episode of the scope has a memory that its provider does not hold, or that
    stands in the table under labels agreeing with those of the scope. -/
def EpisodesErased (core : MemoryCore State) (w : World State) (t : String) (scope : Scope)
    (rows : Rows) : Prop :=
  ∀ j ∈ w.catalog.episodeJournal, j.inScope t scope = true → ∃ part ∈ j.ingestedTo, ∃ n ∈ part.2,
    ¬ core.Holds w.store part.1 n ∨ ∃ row ∈ rows, row.nativeId = n ∧
      row.labels.agree scope.labels = true

/-! ## The adapter's condition and the catalog's -/

theorem SelfHosted.index_selects (h : SelfHosted env w) {r : IndexRow} {row : Row}
    {t table provider : String} {scope : Scope} (hr : r ∈ w.catalog.memoryIndex)
    (hin : r.inScope t scope provider = true)
    (hrow : row ∈ w.store.tables table) (hid : row.nativeId = r.nativeId) :
    selects (scope.under t) row = true ↔ row.labels.agree scope.labels = true := by
  obtain ⟨ht, -, hsubject, -, hagent, hsession⟩ := IndexRow.inScope_iff.mp hin
  exact (h.mention_fits _ (.index hr) table row hrow hid).selects_iff ht hsubject hagent hsession

theorem SelfHosted.journal_selects (h : SelfHosted env w) {j : JournalRow} {row : Row}
    {n t table : String} {part : String × List String} {scope : Scope}
    (hj : j ∈ w.catalog.episodeJournal)
    (hpart : part ∈ j.ingestedTo) (hn : n ∈ part.2) (hin : j.inScope t scope = true)
    (hrow : row ∈ w.store.tables table) (hid : row.nativeId = n) :
    selects (scope.under t) row = true ↔ row.labels.agree scope.labels = true := by
  obtain ⟨ht, hsubject, hagent, hsession⟩ := JournalRow.inScope_iff.mp hin
  have hmention : w.catalog.Mentions (j.mention n) := .journal hj hpart hn
  exact (h.mention_fits _ hmention table row hrow hid).selects_iff ht hsubject hagent hsession

/-! ## What is held -/

theorem holds_iff {cfg : Config} {s : State} {provider native : String}
    (ha : core.adapter provider = .ok (Pgvector.adapter env cfg)) :
    core.Holds s provider native ↔ ∃ row ∈ s.rows cfg, row.nativeId = native := by
  constructor
  · rintro ⟨a, memory, ha', hcall⟩
    obtain rfl := Except.ok.inj (ha.symm.trans ha')
    rw [call_get] at hcall
    obtain ⟨row, hfind, -⟩ := Option.map_eq_some_iff.mp (Except.ok.inj hcall)
    obtain ⟨hrow, hid⟩ := Table.find?_some hfind
    exact ⟨row, hrow, beq_iff_eq.mp hid⟩
  · rintro ⟨row, hrow, hid⟩
    cases hfind : (s.rows cfg).find? (·.nativeId == native) with
    | none => simpa [hid] using Table.find?_none.mp hfind row hrow
    | some row' => exact ⟨_, toMemory none row', ha, by rw [call_get, hfind]; rfl⟩

/-- After an erasure a provider holds what it held, but for the rows that were selected. -/
theorem Pgvector.Deleted.holds_iff {cfg : Config} {s' : State} {p : Row → Bool}
    (h : Deleted cfg p w.store s') (hw : SelfHosted env w) (hcore : core.OverPgvector env)
    {provider native : String} :
    core.Holds s' provider native ↔ core.Holds w.store provider native ∧
      ∀ row ∈ w.store.rows cfg, row.nativeId = native → p row = false := by
  cases ha : core.adapter provider with
  | error e => simp [MemoryCore.Holds, ha]
  | ok a =>
    obtain ⟨cfg', rfl⟩ := hcore _ _ ha
    rw [Memgw.holds_iff ha, Memgw.holds_iff ha]
    by_cases htable : cfg'.table = cfg.table
    · have hrows : s'.rows cfg' = s'.rows cfg ∧ w.store.rows cfg' = w.store.rows cfg :=
        ⟨congrArg s'.tables htable, congrArg w.store.tables htable⟩
      rw [hrows.1, hrows.2]
      constructor
      · rintro ⟨row, hrow, rfl⟩
        obtain ⟨hmem, hp⟩ := (h.rows row).mp hrow
        refine ⟨⟨row, hmem, rfl⟩, fun row' hrow' hid => ?_⟩
        rw [eq_of_nativeId hrow' hmem hid]
        exact hp
      · rintro ⟨⟨row, hrow, rfl⟩, hkept⟩
        exact ⟨row, (h.rows row).mpr ⟨hrow, hkept row hrow rfl⟩, rfl⟩
    · have hrows : s'.rows cfg' = w.store.rows cfg' := h.elsewhere cfg'.table htable
      rw [hrows]
      refine (and_iff_left_of_imp ?_).symm
      rintro ⟨row, hrow, rfl⟩ row' hrow' hid
      exact absurd (hw.one _ row' hrow' _ row hrow hid).1.symm htable

/-! ## What is read -/

/-- What can be read has a live row. -/
theorem readable_inv (hcore : core.OverPgvector env) {t gatewayId : String} {record : MemoryRecord}
    (h : core.Readable env t gatewayId w record) :
    ∃ r ∈ w.catalog.memoryIndex, r.gatewayId = gatewayId ∧ r.live = true ∧
      r.nativeKey = [t, record.provider, record.nativeId] := by
  have hdid := h ▸ Request.did env (core, .get t gatewayId) w
  generalize Request.after env (core, .get t gatewayId) w = w' at hdid
  cases hdid with
  | got hrow hask hcall =>
    obtain ⟨cfg, rfl⟩ := hcore _ _ hask.configured
    obtain ⟨r, hr, hg, rfl, hl, rfl⟩ := resolveGatewayId_some hrow
    rw [call_get] at hcall
    obtain ⟨row, hfind, rfl⟩ := Option.map_eq_some_iff.mp (Except.ok.inj (Prod.mk.inj hcall).1)
    have hid : row.nativeId = r.nativeId := beq_iff_eq.mp (Table.find?_some hfind).2
    exact ⟨r, hr, hg, hl, by simp [IndexRow.nativeKey, toRecord, toMemory, IndexRow.toRow, hid]⟩

/-- A get works when the index has a live row and its provider the memory. -/
theorem readable_of_live {r : IndexRow} (hr : r ∈ w.catalog.memoryIndex) (hl : r.live = true)
    (hheld : core.Holds w.store r.provider r.nativeId) :
    ∃ record, core.Readable env r.tenantId r.gatewayId w record := by
  obtain ⟨a, memory, ha, hcall⟩ := hheld
  have hcall : a.call (.get r.nativeId) w.store =
      (.ok (some memory), (a.call (.get r.nativeId) w.store).2) := Prod.ext hcall rfl
  exact ⟨_, congrArg Prod.fst (get_run (resolveGatewayId_of_mem hr hl) ha hcall)⟩

theorem hitsMapped_of_live (hminted : w.catalog.Minted env) {r : IndexRow}
    (hr : r ∈ w.catalog.memoryIndex) (hl : r.live = true) :
    HitsMapped env r.tenantId r.provider r.nativeId r.gatewayId w where
  mapped memories scope hnodup := by
    obtain ⟨rows, c', hrun, -⟩ := mapHits_succeeds hminted hnodup
    exact ⟨_, _, hrun⟩
  shown memories scope records w' hrun hhit := by
    obtain ⟨m, hm, hid⟩ := hhit
    have hmaps : (mapHits r.tenantId r.provider memories scope).wp (handle env)
        (fun x _ => ∀ records, x = .ok records → ∃ record ∈ records,
          record.id = r.gatewayId ∧ record.nativeId = r.nativeId) w := by
      refine wp_mapHits (fun rows c' hmap => ?_) (fun e c' _ records h => by cases h)
      rintro records hrecords
      obtain rfl := Except.ok.inj hrecords
      have halive : ∀ r₁ ∈ w.catalog.memoryIndex, r₁.tenantId = r.tenantId →
          r₁.provider = r.provider → r₁.nativeId = m.nativeId → r₁.live = true := by
        intro r₁ h₁ ht hp hn
        rw [eq_of_nativeKey h₁ hr ht hp (hn.trans hid)]
        exact hl
      obtain ⟨r₁, h₁, hkey, hshown⟩ := hmap.shows hm halive CatalogRow.scope
      -- the row of the hit is the one that was there already
      have : r₁ = r := Table.eq_of_key IndexRow.nativeKey (by simp [indexKeys]) h₁
        (hmap.read_keeps hr) (by rw [hkey, hid]; rfl)
      exact ⟨_, hshown, by rw [this]; rfl, hid⟩
    exact Prog.of_wp hmaps hrun records rfl

/-! ## The erasure -/

/-- The world that an erasure leaves when the adapter leaves the store `s'`. -/
def World.erased (env : Env) (t : String) (scope : Scope) (provider : String) (w : World State)
    (s' : State) : World State where
  catalog := (deleteJournal t scope (markScopeDeleted env t scope provider w.catalog).2).2
  store := s'

section

variable {t provider : String} {scope : Scope} {s' : State}

theorem mem_erased_index {r : IndexRow} :
    r ∈ (w.erased env t scope provider s').catalog.memoryIndex ↔ ∃ r₀ ∈ w.catalog.memoryIndex,
      r = if r₀.inScope t scope provider then r₀.deleted (env.now w.catalog.ticks) else r₀ :=
  mem_bury

theorem mem_erased_journal {j : JournalRow} :
    j ∈ (w.erased env t scope provider s').catalog.episodeJournal ↔
      j ∈ w.catalog.episodeJournal ∧ j.inScope t scope = false :=
  mem_deleteJournal

variable {cfg : Config}

/-- A row that the catalog's condition selects and the adapter's does not is buried
    alive. -/
theorem indexedAgree_of_reads (hw : SelfHosted env w) (hcore : core.OverPgvector env)
    (hcfg : core.adapter provider = .ok (Pgvector.adapter env cfg))
    (hdel : Deleted cfg (selects (scope.under t)) w.store s')
    (hlost : LosesNothing env core t w (w.erased env t scope provider s')) :
    IndexedAgree w.catalog t scope provider (w.store.rows cfg) := by
  intro r hr hin row hrow hid
  by_contra hdisagree
  obtain ⟨ht, hp, -, hl, -⟩ := IndexRow.inScope_iff.mp hin
  have hkept : ∀ row' ∈ w.store.rows cfg, row'.nativeId = r.nativeId →
      selects (scope.under t) row' = false := by
    intro row' hrow' hid'
    rw [eq_of_nativeId hrow' hrow (hid'.trans hid.symm), Bool.eq_false_iff]
    exact fun hsel => hdisagree ((hw.index_selects hr hin hrow hid).mp hsel)
  have hheld : core.Holds w.store r.provider r.nativeId :=
    (holds_iff (hp ▸ hcfg)).mpr ⟨row, hrow, hid⟩
  have hheld' : core.Holds s' r.provider r.nativeId := (hdel.holds_iff hw hcore).mpr ⟨hheld, hkept⟩
  obtain ⟨record, hrecord⟩ := readable_of_live hr hl hheld
  obtain ⟨r₀, h₀, hg, -, hkey⟩ := readable_inv hcore hrecord
  obtain rfl := eq_of_gatewayId h₀ hr hg
  have hkey : r₀.provider = record.provider ∧ r₀.nativeId = record.nativeId := by
    simpa [IndexRow.nativeKey, ht] using hkey
  obtain ⟨⟨record', hread⟩, -⟩ :=
    hlost.reads _ record (ht ▸ hrecord) (hkey.1 ▸ hkey.2 ▸ hheld')
  -- no live row is left under its gateway id
  obtain ⟨r₁, h₁, hg₁, hl₁, -⟩ := readable_inv hcore hread
  obtain ⟨r₂, h₂, rfl⟩ := mem_erased_index.mp h₁
  have : r₂ = r₀ := by
    refine eq_of_gatewayId h₂ hr ?_
    rw [← hg₁]
    split <;> rfl
  simp [this, hin] at hl₁

theorem reads_of_indexedAgree (hw : SelfHosted env w) (hcore : core.OverPgvector env)
    (hcfg : core.adapter provider = .ok (Pgvector.adapter env cfg))
    (hminted : (w.erased env t scope provider s').catalog.Minted env)
    (hdel : Deleted cfg (selects (scope.under t)) w.store s')
    (hagree : IndexedAgree w.catalog t scope provider (w.store.rows cfg)) {gatewayId : String}
    {record : MemoryRecord} (hread : core.Readable env t gatewayId w record)
    (hheld : core.Holds s' record.provider record.nativeId) :
    (∃ record', core.Readable env t gatewayId (w.erased env t scope provider s') record') ∧
      HitsMapped env t record.provider record.nativeId gatewayId
        (w.erased env t scope provider s') := by
  obtain ⟨r, hr, rfl, hl, hkey⟩ := readable_inv hcore hread
  obtain ⟨rfl, hp, hn⟩ : r.tenantId = t ∧ r.provider = record.provider ∧
      r.nativeId = record.nativeId := by simpa [IndexRow.nativeKey] using hkey
  rw [← hp, ← hn] at hheld ⊢
  have hout : r.inScope r.tenantId scope provider = false := by
    rw [Bool.eq_false_iff]
    intro hin
    have hp := (IndexRow.inScope_iff.mp hin).2.1
    obtain ⟨⟨row, hrow, hid⟩, hkept⟩ := ((hdel.holds_iff hw hcore).mp hheld).imp_left
      (holds_iff (hp ▸ hcfg)).mp
    have hsel := (hw.index_selects hr hin hrow hid).mpr (hagree r hr hin row hrow hid)
    exact absurd hsel (by simp [hkept row hrow hid])
  have hr' : r ∈ (w.erased env r.tenantId scope provider s').catalog.memoryIndex :=
    mem_erased_index.mpr ⟨r, hr, by simp [hout]⟩
  exact ⟨readable_of_live hr' hl hheld, hitsMapped_of_live hminted hr' hl⟩

theorem journal_kept_iff (hw : SelfHosted env w) (hcore : core.OverPgvector env)
    (hdel : Deleted cfg (selects (scope.under t)) w.store s') :
    (∀ j ∈ w.catalog.episodeJournal,
      (∀ part ∈ j.ingestedTo, ∀ n ∈ part.2, core.Holds s' part.1 n) →
        j ∈ (w.erased env t scope provider s').catalog.episodeJournal) ↔
      EpisodesErased core w t scope (w.store.rows cfg) := by
  refine forall₂_congr fun j hj => ?_
  rw [mem_erased_journal, and_iff_right hj]
  cases hin : j.inScope t scope with
  | false => simp
  | true =>
    simp only [reduceCtorEq, imp_false, forall_const, not_forall, exists_prop]
    refine exists_congr fun part => and_congr_right fun hpart => ?_
    refine exists_congr fun n => and_congr_right fun hn => ?_
    rw [hdel.holds_iff hw hcore, not_and_or]
    simp only [not_forall, exists_prop]
    refine or_congr_right (exists_congr fun row => and_congr_right fun hrow => ?_)
    refine and_congr_right fun hid => ?_
    rw [Bool.not_eq_false, hw.journal_selects hj hpart hn hin hrow hid]

end

theorem deleteScope_losesNothing_iff (env : Env) (history : List (Request State))
    (core : MemoryCore State) (hcores : ∀ q ∈ history, q.1.OverPgvector env)
    (hcore : core.OverPgvector env) (t provider : String) (scope : Scope)
    (asserted : Option String) (cfg : Config) (removed : Nat)
    (hchosen : chooseProvider scope.subject (getBinding t scope.subject
      (serve env history { catalog := {}, store := {} }).catalog) core.defaultProvider asserted =
        .ok provider)
    (hcfg : core.adapter provider = .ok (Pgvector.adapter env cfg))
    (hok : Request.answer env (core, .deleteScope t scope asserted)
      (serve env history { catalog := {}, store := {} }) = .ok (.erased removed)) :
    let w := serve env history { catalog := {}, store := {} }
    LosesNothing env core t w (Request.after env (core, .deleteScope t scope asserted) w) ↔
      IndexedAgree w.catalog t scope provider (w.store.rows cfg) ∧
        EpisodesErased core w t scope (w.store.rows cfg) := by
  intro w
  have hhosted : SelfHosted env w := serve_selfHosted hcores
  have hminted : w.catalog.Minted env := serve_minted
  have hdid : core.Did env (.deleteScope t scope asserted) w (.ok (.erased removed))
      (Request.after env (core, .deleteScope t scope asserted) w) :=
    hok ▸ Request.did env (core, .deleteScope t scope asserted) w
  have hminted' := hdid.minted hminted
  have hchosen : chooseProvider scope.subject (getBinding t scope.subject w.catalog)
    core.defaultProvider asserted = .ok provider := hchosen
  clear_value w
  generalize Request.after env (core, .deleteScope t scope asserted) w = w' at hdid hminted'
  cases hdid with
  | @erased _ _ _ _ name a _ s' hask hcall =>
    cases hask with
    | deleteScope hp _ =>
      obtain rfl : provider = name := Except.ok.inj (hchosen.symm.trans hp.chosen)
      obtain rfl := Except.ok.inj (hcfg.symm.trans hp.configured)
      have hdel := call_deleteScope hcall
      refine ⟨fun hlost => ⟨indexedAgree_of_reads hhosted hcore hcfg hdel hlost,
        (journal_kept_iff hhosted hcore hdel).mp hlost.journal⟩, fun hagree => ?_⟩
      exact ⟨fun gatewayId record hread hheld => reads_of_indexedAgree hhosted hcore hcfg hminted' hdel
        hagree.1 hread hheld, (journal_kept_iff hhosted hcore hdel).mpr hagree.2⟩

/-! ## An erasure under another label -/

def planScope (plan : String) : Scope :=
  { userScope with labels := ⟨[("plan", plan)], List.nodup_singleton _⟩ }

/-- A world with one memory, from an episode under the label `work`. -/
def plannedWorld : World State :=
  serve .counting [(plainGateway, .ingest "a" teaEpisode (planScope "work") none)]
    { catalog := {}, store := {} }

def planErasure (plan : String) : Request State :=
  (plainGateway, .deleteScope "a" (planScope plan) none)

/-- Erasing another label reports no memory erased, and loses the one there is. -/
theorem other_label_loses :
    (planErasure "home").answer .counting plannedWorld = .ok (.erased 0) ∧
      ¬ LosesNothing .counting plainGateway "a" plannedWorld
        ((planErasure "home").after .counting plannedWorld) := by
  refine ⟨by decide, fun h => ?_⟩
  have hread : plainGateway.Readable .counting "a" "mg" plannedWorld
      { id := "mg", provider := "pg", nativeId := "pvII", content := "tea"
        scope := userScope, createdAt := some 2, updatedAt := some 2
        providerRaw := [("adapter", .str "pgvector")] } := by
    rw [MemoryCore.Readable]
    decide
  have hheld : plainGateway.Holds ((planErasure "home").after .counting plannedWorld).store "pg"
      "pvII" := ⟨_, _, rfl, rfl⟩
  obtain ⟨⟨record, hread'⟩, -⟩ := h.reads "mg" _ hread hheld
  have hgone : Request.answer .counting (plainGateway, .get "a" "mg")
      ((planErasure "home").after .counting plannedWorld) =
        .error (.gateway (ErrorClass.memoryNotFound.error "no memory 'mg'" [])) := by decide
  cases hgone.symm.trans hread'

/-- The episode's own label loses nothing but what is erased. -/
theorem own_label_loses_nothing :
    LosesNothing .counting plainGateway "a" plannedWorld
      ((planErasure "work").after .counting plannedWorld) := by
  refine (deleteScope_losesNothing_iff .counting _ plainGateway ?_ plainGateway_overPgvector "a" "pg"
    (planScope "work") none (.plain "memories") 1 (by decide) rfl (by decide)).mpr ⟨?_, ?_⟩
  · intro q hq
    obtain rfl := List.mem_singleton.mp hq
    exact plainGateway_overPgvector
  · have hagree : ∀ row ∈ (plannedWorld.store.tables "memories").rows,
        row.labels.agree (planScope "work").labels = true := by decide
    exact fun r _ _ row hrow _ => hagree row hrow
  · have herased : ∀ j ∈ plannedWorld.catalog.episodeJournal.rows, ∃ part ∈ j.ingestedTo,
        ∃ n ∈ part.2, ∃ row ∈ (plannedWorld.store.tables "memories").rows, row.nativeId = n ∧
          row.labels.agree (planScope "work").labels = true := by decide
    intro j hj _
    obtain ⟨part, hpart, n, hn, hrow⟩ := herased j hj
    exact ⟨part, hpart, n, hn, .inr hrow⟩

end Memgw
