-- SUMMARY: Reads never resurrect, rescope or rebind: they only append rows, and never hand out a deleted id.
import Memgw.Gateway.Runs
import Mathlib.Data.Set.Basic

/-!
# Reads

Reads share the routine that writes use to map a page, and they do mint rows. What
keeps them harmless is the difference between an id that was never seen, a live
one and a deleted one. The provider may answer a read with anything, native ids
that the gateway has deleted included.
-/

namespace Memgw

variable {σ : Type} {env : Env}

/-! ## What reads leave alone -/

/-- The catalog `c'` is `c` with more rows in its index. -/
structure Catalog.Extends (c c' : Catalog) : Prop where
  rows : ∀ r ∈ c.memoryIndex, r ∈ c'.memoryIndex
  binding : c'.scopeBinding = c.scopeBinding
  journal : c'.episodeJournal = c.episodeJournal

theorem Catalog.Extends.refl (c : Catalog) : c.Extends c := ⟨fun _ h => h, rfl, rfl⟩

theorem Catalog.Extends.trans {c c' c'' : Catalog} (h : c.Extends c') (h' : c'.Extends c'') :
    c.Extends c'' :=
  ⟨fun r hr => h'.rows r (h.rows r hr), h'.binding.trans h.binding, h'.journal.trans h.journal⟩

theorem Catalog.Still.extends {c c' : Catalog} (h : c.Still c') : c.Extends c' :=
  ⟨fun _ hr => h.index ▸ hr, h.binding, h.journal⟩

theorem Mapped.extends {tenant provider : String} {items : List (String × String)} {scope : Scope}
    {c c' : Catalog} {rows : List CatalogRow}
    (h : Mapped env tenant provider items scope false c rows c') : c.Extends c' :=
  ⟨fun _ hr => h.read_keeps hr, h.binding, h.journal⟩

/-- A row that is in the later catalog only has a native id that the earlier one
    never saw, and is the only one for it. -/
theorem Catalog.Extends.new {c c' : Catalog} (h : c.Extends c') {r : IndexRow}
    (hr : r ∈ c'.memoryIndex) (hnew : r ∉ c.memoryIndex) :
    (∀ r₀ ∈ c.memoryIndex, r₀.nativeKey ≠ r.nativeKey) ∧
      ∀ r₁ ∈ c'.memoryIndex, r₁.nativeKey = r.nativeKey → r₁ = r := by
  have hone : ∀ r₁ ∈ c'.memoryIndex, r₁.nativeKey = r.nativeKey → r₁ = r :=
    fun r₁ h₁ hkey => Table.eq_of_key IndexRow.nativeKey (by simp [indexKeys]) h₁ hr hkey
  refine ⟨fun r₀ h₀ hkey => hnew ?_, hone⟩
  exact hone r₀ (h.rows r₀ h₀) hkey ▸ h₀

theorem MemoryCore.Did.read_extends {core : MemoryCore σ} {call : Call} {w w' : World σ}
    {r : Except Exc Reply} (h : core.Did env call w r w') (hread : call.isRead = true) :
    w.catalog.Extends w'.catalog := by
  cases h with
  | refused => exact .refl _
  | failed => exact .refl _
  | failedOpen => exact .refl _
  | unsettled _ _ hc => exact hc.extends
  | searched _ _ hmap _ => exact hmap.extends
  | listed _ _ hmap => exact hmap.extends
  | got => exact .refl _
  | ingested | upserted | updated | deleted | erased | rebound => cases hread

theorem serve_reads_extend {reads : List (Request σ)} {w : World σ}
    (hreads : ∀ q ∈ reads, q.2.isRead = true) :
    w.catalog.Extends (serve env reads w).catalog :=
  serve_invariant (I := fun w' => w.catalog.Extends w'.catalog)
    (fun q hq _ _ _ hdid hw => hw.trans (hdid.read_extends (hreads q hq))) (.refl _)

/-! ## Deleted and not rewritten since -/

/-- The request deletes the memory that the gateway id stands for: it deletes it by
    name, or it deletes a scope and the row goes from live to deleted. -/
def Request.Deletes (env : Env) (q : Request σ) (w : World σ) (gatewayId : String) : Prop :=
  match q.2 with
  | .delete _ g => g = gatewayId ∧ q.answer env w = .ok .deleted
  | .deleteScope .. =>
    (∃ n, q.answer env w = .ok (.erased n)) ∧
      (∃ r ∈ w.catalog.memoryIndex, r.gatewayId = gatewayId ∧ r.live = true) ∧
        ∃ r ∈ (q.after env w).catalog.memoryIndex, r.gatewayId = gatewayId ∧ r.live = false
  | _ => False

/-- The request is a write, and the memory is there again after it. -/
def Request.Rewrites (env : Env) (q : Request σ) (w : World σ) (gatewayId : String) : Prop :=
  q.2.isWrite = true ∧
    ∃ r ∈ (q.after env w).catalog.memoryIndex, r.gatewayId = gatewayId ∧ r.live = true

/-- The gateway ids that a run has deleted and not rewritten since. -/
def tombstones (env : Env) : List (Request σ) → World σ → Set String → Set String
  | [], _, dead => dead
  | q :: qs, w, dead =>
    tombstones env qs (q.after env w)
      { g | q.Deletes env w g ∨ (g ∈ dead ∧ ¬ q.Rewrites env w g) }

/-- The index has a deleted row under the id. -/
def Catalog.Dead (c : Catalog) (gatewayId : String) : Prop :=
  ∃ r ∈ c.memoryIndex, r.gatewayId = gatewayId ∧ r.live = false

/-- A dead row is out of reach of every statement but the one that revives. -/
theorem Catalog.Dead.bury {c : Catalog} {gatewayId : String} {p : IndexRow → Bool}
    (h : c.Dead gatewayId) : (bury env p c).Dead gatewayId := by
  obtain ⟨r, hr, hid, hlive⟩ := h
  refine ⟨_, mem_bury.mpr ⟨r, hr, rfl⟩, ?_⟩
  split
  · exact ⟨hid, rfl⟩
  · exact ⟨hid, hlive⟩

theorem Catalog.Dead.mapped {c c' : Catalog} {gatewayId tenant provider : String}
    {items : List (String × String)} {scope : Scope} {revive : Bool} {rows : List CatalogRow}
    (h : c.Dead gatewayId) (hmap : Mapped env tenant provider items scope revive c rows c') :
    c'.Dead gatewayId ∨ ∃ r ∈ c'.memoryIndex, r.gatewayId = gatewayId ∧ r.live = true := by
  obtain ⟨r, hr, hid, -⟩ := h
  obtain ⟨r', hr', hid', -⟩ := hmap.survives hr
  cases hlive : r'.live with
  | true => exact .inr ⟨r', hr', hid'.trans hid, hlive⟩
  | false => exact .inl ⟨r', hr', hid'.trans hid, hlive⟩

/-- One verb leaves a dead row dead, unless it is a write that brings it back. -/
theorem MemoryCore.Did.dead {core : MemoryCore σ} {call : Call} {w w' : World σ}
    {r : Except Exc Reply} (h : core.Did env call w r w') {gatewayId : String}
    (hdead : w.catalog.Dead gatewayId) :
    w'.catalog.Dead gatewayId ∨ (call.isWrite = true ∧
      ∃ r ∈ w'.catalog.memoryIndex, r.gatewayId = gatewayId ∧ r.live = true) := by
  have hread : w.catalog.Extends w'.catalog → w'.catalog.Dead gatewayId := by
    obtain ⟨r, hr, hid, hlive⟩ := hdead
    exact fun hext => ⟨r, hext.rows r hr, hid, hlive⟩
  cases h with
  | refused => exact .inl hdead
  | failed => exact .inl hdead
  | failedOpen => exact .inl hdead
  | unsettled _ _ hc => exact .inl (hread hc.extends)
  | ingested _ _ hmap hjournal _ =>
    refine (hdead.mapped hmap).imp (fun h => ?_) (fun h => ⟨rfl, ?_⟩)
    · subst hjournal
      unfold Catalog.Dead at *
      split <;> simpa using h
    · subst hjournal
      split <;> simpa using h
  | upserted _ _ hmap =>
    refine (hdead.mapped hmap).imp (fun h => ?_) (fun h => ⟨rfl, ?_⟩)
    · simpa [Catalog.Dead] using h
    · simpa using h
  | updated _ _ _ hmap _ => exact (hdead.mapped hmap).imp id (fun h => ⟨rfl, h⟩)
  | searched _ _ hmap _ => exact .inl (hread hmap.extends)
  | listed _ _ hmap => exact .inl (hread hmap.extends)
  | got => exact .inl hdead
  | deleted => exact .inl hdead.bury
  | erased => exact .inl hdead.bury
  | rebound => exact .inl (by simpa [Catalog.Dead] using hdead)

/-- A request that deletes a memory leaves its row dead. -/
theorem Request.Deletes.dead {q : Request σ} {w : World σ} {gatewayId : String}
    (h : q.Deletes env w gatewayId) : (q.after env w).catalog.Dead gatewayId := by
  obtain ⟨core, call⟩ := q
  have hdid := Request.did env (core, call) w
  cases call with
  | delete t g =>
    obtain ⟨rfl, hok⟩ : g = gatewayId ∧ _ := h
    rw [hok] at hdid
    generalize Request.after env (core, Call.delete t g) w = w' at hdid
    cases hdid with
    | deleted hrow _ _ =>
      obtain ⟨r, hr, hid, ht, hlive, -⟩ := resolveGatewayId_some hrow
      refine ⟨_, mem_bury.mpr ⟨r, hr, rfl⟩, ?_⟩
      simp [IndexRow.issued_iff.mpr ⟨hid, ht, hlive⟩, IndexRow.deleted, IndexRow.live, hid]
  | deleteScope t scope asserted => exact h.2.2
  | ingest | upsert | update | search | listScope | get | rebind => exact h.elim

theorem tombstones_dead {qs : List (Request σ)} {w : World σ} {dead : Set String}
    (hdead : ∀ g ∈ dead, w.catalog.Dead g) :
    ∀ g ∈ tombstones env qs w dead, (serve env qs w).catalog.Dead g := by
  induction qs generalizing w dead with
  | nil => exact hdead
  | cons q qs ih =>
    refine ih (fun g hg => ?_)
    rcases hg with hg | ⟨hg, hno⟩
    · exact hg.dead
    · exact ((q.did env w).dead (hdead g hg)).resolve_right hno

/-! ## The records that reads hand out -/

theorem Mapped.record_row {tenant provider : String} {items : List (String × String)}
    {scope : Scope} {revive : Bool} {c c' : Catalog} {rows : List CatalogRow}
    {memories : List ProviderMemory} {scopeOf : CatalogRow → Scope} {record : MemoryRecord}
    (h : Mapped env tenant provider items scope revive c rows c')
    (hrecord : record ∈ toRecords provider memories scopeOf rows) :
    ∃ r ∈ c'.memoryIndex, r.tenantId = tenant ∧ r.provider = record.provider ∧
      r.nativeId = record.nativeId ∧ r.gatewayId = record.id ∧ r.live = true := by
  obtain ⟨memory, -, row, hrow, hid, rfl⟩ := mem_toRecords hrecord
  obtain ⟨r, hr, ht, hp, -, hlive, rfl⟩ := h.mem_rows.mp hrow
  exact ⟨r, hr, ht, hp, hid, rfl, hlive⟩

/-- A memory whose row is live finds that row on its page. -/
theorem Mapped.byNative_live {tenant provider : String} {scope : Scope} {revive : Bool}
    {c c' : Catalog} {rows : List CatalogRow} {memories : List ProviderMemory}
    {memory : ProviderMemory} {r : IndexRow}
    (h : Mapped env tenant provider (hitItems memories) scope revive c rows c')
    (hmemory : memory ∈ memories) (hr : r ∈ c'.memoryIndex) (ht : r.tenantId = tenant)
    (hp : r.provider = provider) (hn : r.nativeId = memory.nativeId) (hlive : r.live = true) :
    byNative rows memory.nativeId = some r.toRow := by
  have hnative : memory.nativeId ∈ (hitItems memories).map Prod.fst := by
    simpa [hitItems] using ⟨memory, hmemory, rfl⟩
  have hrow : r.toRow ∈ rows := h.mem_rows.mpr ⟨r, hr, ht, hp, hn ▸ hnative, hlive, rfl⟩
  cases hby : byNative rows memory.nativeId with
  | none =>
    have := List.find?_eq_none.mp hby r.toRow (List.mem_reverse.mpr hrow)
    simp [IndexRow.toRow, hn] at this
  | some row =>
    obtain ⟨hrow', hn'⟩ := byNative_some hby
    obtain ⟨r', hmem', ht', hp', -, -, rfl⟩ := h.mem_rows.mp hrow'
    obtain rfl := eq_of_nativeKey hmem' hr (ht'.trans ht.symm) (hp'.trans hp.symm)
      (hn'.trans hn.symm)
    rfl

/-- A page shows each of its memories whose native id the index does not have deleted. -/
theorem Mapped.shows {tenant provider : String} {scope : Scope} {c c' : Catalog}
    {rows : List CatalogRow} {memories : List ProviderMemory} {memory : ProviderMemory}
    (h : Mapped env tenant provider (hitItems memories) scope false c rows c')
    (hmemory : memory ∈ memories)
    (halive : ∀ r ∈ c.memoryIndex, r.tenantId = tenant → r.provider = provider →
      r.nativeId = memory.nativeId → r.live = true) (scopeOf : CatalogRow → Scope) :
    ∃ r ∈ c'.memoryIndex, r.nativeKey = [tenant, provider, memory.nativeId] ∧
      toRecord r.gatewayId provider memory (scopeOf r.toRow) ∈
        toRecords provider memories scopeOf rows := by
  have hnative : memory.nativeId ∈ (hitItems memories).map Prod.fst := by
    simpa [hitItems] using ⟨memory, hmemory, rfl⟩
  -- the memory has a row now, and it is live: an old one by assumption, a fresh one anyway
  obtain ⟨r, hr⟩ := Option.isSome_iff_exists.mp (h.covered memory.nativeId hnative)
  obtain ⟨hmem, ht, hpr, hn⟩ := indexed_some hr
  have hlive : r.live = true := by
    rcases h.read_adds hmem with hold | hfresh
    · exact halive r hold ht hpr hn
    · simp [IndexRow.live, hfresh.deletedAt]
  refine ⟨r, hmem, by simp [IndexRow.nativeKey, ht, hpr, hn], ?_⟩
  have hby := h.byNative_live hmemory hmem ht hpr hn hlive
  exact List.mem_filterMap.mpr ⟨memory, hmemory, by simp [hby, IndexRow.toRow]⟩

/-- Every memory of a page has a row now, be it live or not. -/
theorem Mapped.keyed {tenant provider : String} {scope : Scope} {revive : Bool} {c c' : Catalog}
    {rows : List CatalogRow} {memories : List ProviderMemory} {memory : ProviderMemory}
    (h : Mapped env tenant provider (hitItems memories) scope revive c rows c')
    (hmemory : memory ∈ memories) :
    ∃ r ∈ c'.memoryIndex, r.nativeKey = [tenant, provider, memory.nativeId] := by
  have hnative : memory.nativeId ∈ (hitItems memories).map Prod.fst := by
    simpa [hitItems] using ⟨memory, hmemory, rfl⟩
  obtain ⟨r, hr⟩ := Option.isSome_iff_exists.mp (h.covered memory.nativeId hnative)
  obtain ⟨hmem, ht, hp, hn⟩ := indexed_some hr
  exact ⟨r, hmem, by simp [IndexRow.nativeKey, ht, hp, hn]⟩

/-- The catalog has the native id as deleted. -/
def Catalog.Tombstoned (c : Catalog) (tenant provider native : String) : Prop :=
  ∃ r ∈ c.memoryIndex, r.tenantId = tenant ∧ r.provider = provider ∧ r.nativeId = native ∧
    r.live = false

/-- The records of a page that was read are those of its memories that the catalog does
    not have as deleted, each under the row for its native id. -/
theorem Mapped.mem_shown_iff {tenant provider : String} {scope : Scope} {c c' : Catalog}
    {rows : List CatalogRow} {memories : List ProviderMemory} {record : MemoryRecord}
    (h : Mapped env tenant provider (hitItems memories) scope false c rows c') :
    record ∈ toRecords provider memories CatalogRow.scope rows ↔
      ∃ m ∈ memories, ¬ c.Tombstoned tenant provider m.nativeId ∧ ∃ r ∈ c'.memoryIndex,
        r.nativeKey = [tenant, provider, m.nativeId] ∧
          record = toRecord r.gatewayId provider m r.toRow.scope := by
  constructor
  · intro hrecord
    obtain ⟨m, hm, row, hrow, hid, rfl⟩ := mem_toRecords hrecord
    obtain ⟨r, hr, ht, hp, -, hlive, rfl⟩ := h.mem_rows.mp hrow
    have hn : r.nativeId = m.nativeId := hid
    refine ⟨m, hm, ?_, r, hr, by simp [IndexRow.nativeKey, ht, hp, hn], rfl⟩
    -- the record stands on a live row, and no other row has its native id
    rintro ⟨r', hr', ht', hp', hn', hdead⟩
    obtain rfl := eq_of_nativeKey hr (h.read_keeps hr') (ht.trans ht'.symm) (hp.trans hp'.symm)
      (hn.trans hn'.symm)
    cases hdead.symm.trans hlive
  · rintro ⟨m, hm, hfree, r, hr, hkey, rfl⟩
    have halive : ∀ r ∈ c.memoryIndex, r.tenantId = tenant → r.provider = provider →
        r.nativeId = m.nativeId → r.live = true := by
      intro r hr ht hp hn
      by_contra hdead
      exact hfree ⟨r, hr, ht, hp, hn, by simpa using hdead⟩
    obtain ⟨r', hr', hkey', hshown⟩ := h.shows hm halive CatalogRow.scope
    obtain ⟨⟨ht, hp, hn⟩, ⟨ht', hp', hn'⟩⟩ : (r.tenantId = tenant ∧ r.provider = provider ∧
        r.nativeId = m.nativeId) ∧ r'.tenantId = tenant ∧ r'.provider = provider ∧
        r'.nativeId = m.nativeId := by
      simpa [IndexRow.nativeKey] using And.intro hkey hkey'
    obtain rfl := eq_of_nativeKey hr hr' (ht.trans ht'.symm) (hp.trans hp'.symm)
      (hn.trans hn'.symm)
    exact hshown

/-- The adapters of a gateway answer `get` with the memory they were asked for. -/
def MemoryCore.NamesGets (core : MemoryCore σ) : Prop :=
  ∀ name a, core.adapter name = .ok a → ∀ nativeId s memory s',
    a.call (.get nativeId) s = (.ok (some memory), s') → memory.nativeId = nativeId

/-- Behind each record of a read there is a live row of the tenant. -/
theorem MemoryCore.Did.read_row {core : MemoryCore σ} {call : Call} {w w' : World σ} {reply : Reply}
    (h : core.Did env call w (.ok reply) w') (hread : call.isRead = true) {record : MemoryRecord}
    (hrecord : record ∈ reply.records) :
    ∃ r ∈ w'.catalog.memoryIndex, r.tenantId = call.tenant ∧ r.provider = record.provider ∧
      (core.NamesGets → r.nativeId = record.nativeId) ∧ r.gatewayId = record.id ∧
      r.live = true := by
  have hmapped : ∀ {tenant provider : String} {items : List (String × String)} {scope : Scope}
      {rows : List CatalogRow} {memories : List ProviderMemory},
      Mapped env tenant provider items scope false w.catalog rows w'.catalog →
      record ∈ toRecords provider memories CatalogRow.scope rows →
      ∃ r ∈ w'.catalog.memoryIndex, r.tenantId = tenant ∧ r.provider = record.provider ∧
        (core.NamesGets → r.nativeId = record.nativeId) ∧ r.gatewayId = record.id ∧
        r.live = true := by
    intro _ _ _ _ _ _ hmap hrecord
    obtain ⟨r, hr, ht, hp, hn, hid, hlive⟩ := hmap.record_row hrecord
    exact ⟨r, hr, ht, hp, fun _ => hn, hid, hlive⟩
  cases h with
  | failedOpen => simp [Reply.records] at hrecord
  | searched _ _ hmap hresults =>
    simp only [Reply.records, hresults] at hrecord
    exact hmapped hmap hrecord
  | listed _ _ hmap => exact hmapped hmap hrecord
  | got hrow hask hcall =>
    obtain rfl : record = _ := by simpa [Reply.records] using hrecord
    obtain ⟨r, hr, -, ht, hlive, rfl⟩ := resolveGatewayId_some hrow
    exact ⟨r, hr, ht, rfl, fun hnames => (hnames _ _ hask.configured _ _ _ _ hcall).symm, rfl,
      hlive⟩
  | ingested | upserted | updated => cases hread
  | deleted | erased | rebound => simp [Reply.records] at hrecord

theorem reads_never_resurrect (env : Env) (w : World σ) (history reads : List (Request σ))
    (hreads : ∀ q ∈ reads, q.2.isRead = true) :
    let c := (serve env history w).catalog
    let c' := (serve env (history ++ reads) w).catalog
    (∀ r ∈ c.memoryIndex, r ∈ c'.memoryIndex) ∧
    c'.scopeBinding = c.scopeBinding ∧
    c'.episodeJournal = c.episodeJournal ∧
    (∀ r ∈ c'.memoryIndex, r ∉ c.memoryIndex →
      (∀ r₀ ∈ c.memoryIndex, r₀.nativeKey ≠ r.nativeKey) ∧
        ∀ r₁ ∈ c'.memoryIndex, r₁.nativeKey = r.nativeKey → r₁ = r) ∧
    ∀ before q after reply, reads = before ++ q :: after →
      q.answer env (serve env (history ++ before) w) = .ok reply →
      ∀ record ∈ reply.records, record.id ∉ tombstones env (history ++ before) w ∅ := by
  have hext : (serve env history w).catalog.Extends (serve env (history ++ reads) w).catalog := by
    rw [serve_append]
    exact serve_reads_extend hreads
  refine ⟨hext.rows, hext.binding, hext.journal, fun r hr hnew => hext.new hr hnew, ?_⟩
  intro before q after reply hsplit hreply record hrecord hdead
  have hread : q.2.isRead = true := hreads q (by simp [hsplit])
  have hdid := q.did env (serve env (history ++ before) w)
  -- a live row and a dead one under one id would be one row
  obtain ⟨r, hr, -, -, -, hid, hlive⟩ := (hreply ▸ hdid).read_row hread hrecord
  obtain ⟨r', hr', hid', hlive'⟩ := tombstones_dead (by simp) _ hdead
  have hr' := (hdid.read_extends hread).rows r' hr'
  rw [eq_of_gatewayId hr hr' (hid.trans hid'.symm), hlive'] at hlive
  cases hlive

/-- A gateway whose provider serves one memory whatever happens. -/
def echoGateway : MemoryCore Unit := .serving "mem0" [{ nativeId := "n", content := "tea" }] id

def echoScope : Scope := { subject := ⟨"u_1", u_1_mustBeReal⟩ }

/-- The memory is written and deleted, and the provider still serves it. -/
theorem reads_never_resurrect_echo :
    let w : World Unit := { catalog := {}, store := () }
    let history : List (Request Unit) :=
      [(echoGateway, .upsert "a" ["tea"] echoScope none), (echoGateway, .delete "a" "mg")]
    let search : Request Unit := (echoGateway, .search "a" { query := "tea" } echoScope none)
    (∀ r ∈ (serve .counting history w).catalog.memoryIndex,
      r ∈ (serve .counting (history ++ [search]) w).catalog.memoryIndex) ∧
    ∀ reply, search.answer .counting (serve .counting (history ++ []) w) = .ok reply →
      ∀ record ∈ reply.records, record.id ∉ tombstones .counting (history ++ []) w ∅ := by
  intro w history search
  have h := reads_never_resurrect .counting w history [search]
    (by simp [search, Call.isRead])
  exact ⟨h.1, fun reply hreply => h.2.2.2.2 [] search [] reply rfl hreply⟩

end Memgw
