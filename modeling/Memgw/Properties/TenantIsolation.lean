-- SUMMARY: Tenant isolation over whole runs on the self-hosted store: what a tenant reads is its own, what it does stays with it.
import Memgw.Properties.SelfHosted

/-!
# Tenant isolation

The gateway stamps the tenant on a scope and resolves a gateway id for the tenant
alone; the adapter filters a scope on its tenant and a native id on nothing. Both
sides together keep tenants apart once every id that the catalog mentions belongs
to the tenant that it is mentioned for, which is the invariant of `SelfHosted`.
-/

namespace Memgw

open Pgvector

variable {env : Env} {w w' : World State} {core : MemoryCore State} {call : Call}

/-! ## The catalog -/

theorem MemoryCore.Did.othersKept {r : Except Exc Reply} (hdid : core.Did env call w r w') :
    w.catalog.OthersKept call.tenant w'.catalog := by
  cases hdid with
  | refused | failed | failedOpen | got => exact .refl _
  | unsettled _ _ hc => exact .still hc
  | ingested _ _ hmap hjournal _ =>
    subst hjournal
    have hmapped := Catalog.OthersKept.mapped hmap
    split
    · exact (hmapped.trans .insertBinding).trans .journalled
    · exact hmapped.trans .insertBinding
  | upserted _ _ hmap => exact (Catalog.OthersKept.mapped hmap).trans .insertBinding
  | updated _ _ _ hmap _ => exact .mapped hmap
  | searched _ _ hmap _ => exact .mapped hmap
  | listed _ _ hmap => exact .mapped hmap
  | deleted => exact .bury fun r hr => (IndexRow.issued_iff.mp hr).2.1
  | erased =>
    refine Catalog.OthersKept.trans (.bury fun r hr => ?_) .deleteJournal
    exact (IndexRow.inScope_iff.mp hr).1
  | rebound => exact .replaceBinding

/-! ## The tables -/

/-- What a call is aimed at: the tenant's own scope, or an id of its own rows. -/
theorem MemoryCore.Asks.aim {c : Catalog} {name : String} {a : Adapter State} {op : AdapterOp}
    (h : core.Asks c call name a op) :
    (∃ scope : Scope, ∀ r, touches op r →
      r.tenant = (scope.under call.tenant).tenant ∨ selects (scope.under call.tenant) r = true) ∨
    (writesUnder op = none ∧ ∃ r ∈ c.memoryIndex, r.tenantId = call.tenant ∧
      ∀ row, touches op row → row.nativeId = r.nativeId) := by
  cases h with
  | @ingest _ _ scope => exact .inl ⟨scope, fun r hr => .inl hr⟩
  | @upsert _ _ scope => exact .inl ⟨scope, fun r hr => .inl hr⟩
  | @search _ _ scope => exact .inl ⟨scope, fun r hr => hr.elim⟩
  | @listScope _ scope => exact .inl ⟨scope, fun r hr => hr.elim⟩
  | @deleteScope _ scope => exact .inl ⟨scope, fun r hr => .inr hr⟩
  | update hrow _ _ =>
    obtain ⟨r, hr, -, ht, -, rfl⟩ := resolveGatewayId_some hrow
    exact .inr ⟨rfl, r, hr, ht, fun row hrow => hrow⟩
  | get hrow _ =>
    obtain ⟨r, hr, -, ht, -, rfl⟩ := resolveGatewayId_some hrow
    exact .inr ⟨rfl, r, hr, ht, fun row hrow => hrow.elim⟩
  | delete hrow _ _ =>
    obtain ⟨r, hr, -, ht, -, rfl⟩ := resolveGatewayId_some hrow
    exact .inr ⟨rfl, r, hr, ht, fun row hrow => hrow⟩

/-- A row whose id the index holds for a tenant is that tenant's. -/
theorem SelfHosted.tenant_of_index (h : SelfHosted env w) {r : IndexRow} {t : String}
    (hr : r ∈ w.catalog.memoryIndex) (htr : r.tenantId = t) (ht : t ≠ "") {table : String}
    {row : Row} (hrow : row ∈ w.store.tables table) (hid : row.nativeId = r.nativeId) :
    row.tenant = some t := by
  subst htr
  exact (h.mention_fits _ (.index hr) table row hrow hid).tenant ht

/-- Every row of another tenant is there after the call as it was before. -/
theorem SelfHosted.call_othersKept (h : SelfHosted env w) {name : String} {a : Adapter State}
    {cfg : Config} {op : AdapterOp} {s' : State} (hask : core.Asks w.catalog call name a op)
    (hev : Evolves env cfg op w.store s') (ht : call.tenant ≠ "") {table : String} {row : Row}
    (hrow : row.tenant ≠ some call.tenant) :
    row ∈ s'.tables table ↔ row ∈ w.store.tables table := by
  rcases hask.aim with ⟨scope, haim⟩ | ⟨hwrites, r, hr, htr, haim⟩
  · refine hev.untouched table row fun htouch => ?_
    rcases haim row htouch with hsame | hsel
    · exact hrow hsame
    · obtain ⟨-, htenant, -⟩ := conditions_iff.mp (Bool.and_eq_true_iff.mp hsel).1
      exact hrow (htenant _ (scope.under_tenant? ht))
  · by_cases htouch : touches op row
    · -- no row with that id is another tenant's, before or after
      have hold : ∀ row₀ ∈ w.store.tables table, row₀.nativeId = r.nativeId →
          row₀.tenant = some call.tenant := fun _ => h.tenant_of_index hr htr ht
      constructor
      · intro hmem
        rcases hev.origin table row hmem with ⟨row₀, h₀, hsame⟩ | ⟨-, scope, hop, -⟩
        · have := hold row₀ h₀ (hsame.nativeId.trans (haim row htouch))
          exact absurd (hsame.tenant ▸ this) hrow
        · cases hwrites.symm.trans hop
      · exact fun hmem => absurd (hold row hmem (haim row htouch)) hrow
    · exact hev.untouched table row htouch

theorem MemoryCore.Did.rowsKept {r : Except Exc Reply} (hdid : core.Did env call w r w')
    (hcore : core.OverPgvector env) (h : SelfHosted env w) (ht : call.tenant ≠ "") {table : String}
    {row : Row} (hrow : row.tenant ≠ some call.tenant) :
    row ∈ w'.store.tables table ↔ row ∈ w.store.tables table := by
  have hask : ∀ {name : String} {a : Adapter State} {op : AdapterOp} {r : Except Exc op.Ans}
      {s' : State}, core.Asks w.catalog call name a op → a.call op w.store = (r, s') →
        (row ∈ s'.tables table ↔ row ∈ w.store.tables table) := by
    intro name a op r s' hask hcall
    obtain ⟨cfg, rfl⟩ := hcore _ _ hask.configured
    exact h.call_othersKept hask (call_evolves hcall) ht hrow
  cases hdid with
  | refused => exact Iff.rfl
  | failed hasks hcall hs =>
    obtain ⟨cfg, rfl⟩ := hcore _ _ hasks.configured
    rcases hs with rfl | rfl
    · exact hask hasks hcall
    · exact hask hasks hcall
  | failedOpen hasks hcall => exact hask hasks hcall
  | unsettled hasks hcall => exact hask hasks hcall
  | ingested hasks hcall => exact hask hasks hcall
  | upserted hasks hcall => exact hask hasks hcall
  | updated _ hasks hcall => exact hask hasks hcall
  | searched hasks hcall => exact hask hasks hcall
  | listed hasks hcall => exact hask hasks hcall
  | got _ hasks hcall => exact hask hasks hcall
  | deleted _ hasks hcall => exact hask hasks hcall
  | erased hasks hcall => exact hask hasks hcall
  | rebound => exact Iff.rfl

/-! ## The records -/

/-- The record says what a row of the tenant says, in a table of its provider. -/
def MemoryRecord.OwnedBy (env : Env) (core : MemoryCore State) (s : State) (tenant : String)
    (record : MemoryRecord) : Prop :=
  ∃ cfg, core.adapter record.provider = .ok (Pgvector.adapter env cfg) ∧
    ∃ row ∈ s.rows cfg, row.nativeId = record.nativeId ∧ row.content = record.content ∧
      row.tenant = some tenant

/-- A page of records is owned when the memories behind it come from rows of the tenant. -/
theorem toRecords_owned {cfg : Config} {name tenant : String} {s : State}
    {memories : List ProviderMemory} {scopeOf : CatalogRow → Scope} {rows : List CatalogRow}
    (hcfg : core.adapter name = .ok (Pgvector.adapter env cfg))
    (hrows : ∀ memory ∈ memories, ∃ row ∈ s.rows cfg, row.nativeId = memory.nativeId ∧
      row.content = memory.content ∧ row.tenant = some tenant) {record : MemoryRecord}
    (hrecord : record ∈ toRecords name memories scopeOf rows) : record.OwnedBy env core s tenant := by
  obtain ⟨memory, hmemory, row, -, -, rfl⟩ := mem_toRecords hrecord
  exact ⟨cfg, hcfg, hrows memory hmemory⟩

theorem Pgvector.FromRow.owned {cfg : Config} {scope : Scope} {tenant : String} {s : State}
    {memory : ProviderMemory} (h : FromRow cfg (scope.under tenant) s memory) (ht : tenant ≠ "") :
    ∃ row ∈ s.rows cfg, row.nativeId = memory.nativeId ∧ row.content = memory.content ∧
      row.tenant = some tenant := by
  obtain ⟨row, hrow, hsel, hid, hcontent⟩ := h
  exact ⟨row, hrow, hid.symm, hcontent.symm, (fits_of_selects (n := "") hsel).tenant ht⟩

theorem Pgvector.Added.owned {cfg : Config} {scope : Scope} {tenant : String} {s s' : State}
    {fresh : List Row} (h : Added env cfg (scope.under tenant) s s' fresh)
    {memory : ProviderMemory} (hm : memory ∈ fresh.map (toMemory none)) :
    ∃ row ∈ s'.rows cfg, row.nativeId = memory.nativeId ∧ row.content = memory.content ∧
      row.tenant = some tenant := by
  obtain ⟨row, hrow, rfl⟩ := List.mem_map.mp hm
  exact ⟨row, (h.rows row).mpr (.inr hrow), rfl, rfl, (h.fresh row hrow).tenant⟩

theorem MemoryCore.Did.recordsOwned {reply : Reply} (hdid : core.Did env call w (.ok reply) w')
    (hcore : core.OverPgvector env) (h : SelfHosted env w) (ht : call.tenant ≠ "")
    {record : MemoryRecord} (hrecord : record ∈ reply.records) :
    record.OwnedBy env core w'.store call.tenant := by
  generalize hr : Except.ok reply = r at hdid
  cases hdid with
  | refused | failed | unsettled => cases hr
  | failedOpen =>
    obtain rfl := Except.ok.inj hr
    simp [Reply.records] at hrecord
  | ingested hask hcall hmap hjournal hreply =>
    obtain ⟨rfl, -⟩ := hreply reply hr.symm
    have hcfg := hask.configured
    obtain ⟨cfg, rfl⟩ := hcore _ _ hcfg
    obtain ⟨fresh, hadded, rfl⟩ := call_ingest hcall
    exact toRecords_owned hcfg (fun _ => hadded.owned) hrecord
  | upserted hask hcall hmap =>
    obtain rfl := Except.ok.inj hr
    have hcfg := hask.configured
    obtain ⟨cfg, rfl⟩ := hcore _ _ hcfg
    obtain ⟨fresh, hadded, rfl⟩ := call_upsert hcall
    exact toRecords_owned hcfg (fun _ => hadded.owned) hrecord
  | updated hrow hask hcall hmap hreply =>
    obtain rfl := hreply reply hr.symm
    obtain rfl : record = _ := by simpa [Reply.records] using hrecord
    have hcfg := hask.configured
    obtain ⟨cfg, rfl⟩ := hcore _ _ hcfg
    obtain ⟨r, hmention, -, htr, -, rfl⟩ := resolveGatewayId_some hrow
    obtain ⟨hrewrote, row, hmem, hid, rfl⟩ := call_update hcall
    obtain ⟨row₀, h₀, hsame, -⟩ := hrewrote.rows row hmem
    have hown := h.tenant_of_index hmention htr ht h₀ (hsame.nativeId.trans hid)
    exact ⟨cfg, hcfg, row, hmem, rfl, rfl, hsame.tenant ▸ hown⟩
  | searched hask hcall hmap hresults =>
    obtain rfl := Except.ok.inj hr
    simp only [Reply.records, hresults] at hrecord
    have hcfg := hask.configured
    obtain ⟨cfg, rfl⟩ := hcore _ _ hcfg
    obtain ⟨hsame, hfrom⟩ := call_search hcall
    exact toRecords_owned hcfg (fun m hm => ((hfrom m hm).unchanged hsame).owned ht) hrecord
  | listed hask hcall hmap =>
    obtain rfl := Except.ok.inj hr
    have hcfg := hask.configured
    obtain ⟨cfg, rfl⟩ := hcore _ _ hcfg
    obtain ⟨hsame, hfrom⟩ := call_listScope hcall
    exact toRecords_owned hcfg (fun m hm => ((hfrom m hm).unchanged hsame).owned ht) hrecord
  | got hrow hask hcall =>
    obtain rfl := Except.ok.inj hr
    obtain rfl : record = _ := by simpa [Reply.records] using hrecord
    have hcfg := hask.configured
    obtain ⟨cfg, rfl⟩ := hcore _ _ hcfg
    obtain ⟨r, hmention, -, htr, -, rfl⟩ := resolveGatewayId_some hrow
    rw [call_get] at hcall
    obtain ⟨hfound, rfl⟩ := Prod.mk.inj hcall
    obtain ⟨row, hfind, rfl⟩ := Option.map_eq_some_iff.mp (Except.ok.inj hfound)
    obtain ⟨hmem, hid⟩ := Table.find?_some hfind
    have hown := h.tenant_of_index hmention htr ht hmem (beq_iff_eq.mp hid)
    exact ⟨cfg, hcfg, row, hmem, rfl, rfl, hown⟩
  | deleted | erased | rebound =>
    obtain rfl := Except.ok.inj hr
    simp [Reply.records] at hrecord

/-! ## Whole runs -/

theorem tenants_isolated (env : Env) (history : List (Request State)) (q : Request State)
    (hcores : ∀ q' ∈ q :: history, q'.1.OverPgvector env) (htenant : q.2.tenant ≠ "") :
    let w := serve env history { catalog := {}, store := {} }
    let w' := q.after env w
    (∀ reply, q.answer env w = .ok reply → ∀ record ∈ reply.records,
      record.OwnedBy env q.1 w'.store q.2.tenant) ∧
    (∀ table, ∀ row : Row, row.tenant ≠ some q.2.tenant →
      (row ∈ w'.store.tables table ↔ row ∈ w.store.tables table)) ∧
    w.catalog.OthersKept q.2.tenant w'.catalog := by
  intro w w'
  have hcore := hcores q (List.mem_cons_self ..)
  have hhosted : SelfHosted env w :=
    serve_selfHosted fun q' hq' => hcores q' (List.mem_cons_of_mem q hq')
  have hdid : q.1.Did env q.2 w (q.answer env w) w' := q.did env w
  refine ⟨fun reply hreply record hrecord => ?_, fun table row hrow => ?_, hdid.othersKept⟩
  · exact (hreply ▸ hdid).recordsOwned hcore hhosted htenant hrecord
  · exact hdid.rowsKept hcore hhosted htenant hrow

/-- Tenant `b` asks for the memory of tenant `a` under the name of `a`, for a user of
    the same name. -/
def forgedSearch : Request State :=
  (plainGateway, .search "b" { query := "tea", limitPos := SearchQuery.defaultLimitPos }
    { userScope with tenant := some "a" } none)

theorem forged_tenant_is_isolated :
    let w := serve .counting [(plainGateway, .upsert "a" ["tea"] userScope none)]
      { catalog := {}, store := {} }
    (∃ row ∈ (w.store.tables "memories").rows, row.tenant = some "a") ∧
    (∀ row, row ∈ (w.store.tables "memories").rows → row.tenant ≠ some "b" →
      row ∈ ((forgedSearch.after .counting w).store.tables "memories").rows) := by
  refine ⟨by decide, fun row hrow hother => ?_⟩
  have hisolated := tenants_isolated .counting
    [(plainGateway, .upsert "a" ["tea"] userScope none)] forgedSearch
    (fun q hq => by
      obtain rfl | hq := List.mem_cons.mp hq
      · exact plainGateway_overPgvector
      · obtain rfl := List.mem_singleton.mp hq
        exact plainGateway_overPgvector) (by decide)
  exact (hisolated.2.1 "memories" row hother).mpr hrow

end Memgw
