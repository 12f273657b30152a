-- SUMMARY: A gateway over the self-hosted adapter serves its callers as a shelf does, call by call.
import Memgw.Properties.Shelved

/-!
# The gateway is a shelf

Each verb changes the index and a table in two separate steps. That the two steps together
are one of a shelf rests on what they are about: the rows that the adapter wrote are those
that the index gets, and the rows that it removes are behind rows that the index buries.
-/

namespace Memgw

open Pgvector

variable {env : Env} {naming : String → String} {w w' : World State} {core : MemoryCore State}

/-! ## The index after a page -/

/-- A page whose native ids are known, and live where it may revive them, leaves the
    index as it is. -/
theorem Mapped.same_index {t p : String} {items : List (String × String)} {scope : Scope}
    {revive : Bool} {c c' : Catalog} {rows : List CatalogRow}
    (h : Mapped env t p items scope revive c rows c')
    (hknown : ∀ n ∈ items.map Prod.fst, ∃ r, indexed c.memoryIndex t p n = some r ∧
      (revive = true → r.live = true)) (r : IndexRow) :
    r ∈ c'.memoryIndex ↔ r ∈ c.memoryIndex := by
  obtain ⟨now, fresh, hindex, hfresh⟩ := h.index
  have hkept : ∀ r₀ ∈ c.memoryIndex, (revive && r₀.buried t p (items.map Prod.fst)) = false := by
    intro r₀ h₀
    by_contra hburied
    simp only [Bool.not_eq_false, Bool.and_eq_true, IndexRow.buried, IndexRow.doomed_iff] at hburied
    obtain ⟨hrevive, ⟨ht, hp, hn⟩, hdead⟩ := hburied
    obtain ⟨r₁, h₁, hlive⟩ := hknown _ hn
    obtain ⟨hmem, ht₁, hp₁, hn₁⟩ := indexed_some h₁
    obtain rfl := eq_of_nativeKey hmem h₀ (ht₁.trans ht.symm) (hp₁.trans hp.symm) hn₁
    simp [hlive hrevive] at hdead
  constructor
  · intro hr
    rcases (hindex r).mp hr with ⟨r₀, h₀, rfl⟩ | hnew
    · rwa [hkept r₀ h₀, if_neg Bool.false_ne_true]
    · have hf := hfresh r hnew
      obtain ⟨item, hitem, hn, -⟩ := hf.item
      obtain ⟨r₁, h₁, -⟩ := hknown r.nativeId (hn ▸ List.mem_map_of_mem hitem)
      cases hf.unseen.symm.trans h₁
  · intro hr
    exact (hindex r).mpr (.inl ⟨r, hr, by simp [hkept r hr]⟩)

/-! ## Rows in scope -/

theorem IndexRow.inScope_entry {t p : String} {scope : Scope} {r : IndexRow} (row : Row) :
    r.inScope t scope p = (r.live && (r.entry row).within t p scope) := by
  rw [Bool.eq_iff_iff, IndexRow.inScope_iff]
  simp only [Entry.within, IndexRow.entry, Bool.and_eq_true, beq_iff_eq]
  tauto

/-- The condition of the adapter on a row is that of the shelf on its entry. -/
theorem IndexRow.Describes.selects {r : IndexRow} {row : Row} (h : r.Describes row) {t p : String}
    (ht : t ≠ "") {scope : Scope} :
    ((r.entry row).within t p scope = true ∧ (r.entry row).agrees scope = true) ↔
      r.provider = p ∧ Pgvector.selects (scope.under t) row = true := by
  simp only [Pgvector.selects, Bool.and_eq_true, conditions_iff, Entry.within, Entry.agrees,
    IndexRow.entry, beq_iff_eq, scope.under_tenant? ht, Option.mem_def, Option.some.injEq,
    forall_eq', h.tenant, h.subject, h.agent, h.session]
  simp only [Scope.under]
  tauto

section

variable {cfg : Config} {t name : String} {scope : Scope}

/-- A row of a table of the tenant has its place in the index, and is behind it. -/
theorem Fits.indexed_of (h : Fits naming w) {row : Row}
    (hrow : row ∈ w.store.tables (naming name)) (ht : row.tenant = some t) :
    ∃ r, Memgw.indexed w.catalog.memoryIndex t name row.nativeId = some r ∧
      r.behind naming w.store = some row := by
  obtain ⟨r, hr, rfl, hn⟩ := h.indexed name row hrow
  have hbehind : r.behind naming w.store = some row := behind_some.mpr ⟨hrow, hn.symm⟩
  have hr' := h.describes r hr row hbehind
  obtain rfl : t = r.tenantId := Option.some.inj (ht.symm.trans hr'.tenant)
  exact ⟨r, hn ▸ indexed_of_mem hr, hbehind⟩

theorem tenant_of_selects (ht : t ≠ "") {row : Row} (h : Pgvector.selects (scope.under t) row = true) :
    row.tenant = some t := by
  obtain ⟨hcond, -⟩ := Bool.and_eq_true_iff.mp h
  exact (conditions_iff.mp hcond).2.1 t (scope.under_tenant? ht)

theorem Fits.covered (h : Fits naming w) (htable : cfg.table = naming name) (ht : t ≠ "")
    {rows : List Row} (hrows : ∀ row ∈ rows, row ∈ w.store.rows cfg ∧
      Pgvector.selects (scope.under t) row = true) :
    Covered w.catalog.memoryIndex t name rows := by
  intro row hrow
  obtain ⟨hmem, hsel⟩ := hrows row hrow
  have hmem : row ∈ w.store.tables (naming name) := by rwa [← htable]
  obtain ⟨r, hr, -⟩ := h.indexed_of hmem (tenant_of_selects ht hsel)
  exact ⟨r, hr⟩

/-- What the adapter has in a scope is what the shelf has in it. -/
theorem Fits.holding (h : Fits naming w) (htable : cfg.table = naming name) (ht : t ≠ "") :
    Shelf.Holding (shelf naming w) t name scope
      (entriesOf w.catalog.memoryIndex t name (rowsOf cfg w.store (scope.under t) true)) where
  mem g e := by
    rw [mem_entriesOf, shelf_stored]
    constructor
    · rintro ⟨row, hrow, r, hr, rfl, rfl, hn, heq⟩
      obtain ⟨rfl, rfl⟩ := Prod.mk.inj heq
      obtain ⟨hmem, hsel⟩ := mem_rowsOf.mp hrow
      have hbehind : r.behind naming w.store = some row :=
        behind_some.mpr ⟨htable ▸ hmem, hn.symm⟩
      exact ⟨⟨r, hr, rfl, row, hbehind, rfl⟩,
        ((h.describes r hr row hbehind).selects ht).mpr ⟨rfl, hsel⟩⟩
    · rintro ⟨⟨r, hr, rfl, row, hbehind, rfl⟩, hin⟩
      obtain ⟨rfl, hsel⟩ := ((h.describes r hr row hbehind).selects ht).mp hin
      obtain ⟨hmem, hn⟩ := behind_some.mp hbehind
      have htenant : t = r.tenantId :=
        Option.some.inj ((tenant_of_selects ht hsel).symm.trans
          (h.describes r hr row hbehind).tenant)
      have hmem : row ∈ w.store.rows cfg := by rwa [State.rows, htable]
      exact ⟨row, mem_rowsOf.mpr ⟨hmem, hsel⟩, r, hr, htenant.symm, rfl, hn.symm, rfl⟩
  nodup := nodup_entriesOf (h.covered htable ht fun row hrow => mem_rowsOf.mp hrow) <| by
    have hnodup : (rowsOf cfg w.store (scope.under t) true).Nodup := nodup_rowsOf
    rw [List.Nodup, List.pairwise_map]
    refine hnodup.imp_of_mem fun ha hb hne hid => hne ?_
    exact eq_of_nativeId (mem_rowsOf.mp ha).1 (mem_rowsOf.mp hb).1 hid

/-! ## Pages of hits -/

variable {c' : Catalog} {rows : List CatalogRow} {hits : List Row} {memories : List ProviderMemory}

/-- Mapping hits leaves an index that knows them as it is. -/
theorem Mapped.same_of_hits
    (h : Mapped env t name (hitItems memories) scope false w.catalog rows c')
    (hknown : ∀ m ∈ memories, ∃ r, indexed w.catalog.memoryIndex t name m.nativeId = some r)
    (r : IndexRow) : r ∈ c'.memoryIndex ↔ r ∈ w.catalog.memoryIndex := by
  refine h.same_index (fun n hn => ?_) r
  rw [hitItems_natives] at hn
  obtain ⟨m, hm, rfl⟩ := List.mem_map.mp hn
  obtain ⟨r, hr⟩ := hknown m hm
  exact ⟨r, hr, fun h => by cases h⟩

theorem Covered.known (h : Covered w.catalog.memoryIndex t name hits) :
    ∀ m ∈ hits.map (toMemory none),
      ∃ r, indexed w.catalog.memoryIndex t name m.nativeId = some r := by
  intro m hm
  obtain ⟨row, hrow, rfl⟩ := List.mem_map.mp hm
  exact h row hrow

/-- Hits on live rows are shown under their ids, and hits on dead ones are dropped. -/
theorem Covered.shown (hcovered : Covered w.catalog.memoryIndex t name hits)
    (h : Mapped env t name (hitItems (hits.map (toMemory none))) scope false w.catalog rows c')
    (hhits : ∀ row ∈ hits, row ∈ w.store.tables (naming name)) :
    toRecords name (hits.map (toMemory none)) CatalogRow.scope rows =
      (entriesOf w.catalog.memoryIndex t name hits).filterMap
        fun ge => (shelf naming w ge.1).shown ge.1 := by
  have hsame := h.same_of_hits hcovered.known
  rw [toRecords, entriesOf, List.filterMap_map, List.filterMap_filterMap]
  refine List.filterMap_congr fun row hrow => ?_
  obtain ⟨r, hr⟩ := hcovered row hrow
  obtain ⟨hmem, ht, hp, hn⟩ := indexed_some hr
  have hbehind : r.behind naming w.store = some row :=
    behind_some.mpr ⟨hp ▸ hhits row hrow, hn.symm⟩
  have hmemory : toMemory none row ∈ hits.map (toMemory none) := List.mem_map_of_mem hrow
  rw [hr, Option.map_some, Option.bind_some, shelf_of_mem hmem, IndexRow.slot, hbehind]
  cases hlive : r.live with
  | true =>
    have hby := h.byNative_live hmemory ((hsame r).mpr hmem) ht hp hn hlive
    simp only [Function.comp_apply, hby, Option.map_some, if_true, Slot.shown]
    subst hp
    rfl
  | false =>
    have hby : byNative rows row.nativeId = none := by
      refine List.find?_eq_none.mpr fun row' hrow' => ?_
      obtain ⟨r', hr', ht', hp', -, hlive', rfl⟩ := h.mem_rows.mp (List.mem_reverse.mp hrow')
      simp only [beq_iff_eq]
      intro hid
      obtain rfl := eq_of_nativeKey ((hsame r').mp hr') hmem (ht'.trans ht.symm)
        (hp'.trans hp.symm) (Eq.trans hid hn.symm)
      cases hlive.symm.trans hlive'
    simp [toMemory, hby, Slot.shown]

/-! ## What a write adds -/

theorem Pgvector.natives_of_memories {fresh : List Row} :
    (fresh.map (toMemory none)).map ProviderMemory.nativeId = fresh.map Row.nativeId := by
  rw [List.map_map]
  rfl

/-- A write that has stored its rows and mapped their page has added them. -/
theorem Mapped.adds {s' : State} {fresh : List Row} (hw : Shelved env naming w)
    (hadded : Added env cfg (scope.under t) w.store s' fresh)
    (hnodup : (fresh.map Row.nativeId).Nodup) (htable : cfg.table = naming name)
    (h : Mapped env t name (hitItems (fresh.map (toMemory none))) scope true w.catalog rows c')
    (hindex : w'.catalog.memoryIndex = c'.memoryIndex) (hstore : w'.store = s') :
    Adds env naming cfg t name scope fresh w w' := by
  have hitems : (hitItems (fresh.map (toMemory none))).map Prod.fst = fresh.map Row.nativeId :=
    hitItems_natives.trans natives_of_memories
  -- the ids of the page are new, and so none of them is known
  have hunseen : ∀ r ∈ w.catalog.memoryIndex, r.nativeId ∉ fresh.map Row.nativeId := by
    intro r hr hn
    obtain ⟨row, hrow, hid⟩ := List.mem_map.mp hn
    have hminted : MintedBelow env w.store.ticks r.nativeId :=
      hw.hosted.mention_minted _ (.index hr)
    exact (hadded.fresh row hrow).not_minted (hid ▸ hminted)
  obtain ⟨now, new, hnew, hfresh⟩ := h.index
  have hold : ∀ r₀ ∈ w.catalog.memoryIndex, (true && r₀.buried t name
      ((hitItems (fresh.map (toMemory none))).map Prod.fst)) = false := by
    intro r₀ h₀
    by_contra hburied
    simp only [Bool.not_eq_false, Bool.and_eq_true, IndexRow.buried, IndexRow.doomed_iff,
      hitems] at hburied
    exact hunseen r₀ h₀ hburied.2.1.2.2
  subst hstore
  refine ⟨hadded, hnodup, htable, fun r hr => ?_, fun r hr => ?_, fun row hrow => ?_⟩
  · rw [hindex, hnew]
    exact .inl ⟨r, hr, by rw [hold r hr, if_neg Bool.false_ne_true]⟩
  · rw [hindex, hnew] at hr
    rcases hr with ⟨r₀, h₀, rfl⟩ | hr
    · left
      rwa [hold r₀ h₀, if_neg Bool.false_ne_true]
    · right
      have hf := hfresh r hr
      refine ⟨hf.named_tenant, hf.named_provider, hf.subject, hf.agent, hf.session, ?_, ?_, ?_⟩
      · simp [IndexRow.live, hf.deletedAt]
      · obtain ⟨item, hitem, hn, -⟩ := hf.item
        have hn : r.nativeId ∈ fresh.map Row.nativeId := hitems ▸ hn ▸ List.mem_map_of_mem hitem
        exact List.mem_map.mp hn
      · rintro ⟨r₀, h₀, hid⟩
        obtain ⟨k, hk, -, hk'⟩ := hf.minted
        obtain ⟨j, hj, hj'⟩ := hw.minted r₀ h₀
        have := env.newId_injective "mg" (hj'.symm.trans (hid.trans hk'))
        omega
  · rw [hindex]
    exact Option.isSome_iff_exists.mp (h.covered _ (hitems ▸ List.mem_map_of_mem hrow))

/-- What a write answers names its memories under the ids of their entries. -/
theorem Adds.answers {fresh : List Row} (hadds : Adds env naming cfg t name scope fresh w w')
    (hw : Shelved env naming w)
    (h : Mapped env t name (hitItems (fresh.map (toMemory none))) scope true w.catalog rows c')
    (hindex : w'.catalog.memoryIndex = c'.memoryIndex) :
    toRecords name (fresh.map (toMemory none)) (fun _ => scope) rows =
      (entriesOf w'.catalog.memoryIndex t name fresh).map
        fun ge => toRecord ge.1 name ge.2.memory scope := by
  rw [toRecords, entriesOf, List.filterMap_map, List.map_filterMap]
  refine List.filterMap_congr fun row hrow => ?_
  obtain ⟨r, hr⟩ := hadds.covered row hrow
  obtain ⟨hmem, ht, hp, hn⟩ := indexed_some hr
  have hlive : r.live = true := by
    rcases hadds.new r hmem with hold | hnew
    · exact absurd hn.symm (hadds.unseen hw.hosted hrow hold)
    · exact hnew.2.2.2.2.2.1
  have hmemory : toMemory none row ∈ fresh.map (toMemory none) := List.mem_map_of_mem hrow
  have hby := h.byNative_live hmemory (hindex ▸ hmem) ht hp hn hlive
  rw [hr, Function.comp_apply, hby]
  rfl

end

/-! ## Every verb -/

/-- `max_limit` of the self-hosted adapter. -/
abbrev Pgvector.longestPage : Nat := 200

section

variable {call : Call} {r : Except Exc Reply}

/-- The shelf serves the call, and the world that is left makes a shelf again. -/
def Serving (naming : String → String) (call : Call) (w : World State) (r : Except Exc Reply)
    (w' : World State) : Prop :=
  Fits naming w' ∧ Shelf.Serves longestPage call (shelf naming w) r (shelf naming w')

/-- A step that keeps the index and the tables serves what leaves the shelf alone. -/
theorem Serving.still (hw : Fits naming w)
    (hindex : ∀ r, r ∈ w'.catalog.memoryIndex ↔ r ∈ w.catalog.memoryIndex)
    (htables : w'.store.tables = w.store.tables)
    (h : Shelf.Serves longestPage call (shelf naming w) r (shelf naming w)) : Serving naming call w r w' :=
  ⟨hw.congr hindex htables, (shelf_congr hindex htables).symm ▸ h⟩

variable {t name : String} {scope : Scope} {asserted : Option String}

theorem erase_serving {cfg : Config} {removed : Nat} {now : Time} (hw : Shelved env naming w)
    (hinj : Function.Injective naming) (ht : t ≠ "") (htable : cfg.table = naming name)
    (hcall : (Pgvector.adapter env cfg).call (.deleteScope (scope.under t)) w.store =
      (.ok removed, w'.store))
    (hindex : ∀ r, r ∈ w'.catalog.memoryIndex ↔ ∃ r₀ ∈ w.catalog.memoryIndex,
      r = if r₀.inScope t scope name then r₀.deleted now else r₀) :
    Serving naming (.deleteScope t scope asserted) w (.ok (.erased removed)) w' := by
  have hselects : ∀ r ∈ w.catalog.memoryIndex, ∀ row, r.behind naming w.store = some row →
      ((naming r.provider = cfg.table ∧ Pgvector.selects (scope.under t) row = true) ↔
        ((r.entry row).within t name scope = true ∧ (r.entry row).agrees scope = true)) := by
    intro r hr row hrow
    rw [(hw.fits.describes r hr row hrow).selects ht, htable, hinj.eq_iff]
  have hstrikes : Strikes naming cfg (IndexRow.inScope t scope name)
      (Pgvector.selects (scope.under t)) now w w' := by
    refine ⟨hindex, call_deleteScope hcall, fun r hr hlive row hrow htable' hsel => ?_⟩
    have hin := ((hselects r hr row hrow).mp ⟨htable', hsel⟩).1
    rw [IndexRow.inScope_entry row, hlive, hin]
    rfl
  have hshelf : shelf naming w' = Shelf.erase t name scope (shelf naming w) := by
    funext g
    by_cases hg : ∃ r ∈ w.catalog.memoryIndex, r.gatewayId = g
    · obtain ⟨r, hr, rfl⟩ := hg
      rw [hstrikes.struck hr, Struck, Shelf.erase, shelf_of_mem hr, IndexRow.slot]
      cases hrow : r.behind naming w.store with
      | none => rfl
      | some row =>
        simp only [hselects r hr row hrow, IndexRow.inScope_entry row]
        cases hlive : r.live <;> cases hin : (r.entry row).within t name scope <;>
          cases hagree : (r.entry row).agrees scope <;> simp [Slot.erase, hin, hagree]
    · have hunused : shelf naming w g = .unused := shelf_unused.mpr hg
      rw [hstrikes.unused hunused, Shelf.erase, hunused]
      rfl
  refine ⟨hstrikes.fits hw.fits, ?_⟩
  rw [hshelf]
  have hcovered : Covered w.catalog.memoryIndex t name
      (rowsOf cfg w.store (scope.under t) true) :=
    hw.fits.covered htable ht fun row hrow => mem_rowsOf.mp hrow
  have hremoved : removed = (entriesOf w.catalog.memoryIndex t name
      (rowsOf cfg w.store (scope.under t) true)).length := by
    rw [length_entriesOf hcovered, length_rowsOf]
    exact (Except.ok.inj (Prod.mk.inj (deleteScope_run.symm.trans hcall)).1).symm
  rw [hremoved]
  exact .erased (hw.fits.holding htable ht)

theorem delete_serving {cfg : Config} {b : Bool} {now : Time} {row : CatalogRow} {g : String}
    (hw : Shelved env naming w) (hinj : Function.Injective naming)
    (hrow : resolveGatewayId t g w.catalog = some row) (htable : cfg.table = naming row.provider)
    (hcall : (Pgvector.adapter env cfg).call (.delete row.nativeId) w.store = (.ok b, w'.store))
    (hindex : ∀ r, r ∈ w'.catalog.memoryIndex ↔ ∃ r₀ ∈ w.catalog.memoryIndex,
      r = if r₀.issued t g then r₀.deleted now else r₀) :
    Serving naming (.delete t g) w (.ok .deleted) w' := by
  obtain ⟨r, hr, rfl, rfl, hlive, rfl⟩ := resolveGatewayId_some hrow
  obtain ⟨stored, hstored⟩ := hw.fits.stored r hr hlive
  have hdeleted : Deleted cfg (·.nativeId == r.nativeId) w.store w'.store :=
    Prog.of_wp delete_spec hcall
  -- the row that goes is behind this row of the index, and behind no other
  have hsame : ∀ r' ∈ w.catalog.memoryIndex, ∀ row', r'.behind naming w.store = some row' →
      ((naming r'.provider = cfg.table ∧ (row'.nativeId == r.nativeId) = true) ↔ r' = r) := by
    intro r' hr' row' hrow'
    constructor
    · rintro ⟨-, hid⟩
      exact hw.one hinj hr' hr hrow' hstored
        ((beq_iff_eq.mp hid).trans (behind_some.mp hstored).2.symm)
    · rintro rfl
      exact ⟨htable.symm, beq_iff_eq.mpr (behind_some.mp hrow').2⟩
  have hissued : ∀ r' ∈ w.catalog.memoryIndex,
      (r'.issued r.tenantId r.gatewayId = true ↔ r' = r) := by
    intro r' hr'
    rw [IndexRow.issued_iff]
    constructor
    · exact fun h => eq_of_gatewayId hr' hr h.1
    · rintro rfl
      exact ⟨rfl, rfl, hlive⟩
  have hstrikes : Strikes naming cfg (IndexRow.issued r.tenantId r.gatewayId)
      (·.nativeId == r.nativeId) now w w' :=
    ⟨hindex, hdeleted, fun r' hr' _ row' hrow' htable' hid =>
      (hissued r' hr').mpr ((hsame r' hr' row' hrow').mp ⟨htable', hid⟩)⟩
  have hshelf : shelf naming w' = Shelf.put r.gatewayId .gone (shelf naming w) := by
    funext g
    by_cases hg : ∃ r' ∈ w.catalog.memoryIndex, r'.gatewayId = g
    · obtain ⟨r', hr', rfl⟩ := hg
      rw [hstrikes.struck hr', Struck, Shelf.put, Function.update_apply, shelf_of_mem hr']
      by_cases heq : r' = r
      · subst heq
        have hgone := (hsame r' hr' stored hstored).mpr rfl
        rw [hstored, if_pos rfl]
        simp only [if_pos hgone]
      · have hid : r'.gatewayId ≠ r.gatewayId := fun h => heq (eq_of_gatewayId hr' hr h)
        rw [if_neg hid, IndexRow.slot]
        cases hrow' : r'.behind naming w.store with
        | none => rfl
        | some row' =>
          have hkept := (hsame r' hr' row' hrow').not.mpr heq
          have hunissued := (hissued r' hr').not.mpr heq
          simp only [if_neg hkept, if_neg hunissued]
    · have hunused : shelf naming w g = .unused := shelf_unused.mpr hg
      rw [hstrikes.unused hunused, Shelf.put, Function.update_of_ne, hunused]
      rintro rfl
      exact hg ⟨r, hr, rfl⟩
  refine ⟨hstrikes.fits hw.fits, ?_⟩
  rw [hshelf]
  exact .deleted (shelf_kept.mpr ⟨r, hr, rfl, hlive, stored, hstored, rfl⟩) rfl

theorem update_serving {cfg : Config} {content : String} {row : CatalogRow} {g : String}
    {memory : ProviderMemory} (hw : Shelved env naming w) (hinj : Function.Injective naming)
    (hrow : resolveGatewayId t g w.catalog = some row) (htable : cfg.table = naming row.provider)
    (hcall : (Pgvector.adapter env cfg).call (.update row.nativeId content) w.store =
      (.ok memory, w'.store))
    (hindex : ∀ r, r ∈ w'.catalog.memoryIndex ↔ r ∈ w.catalog.memoryIndex) :
    Serving naming (.update t g content) w
      (.ok (.memory (toRecord row.gatewayId row.provider memory row.scope))) w' := by
  obtain ⟨r, hr, rfl, rfl, hlive, rfl⟩ := resolveGatewayId_some hrow
  obtain ⟨s₁, embedding, now, htables, hstore, stored, hmem, hid, rfl⟩ :=
    Prog.of_wp update_exact hcall
  have hstored : r.behind naming w.store = some stored := behind_some.mpr ⟨htable ▸ hmem, hid⟩
  refine ⟨Fits.rewritten hindex htables hstore hw.fits, ?_⟩
  rw [shelf_rewritten hindex htables hstore hw hinj hr hlive hstored rfl htable.symm]
  have hsame : (r.entry stored).Same (r.entry (stored.rewritten content embedding now)) :=
    ⟨rfl, rfl, rfl, rfl, rfl⟩
  exact .updated (shelf_kept.mpr ⟨r, hr, rfl, hlive, stored, hstored, rfl⟩) rfl hsame rfl

theorem write_serving {cfg : Config} {fresh : List Row} {rows : List CatalogRow} {c' : Catalog}
    (hw : Shelved env naming w) (hinj : Function.Injective naming) (htable : cfg.table = naming name)
    (hadded : Added env cfg (scope.under t) w.store w'.store fresh)
    (hnodup : (fresh.map Row.nativeId).Nodup)
    (hmap : Mapped env t name (hitItems (fresh.map (toMemory none))) scope true w.catalog rows c')
    (hindex : w'.catalog.memoryIndex = c'.memoryIndex)
    (hserves : ∀ new, Shelf.Gains (shelf naming w) t name scope new (shelf naming w') →
      new.map (fun ge => ge.2.memory.content) = fresh.map Row.content →
        Shelf.Serves longestPage call (shelf naming w) (.ok (Shelf.written name scope new)) (shelf naming w')) :
    Serving naming call w
      (.ok (.wrote { results := toRecords name (fresh.map (toMemory none)) (fun _ => scope) rows
                     provider := name })) w' := by
  have hadds := hmap.adds hw hadded hnodup htable hindex rfl
  refine ⟨hadds.fits hw hinj, ?_⟩
  rw [hadds.answers hw hmap hindex]
  exact hserves _ (hadds.gains hw) (map_entriesOf hadds.covered fun _ _ _ _ _ _ _ => rfl)

theorem search_serving {cfg : Config} {query query' : SearchQuery} {memories : List ProviderMemory}
    {rows : List CatalogRow} {c' : Catalog} {result : SearchResult} (hw : Shelved env naming w)
    (ht : t ≠ "") (htable : cfg.table = naming name)
    (hcall : (Pgvector.adapter env cfg).call (.search query' (scope.under t)) w.store =
      (.ok memories, w'.store))
    (hmap : Mapped env t name (hitItems memories) scope false w.catalog rows c')
    (hresult : result.results = toRecords name memories CatalogRow.scope rows)
    (hindex : w'.catalog.memoryIndex = c'.memoryIndex) :
    Serving naming (.search t query scope asserted) w (.ok (.found result)) w' := by
  have hhits : ∀ m ∈ memories, ∃ row r, Memgw.indexed w.catalog.memoryIndex t name m.nativeId = some r ∧
      r.behind naming w.store = some row ∧ Pgvector.selects (scope.under t) row = true ∧
        ∃ score, m = toMemory (some score) row := by
    intro m hm
    obtain ⟨row, hrow, hsel, score, rfl⟩ := Prog.of_wp search_hits hcall memories rfl m hm
    have hrow : row ∈ w.store.tables (naming name) := by rwa [← htable]
    obtain ⟨r, hr, hbehind⟩ := hw.fits.indexed_of hrow (tenant_of_selects ht hsel)
    exact ⟨row, r, hr, hbehind, hsel, score, rfl⟩
  have hsame := hmap.same_of_hits fun m hm => by
    obtain ⟨row, r, hr, -⟩ := hhits m hm
    exact ⟨r, hr⟩
  refine .still hw.fits (fun r => hindex ▸ hsame r) (call_search hcall).1.tables (.found name ?_)
  intro record hrecord
  rw [hresult] at hrecord
  obtain ⟨m, hm, row', hrow', hid, rfl⟩ := mem_toRecords hrecord
  obtain ⟨row, r, hr, hbehind, hsel, score, rfl⟩ := hhits m hm
  obtain ⟨hmem, ht', hp, hn⟩ := indexed_some hr
  obtain ⟨r', hr', ht'', hp', -, hlive, rfl⟩ := hmap.mem_rows.mp hrow'
  obtain rfl := eq_of_nativeKey hmem ((hsame r').mp hr') (ht'.trans ht''.symm) (hp.trans hp'.symm)
    (hn.trans hid.symm)
  obtain ⟨hwithin, hagrees⟩ :=
    ((hw.fits.describes r hmem row hbehind).selects (p := name) ht).mpr ⟨hp, hsel⟩
  refine ⟨r.entry row, shelf_kept.mpr ⟨r, hmem, rfl, hlive, row, hbehind, rfl⟩, hwithin, hagrees, ?_⟩
  subst hp
  rfl

theorem list_serving {cfg : Config} {limit : Nat} {memories : List ProviderMemory}
    {rows : List CatalogRow} {c' : Catalog} (hw : Shelved env naming w)
    (ht : t ≠ "") (htable : cfg.table = naming name)
    (hcall : (Pgvector.adapter env cfg).call (.listScope (scope.under t) (min limit longestPage)) w.store =
      (.ok memories, w'.store))
    (hmap : Mapped env t name (hitItems memories) scope false w.catalog rows c')
    (hindex : w'.catalog.memoryIndex = c'.memoryIndex) :
    Serving naming (.listScope t scope limit asserted) w
      (.ok (.listed (toRecords name memories CatalogRow.scope rows))) w' := by
  obtain ⟨hmemories, hstore⟩ := Prod.mk.inj (listScope_run.symm.trans hcall)
  obtain rfl := Except.ok.inj hmemories
  have hselected : ∀ row ∈ rowsOf cfg w.store (scope.under t) true,
      row ∈ w.store.rows cfg ∧ Pgvector.selects (scope.under t) row = true :=
    fun row hrow => mem_rowsOf.mp hrow
  have hcovered := hw.fits.covered htable ht hselected
  have htaken : Covered w.catalog.memoryIndex t name
      ((rowsOf cfg w.store (scope.under t) true).take (min limit longestPage)) :=
    fun row hrow => hcovered row (List.mem_of_mem_take hrow)
  refine .still hw.fits (fun r => hindex ▸ hmap.same_of_hits htaken.known r) (by rw [← hstore]) ?_
  have hstored : ∀ row ∈ (rowsOf cfg w.store (scope.under t) true).take (min limit longestPage),
      row ∈ w.store.tables (naming name) := by
    intro row hrow
    rw [← htable]
    exact (hselected row (List.mem_of_mem_take hrow)).1
  rw [htaken.shown hmap hstored, ← take_entriesOf hcovered]
  refine .listed (hw.fits.holding htable ht) ?_
  have hsorted : (rowsOf cfg w.store (scope.under t) true).Pairwise newestFirst :=
    List.pairwise_insertionSort _ _
  refine hsorted.filterMap _ fun row row' hbefore ge hge ge' hge' => ?_
  obtain ⟨r, -, rfl⟩ := Option.map_eq_some_iff.mp hge
  obtain ⟨r', -, rfl⟩ := Option.map_eq_some_iff.mp hge'
  exact ⟨_, _, rfl, rfl, hbefore⟩

end

/-- One request is served as the shelf allows, and leaves a shelf. -/
theorem Shelved.step (hinj : Function.Injective naming) (hw : Shelved env naming w)
    {q : Request State} (hcore : q.1.OverTables env naming) (ht : q.2.tenant ≠ "") :
    Serving naming q.2 w (q.answer env w) (q.after env w) := by
  obtain ⟨core, call⟩ := q
  have hdid : core.Did env call w (Request.answer env (core, call) w)
      (Request.after env (core, call) w) := Request.did env (core, call) w
  generalize hr : Request.answer env (core, call) w = r at hdid
  generalize Request.after env (core, call) w = w' at hdid
  have hanswer : ∀ {Q : Except Exc Reply → Prop},
      (core.exec call).wp (handle env) (fun r _ => Q r) w → Q r := fun h => hr ▸ h
  clear hr
  cases hdid with
  | refused => exact .still hw.fits (fun _ => Iff.rfl) rfl .refused
  | failed hask hcall hs =>
    obtain ⟨cfg, rfl, -⟩ := hcore _ _ hask.configured
    refine .still hw.fits (fun _ => Iff.rfl) ?_ .refused
    rcases hs with rfl | rfl <;> exact call_error hcall
  | failedOpen hask hcall hopen =>
    obtain ⟨cfg, rfl, -⟩ := hcore _ _ hask.configured
    exact .still hw.fits (fun _ => Iff.rfl) (call_error hcall)
      (.found "" fun record hrecord => absurd hrecord List.not_mem_nil)
  | unsettled hask hcall hstill =>
    obtain ⟨cfg, rfl, -⟩ := hcore _ _ hask.configured
    have hread : ∀ {s₁ : State} {c' : Catalog} {e : Exc}, w.catalog.Still c' →
        s₁.tables = w.store.tables → Serving naming call w (.error e) ⟨c', s₁⟩ :=
      fun hstill htables => .still hw.fits (fun r => by rw [hstill.index]) htables .refused
    -- alone, a verb that changes something settles once its adapter has answered
    cases hask with
    | ingest hp hcap =>
      obtain ⟨fresh, -, rfl, hnodup⟩ := call_ingest_rows hcall
      obtain ⟨reply, hreply⟩ := hanswer (ingest_returns (.ingest hp hcap) hcall hw.minted
        hw.numbered (natives_of_memories ▸ hnodup))
      cases hreply
    | upsert hne hp hcap =>
      obtain ⟨fresh, -, rfl, hnodup, -⟩ := call_upsert_rows hcall
      obtain ⟨reply, hreply⟩ := hanswer (upsert_returns (.upsert hne hp hcap) hcall hw.minted
        (natives_of_memories ▸ hnodup))
      cases hreply
    | update hrow ha hcap =>
      obtain ⟨-, row, -, hid, rfl⟩ := call_update hcall
      cases hanswer (update_returns hrow ha hcap hcall hid hw.minted)
    | search => exact hread hstill (call_search hcall).1.tables
    | listScope => exact hread hstill (call_listScope hcall).1.tables
    | get => exact hread hstill (congrArg State.tables (Prod.mk.inj (call_get.symm.trans hcall)).2).symm
    | delete hrow ha hcap => cases hanswer (delete_returns hrow ha hcap hcall)
    | deleteScope hp hcap => cases hanswer (deleteScope_returns (.deleteScope hp hcap) hcall)
  | ingested hask hcall hmap hjournal hreply =>
    obtain ⟨cfg, rfl, htable⟩ := hcore _ _ hask.configured
    obtain ⟨fresh, hadded, rfl, hnodup⟩ := call_ingest_rows hcall
    obtain ⟨reply, rfl⟩ := hanswer (ingest_returns hask hcall hw.minted hw.numbered
      (natives_of_memories ▸ hnodup))
    obtain ⟨rfl, -⟩ := hreply reply rfl
    refine write_serving hw hinj htable hadded hnodup hmap ?_ fun _ hgains _ => .ingested hgains
    subst hjournal
    split <;> simp
  | upserted hask hcall hmap =>
    obtain ⟨cfg, rfl, htable⟩ := hcore _ _ hask.configured
    obtain ⟨fresh, hadded, rfl, hnodup, hcontents⟩ := call_upsert_rows hcall
    exact write_serving hw hinj htable hadded hnodup hmap (by simp) fun _ hgains hnew =>
      .upserted hgains (hnew.trans hcontents)
  | updated hrow hask hcall hmap hreply =>
    obtain ⟨cfg, rfl, htable⟩ := hcore _ _ hask.configured
    obtain ⟨-, row, -, hid, rfl⟩ := call_update hcall
    obtain rfl := hanswer (update_returns hrow hask.configured rfl hcall hid hw.minted)
    refine update_serving hw hinj hrow htable hcall (hmap.same_index fun n hn => ?_)
    obtain rfl : n = _ := by simpa using hn
    obtain ⟨r, hr, -, rfl, hlive, rfl⟩ := resolveGatewayId_some hrow
    exact ⟨r, Eq.trans (by rw [toMemory, hid]; rfl) (indexed_of_mem hr), fun _ => hlive⟩
  | searched hask hcall hmap hresults =>
    obtain ⟨cfg, rfl, htable⟩ := hcore _ _ hask.configured
    exact search_serving hw ht htable hcall hmap hresults rfl
  | listed hask hcall hmap =>
    obtain ⟨cfg, rfl, htable⟩ := hcore _ _ hask.configured
    exact list_serving hw ht htable hcall hmap rfl
  | got hrow hask hcall =>
    obtain ⟨cfg, rfl, htable⟩ := hcore _ _ hask.configured
    obtain ⟨r, hr, rfl, rfl, hlive, rfl⟩ := resolveGatewayId_some hrow
    obtain ⟨hanswered, rfl⟩ := Prod.mk.inj (call_get.symm.trans hcall)
    obtain ⟨row, hfind, rfl⟩ := Option.map_eq_some_iff.mp (Except.ok.inj hanswered)
    have hbehind : r.behind naming w.store = some row := by
      rw [State.rows, htable] at hfind
      exact hfind
    exact .still hw.fits (fun _ => Iff.rfl) rfl
      (.got (shelf_kept.mpr ⟨r, hr, rfl, hlive, row, hbehind, rfl⟩) rfl)
  | deleted hrow hask hcall =>
    obtain ⟨cfg, rfl, htable⟩ := hcore _ _ hask.configured
    exact delete_serving hw hinj hrow htable hcall fun r => mem_bury
  | erased hask hcall =>
    obtain ⟨cfg, rfl, htable⟩ := hcore _ _ hask.configured
    exact erase_serving hw hinj ht htable hcall fun r => mem_bury
  | rebound => exact .still hw.fits (fun r => by simp) rfl .rebound

end Memgw
