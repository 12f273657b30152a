-- SUMMARY: When a page of provider memories is mapped at all, and that a mapped page has each of its memories once, in order.
import Memgw.Gateway.Verbs
import Memgw.Properties.Reads

/-!
# Mapped pages

The lookup of a page is against the table only. So a native id that the table does
not have is inserted as often as the page names it, and the constraint on native ids
refuses the batch each time that it is tried, with no rival in sight. A page that is
mapped has one row for each of its native ids, and the records made from it are those
of its memories: all of them for a write, those that are not deleted for a read.
-/

namespace Memgw

variable {σ : Type} {env : Env} {w : World σ} {tenant provider : String} {scope : Scope}

/-! ## When a page is mapped -/

/-- The catalog has no row for the native id. -/
def Catalog.Unseen (c : Catalog) (tenant provider native : String) : Prop :=
  ∀ r ∈ c.memoryIndex, ¬ (r.tenantId = tenant ∧ r.provider = provider ∧ r.nativeId = native)

theorem nodup_missing_iff {items : List (String × String)} {c : Catalog} :
    ((missingItems c.memoryIndex tenant provider items).map Prod.fst).Nodup ↔
      ∀ n, c.Unseen tenant provider n → (items.map Prod.fst).count n ≤ 1 := by
  have hnatives : (missingItems c.memoryIndex tenant provider items).map Prod.fst =
      (items.map Prod.fst).filter fun n => (indexed c.memoryIndex tenant provider n).isNone := by
    rw [List.filter_map, missingItems]
    refine congrArg _ (List.filter_congr (fun item hitem => ?_))
    have hmem : item.1 ∈ items.map Prod.fst := List.mem_map_of_mem hitem
    simp [findByNative_apply, hmem]
  rw [hnatives, List.nodup_iff_count]
  refine forall_congr' (fun n => ?_)
  rw [Catalog.Unseen, ← indexed_none]
  cases hn : indexed c.memoryIndex tenant provider n with
  | none => simp [List.count_filter, hn]
  | some r =>
    have hout : n ∉ (items.map Prod.fst).filter fun n =>
        (indexed c.memoryIndex tenant provider n).isNone := by
      simp [List.mem_filter, hn]
    simp [List.count_eq_zero_of_not_mem hout]

/-- Every attempt fails as the first one did: it leaves the rows as they were, and new
    ids do not help. -/
theorem attempts_fail {items : List (String × String)} {revive : Bool} {n : Nat}
    (hunspent : w.catalog.Unspent env)
    (hrepeats : ¬ ((missingItems w.catalog.memoryIndex tenant provider items).map Prod.fst).Nodup) :
    (mapPage.attempts tenant provider items scope revive (n + 1)).wp (handle env)
      (fun r _ => ∃ text, r = .error (.integrity text)) w := by
  induction n generalizing w with
  | zero =>
    rw [mapPage.attempts, Prog.wp_tryCatch, wp_transact]
    cases hx : mapAttempt env tenant provider items scope revive w.catalog with
    | mk r c' =>
      cases r with
      | ok rows => exact absurd ((mapAttempt_ok_iff hunspent).mp ⟨rows, c', hx⟩) hrepeats
      | error e =>
        obtain ⟨-, text, rfl⟩ := mapAttempt_error hx
        simp [CatalogOp.exec, hx]
  | succ n ih =>
    rw [mapPage.attempts, Prog.wp_tryCatch, wp_transact]
    cases hx : mapAttempt env tenant provider items scope revive w.catalog with
    | mk r c' =>
      cases r with
      | ok rows => exact absurd ((mapAttempt_ok_iff hunspent).mp ⟨rows, c', hx⟩) hrepeats
      | error e =>
        obtain ⟨hstill, text, rfl⟩ := mapAttempt_error hx
        simp only [CatalogOp.exec, hx, Nat.succ_ne_zero, if_false]
        exact ih (w := { w with catalog := c' }) (hunspent.still hstill)
          (hstill.index ▸ hrepeats)

/-- With no other writer, a page is mapped exactly when no native id that has no row
    occurs on it twice. -/
theorem mapPage_returns_iff {items : List (String × String)} {revive : Bool}
    (hunspent : w.catalog.Unspent env) :
    (∃ rows, ((mapPage tenant provider items scope revive).run (handle env) w).1 = .ok rows) ↔
      ∀ n, w.catalog.Unseen tenant provider n → (items.map Prod.fst).count n ≤ 1 := by
  rw [← nodup_missing_iff]
  by_cases hnil : items = []
  · subst hnil
    exact iff_of_true ⟨[], rfl⟩ List.nodup_nil
  · by_cases hnodup : ((missingItems w.catalog.memoryIndex tenant provider items).map
        Prod.fst).Nodup
    · refine iff_of_true ?_ hnodup
      obtain ⟨rows, c', hmap⟩ : ∃ rows c',
          mapAttempt env tenant provider items scope revive w.catalog = (.ok rows, c') :=
        (mapAttempt_ok_iff hunspent).mpr hnodup
      exact ⟨rows, congrArg Prod.fst (mapPage_run hnil hmap)⟩
    · refine iff_of_false ?_ hnodup
      rintro ⟨rows, hrows⟩
      have hfail : (mapPage tenant provider items scope revive).wp (handle env)
          (fun r _ => ∃ text, r = .error (.integrity text)) w := by
        simp only [mapPage, hnil, if_false]
        exact attempts_fail hunspent hnodup
      obtain ⟨text, htext⟩ := hfail
      cases hrows.symm.trans htext

/-- Mapping a page, written or read, completes exactly when no native id that has no row
    occurs on it twice. -/
theorem mapping_completes_iff (env : Env) (w : World σ) (tenant provider : String)
    (items : List (String × String)) (scope : Scope) (hunspent : w.catalog.Unspent env) :
    ((∃ rows, ((recordMany tenant provider items scope).run (handle env) w).1 = .ok rows) ↔
      ∀ n, w.catalog.Unseen tenant provider n → (items.map Prod.fst).count n ≤ 1) ∧
    ((∃ rows, ((ensureMany tenant provider items scope).run (handle env) w).1 = .ok rows) ↔
      ∀ n, w.catalog.Unseen tenant provider n → (items.map Prod.fst).count n ≤ 1) :=
  ⟨mapPage_returns_iff hunspent, mapPage_returns_iff hunspent⟩

/-! ## A memory named twice -/

/-- A catalog that has one memory of the tenant, deleted. -/
def oneDeleted : World Unit :=
  { catalog :=
      { memoryIndex :=
          ⟨[{ gatewayId := Env.counting.newId "mg" 0, tenantId := "a", provider := "mem0"
              nativeId := "old", subject := ⟨"u_1", u_1_mustBeReal⟩, agent := none, session := none
              contentHash := "x", createdAt := 0, updatedAt := 0, deletedAt := some 0 }],
            List.pairwise_singleton _ _⟩
        ticks := 1 }
    store := () }

theorem oneDeleted_minted : oneDeleted.catalog.Minted .counting := by
  intro r hr
  obtain rfl := List.mem_singleton.mp hr
  exact ⟨0, Nat.one_pos, rfl⟩

/-- A provider may name a deleted memory as often as it likes, and a new one once. -/
theorem mapping_completes_once :
    ∃ rows, ((ensureMany (σ := Unit) "a" "mem0" [("old", "x"), ("new", "y"), ("old", "x")]
      { subject := ⟨"u_1", by decide⟩ }).run (handle .counting) oneDeleted).1 = .ok rows := by
  refine (mapping_completes_iff .counting oneDeleted "a" "mem0" _ _
    oneDeleted_minted.unspent).2.mpr (fun n hn => ?_)
  have hold : "old" ≠ n := by
    rintro rfl
    exact hn _ (List.mem_singleton.mpr rfl) ⟨rfl, rfl, rfl⟩
  simp only [List.map_cons, List.map_nil, List.count_cons, List.count_nil, beq_iff_eq, hold,
    if_false]
  split <;> decide

/-- Two hits without an id of their own, on a page of a gateway that has met none: neither
    mapping completes. -/
theorem repeated_hit_fails : ¬ ∀ (w : World Unit) (tenant provider : String)
    (items : List (String × String)) (scope : Scope), w.catalog.Unspent .counting →
      (∃ rows, ((recordMany tenant provider items scope).run (handle .counting) w).1 = .ok rows) ∧
      ∃ rows, ((ensureMany tenant provider items scope).run (handle .counting) w).1 = .ok rows := by
  intro h
  have hunspent : Catalog.Unspent .counting {} := by
    intro r hr
    cases hr
  obtain ⟨hrecord, -⟩ := h { catalog := {}, store := () } "a" "mem0"
    [("None", "x"), ("None", "y")] { subject := ⟨"u_1", by decide⟩ } hunspent
  have hcount := (mapPage_returns_iff hunspent).mp hrecord "None" (by intro r hr; cases hr)
  exact absurd hcount (by decide)

/-! ## What a mapped page has -/

/-- A map that drops the elements that fail a test answers, in order, for each that passes. -/
theorem forall₂_filterMap {α β : Type} {f : α → Option β} {p : α → Bool} {R : β → α → Prop}
    {l : List α} (hkeep : ∀ x ∈ l, p x = true → ∃ y, f x = some y ∧ R y x)
    (hdrop : ∀ x ∈ l, p x = false → f x = none) :
    List.Forall₂ R (l.filterMap f) (l.filter p) := by
  induction l with
  | nil => exact .nil
  | cons x l ih =>
    have ih := ih (fun y hy => hkeep y (List.mem_cons_of_mem x hy))
      (fun y hy => hdrop y (List.mem_cons_of_mem x hy))
    cases hp : p x with
    | true =>
      obtain ⟨y, hf, hR⟩ := hkeep x (List.mem_cons_self ..) hp
      rw [List.filterMap_cons_some hf, List.filter_cons_of_pos hp]
      exact .cons hR ih
    | false =>
      rw [List.filterMap_cons_none (hdrop x (List.mem_cons_self ..) hp),
        List.filter_cons_of_neg (by simp [hp])]
      exact ih

instance {c : Catalog} {native : String} : Decidable (c.Tombstoned tenant provider native) :=
  inferInstanceAs (Decidable (∃ r ∈ c.memoryIndex.rows, r.tenantId = tenant ∧
    r.provider = provider ∧ r.nativeId = native ∧ r.live = false))

/-- The record is for the memory: it shows it, and its id resolves to the native id of the
    memory, at the provider and for the tenant. -/
def MemoryRecord.IsFor (tenant provider : String) (scopeOf : CatalogRow → Scope) (c : Catalog)
    (record : MemoryRecord) (memory : ProviderMemory) : Prop :=
  ∃ row, resolveGatewayId tenant record.id c = some row ∧ row.tenantId = tenant ∧
    row.provider = provider ∧ row.nativeId = memory.nativeId ∧
      record = toRecord row.gatewayId provider memory (scopeOf row)

section

variable {memories : List ProviderMemory} {revive : Bool} {c c' : Catalog} {rows : List CatalogRow}
  {memory : ProviderMemory} (scopeOf : CatalogRow → Scope)

/-- A memory with a live row has a record. -/
theorem Mapped.record_of_live
    (h : Mapped env tenant provider (hitItems memories) scope revive c rows c')
    (hmemory : memory ∈ memories) {r : IndexRow}
    (hr : r.LiveFor tenant provider memory.nativeId c') :
    ∃ record, ((byNative rows memory.nativeId).map fun row =>
        toRecord row.gatewayId provider memory (scopeOf row)) = some record ∧
      record.IsFor tenant provider scopeOf c' memory := by
  obtain ⟨hmem, rfl, rfl, hn, hlive⟩ := hr
  rw [h.byNative_live hmemory hmem rfl rfl hn hlive]
  exact ⟨_, rfl, r.toRow, resolveGatewayId_of_mem hmem hlive, rfl, rfl, hn, rfl⟩

/-- A memory whose row is not live has none. -/
theorem Mapped.no_record (h : Mapped env tenant provider (hitItems memories) scope revive c rows c')
    (hdead : c'.Tombstoned tenant provider memory.nativeId) :
    byNative rows memory.nativeId = none := by
  cases hby : byNative rows memory.nativeId with
  | none => rfl
  | some row =>
    obtain ⟨hrow, hn⟩ := byNative_some hby
    obtain ⟨r, hr, ht, hp, -, hlive, rfl⟩ := h.mem_rows.mp hrow
    obtain ⟨r', hr', ht', hp', hn', hdead⟩ := hdead
    obtain rfl := eq_of_nativeKey hr hr' (ht.trans ht'.symm) (hp.trans hp'.symm)
      (hn.trans hn'.symm)
    cases hdead.symm.trans hlive

/-- The records of a read are, in order, those of the memories that are not deleted. -/
theorem Mapped.read_records
    (h : Mapped env tenant provider (hitItems memories) scope false c rows c') :
    List.Forall₂ (MemoryRecord.IsFor tenant provider scopeOf c')
      (toRecords provider memories scopeOf rows)
      (memories.filter fun m => ¬ c.Tombstoned tenant provider m.nativeId) := by
  refine forall₂_filterMap (fun memory hmemory hfree => ?_) (fun memory hmemory hdead => ?_)
  · have hfree : ¬ c.Tombstoned tenant provider memory.nativeId := by simpa using hfree
    obtain ⟨r, hr, hkey⟩ := h.keyed hmemory
    obtain ⟨ht, hp, hn⟩ : r.tenantId = tenant ∧ r.provider = provider ∧
        r.nativeId = memory.nativeId := by
      simpa [IndexRow.nativeKey] using hkey
    -- an old row is live by assumption, a fresh one in any case
    have hlive : r.live = true := by
      rcases h.read_adds hr with hold | hfresh
      · by_contra hdead
        exact hfree ⟨r, hold, ht, hp, hn, by simpa using hdead⟩
      · simp [IndexRow.live, hfresh.deletedAt]
    exact h.record_of_live scopeOf hmemory ⟨hr, ht, hp, hn, hlive⟩
  · have hdead : c.Tombstoned tenant provider memory.nativeId := by simpa using hdead
    obtain ⟨r, hr, hwas⟩ := hdead
    rw [h.no_record ⟨r, h.read_keeps hr, hwas⟩, Option.map_none]

/-- The records of a write are, in order, those of its memories. -/
theorem Mapped.written_records
    (h : Mapped env tenant provider (hitItems memories) scope true c rows c') :
    List.Forall₂ (MemoryRecord.IsFor tenant provider scopeOf c')
      (toRecords provider memories scopeOf rows) memories := by
  have hall := forall₂_filterMap (f := fun memory => (byNative rows memory.nativeId).map fun row =>
      toRecord row.gatewayId provider memory (scopeOf row)) (p := fun _ => true)
    (R := MemoryRecord.IsFor tenant provider scopeOf c') (l := memories)
    (fun memory hmemory _ => ?_) (fun _ _ h => by cases h)
  · rw [List.filter_true] at hall
    exact hall
  · have hnative : memory.nativeId ∈ (hitItems memories).map Prod.fst := by
      simpa [hitItems] using ⟨memory, hmemory, rfl⟩
    obtain ⟨r, hlive, -⟩ := h.live_row hnative
    exact h.record_of_live scopeOf hmemory hlive

end

/-- A mapping that returns loses, repeats and reorders nothing: a read has a record for each
    memory that is not deleted, a write has one for each memory. -/
theorem mapping_loses_nothing (env : Env) (w : World σ) (tenant provider : String)
    (memories : List ProviderMemory) (scope : Scope) (records : List MemoryRecord) :
    (((mapHits tenant provider memories scope).run (handle env) w).1 = .ok records →
      List.Forall₂ (MemoryRecord.IsFor tenant provider CatalogRow.scope
          ((mapHits tenant provider memories scope).run (handle env) w).2.catalog) records
        (memories.filter fun m => ¬ w.catalog.Tombstoned tenant provider m.nativeId)) ∧
    (((writtenRecords tenant provider memories scope).run (handle env) w).1 = .ok records →
      List.Forall₂ (MemoryRecord.IsFor tenant provider (fun _ => scope)
          ((writtenRecords tenant provider memories scope).run (handle env) w).2.catalog) records
        memories) := by
  have hread : (mapHits tenant provider memories scope).wp (handle env) (fun r w' =>
      ∀ records, r = .ok records →
        List.Forall₂ (MemoryRecord.IsFor tenant provider CatalogRow.scope w'.catalog) records
          (memories.filter fun m => ¬ w.catalog.Tombstoned tenant provider m.nativeId)) w := by
    refine wp_mapHits (fun rows c' hmap records hok => ?_) (fun _ _ _ _ h => by cases h)
    obtain rfl := Except.ok.inj hok
    exact hmap.read_records CatalogRow.scope
  have hwrite : (writtenRecords tenant provider memories scope).wp (handle env) (fun r w' =>
      ∀ records, r = .ok records →
        List.Forall₂ (MemoryRecord.IsFor tenant provider (fun _ => scope) w'.catalog) records
          memories) w := by
    refine wp_writtenRecords (fun rows c' hmap records hok => ?_) (fun _ _ _ _ h => by cases h)
    obtain rfl := Except.ok.inj hok
    exact hmap.written_records fun _ => scope
  exact ⟨hread records, hwrite records⟩

/-- The two memories of a page that names the deleted one first. -/
def oldAndNew : List ProviderMemory :=
  [{ nativeId := "old", content := "x" }, { nativeId := "new", content := "y" },
    { nativeId := "old", content := "x" }]

theorem mapping_loses_nothing_of_old :
    ∃ records c', ((mapHits (σ := Unit) "a" "mem0" oldAndNew
        { subject := ⟨"u_1", by decide⟩ }).run (handle .counting) oneDeleted).1 = .ok records ∧
      List.Forall₂ (MemoryRecord.IsFor "a" "mem0" CatalogRow.scope c') records
        [{ nativeId := "new", content := "y" }] := by
  have hok : ∃ records, ((mapHits (σ := Unit) "a" "mem0" oldAndNew
      { subject := ⟨"u_1", by decide⟩ }).run (handle .counting) oneDeleted).1 = .ok records := by
    exact ⟨_, rfl⟩
  obtain ⟨records, hok⟩ := hok
  exact ⟨records, _, hok,
    (mapping_loses_nothing .counting oneDeleted "a" "mem0" oldAndNew _ records).1 hok⟩

end Memgw
