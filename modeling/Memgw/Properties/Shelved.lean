-- SUMMARY: The shelf that a gateway over the self-hosted adapter keeps: how it is read off the index and the tables.
import Memgw.Properties.Reads
import Memgw.Properties.RowsInScope
import Memgw.Properties.SelfHosted
import Memgw.Gateway.Shelf

/-!
# The shelf behind the tables

An id of the gateway stands for what the index says of it and the table of its provider
says of its native id. For the two to make one shelf they have to fit: each row of a table
is in the index, under the tenant and the scope of the row, and each live row of the index
has its row in the table. The names that providers go by must tell their tables apart,
or an erasure at one of them takes the memories of another.
-/

namespace Memgw

open Pgvector

variable {env : Env} {naming : String → String} {w w' : World State}

/-- Every provider of the gateway is a self-hosted adapter, on the table of its name. -/
def MemoryCore.OverTables (env : Env) (naming : String → String) (core : MemoryCore State) : Prop :=
  ∀ name a, core.adapter name = .ok a →
    ∃ cfg : Config, a = Pgvector.adapter env cfg ∧ cfg.table = naming name

theorem MemoryCore.OverTables.overPgvector {core : MemoryCore State}
    (h : core.OverTables env naming) : core.OverPgvector env := by
  intro name a ha
  obtain ⟨cfg, rfl, -⟩ := h name a ha
  exact ⟨cfg, rfl⟩

/-! ## The view -/

/-- The row of the table behind a row of the index. -/
def IndexRow.behind (naming : String → String) (s : State) (r : IndexRow) : Option Row :=
  (s.tables (naming r.provider)).find? (·.nativeId == r.nativeId)

def IndexRow.entry (r : IndexRow) (row : Row) : Entry where
  tenant := r.tenantId
  provider := r.provider
  scope :=
    { subject := r.subject
      agent := r.agent
      session := r.session
      labels := row.labels }
  memory := toMemory none row

def IndexRow.slot (naming : String → String) (s : State) (r : IndexRow) : Slot :=
  match r.behind naming s with
  | some row => if r.live then .kept (r.entry row) else .hidden (r.entry row)
  | none => .gone

/-- The shelf of a world. -/
def shelf (naming : String → String) (w : World State) : Shelf := fun g =>
  match w.catalog.memoryIndex.find? (·.gatewayId == g) with
  | some r => r.slot naming w.store
  | none => .unused

theorem behind_some {s : State} {r : IndexRow} {row : Row} :
    r.behind naming s = some row ↔
      row ∈ s.tables (naming r.provider) ∧ row.nativeId = r.nativeId := by
  constructor
  · intro h
    obtain ⟨hrow, hid⟩ := Table.find?_some h
    exact ⟨hrow, beq_iff_eq.mp hid⟩
  · rintro ⟨hrow, hid⟩
    refine Table.find?_eq_some Row.nativeId (List.mem_singleton_self _) ?_ hrow (by simpa using hid)
    intro a b ha hb
    exact (beq_iff_eq.mp ha).trans (beq_iff_eq.mp hb).symm

theorem behind_none {s : State} {r : IndexRow} :
    r.behind naming s = none ↔
      ∀ row ∈ s.tables (naming r.provider), row.nativeId ≠ r.nativeId := by
  rw [IndexRow.behind, Table.find?_none]
  exact forall₂_congr fun row _ => by simp

theorem shelf_of_mem {r : IndexRow} (hr : r ∈ w.catalog.memoryIndex) :
    shelf naming w r.gatewayId = r.slot naming w.store := by
  have hfind : w.catalog.memoryIndex.find? (·.gatewayId == r.gatewayId) = some r := by
    refine Table.find?_eq_some IndexRow.idKey (by simp [indexKeys]) ?_ hr (by simp)
    intro a b ha hb
    simp [IndexRow.idKey, beq_iff_eq.mp ha, beq_iff_eq.mp hb]
  simp only [shelf, hfind]

theorem shelf_unused {g : String} :
    shelf naming w g = .unused ↔ ¬ ∃ r ∈ w.catalog.memoryIndex, r.gatewayId = g := by
  constructor
  · rintro h ⟨r, hr, rfl⟩
    rw [shelf_of_mem hr, IndexRow.slot] at h
    split at h
    · split at h <;> cases h
    · cases h
  · intro h
    have hfind : w.catalog.memoryIndex.find? (·.gatewayId == g) = none :=
      Table.find?_none.mpr fun r hr => by simpa using fun hg => h ⟨r, hr, hg⟩
    simp only [shelf, hfind]

/-- An id holds a memory when the index has it live and a row is behind it. -/
theorem shelf_kept {g : String} {e : Entry} :
    shelf naming w g = .kept e ↔ ∃ r ∈ w.catalog.memoryIndex, r.gatewayId = g ∧ r.live = true ∧
      ∃ row, r.behind naming w.store = some row ∧ e = r.entry row := by
  constructor
  · intro h
    by_cases hg : ∃ r ∈ w.catalog.memoryIndex, r.gatewayId = g
    · obtain ⟨r, hr, rfl⟩ := hg
      rw [shelf_of_mem hr, IndexRow.slot] at h
      split at h
      · rename_i row hrow
        split at h
        · rename_i hlive
          exact ⟨r, hr, rfl, hlive, row, hrow, (Slot.kept.inj h).symm⟩
        · cases h
      · cases h
    · cases (shelf_unused.mpr hg).symm.trans h
  · rintro ⟨r, hr, rfl, hlive, row, hrow, rfl⟩
    simp [shelf_of_mem hr, IndexRow.slot, hrow, hlive]

theorem shelf_stored {g : String} {e : Entry} :
    (shelf naming w g).stored = some e ↔ ∃ r ∈ w.catalog.memoryIndex, r.gatewayId = g ∧
      ∃ row, r.behind naming w.store = some row ∧ e = r.entry row := by
  constructor
  · intro h
    by_cases hg : ∃ r ∈ w.catalog.memoryIndex, r.gatewayId = g
    · obtain ⟨r, hr, rfl⟩ := hg
      rw [shelf_of_mem hr, IndexRow.slot] at h
      split at h
      · rename_i row hrow
        refine ⟨r, hr, rfl, row, hrow, ?_⟩
        split at h <;> exact (Option.some.inj h).symm
      · cases h
    · rw [shelf_unused.mpr hg] at h
      cases h
  · rintro ⟨r, hr, rfl, row, hrow, rfl⟩
    rw [shelf_of_mem hr, IndexRow.slot, hrow]
    simp only
    split <;> rfl

/-! ## What fits -/

/-- The row of the index has the tenant and the scope of the row of the table. -/
structure IndexRow.Describes (r : IndexRow) (row : Row) : Prop where
  tenant : row.tenant = some r.tenantId
  subject : row.subject = r.subject
  agent : row.agent = r.agent
  session : row.session = r.session

theorem IndexRow.Describes.same {r : IndexRow} {a b : Row} (h : r.Describes a) (hab : a.Same b) :
    r.Describes b where
  tenant := hab.tenant ▸ h.tenant
  subject := hab.subject ▸ h.subject
  agent := hab.agent ▸ h.agent
  session := hab.session ▸ h.session

/-- The index and the tables make one shelf. -/
structure Fits (naming : String → String) (w : World State) : Prop where
  /-- Every row of a table is in the index. -/
  indexed : ∀ p, ∀ row ∈ w.store.tables (naming p), ∃ r ∈ w.catalog.memoryIndex,
    r.provider = p ∧ r.nativeId = row.nativeId
  describes : ∀ r ∈ w.catalog.memoryIndex, ∀ row, r.behind naming w.store = some row →
    r.Describes row
  stored : ∀ r ∈ w.catalog.memoryIndex, r.live = true → ∃ row, r.behind naming w.store = some row

structure Shelved (env : Env) (naming : String → String) (w : World State) : Prop where
  hosted : SelfHosted env w
  minted : w.catalog.Minted env
  numbered : w.catalog.Numbered env
  fits : Fits naming w

theorem Shelved.empty : Shelved env naming { catalog := {}, store := {} } where
  hosted := .empty
  minted _ hr := absurd hr Table.not_mem_empty
  numbered _ hj := absurd hj Table.not_mem_empty
  fits :=
    { indexed := fun _ _ hrow => absurd hrow Table.not_mem_empty
      describes := fun _ hr => absurd hr Table.not_mem_empty
      stored := fun _ hr => absurd hr Table.not_mem_empty }

/-- No two rows of the index have one row of a table behind them. -/
theorem Shelved.one (h : Shelved env naming w) (hinj : Function.Injective naming) {r r' : IndexRow}
    (hr : r ∈ w.catalog.memoryIndex) (hr' : r' ∈ w.catalog.memoryIndex) {row row' : Row}
    (hrow : r.behind naming w.store = some row) (hrow' : r'.behind naming w.store = some row')
    (hid : row.nativeId = row'.nativeId) : r = r' := by
  obtain ⟨hmem, hn⟩ := behind_some.mp hrow
  obtain ⟨hmem', hn'⟩ := behind_some.mp hrow'
  obtain ⟨htable, hsame⟩ := h.hosted.one _ row hmem _ row' hmem' hid
  have ht : r.tenantId = r'.tenantId := by
    have h₁ := (h.fits.describes r hr row hrow).tenant
    have h₂ := (h.fits.describes r' hr' row' hrow').tenant
    exact Option.some.inj ((h₁.symm.trans hsame.tenant).trans h₂)
  exact eq_of_nativeKey hr hr' ht (hinj htable) (hn.symm.trans (hid.trans hn'))

/-! ## Pages -/

section

variable {index : Table indexKeys} {t name : String} {rows : List Row}

/-- The entries of some rows of a table, under the ids that the index has for them. -/
def entriesOf (index : Table indexKeys) (t name : String) (rows : List Row) :
    List (String × Entry) :=
  rows.filterMap fun row =>
    (indexed index t name row.nativeId).map fun r => (r.gatewayId, r.entry row)

theorem mem_entriesOf {ge : String × Entry} :
    ge ∈ entriesOf index t name rows ↔ ∃ row ∈ rows, ∃ r ∈ index, r.tenantId = t ∧
      r.provider = name ∧ r.nativeId = row.nativeId ∧ ge = (r.gatewayId, r.entry row) := by
  simp only [entriesOf, List.mem_filterMap, Option.map_eq_some_iff]
  refine exists_congr fun row => and_congr_right fun _ => ?_
  constructor
  · rintro ⟨r, hr, rfl⟩
    obtain ⟨hmem, ht, hp, hn⟩ := indexed_some hr
    exact ⟨r, hmem, ht, hp, hn, rfl⟩
  · rintro ⟨r, hmem, rfl, rfl, hn, rfl⟩
    exact ⟨r, hn ▸ indexed_of_mem hmem, rfl⟩

/-- Every row has its place in the index. -/
def Covered (index : Table indexKeys) (t name : String) (rows : List Row) : Prop :=
  ∀ row ∈ rows, ∃ r, indexed index t name row.nativeId = some r

/-- Each row then has its entry, in the order of the rows. -/
theorem map_entriesOf {β : Type} (h : Covered index t name rows) {f : String × Entry → β}
    {g : Row → β} (hf : ∀ row ∈ rows, ∀ r ∈ index, r.tenantId = t → r.provider = name →
      r.nativeId = row.nativeId → f (r.gatewayId, r.entry row) = g row) :
    (entriesOf index t name rows).map f = rows.map g := by
  rw [entriesOf, List.map_filterMap, ← List.filterMap_eq_map]
  refine List.filterMap_congr fun row hrow => ?_
  obtain ⟨r, hr⟩ := h row hrow
  obtain ⟨hmem, ht, hp, hn⟩ := indexed_some hr
  rw [hr, Option.map_some, Option.map_some, hf row hrow r hmem ht hp hn]
  rfl

theorem length_entriesOf (h : Covered index t name rows) :
    (entriesOf index t name rows).length = rows.length := by
  have hmap := map_entriesOf h (f := fun _ => ()) (g := fun _ => ()) fun _ _ _ _ _ _ _ => rfl
  simpa using congrArg List.length hmap

theorem take_entriesOf (h : Covered index t name rows) (n : Nat) :
    (entriesOf index t name rows).take n = entriesOf index t name (rows.take n) := by
  induction rows generalizing n with
  | nil => simp [entriesOf]
  | cons row rows ih =>
    obtain ⟨⟨r, hr⟩, hrows⟩ := List.forall_mem_cons.mp h
    cases n with
    | zero => simp [entriesOf]
    | succ n =>
      have ih := ih hrows n
      simp only [entriesOf, List.take_succ_cons, List.filterMap_cons, hr, Option.map_some] at ih ⊢
      rw [ih]

/-- Two memories under one id would have one native id. -/
theorem nodup_entriesOf (h : Covered index t name rows) (hnodup : (rows.map Row.nativeId).Nodup) :
    ((entriesOf index t name rows).map Prod.fst).Nodup := by
  have hnatives : ((entriesOf index t name rows).map fun ge => ge.2.memory.nativeId).Nodup := by
    rw [map_entriesOf h (g := Row.nativeId) fun _ _ _ _ _ _ _ => rfl]
    exact hnodup
  rw [List.Nodup, List.pairwise_map] at hnatives ⊢
  refine hnatives.imp_of_mem fun {a b} ha hb hne hid => hne ?_
  obtain ⟨row, hrow, r, hr, -, -, hn, rfl⟩ := mem_entriesOf.mp ha
  obtain ⟨row', hrow', r', hr', -, -, hn', rfl⟩ := mem_entriesOf.mp hb
  obtain rfl := eq_of_gatewayId hr hr' hid
  exact hn.symm.trans hn'

end

/-! ## Steps that leave the shelf alone -/

theorem behind_congr {s s' : State} (h : s'.tables = s.tables) (r : IndexRow) :
    r.behind naming s' = r.behind naming s := by
  rw [IndexRow.behind, IndexRow.behind, h]

section

variable (hindex : ∀ r, r ∈ w'.catalog.memoryIndex ↔ r ∈ w.catalog.memoryIndex)
  (htables : w'.store.tables = w.store.tables)

include hindex htables

theorem shelf_congr : shelf naming w' = shelf naming w := by
  funext g
  by_cases hg : ∃ r ∈ w.catalog.memoryIndex, r.gatewayId = g
  · obtain ⟨r, hr, rfl⟩ := hg
    rw [shelf_of_mem hr, shelf_of_mem ((hindex r).mpr hr), IndexRow.slot, IndexRow.slot,
      behind_congr htables]
  · rw [shelf_unused.mpr hg, shelf_unused]
    rintro ⟨r, hr, hid⟩
    exact hg ⟨r, (hindex r).mp hr, hid⟩

theorem Fits.congr (h : Fits naming w) : Fits naming w' where
  indexed p row hrow := by
    obtain ⟨r, hr, hp, hn⟩ := h.indexed p row (htables ▸ hrow)
    exact ⟨r, (hindex r).mpr hr, hp, hn⟩
  describes r hr row hrow :=
    h.describes r ((hindex r).mp hr) row (behind_congr htables r ▸ hrow)
  stored r hr hlive := by
    obtain ⟨row, hrow⟩ := h.stored r ((hindex r).mp hr) hlive
    exact ⟨row, (behind_congr htables r).trans hrow⟩

end

/-! ## Steps that take memories off -/

section

variable {cfg : Config} {p : IndexRow → Bool} {q : Row → Bool} {now : Time}

/-- The index buries some rows, and a table loses some: every row that it loses is buried. -/
structure Strikes (naming : String → String) (cfg : Config) (p : IndexRow → Bool) (q : Row → Bool)
    (now : Time) (w w' : World State) : Prop where
  index : ∀ r, r ∈ w'.catalog.memoryIndex ↔
    ∃ r₀ ∈ w.catalog.memoryIndex, r = if p r₀ then r₀.deleted now else r₀
  rows : Deleted cfg q w.store w'.store
  buried : ∀ r ∈ w.catalog.memoryIndex, r.live = true → ∀ row,
    r.behind naming w.store = some row → naming r.provider = cfg.table → q row = true → p r = true

/-- What a row of the index stands for after the strike. -/
def Struck (naming : String → String) (cfg : Config) (p : IndexRow → Bool) (q : Row → Bool)
    (s : State) (r : IndexRow) : Slot :=
  match r.behind naming s with
  | none => .gone
  | some row =>
    if naming r.provider = cfg.table ∧ q row = true then .gone
    else if p r then .hidden (r.entry row) else r.slot naming s

theorem Strikes.behind (h : Strikes naming cfg p q now w w') (r : IndexRow) {row : Row} :
    r.behind naming w'.store = some row ↔ r.behind naming w.store = some row ∧
      ¬ (naming r.provider = cfg.table ∧ q row = true) := by
  rw [behind_some, behind_some]
  by_cases htable : naming r.provider = cfg.table
  · have hrow : row ∈ w'.store.tables (naming r.provider) ↔
        row ∈ w.store.tables (naming r.provider) ∧ q row = false := by
      rw [htable]
      exact h.rows.rows row
    rw [hrow]
    simp only [htable, true_and, Bool.not_eq_true]
    tauto
  · rw [h.rows.elsewhere _ htable]
    simp [htable]

theorem deleted_slot {r : IndexRow} {s : State} :
    (r.deleted now).slot naming s = match r.behind naming s with
      | some row => .hidden (r.entry row)
      | none => .gone := by
  have hbehind : (r.deleted now).behind naming s = r.behind naming s := rfl
  rw [IndexRow.slot, hbehind]
  cases r.behind naming s with
  | none => rfl
  | some row => simp; rfl

theorem Strikes.struck (h : Strikes naming cfg p q now w w') {r : IndexRow}
    (hr : r ∈ w.catalog.memoryIndex) :
    shelf naming w' r.gatewayId = Struck naming cfg p q w.store r := by
  have hr' : (if p r then r.deleted now else r) ∈ w'.catalog.memoryIndex :=
    (h.index _).mpr ⟨r, hr, rfl⟩
  have hid : (if p r then r.deleted now else r).gatewayId = r.gatewayId := by split <;> rfl
  rw [← hid, shelf_of_mem hr', Struck]
  cases hold : r.behind naming w.store with
  | none =>
    have hnone : r.behind naming w'.store = none := by
      by_contra hsome
      obtain ⟨row, hrow⟩ := Option.ne_none_iff_exists'.mp hsome
      cases hold.symm.trans ((h.behind r).mp hrow).1
    split
    · simp [deleted_slot, hnone]
    · simp [IndexRow.slot, hnone]
  | some row =>
    by_cases hstruck : naming r.provider = cfg.table ∧ q row = true
    · have hnone : r.behind naming w'.store = none := by
        by_contra hsome
        obtain ⟨row', hrow'⟩ := Option.ne_none_iff_exists'.mp hsome
        obtain ⟨hold', hkept⟩ := (h.behind r).mp hrow'
        obtain rfl := Option.some.inj (hold.symm.trans hold')
        exact hkept hstruck
      simp only [if_pos hstruck]
      split
      · simp [deleted_slot, hnone]
      · simp [IndexRow.slot, hnone]
    · have hsome : r.behind naming w'.store = some row := (h.behind r).mpr ⟨hold, hstruck⟩
      simp only [if_neg hstruck]
      split
      · simp [deleted_slot, hsome]
      · simp [IndexRow.slot, hsome, hold]

theorem Strikes.unused (h : Strikes naming cfg p q now w w') {g : String}
    (hg : shelf naming w g = .unused) : shelf naming w' g = .unused := by
  rw [shelf_unused] at hg ⊢
  rintro ⟨r, hr, rfl⟩
  obtain ⟨r₀, h₀, rfl⟩ := (h.index r).mp hr
  exact hg ⟨r₀, h₀, by split <;> rfl⟩

theorem Strikes.fits (h : Strikes naming cfg p q now w w') (hw : Fits naming w) :
    Fits naming w' where
  indexed provider row hrow := by
    have hold : row ∈ w.store.tables (naming provider) := by
      by_cases htable : naming provider = cfg.table
      · rw [htable] at hrow ⊢
        exact ((h.rows.rows row).mp hrow).1
      · rwa [h.rows.elsewhere _ htable] at hrow
    obtain ⟨r, hr, hp, hn⟩ := hw.indexed provider row hold
    refine ⟨_, (h.index _).mpr ⟨r, hr, rfl⟩, ?_⟩
    split <;> exact ⟨hp, hn⟩
  describes r hr row hrow := by
    obtain ⟨r₀, h₀, rfl⟩ := (h.index r).mp hr
    have hold : r₀.behind naming w.store = some row := by
      have hsame : (if p r₀ then r₀.deleted now else r₀).behind naming w'.store =
          r₀.behind naming w'.store := by split <;> rfl
      exact ((h.behind r₀).mp (hsame ▸ hrow)).1
    have hdescribes := hw.describes r₀ h₀ row hold
    split <;> exact ⟨hdescribes.tenant, hdescribes.subject, hdescribes.agent, hdescribes.session⟩
  stored r hr hlive := by
    obtain ⟨r₀, h₀, rfl⟩ := (h.index r).mp hr
    split at hlive
    · simp at hlive
    · rename_i hp
      obtain ⟨row, hrow⟩ := hw.stored r₀ h₀ hlive
      refine ⟨row, ?_⟩
      rw [if_neg hp, h.behind]
      exact ⟨hrow, fun hstruck => hp (h.buried r₀ h₀ hlive row hrow hstruck.1 hstruck.2)⟩

end

/-! ## A step that rewrites a memory -/

section

variable {cfg : Config} {n content : String} {embedding : List Score} {now : Time} {s₁ : State}
  (hindex : ∀ r, r ∈ w'.catalog.memoryIndex ↔ r ∈ w.catalog.memoryIndex)
  (htables : s₁.tables = w.store.tables)
  (hstore : w'.store = s₁.setRows cfg (rewriteIn n content embedding now (w.store.rows cfg)))

include htables hstore

theorem behind_rewritten (r : IndexRow) :
    r.behind naming w'.store = (r.behind naming w.store).map fun row =>
      if naming r.provider = cfg.table ∧ row.nativeId = n then row.rewritten content embedding now
      else row := by
  have hrows : ∀ row, row ∈ w'.store.tables (naming r.provider) ↔
      ∃ row₀ ∈ w.store.tables (naming r.provider), row =
        if naming r.provider = cfg.table ∧ row₀.nativeId = n then
          row₀.rewritten content embedding now
        else row₀ := by
    intro row
    rw [hstore, setRows_tables]
    by_cases htable : naming r.provider = cfg.table
    · rw [if_pos htable, htable]
      refine Table.mem_updateWhere.trans (exists_congr fun row₀ => and_congr_right fun _ => ?_)
      simp
    · simp [htable, htables]
  cases hold : r.behind naming w.store with
  | none =>
    rw [behind_none] at hold
    rw [Option.map_none, behind_none]
    intro row hrow
    obtain ⟨row₀, h₀, rfl⟩ := (hrows row).mp hrow
    have hid : (if naming r.provider = cfg.table ∧ row₀.nativeId = n then
        row₀.rewritten content embedding now else row₀).nativeId = row₀.nativeId := by
      split <;> rfl
    rw [hid]
    exact hold row₀ h₀
  | some row =>
    obtain ⟨hmem, hid⟩ := behind_some.mp hold
    rw [Option.map_some, behind_some]
    refine ⟨(hrows _).mpr ⟨row, hmem, rfl⟩, ?_⟩
    split <;> exact hid

include hindex

theorem Fits.rewritten (h : Fits naming w) : Fits naming w' where
  indexed provider row hrow := by
    have hold : ∃ row₀ ∈ w.store.tables (naming provider), row₀.nativeId = row.nativeId := by
      rw [hstore, setRows_tables] at hrow
      split at hrow
      · rename_i htable
        obtain ⟨row₀, h₀, rfl⟩ := Table.mem_updateWhere.mp hrow
        refine ⟨row₀, htable ▸ h₀, ?_⟩
        split <;> rfl
      · exact ⟨row, htables ▸ hrow, rfl⟩
    obtain ⟨row₀, h₀, hid⟩ := hold
    obtain ⟨r, hr, hp, hn⟩ := h.indexed provider row₀ h₀
    exact ⟨r, (hindex r).mpr hr, hp, hn.trans hid⟩
  describes r hr row hrow := by
    rw [behind_rewritten htables hstore] at hrow
    obtain ⟨row₀, h₀, rfl⟩ := Option.map_eq_some_iff.mp hrow
    refine (h.describes r ((hindex r).mp hr) row₀ h₀).same ?_
    split
    · exact Row.same_rewritten
    · exact .refl _
  stored r hr hlive := by
    obtain ⟨row, hrow⟩ := h.stored r ((hindex r).mp hr) hlive
    exact ⟨_, (behind_rewritten htables hstore r).trans (by rw [hrow, Option.map_some])⟩

/-- Only the id of the rewritten memory stands for another content. -/
theorem shelf_rewritten (hw : Shelved env naming w) (hinj : Function.Injective naming)
    {r : IndexRow} (hr : r ∈ w.catalog.memoryIndex) (hlive : r.live = true) {row : Row}
    (hrow : r.behind naming w.store = some row) (hn : r.nativeId = n)
    (htable : naming r.provider = cfg.table) :
    shelf naming w' = (shelf naming w).put r.gatewayId
      (.kept (r.entry (row.rewritten content embedding now))) := by
  funext g
  by_cases hg : g = r.gatewayId
  · subst hg
    rw [Shelf.put, Function.update_self, shelf_of_mem ((hindex r).mpr hr), IndexRow.slot,
      behind_rewritten htables hstore, hrow]
    simp [htable, (behind_some.mp hrow).2, hn, hlive]
  · rw [Shelf.put, Function.update_of_ne hg]
    by_cases hmem : ∃ r' ∈ w.catalog.memoryIndex, r'.gatewayId = g
    · obtain ⟨r', hr', rfl⟩ := hmem
      rw [shelf_of_mem hr', shelf_of_mem ((hindex r').mpr hr'), IndexRow.slot, IndexRow.slot,
        behind_rewritten htables hstore]
      cases hrow' : r'.behind naming w.store with
      | none => rfl
      | some row' =>
        have hother : ¬ (naming r'.provider = cfg.table ∧ row'.nativeId = n) := by
          rintro ⟨-, hn'⟩
          have hid : row'.nativeId = row.nativeId :=
            hn'.trans (hn.symm.trans (behind_some.mp hrow).2.symm)
          exact hg (congrArg IndexRow.gatewayId (hw.one hinj hr' hr hrow' hrow hid))
        simp [hother]
    · rw [shelf_unused.mpr hmem, shelf_unused]
      rintro ⟨r', hr', hid⟩
      exact hmem ⟨r', (hindex r').mp hr', hid⟩

end

/-! ## A step that adds memories -/

section

variable {cfg : Config} {t name : String} {scope : Scope} {fresh : List Row}

/-- The rows of a write, and the rows that its page gets in the index. -/
structure Adds (env : Env) (naming : String → String) (cfg : Config) (t name : String)
    (scope : Scope) (fresh : List Row) (w w' : World State) : Prop where
  rows : Added env cfg (scope.under t) w.store w'.store fresh
  nodup : (fresh.map Row.nativeId).Nodup
  table : cfg.table = naming name
  /-- Nothing is lost from the index. -/
  kept : ∀ r ∈ w.catalog.memoryIndex, r ∈ w'.catalog.memoryIndex
  /-- What is new in it stands for a new row. -/
  new : ∀ r ∈ w'.catalog.memoryIndex, r ∈ w.catalog.memoryIndex ∨
    r.tenantId = t ∧ r.provider = name ∧ r.subject = scope.subject ∧ r.agent = scope.agent ∧
      r.session = scope.session ∧ r.live = true ∧ (∃ row ∈ fresh, row.nativeId = r.nativeId) ∧
        ¬ ∃ r₀ ∈ w.catalog.memoryIndex, r₀.gatewayId = r.gatewayId
  covered : Covered w'.catalog.memoryIndex t name fresh

theorem Pgvector.Added.mem_tables {s s' : State} (h : Added env cfg (scope.under t) s s' fresh)
    (table : String) (row : Row) :
    row ∈ s'.tables table ↔ row ∈ s.tables table ∨ table = cfg.table ∧ row ∈ fresh := by
  by_cases htable : table = cfg.table
  · subst htable
    rw [and_iff_right rfl]
    exact h.rows row
  · simp [h.elsewhere table htable, htable]

/-- A row that a write adds has an id that the index has never seen. -/
theorem Adds.unseen (h : Adds env naming cfg t name scope fresh w w') (hw : SelfHosted env w)
    {row : Row} (hrow : row ∈ fresh) {r : IndexRow} (hr : r ∈ w.catalog.memoryIndex) :
    row.nativeId ≠ r.nativeId := by
  intro hid
  refine (h.rows.fresh row hrow).not_minted ?_
  have hminted : MintedBelow env w.store.ticks r.nativeId := hw.mention_minted _ (.index hr)
  exact hid ▸ hminted

theorem Adds.behind_old (h : Adds env naming cfg t name scope fresh w w') (hw : SelfHosted env w)
    {r : IndexRow} (hr : r ∈ w.catalog.memoryIndex) :
    r.behind naming w'.store = r.behind naming w.store := by
  have hmem : ∀ row, row.nativeId = r.nativeId → (row ∈ w'.store.tables (naming r.provider) ↔
      row ∈ w.store.tables (naming r.provider)) := by
    intro row hid
    rw [h.rows.mem_tables]
    exact or_iff_left fun hnew => h.unseen hw hnew.2 hr hid
  refine Option.ext fun row => ?_
  rw [behind_some, behind_some]
  exact and_congr_left fun hid => hmem row hid

theorem Adds.behind_new (h : Adds env naming cfg t name scope fresh w w') {r : IndexRow}
    (hp : r.provider = name) {row : Row} (hrow : row ∈ fresh) (hid : row.nativeId = r.nativeId) :
    r.behind naming w'.store = some row := by
  refine behind_some.mpr ⟨?_, hid⟩
  rw [hp, ← h.table]
  exact (h.rows.rows row).mpr (.inr hrow)

theorem Adds.fits (h : Adds env naming cfg t name scope fresh w w') (hw : Shelved env naming w)
    (hinj : Function.Injective naming) : Fits naming w' where
  indexed provider row hrow := by
    rcases (h.rows.mem_tables _ _).mp hrow with hold | ⟨htable, hnew⟩
    · obtain ⟨r, hr, hp, hn⟩ := hw.fits.indexed provider row hold
      exact ⟨r, h.kept r hr, hp, hn⟩
    · obtain ⟨r, hr⟩ := h.covered row hnew
      obtain ⟨hmem, -, hp, hn⟩ := indexed_some hr
      exact ⟨r, hmem, hp.trans (hinj (htable.trans h.table)).symm, hn⟩
  describes r hr row hrow := by
    rcases h.new r hr with hold | ⟨ht, hp, hsubject, hagent, hsession, -, ⟨row', hnew, hid⟩, -⟩
    · exact hw.fits.describes r hold row (h.behind_old hw.hosted hold ▸ hrow)
    · obtain rfl := Option.some.inj ((h.behind_new hp hnew hid).symm.trans hrow)
      have hfresh := h.rows.fresh row' hnew
      exact ⟨hfresh.tenant.trans (congrArg some ht.symm), hfresh.subject.trans hsubject.symm,
        hfresh.agent.trans hagent.symm, hfresh.session.trans hsession.symm⟩
  stored r hr hlive := by
    rcases h.new r hr with hold | ⟨-, hp, -, -, -, -, ⟨row, hnew, hid⟩, -⟩
    · obtain ⟨row, hrow⟩ := hw.fits.stored r hold hlive
      exact ⟨row, (h.behind_old hw.hosted hold).trans hrow⟩
    · exact ⟨row, h.behind_new hp hnew hid⟩

theorem Adds.gains (h : Adds env naming cfg t name scope fresh w w') (hw : Shelved env naming w) :
    Shelf.Gains (shelf naming w) t name scope (entriesOf w'.catalog.memoryIndex t name fresh)
      (shelf naming w') := by
  -- the row of the index that a new row gets is new itself
  have hnew : ∀ row ∈ fresh, ∀ r ∈ w'.catalog.memoryIndex, r.nativeId = row.nativeId →
      r.subject = scope.subject ∧ r.agent = scope.agent ∧ r.session = scope.session ∧
        r.live = true ∧ ¬ ∃ r₀ ∈ w.catalog.memoryIndex, r₀.gatewayId = r.gatewayId := by
    intro row hrow r hr hn
    rcases h.new r hr with hold | ⟨-, -, hsubject, hagent, hsession, hlive, -, hid⟩
    · exact absurd hn.symm (h.unseen hw.hosted hrow hold)
    · exact ⟨hsubject, hagent, hsession, hlive, hid⟩
  refine ⟨fun ge hge => ?_, ?_, fun ge hge => ?_, fun ge hge => ?_, fun g hg => ?_⟩
  · obtain ⟨row, hrow, r, hr, -, -, hn, rfl⟩ := mem_entriesOf.mp hge
    exact shelf_unused.mpr (hnew row hrow r hr hn).2.2.2.2
  · exact nodup_entriesOf h.covered h.nodup
  · obtain ⟨row, hrow, r, hr, ht, hp, hn, rfl⟩ := mem_entriesOf.mp hge
    obtain ⟨hsubject, hagent, hsession, -⟩ := hnew row hrow r hr hn
    refine ⟨ht, hp, ?_⟩
    simp only [IndexRow.entry, hsubject, hagent, hsession, (h.rows.fresh row hrow).labels]
    rfl
  · obtain ⟨row, hrow, r, hr, -, hp, hn, rfl⟩ := mem_entriesOf.mp hge
    exact shelf_kept.mpr ⟨r, hr, rfl, (hnew row hrow r hr hn).2.2.2.1, row,
      h.behind_new hp hrow hn.symm, rfl⟩
  · by_cases hmem : ∃ r ∈ w'.catalog.memoryIndex, r.gatewayId = g
    · obtain ⟨r, hr, rfl⟩ := hmem
      rcases h.new r hr with hold | ⟨ht, hp, -, -, -, -, ⟨row, hrow, hid⟩, -⟩
      · rw [shelf_of_mem hr, shelf_of_mem hold, IndexRow.slot, IndexRow.slot,
          h.behind_old hw.hosted hold]
      · have hnew : (r.gatewayId, r.entry row) ∈ entriesOf w'.catalog.memoryIndex t name fresh :=
          mem_entriesOf.mpr ⟨row, hrow, r, hr, ht, hp, hid.symm, rfl⟩
        exact absurd (List.mem_map_of_mem (f := Prod.fst) hnew) hg
    · rw [shelf_unused.mpr hmem, shelf_unused.mpr]
      rintro ⟨r, hr, hid⟩
      exact hmem ⟨r, h.kept r hr, hid⟩

end

end Memgw
