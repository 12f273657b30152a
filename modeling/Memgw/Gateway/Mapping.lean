-- SUMMARY: The map-or-insert transaction that writes and reads share, and everything a successful attempt can do.
import Memgw.Gateway.Catalog

/-!
# Mapping native ids

`_map` looks up a page of native ids, inserts the missing ones, and on the write
path revives the ones the gateway had deleted, all in one transaction. An attempt
either fails on a constraint and leaves the tables alone, or succeeds and does
what `Mapped` says; nothing else in the development looks inside.
-/

namespace Memgw

variable {env : Env} {tenant provider : String} {scope : Scope}

/-! ## Insertion -/

/-- The rows `_insert` writes for the missing items. -/
def freshRows (env : Env) (tenant provider : String) (missing : List (String × String))
    (scope : Scope) (ticks : Nat) : List IndexRow :=
  missing.mapIdx fun i item =>
    { gatewayId := env.newId "mg" (ticks + i)
      tenantId := tenant
      provider := provider
      nativeId := item.1
      subject := scope.subject
      agent := scope.agent
      session := scope.session
      contentHash := env.hash item.2
      createdAt := env.now ticks
      updatedAt := env.now ticks
      deletedAt := none }

/-- `_insert`. Ids are drawn before the statement runs, so they are spent even
    when the transaction is rolled back. -/
def insertMissing (env : Env) (tenant provider : String) (missing : List (String × String))
    (scope : Scope) (c : Catalog) : Except Exc Known × Catalog :=
  let values := freshRows env tenant provider missing scope c.ticks
  let drawn := { c with ticks := c.ticks + missing.length }
  match c.memoryIndex.insert values with
  | none => (.error (.integrity "UNIQUE constraint failed: memory_index"), drawn)
  | some index => (.ok (Known.record (fun _ => none) values), { drawn with memoryIndex := index })

theorem mem_freshRows {missing : List (String × String)} {ticks : Nat} {r : IndexRow}
    (h : r ∈ freshRows env tenant provider missing scope ticks) :
    r.tenantId = tenant ∧ r.provider = provider ∧ r.subject = scope.subject ∧
      r.agent = scope.agent ∧ r.session = scope.session ∧ r.deletedAt = none ∧
      (∃ item ∈ missing, r.nativeId = item.1 ∧ r.contentHash = env.hash item.2) ∧
      ∃ k, ticks ≤ k ∧ k < ticks + missing.length ∧ r.gatewayId = env.newId "mg" k := by
  obtain ⟨i, hi, rfl⟩ := List.mem_mapIdx.mp h
  exact ⟨rfl, rfl, rfl, rfl, rfl, rfl, ⟨_, List.getElem_mem hi, rfl, rfl⟩,
    ticks + i, by omega, by omega, rfl⟩

theorem exists_freshRow {missing : List (String × String)} {ticks : Nat} {item : String × String}
    (h : item ∈ missing) :
    ∃ r ∈ freshRows env tenant provider missing scope ticks, r.nativeId = item.1 := by
  obtain ⟨i, hi, rfl⟩ := List.getElem_of_mem h
  exact ⟨_, List.mem_mapIdx.mpr ⟨i, hi, rfl⟩, rfl⟩

/-! ## Reviving -/

/-- What a write makes of a row it revives. -/
def IndexRow.revived (env : Env) (now : Time) (scope : Scope) (content : String) (r : IndexRow) :
    IndexRow :=
  { r with
    subject := scope.subject
    agent := scope.agent
    session := scope.session
    contentHash := env.hash content
    updatedAt := now
    deletedAt := none }

/-- `dict(items)`: the last content given for a native id. -/
def contents (items : List (String × String)) (native : String) : Option String :=
  items.reverse.lookup native

/-- `_revive`: one statement for each native id. -/
def reviveAll (env : Env) (tenant provider : String) (natives : List String) (scope : Scope)
    (contents : String → Option String) (now : Time) (index : Table indexKeys) : Table indexKeys :=
  natives.foldl (fun index native =>
    index.updateWhere (IndexRow.named tenant provider native)
      (IndexRow.revived env now scope ((contents native).getD ""))
      (by simp [indexKeys, IndexRow.idKey, IndexRow.nativeKey, IndexRow.revived])) index

/-- The rows that reviving rewrites. -/
def IndexRow.doomed (tenant provider : String) (natives : List String) (r : IndexRow) : Bool :=
  r.tenantId == tenant && r.provider == provider && natives.contains r.nativeId

theorem IndexRow.doomed_iff {natives : List String} {r : IndexRow} :
    r.doomed tenant provider natives = true ↔
      r.tenantId = tenant ∧ r.provider = provider ∧ r.nativeId ∈ natives := by
  simp [doomed, and_assoc]

theorem mem_reviveAll {natives : List String} {contents : String → Option String} {now : Time}
    {index : Table indexKeys} {r : IndexRow} :
    r ∈ reviveAll env tenant provider natives scope contents now index ↔
      ∃ r₀ ∈ index, r = if r₀.doomed tenant provider natives
        then r₀.revived env now scope ((contents r₀.nativeId).getD "") else r₀ := by
  induction natives generalizing index with
  | nil => simp [reviveAll, IndexRow.doomed]
  | cons n natives ih =>
    have hstep : reviveAll env tenant provider (n :: natives) scope contents now index =
        reviveAll env tenant provider natives scope contents now
          (index.updateWhere (IndexRow.named tenant provider n)
            (IndexRow.revived env now scope ((contents n).getD "")) (by
              simp [indexKeys, IndexRow.idKey, IndexRow.nativeKey, IndexRow.revived])) := rfl
    -- a row rewritten for `n` keeps its key, and rewriting it again changes nothing
    have hrow : ∀ r₀ : IndexRow,
        (if (if r₀.named tenant provider n then r₀.revived env now scope ((contents n).getD "")
            else r₀).doomed tenant provider natives
          then (if r₀.named tenant provider n then r₀.revived env now scope ((contents n).getD "")
            else r₀).revived env now scope
              ((contents (if r₀.named tenant provider n
                then r₀.revived env now scope ((contents n).getD "") else r₀).nativeId).getD "")
          else if r₀.named tenant provider n then r₀.revived env now scope ((contents n).getD "")
            else r₀) =
        if r₀.doomed tenant provider (n :: natives)
          then r₀.revived env now scope ((contents r₀.nativeId).getD "") else r₀ := by
      intro r₀
      by_cases hn : r₀.named tenant provider n = true
      · obtain ⟨ht, hp, rfl⟩ := IndexRow.named_iff.mp hn
        simp [hn, IndexRow.doomed, IndexRow.revived, ht, hp]
      · have hd : r₀.doomed tenant provider (n :: natives) = r₀.doomed tenant provider natives := by
          rw [Bool.eq_iff_iff, IndexRow.doomed_iff, IndexRow.doomed_iff, List.mem_cons]
          rw [IndexRow.named_iff] at hn
          tauto
        simp [hn, hd]
    rw [hstep, ih]
    constructor
    · rintro ⟨r₁, h₁, rfl⟩
      obtain ⟨r₀, h₀, rfl⟩ := Table.mem_updateWhere.mp h₁
      exact ⟨r₀, h₀, hrow r₀⟩
    · rintro ⟨r₀, h₀, rfl⟩
      exact ⟨_, Table.mem_updateWhere.mpr ⟨r₀, h₀, rfl⟩, (hrow r₀).symm⟩

/-! ## One attempt -/

/-- `known.update(fresh)`. -/
def Known.update (known fresh : Known) : Known := fun n => (fresh n).or (known n)

/-- `[row for native in natives if isinstance(row := known.get(native), CatalogRow)]`. -/
def Known.rows (known : Known) (natives : List String) : List CatalogRow :=
  natives.filterMap fun n =>
    match known n with
    | some (.live row) => some row
    | _ => none

/-- The part of an attempt that only the write path has. -/
def reviveDoomed (env : Env) (tenant provider : String) (items : List (String × String))
    (scope : Scope) (known : Known) (c : Catalog) : Known × Catalog :=
  let doomed := (items.map Prod.fst).filter fun n => (known n).getD .gone = .gone
  if doomed = [] then (known, c)
  else
    let index := reviveAll env tenant provider doomed scope (contents items) (env.now c.ticks)
      c.memoryIndex
    (known.update (findByNative index tenant provider doomed),
      { c with memoryIndex := index, ticks := c.ticks + 1 })

/-- The items of a page whose native id the lookup did not find. -/
def missingItems (index : Table indexKeys) (tenant provider : String)
    (items : List (String × String)) : List (String × String) :=
  items.filter fun item => (findByNative index tenant provider (items.map Prod.fst) item.1).isNone

/-- One pass of `_map` through its transaction. -/
def mapAttempt (env : Env) (tenant provider : String) (items : List (String × String))
    (scope : Scope) (revive : Bool) (c : Catalog) : Except Exc (List CatalogRow) × Catalog :=
  let natives := items.map Prod.fst
  let known := findByNative c.memoryIndex tenant provider natives
  let missing := missingItems c.memoryIndex tenant provider items
  let inserted :=
    if missing = [] then (.ok fun _ => none, c)
    else insertMissing env tenant provider missing scope c
  match inserted with
  | (.error e, c) => (.error e, c)
  | (.ok fresh, c) =>
    let known := known.update fresh
    let (known, c) :=
      if revive then reviveDoomed env tenant provider items scope known c else (known, c)
    (.ok (known.rows natives), c)

/-! ## What an attempt can do -/

/-- The live rows of an index for a list of native ids, in its order. -/
def liveRows (index : Table indexKeys) (tenant provider : String) (natives : List String) :
    List CatalogRow :=
  natives.filterMap fun n =>
    (indexed index tenant provider n).bind fun r => if r.live then some r.toRow else none

theorem mem_liveRows {index : Table indexKeys} {natives : List String} {row : CatalogRow} :
    row ∈ liveRows index tenant provider natives ↔
      ∃ r ∈ index, r.tenantId = tenant ∧ r.provider = provider ∧ r.nativeId ∈ natives ∧
        r.live = true ∧ row = r.toRow := by
  simp only [liveRows, List.mem_filterMap, Option.bind_eq_some_iff]
  constructor
  · rintro ⟨n, hn, r, hr, hrow⟩
    obtain ⟨hmem, ht, hp, rfl⟩ := indexed_some hr
    by_cases hlive : r.live = true
    · exact ⟨r, hmem, ht, hp, hn, hlive, by simpa [hlive, eq_comm] using hrow⟩
    · simp [hlive] at hrow
  · rintro ⟨r, hmem, rfl, rfl, hn, hlive, rfl⟩
    exact ⟨_, hn, r, indexed_of_mem hmem, by simp [hlive]⟩

/-- A row that the write path takes back: deleted, and named by the page. -/
def IndexRow.buried (tenant provider : String) (natives : List String) (r : IndexRow) : Bool :=
  r.doomed tenant provider natives && !r.live

/-- A row that an attempt taking the catalog `c` to `c'` has made for its page. -/
structure IndexRow.Fresh (env : Env) (tenant provider : String) (items : List (String × String))
    (scope : Scope) (c c' : Catalog) (r : IndexRow) : Prop where
  named_tenant : r.tenantId = tenant
  named_provider : r.provider = provider
  subject : r.subject = scope.subject
  agent : r.agent = scope.agent
  session : r.session = scope.session
  deletedAt : r.deletedAt = none
  item : ∃ item ∈ items, r.nativeId = item.1 ∧ r.contentHash = env.hash item.2
  /-- The native id was never seen before. -/
  unseen : indexed c.memoryIndex tenant provider r.nativeId = none
  minted : ∃ k, c.ticks ≤ k ∧ k < c'.ticks ∧ r.gatewayId = env.newId "mg" k

/-- Everything a successful attempt does to the catalog `c`, and what it answers. -/
structure Mapped (env : Env) (tenant provider : String) (items : List (String × String))
    (scope : Scope) (revive : Bool) (c : Catalog) (rows : List CatalogRow) (c' : Catalog) : Prop where
  binding : c'.scopeBinding = c.scopeBinding
  journal : c'.episodeJournal = c.episodeJournal
  ticks : c.ticks ≤ c'.ticks
  /-- Each row of the new index is an old one, revived if the write path found it
      buried, or a fresh one; and nothing is lost. -/
  index : ∃ (now : Time) (fresh : List IndexRow),
    (∀ r, r ∈ c'.memoryIndex ↔
      (∃ r₀ ∈ c.memoryIndex, r = if revive && r₀.buried tenant provider (items.map Prod.fst)
        then r₀.revived env now scope ((contents items r₀.nativeId).getD "") else r₀) ∨
      r ∈ fresh) ∧
    ∀ r ∈ fresh, r.Fresh env tenant provider items scope c c'
  /-- Every native id of the page has a row now. -/
  covered : ∀ n ∈ items.map Prod.fst, (indexed c'.memoryIndex tenant provider n).isSome
  rows : rows = liveRows c'.memoryIndex tenant provider (items.map Prod.fst)

/-- A dictionary that says of each native id of a page what an index says. -/
def Known.Reflects (known : Known) (index : Table indexKeys) (tenant provider : String)
    (natives : List String) : Prop :=
  ∀ n ∈ natives, known n = (indexed index tenant provider n).map IndexRow.sighting

theorem Known.Reflects.rows {known : Known} {index : Table indexKeys} {natives : List String}
    (h : known.Reflects index tenant provider natives) :
    known.rows natives = liveRows index tenant provider natives := by
  refine List.filterMap_congr (fun n hn => ?_)
  rw [h n hn]
  cases indexed index tenant provider n with
  | none => rfl
  | some r =>
    cases hd : r.deletedAt <;> simp [IndexRow.sighting, IndexRow.live, hd]

theorem sighting_eq_gone {r : IndexRow} : r.sighting = .gone ↔ r.live = false := by
  cases hd : r.deletedAt <;> simp [IndexRow.sighting, IndexRow.live, hd]

section

variable {items : List (String × String)} {revive : Bool} {c c' : Catalog} {rows : List CatalogRow}

/-- No row is lost: each survives under its keys, and a live one as it was. -/
theorem Mapped.survives (h : Mapped env tenant provider items scope revive c rows c')
    {r : IndexRow} (hr : r ∈ c.memoryIndex) :
    ∃ r' ∈ c'.memoryIndex, r'.gatewayId = r.gatewayId ∧ r'.tenantId = r.tenantId ∧
      r'.provider = r.provider ∧ r'.nativeId = r.nativeId ∧ (r.live = true → r' = r) := by
  obtain ⟨now, fresh, hindex, -⟩ := h.index
  refine ⟨_, (hindex _).mpr (.inl ⟨r, hr, rfl⟩), ?_⟩
  split
  · rename_i hb
    refine ⟨rfl, rfl, rfl, rfl, fun hl => ?_⟩
    simp [IndexRow.buried, hl] at hb
  · exact ⟨rfl, rfl, rfl, rfl, fun _ => rfl⟩

/-- On the read path every row stays as it was. -/
theorem Mapped.read_keeps (h : Mapped env tenant provider items scope false c rows c')
    {r : IndexRow} (hr : r ∈ c.memoryIndex) : r ∈ c'.memoryIndex := by
  obtain ⟨now, fresh, hindex, -⟩ := h.index
  exact (hindex r).mpr (.inl ⟨r, hr, by simp⟩)

/-- A row that the read path adds is fresh. -/
theorem Mapped.read_adds (h : Mapped env tenant provider items scope false c rows c')
    {r : IndexRow} (hr : r ∈ c'.memoryIndex) :
    r ∈ c.memoryIndex ∨ r.Fresh env tenant provider items scope c c' := by
  obtain ⟨now, fresh, hindex, hfresh⟩ := h.index
  rcases (hindex r).mp hr with ⟨r₀, h₀, rfl⟩ | hr
  · exact .inl (by simpa using h₀)
  · exact .inr (hfresh r hr)

/-- The row has the subject, the agent and the session of the scope. -/
def IndexRow.Carries (r : IndexRow) (scope : Scope) : Prop :=
  r.subject = scope.subject ∧ r.agent = scope.agent ∧ r.session = scope.session

/-- The row that a native id has, if it is live. -/
def IndexRow.LiveFor (tenant provider native : String) (c : Catalog) (r : IndexRow) : Prop :=
  r ∈ c.memoryIndex ∧ r.tenantId = tenant ∧ r.provider = provider ∧ r.nativeId = native ∧
    r.live = true

theorem contents_mem {native : String} (h : native ∈ items.map Prod.fst) :
    (native, (contents items native).getD "") ∈ items := by
  unfold contents
  cases hlookup : items.reverse.lookup native with
  | none =>
    obtain ⟨item, hitem, rfl⟩ := List.mem_map.mp h
    have := List.lookup_eq_none_iff.mp hlookup item (List.mem_reverse.mpr hitem)
    simp at this
  | some content =>
    obtain ⟨l₁, l₂, heq, -⟩ := List.lookup_eq_some_iff.mp hlookup
    exact List.mem_reverse.mp (heq ▸ List.mem_append_right _ (List.mem_cons_self ..))

/-- After a write each native id of the page has a live row: the live one that it had,
    or one that says what was written. -/
theorem Mapped.live_row (h : Mapped env tenant provider items scope true c rows c')
    {native : String} (hn : native ∈ items.map Prod.fst) :
    ∃ r : IndexRow, r.LiveFor tenant provider native c' ∧ (r.LiveFor tenant provider native c ∨
      r.Carries scope ∧ ∃ content, (native, content) ∈ items ∧
        r.contentHash = env.hash content) := by
  obtain ⟨r, hr⟩ := Option.isSome_iff_exists.mp (h.covered native hn)
  obtain ⟨hmem, ht, hp, hrn⟩ := indexed_some hr
  obtain ⟨now, fresh, hindex, hfresh⟩ := h.index
  rcases (hindex r).mp hmem with ⟨r₀, h₀, rfl⟩ | hnew
  · cases hb : r₀.buried tenant provider (items.map Prod.fst) with
    | true =>
      simp only [hb, Bool.and_true, if_true] at hmem ht hp hrn ⊢
      obtain rfl : r₀.nativeId = native := hrn
      exact ⟨_, ⟨hmem, ht, hp, rfl, rfl⟩, .inr ⟨⟨rfl, rfl, rfl⟩, _, contents_mem hn, rfl⟩⟩
    | false =>
      simp only [hb, Bool.and_false, if_neg Bool.false_ne_true] at hmem ht hp hrn ⊢
      have hdoomed : r₀.doomed tenant provider (items.map Prod.fst) = true :=
        IndexRow.doomed_iff.mpr ⟨ht, hp, hrn ▸ hn⟩
      have hlive : r₀.live = true := by simpa [IndexRow.buried, hdoomed] using hb
      exact ⟨r₀, ⟨hmem, ht, hp, hrn, hlive⟩, .inl ⟨h₀, ht, hp, hrn, hlive⟩⟩
  · have hnew := hfresh r hnew
    obtain ⟨item, hitem, hid, hhash⟩ := hnew.item
    have hlive : r.live = true := by simp [IndexRow.live, hnew.deletedAt]
    refine ⟨r, ⟨hmem, ht, hp, hrn, hlive⟩,
      .inr ⟨⟨hnew.subject, hnew.agent, hnew.session⟩, item.2, ?_, hhash⟩⟩
    rw [← hrn, hid]
    exact hitem

theorem Mapped.written (h : Mapped env tenant provider items scope true c rows c') {n : String}
    (hn : n ∈ items.map Prod.fst) :
    ∃ r ∈ c'.memoryIndex, r.nativeKey = [tenant, provider, n] ∧ r.live = true ∧
      (r ∈ c.memoryIndex ∨
        r.subject = scope.subject ∧ r.agent = scope.agent ∧ r.session = scope.session) := by
  obtain ⟨r, ⟨hr, ht, hp, hrn, hlive⟩, hwas⟩ := h.live_row hn
  exact ⟨r, hr, by simp [IndexRow.nativeKey, ht, hp, hrn], hlive,
    hwas.imp (fun h => h.1) (fun h => h.1)⟩

/-- What a page is answered with are live rows of the new index, for its ids. -/
theorem Mapped.mem_rows (h : Mapped env tenant provider items scope revive c rows c')
    {row : CatalogRow} : row ∈ rows ↔
      ∃ r ∈ c'.memoryIndex, r.tenantId = tenant ∧ r.provider = provider ∧
        r.nativeId ∈ items.map Prod.fst ∧ r.live = true ∧ row = r.toRow := by
  rw [h.rows, mem_liveRows]

end

/-- An attempt on a catalog that only drew more ids since is an attempt on the
    catalog from before. -/
theorem Mapped.of_still {items : List (String × String)} {revive : Bool} {c c₁ c' : Catalog}
    {rows : List CatalogRow} (hstill : c.Still c₁)
    (h : Mapped env tenant provider items scope revive c₁ rows c') :
    Mapped env tenant provider items scope revive c rows c' := by
  obtain ⟨hb, hj, ht, ⟨now, fresh, hindex, hfresh⟩, hcover, hrows⟩ := h
  refine ⟨hb.trans hstill.binding, hj.trans hstill.journal, hstill.ticks.trans ht,
    ⟨now, fresh, hstill.index ▸ hindex, fun r hr => ?_⟩, hcover, hrows⟩
  obtain ⟨k, hk₁, hk₂, hk₃⟩ := (hfresh r hr).minted
  exact
    { hfresh r hr with
      unseen := hstill.index ▸ (hfresh r hr).unseen
      minted := ⟨k, hstill.ticks.trans hk₁, hk₂, hk₃⟩ }

/-- An empty page needs no transaction: it would have changed nothing. -/
theorem Mapped.nil {revive : Bool} {c : Catalog} :
    Mapped env tenant provider [] scope revive c [] c where
  binding := rfl
  journal := rfl
  ticks := le_rfl
  index := ⟨0, [], by simp [IndexRow.buried, IndexRow.doomed], by simp⟩
  covered := by simp
  rows := rfl

/-- With nothing missing, inserting is skipped and would have done nothing. -/
theorem insertMissing_nil {c : Catalog} :
    insertMissing env tenant provider [] scope c = (.ok fun _ => none, c) := by
  simp [insertMissing, freshRows, Known.record]

theorem insertMissing_error {missing : List (String × String)} {c c' : Catalog} {e : Exc}
    (h : insertMissing env tenant provider missing scope c = (.error e, c')) :
    c.Still c' ∧ ∃ text, e = .integrity text := by
  simp only [insertMissing] at h
  split at h
  · obtain ⟨rfl, rfl⟩ : .integrity _ = e ∧ _ = c' := by simpa using h
    exact ⟨⟨rfl, rfl, rfl, Nat.le_add_right _ _⟩, _, rfl⟩
  · simp at h

theorem insertMissing_ok {missing : List (String × String)} {c c' : Catalog} {fresh : Known}
    (h : insertMissing env tenant provider missing scope c = (.ok fresh, c')) :
    c.memoryIndex.insert (freshRows env tenant provider missing scope c.ticks) =
        some c'.memoryIndex ∧
      c'.scopeBinding = c.scopeBinding ∧ c'.episodeJournal = c.episodeJournal ∧
      c'.ticks = c.ticks + missing.length ∧
      fresh = Known.record (fun _ => none)
        (freshRows env tenant provider missing scope c.ticks) := by
  simp only [insertMissing] at h
  split at h
  · simp at h
  · rename_i index hi
    obtain ⟨rfl, rfl⟩ : _ = fresh ∧ _ = c' := by simpa using h
    exact ⟨hi, rfl, rfl, rfl, rfl⟩

theorem mem_missingItems {items : List (String × String)} {index : Table indexKeys}
    {item : String × String} :
    item ∈ missingItems index tenant provider items ↔
      item ∈ items ∧ indexed index tenant provider item.1 = none := by
  rw [missingItems, List.mem_filter]
  refine and_congr_right (fun hitem => ?_)
  have hmem : item.1 ∈ items.map Prod.fst := List.mem_map_of_mem hitem
  simp [findByNative_apply, hmem]

section

variable {items : List (String × String)} {c c₁ : Catalog}

/-- After the insertion the dictionary reflects the new index, in which every
    native id of the page has a row. -/
theorem reflects_insert {fresh : Known}
    (h : insertMissing env tenant provider (missingItems c.memoryIndex tenant provider items) scope
        c = (.ok fresh, c₁)) :
    ((findByNative c.memoryIndex tenant provider (items.map Prod.fst)).update fresh).Reflects
        c₁.memoryIndex tenant provider (items.map Prod.fst) ∧
      ∀ n ∈ items.map Prod.fst, (indexed c₁.memoryIndex tenant provider n).isSome := by
  obtain ⟨hins, -, -, -, rfl⟩ := insertMissing_ok h
  unfold Known.Reflects
  rw [← forall₂_and]
  intro n hn
  generalize hmissing : missingItems c.memoryIndex tenant provider items = missing at hins ⊢
  have hone : ∀ a ∈ freshRows env tenant provider missing scope c.ticks,
      ∀ b ∈ freshRows env tenant provider missing scope c.ticks,
        a.nativeId = n → b.nativeId = n → a = b := by
    intro a ha b hb hna hnb
    obtain ⟨hta, hpa, -⟩ := mem_freshRows ha
    obtain ⟨htb, hpb, -⟩ := mem_freshRows hb
    exact eq_of_nativeKey ((Table.mem_insert hins).mpr (.inr ha))
      ((Table.mem_insert hins).mpr (.inr hb)) (hta.trans htb.symm) (hpa.trans hpb.symm)
      (hna.trans hnb.symm)
  rw [Known.update, Known.record_apply hone, findByNative_apply, if_pos hn]
  cases hold : indexed c.memoryIndex tenant provider n with
  | some r =>
    -- known before: no fresh row has this id, and the old row is still there
    obtain ⟨hr, rfl, rfl, rfl⟩ := indexed_some hold
    have hnew : indexed c₁.memoryIndex r.tenantId r.provider r.nativeId = some r :=
      indexed_of_mem ((Table.mem_insert hins).mpr (.inl hr))
    rw [List.find?_eq_none.mpr]
    · simp [hnew]
    · intro r' hr' hn'
      obtain ⟨-, -, -, -, -, -, ⟨item, hitem, hid, -⟩, -⟩ := mem_freshRows hr'
      have hnone := (mem_missingItems.mp (hmissing ▸ hitem)).2
      rw [← hid, beq_iff_eq.mp hn', hold] at hnone
      cases hnone
  | none =>
    -- never seen: the id was missing, so one fresh row has it
    obtain ⟨item, hitem, rfl⟩ := List.mem_map.mp hn
    obtain ⟨r, hr, hid⟩ : ∃ r ∈ freshRows env tenant provider missing scope c.ticks,
        r.nativeId = item.1 := exists_freshRow (hmissing ▸ mem_missingItems.mpr ⟨hitem, hold⟩)
    obtain ⟨ht, hp, -⟩ := mem_freshRows hr
    have hnew : indexed c₁.memoryIndex tenant provider item.1 = some r := by
      have := indexed_of_mem ((Table.mem_insert hins).mpr (.inr hr))
      rwa [ht, hp, hid] at this
    cases hf : List.find? (·.nativeId == item.1)
        (freshRows env tenant provider missing scope c.ticks) with
    | none => simpa [hid] using List.find?_eq_none.mp hf r hr
    | some r' =>
      have : r' = r := hone r' (List.mem_of_find?_eq_some hf) r hr
        (by simpa using List.find?_some hf) hid
      simp [hnew, this]

/-- The rows that a page finds deleted are those that the update is told to revive. -/
theorem buried_iff_doomed {known : Known}
    (hknown : known.Reflects c.memoryIndex tenant provider (items.map Prod.fst))
    (hcover : ∀ n ∈ items.map Prod.fst, (indexed c.memoryIndex tenant provider n).isSome)
    {r : IndexRow} (hr : r ∈ c.memoryIndex) :
    r.buried tenant provider (items.map Prod.fst) = true ↔ r.doomed tenant provider
      ((items.map Prod.fst).filter fun n => (known n).getD .gone = .gone) = true := by
  have hdoomed : ∀ n, n ∈ (items.map Prod.fst).filter (fun n => (known n).getD .gone = .gone) ↔
      n ∈ items.map Prod.fst ∧ ∃ r, indexed c.memoryIndex tenant provider n = some r ∧
        r.live = false := by
    intro n
    rw [List.mem_filter]
    refine and_congr_right (fun hn => ?_)
    obtain ⟨r, hr⟩ := Option.isSome_iff_exists.mp (hcover n hn)
    simp [hknown n hn, hr, sighting_eq_gone]
  simp only [IndexRow.buried, Bool.and_eq_true, IndexRow.doomed_iff, hdoomed, Bool.not_eq_true']
  constructor
  · rintro ⟨⟨rfl, rfl, hn⟩, hlive⟩
    exact ⟨rfl, rfl, hn, r, indexed_of_mem hr, hlive⟩
  · rintro ⟨rfl, rfl, hn, r', hr', hlive⟩
    obtain rfl : r = r' := Option.some.inj ((indexed_of_mem hr).symm.trans hr')
    exact ⟨⟨rfl, rfl, hn⟩, hlive⟩

/-- The revival keeps the dictionary in step with the index. -/
theorem reviveDoomed_spec {known : Known}
    (hknown : known.Reflects c.memoryIndex tenant provider (items.map Prod.fst))
    (hcover : ∀ n ∈ items.map Prod.fst, (indexed c.memoryIndex tenant provider n).isSome) :
    let out := reviveDoomed env tenant provider items scope known c
    (∀ r, r ∈ out.2.memoryIndex ↔
      ∃ r₀ ∈ c.memoryIndex, r = if r₀.buried tenant provider (items.map Prod.fst)
        then r₀.revived env (env.now c.ticks) scope ((contents items r₀.nativeId).getD "") else r₀) ∧
    out.2.scopeBinding = c.scopeBinding ∧ out.2.episodeJournal = c.episodeJournal ∧
    c.ticks ≤ out.2.ticks ∧
    out.1.Reflects out.2.memoryIndex tenant provider (items.map Prod.fst) := by
  have hburied : ∀ r ∈ c.memoryIndex, r.buried tenant provider (items.map Prod.fst) = true ↔
      r.doomed tenant provider
        ((items.map Prod.fst).filter fun n => (known n).getD .gone = .gone) = true :=
    fun r hr => buried_iff_doomed hknown hcover hr
  unfold reviveDoomed
  dsimp only
  split
  · rename_i hnil
    refine ⟨fun r => ?_, rfl, rfl, le_rfl, hknown⟩
    have hnone : ∀ r ∈ c.memoryIndex, r.buried tenant provider (items.map Prod.fst) = false := by
      intro r hr
      rw [Bool.eq_false_iff]
      intro hb
      have := (IndexRow.doomed_iff.mp ((hburied r hr).mp hb)).2.2
      simp [hnil] at this
    constructor
    · intro hr
      exact ⟨r, hr, by simp [hnone r hr]⟩
    · rintro ⟨r₀, h₀, rfl⟩
      simpa [hnone r₀ h₀] using h₀
  · have hmem : ∀ r, r ∈ reviveAll env tenant provider
        ((items.map Prod.fst).filter fun n => (known n).getD .gone = .gone) scope (contents items)
        (env.now c.ticks) c.memoryIndex ↔
        ∃ r₀ ∈ c.memoryIndex, r = if r₀.buried tenant provider (items.map Prod.fst)
          then r₀.revived env (env.now c.ticks) scope ((contents items r₀.nativeId).getD "")
          else r₀ := by
      intro r
      rw [mem_reviveAll]
      refine exists_congr (fun r₀ => and_congr_right (fun h₀ => ?_))
      have := hburied r₀ h₀
      by_cases hb : r₀.buried tenant provider (items.map Prod.fst) = true
      · rw [if_pos hb, if_pos (this.mp hb)]
      · rw [if_neg hb, if_neg (fun h => hb (this.mpr h))]
    refine ⟨hmem, rfl, rfl, Nat.le_succ _, fun n hn => ?_⟩
    obtain ⟨r, hr⟩ := Option.isSome_iff_exists.mp (hcover n hn)
    obtain ⟨hrmem, rfl, rfl, rfl⟩ := indexed_some hr
    simp only [Known.update, findByNative_apply]
    split
    · rename_i hd
      -- the row was buried, and its revived form is what the index holds now
      have hb := (hburied r hrmem).mpr (IndexRow.doomed_iff.mpr ⟨rfl, rfl, hd⟩)
      have hrev := (hmem _).mpr ⟨r, hrmem, rfl⟩
      rw [if_pos hb] at hrev
      have hidx := indexed_of_mem hrev
      simp only [IndexRow.revived] at hidx
      simp [hidx]
    · rename_i hd
      have hb : ¬ r.buried r.tenantId r.provider (items.map Prod.fst) = true := fun hb =>
        hd (IndexRow.doomed_iff.mp ((hburied r hrmem).mp hb)).2.2
      have hkeep := (hmem _).mpr ⟨r, hrmem, rfl⟩
      rw [if_neg hb] at hkeep
      simp [hknown _ hn, indexed_of_mem hrmem, indexed_of_mem hkeep]

/-- A failed attempt is a lost race for a key, and leaves the tables as they were. -/
theorem mapAttempt_error {revive : Bool} {c' : Catalog} {e : Exc}
    (h : mapAttempt env tenant provider items scope revive c = (.error e, c')) :
    c.Still c' ∧ ∃ text, e = .integrity text := by
  simp only [mapAttempt] at h
  split at h
  · rename_i e' c'' hins
    obtain ⟨rfl, rfl⟩ : e' = e ∧ c'' = c' := by simpa using h
    split at hins
    · cases hins
    · exact insertMissing_error hins
  · cases h

/-- A successful attempt does what `Mapped` says. -/
theorem mapAttempt_ok {revive : Bool} {c' : Catalog} {rows : List CatalogRow}
    (h : mapAttempt env tenant provider items scope revive c = (.ok rows, c')) :
    Mapped env tenant provider items scope revive c rows c' := by
  simp only [mapAttempt] at h
  split at h
  · cases h
  rename_i fresh c₁ hins
  have hins : insertMissing env tenant provider (missingItems c.memoryIndex tenant provider items)
      scope c = (.ok fresh, c₁) := by
    split at hins
    · rename_i hnil
      rw [hnil, insertMissing_nil]
      exact hins
    · exact hins
  obtain ⟨hknown, hcover⟩ := reflects_insert hins
  obtain ⟨hinsert, hbind, hjournal, hticks, -⟩ := insertMissing_ok hins
  have hfresh : ∀ r ∈ freshRows env tenant provider (missingItems c.memoryIndex tenant provider items)
      scope c.ticks, r.Fresh env tenant provider items scope c c₁ := by
    intro r hr
    obtain ⟨ht, hp, hs, ha, hse, hd, ⟨item, hitem, hid, hhash⟩, k, hk₁, hk₂, hk₃⟩ :=
      mem_freshRows hr
    obtain ⟨hitem, hnone⟩ := mem_missingItems.mp hitem
    exact ⟨ht, hp, hs, ha, hse, hd, ⟨item, hitem, hid, hhash⟩, hid ▸ hnone, k, hk₁,
      hticks ▸ hk₂, hk₃⟩
  generalize freshRows env tenant provider (missingItems c.memoryIndex tenant provider items)
    scope c.ticks = values at hinsert hfresh
  cases revive with
  | false =>
    obtain ⟨rfl, rfl⟩ : _ = rows ∧ c₁ = c' := by simpa using h
    refine ⟨hbind, hjournal, by omega, ⟨0, values, fun r => ?_, hfresh⟩, hcover, hknown.rows⟩
    rw [Table.mem_insert hinsert]
    simp
  | true =>
    obtain ⟨hindex, hbind', hjournal', hticks', hknown'⟩ := reviveDoomed_spec hknown hcover
    obtain ⟨rfl, rfl⟩ : _ = rows ∧ _ = c' := by simpa using h
    -- a fresh row is live, so reviving leaves it alone
    have hlive : ∀ r ∈ values, r.buried tenant provider (items.map Prod.fst) = false := by
      intro r hr
      simp [IndexRow.buried, IndexRow.live, (hfresh r hr).deletedAt]
    refine ⟨hbind'.trans hbind, hjournal'.trans hjournal, by omega,
      ⟨env.now c₁.ticks, values, fun r => ?_, fun r hr => ?_⟩, fun n hn => ?_, hknown'.rows⟩
    · rw [hindex]
      constructor
      · rintro ⟨r₀, h₀, rfl⟩
        rcases (Table.mem_insert hinsert).mp h₀ with h₀ | h₀
        · exact .inl ⟨r₀, h₀, by simp⟩
        · exact .inr (by simpa [hlive r₀ h₀] using h₀)
      · rintro (⟨r₀, h₀, rfl⟩ | hr)
        · exact ⟨r₀, (Table.mem_insert hinsert).mpr (.inl h₀), by simp⟩
        · exact ⟨r, (Table.mem_insert hinsert).mpr (.inr hr), by simp [hlive r hr]⟩
    · obtain ⟨k, hk₁, hk₂, hk₃⟩ := (hfresh r hr).minted
      exact { hfresh r hr with minted := ⟨k, hk₁, lt_of_lt_of_le hk₂ hticks', hk₃⟩ }
    · -- reviving keeps every key, so the page stays covered
      obtain ⟨r₀, hr₀⟩ := Option.isSome_iff_exists.mp (hcover n hn)
      obtain ⟨hmem, rfl, rfl, rfl⟩ := indexed_some hr₀
      have hnew := indexed_of_mem ((hindex _).mpr ⟨r₀, hmem, rfl⟩)
      split at hnew
      · simpa [IndexRow.revived] using Option.isSome_iff_exists.mpr ⟨_, hnew⟩
      · exact Option.isSome_iff_exists.mpr ⟨_, hnew⟩

/-- Every gateway id of the catalog was drawn from its supply, so the next draws are
    new. -/
def Catalog.Minted (env : Env) (c : Catalog) : Prop :=
  ∀ r ∈ c.memoryIndex, ∃ k < c.ticks, r.gatewayId = env.newId "mg" k

/-- No row has an id that is still to be drawn. -/
def Catalog.Unspent (env : Env) (c : Catalog) : Prop :=
  ∀ r ∈ c.memoryIndex, ∀ k, c.ticks ≤ k → r.gatewayId ≠ env.newId "mg" k

theorem Catalog.Minted.unspent (h : c.Minted env) : c.Unspent env := by
  intro r hr k hk hid
  obtain ⟨k', hk', hid'⟩ := h r hr
  have := env.newId_injective "mg" (hid'.symm.trans hid)
  omega

theorem Catalog.Unspent.still {c' : Catalog} (h : c.Unspent env) (hc : c.Still c') :
    c'.Unspent env :=
  fun r hr k hk => h r (hc.index ▸ hr) k (hc.ticks.trans hk)

/-- Rows for native ids that have none go in exactly when these are distinct, since their
    gateway ids are new. -/
theorem insert_freshRows_iff {missing : List (String × String)} (hunspent : c.Unspent env)
    (hnew : ∀ item ∈ missing, indexed c.memoryIndex tenant provider item.1 = none) :
    (c.memoryIndex.insert (freshRows env tenant provider missing scope c.ticks)).isSome ↔
      (missing.map Prod.fst).Nodup := by
  rw [Table.insert_isSome_iff]
  constructor
  · -- two fresh rows have one tenant and one provider, so they differ in their native ids
    rintro ⟨hapart, -⟩
    have hnatives : missing.map Prod.fst =
        (freshRows env tenant provider missing scope c.ticks).map IndexRow.nativeId := by
      refine List.ext_getElem (by simp [freshRows]) (fun i _ _ => ?_)
      simp [freshRows]
    rw [hnatives, List.Nodup, List.pairwise_map]
    refine hapart.imp_of_mem (fun {a b} ha hb hab hn => ?_)
    obtain ⟨hta, hpa, -⟩ := mem_freshRows ha
    obtain ⟨htb, hpb, -⟩ := mem_freshRows hb
    exact hab IndexRow.nativeKey (by simp [indexKeys])
      (by simp [IndexRow.nativeKey, hta, hpa, htb, hpb, hn])
  · intro hnodup
    constructor
    · -- two fresh rows differ in their place on the page
      rw [List.pairwise_iff_getElem]
      intro i j hi hj hij
      have hi' : i < missing.length := by simpa [freshRows] using hi
      have hj' : j < missing.length := by simpa [freshRows] using hj
      have hne : missing[i].1 ≠ missing[j].1 :=
        List.pairwise_iff_getElem.mp (List.pairwise_map.mp hnodup) i j hi' hj' hij
      have hid : env.newId "mg" (c.ticks + i) ≠ env.newId "mg" (c.ticks + j) := fun h => by
        have := env.newId_injective "mg" h
        omega
      simp [Apart, indexKeys, IndexRow.idKey, IndexRow.nativeKey, freshRows, hne, hid]
    · intro a ha b hb key hkey
      obtain ⟨ht, hp, -, -, -, -, ⟨item, hitem, hn, -⟩, k, hk, -, hid⟩ := mem_freshRows hb
      rcases (by simpa [indexKeys] using hkey : key = IndexRow.idKey ∨ key = IndexRow.nativeKey) with
        rfl | rfl
      · intro h
        have h : a.gatewayId = b.gatewayId := by simpa [IndexRow.idKey] using h
        exact hunspent a ha k hk (h.trans hid)
      · intro h
        have h : a.tenantId = b.tenantId ∧ a.provider = b.provider ∧ a.nativeId = b.nativeId := by
          simpa [IndexRow.nativeKey] using h
        exact indexed_none.mp (hnew item hitem) a ha ⟨h.1.trans ht, h.2.1.trans hp, h.2.2.trans hn⟩

/-- Without a rival, an attempt succeeds exactly when no native id of the page that has no
    row occurs twice. -/
theorem mapAttempt_ok_iff {revive : Bool} (hunspent : c.Unspent env) :
    (∃ rows c', mapAttempt env tenant provider items scope revive c = (.ok rows, c')) ↔
      ((missingItems c.memoryIndex tenant provider items).map Prod.fst).Nodup := by
  have hnew : ∀ item ∈ missingItems c.memoryIndex tenant provider items,
      indexed c.memoryIndex tenant provider item.1 = none :=
    fun item hitem => (mem_missingItems.mp hitem).2
  rw [← insert_freshRows_iff hunspent hnew]
  generalize hmissing : missingItems c.memoryIndex tenant provider items = missing
  simp only [mapAttempt, hmissing]
  cases hinsert : c.memoryIndex.insert (freshRows env tenant provider missing scope c.ticks) with
  | none =>
    have hne : missing ≠ [] := by
      rintro rfl
      simp [freshRows] at hinsert
    simp [hne, insertMissing, hinsert]
  | some index =>
    simp only [insertMissing, hinsert, Option.isSome_some, iff_true]
    split
    · rename_i hx
      split at hx <;> cases hx
    · exact ⟨_, _, rfl⟩

/-- Without a rival, a page of distinct native ids is mapped at the first attempt. -/
theorem mapAttempt_succeeds {revive : Bool} (hminted : c.Minted env)
    (hnodup : (items.map Prod.fst).Nodup) :
    ∃ rows c', mapAttempt env tenant provider items scope revive c = (.ok rows, c') := by
  have hsub : (missingItems c.memoryIndex tenant provider items).Sublist items :=
    List.filter_sublist
  exact (mapAttempt_ok_iff hminted.unspent).mpr (hnodup.sublist (hsub.map Prod.fst))

end

theorem Catalog.Minted.still {c c' : Catalog} (h : c.Minted env) (hc : c.Still c') :
    c'.Minted env := by
  intro r hr
  obtain ⟨k, hk, hid⟩ := h r (hc.index ▸ hr)
  exact ⟨k, lt_of_lt_of_le hk hc.ticks, hid⟩

theorem Catalog.Minted.mapped {c c' : Catalog} {items : List (String × String)} {revive : Bool}
    {rows : List CatalogRow}
    (h : c.Minted env) (hmap : Mapped env tenant provider items scope revive c rows c') :
    c'.Minted env := by
  intro r hr
  obtain ⟨now, fresh, hindex, hfresh⟩ := hmap.index
  rcases (hindex r).mp hr with ⟨r₀, h₀, rfl⟩ | hr
  · obtain ⟨k, hk, hid⟩ := h r₀ h₀
    refine ⟨k, lt_of_lt_of_le hk hmap.ticks, ?_⟩
    split <;> exact hid
  · obtain ⟨k, -, hk, hid⟩ := (hfresh r hr).minted
    exact ⟨k, hk, hid⟩

end Memgw
