-- SUMMARY: Every transaction the catalog runs, as one atomic action each, and what the actions leave alone.
import Memgw.Gateway.Mapping

/-!
# Transactions

The methods of the catalog touch the database through the transactions below and
in no other way. Each is one action: it happens at one point of a run, between
other tasks' transactions, and it either answers or fails on a constraint.
-/

namespace Memgw

variable {env : Env} {c c' : Catalog}

/-! ## memory_index -/

/-- A live row, addressed by its gateway id. -/
def IndexRow.issued (tenant gatewayId : String) (r : IndexRow) : Bool :=
  r.gatewayId == gatewayId && r.tenantId == tenant && r.live

theorem IndexRow.issued_iff {tenant gatewayId : String} {r : IndexRow} :
    r.issued tenant gatewayId = true ↔
      r.gatewayId = gatewayId ∧ r.tenantId = tenant ∧ r.live = true := by
  simp [issued, and_assoc]

def IndexRow.deleted (now : Time) (r : IndexRow) : IndexRow := { r with deletedAt := some now }

@[simp] theorem IndexRow.deleted_live {now : Time} {r : IndexRow} :
    (r.deleted now).live = false := rfl

theorem IndexRow.deleted_keys {now : Time} (r : IndexRow) : ∀ key ∈ indexKeys,
    key (r.deleted now) = key r := by
  simp [indexKeys, IndexRow.idKey, IndexRow.nativeKey, IndexRow.deleted]

def resolveGatewayId (tenant gatewayId : String) (c : Catalog) : Option CatalogRow :=
  (c.memoryIndex.find? (IndexRow.issued tenant gatewayId)).map IndexRow.toRow

/-- `update(memory_index).where(p).values(deleted_at=_now())`. -/
def bury (env : Env) (p : IndexRow → Bool) (c : Catalog) : Catalog :=
  { c with
    memoryIndex := c.memoryIndex.updateWhere p (IndexRow.deleted (env.now c.ticks))
      IndexRow.deleted_keys
    ticks := c.ticks + 1 }

def markDeleted (env : Env) (tenant gatewayId : String) (c : Catalog) : Bool × Catalog :=
  (0 < c.memoryIndex.count (IndexRow.issued tenant gatewayId),
    bury env (IndexRow.issued tenant gatewayId) c)

def markScopeDeleted (env : Env) (tenant : String) (scope : Scope) (provider : String)
    (c : Catalog) : Nat × Catalog :=
  (c.memoryIndex.count (IndexRow.inScope tenant scope provider),
    bury env (IndexRow.inScope tenant scope provider) c)

/-- The condition of `live_count`. -/
def IndexRow.liveAt (tenant subject provider : String) (r : IndexRow) : Bool :=
  r.tenantId == tenant && r.subject.val == subject && r.provider == provider && r.live

def liveCount (tenant subject provider : String) (c : Catalog) : Nat :=
  c.memoryIndex.count (IndexRow.liveAt tenant subject provider)

theorem resolveGatewayId_some {tenant gatewayId : String} {row : CatalogRow}
    (h : resolveGatewayId tenant gatewayId c = some row) :
    ∃ r ∈ c.memoryIndex, r.gatewayId = gatewayId ∧ r.tenantId = tenant ∧ r.live = true ∧
      row = r.toRow := by
  obtain ⟨r, hr, rfl⟩ := Option.map_eq_some_iff.mp h
  obtain ⟨hmem, hp⟩ := Table.find?_some hr
  obtain ⟨hg, ht, hl⟩ := IndexRow.issued_iff.mp hp
  exact ⟨r, hmem, hg, ht, hl, rfl⟩

theorem resolveGatewayId_of_mem {r : IndexRow} (hr : r ∈ c.memoryIndex) (hl : r.live = true) :
    resolveGatewayId r.tenantId r.gatewayId c = some r.toRow := by
  have hfind : c.memoryIndex.find? (IndexRow.issued r.tenantId r.gatewayId) = some r := by
    refine Table.find?_eq_some IndexRow.idKey (by simp [indexKeys]) ?_ hr
      (IndexRow.issued_iff.mpr ⟨rfl, rfl, hl⟩)
    intro a b ha hb
    simp [IndexRow.idKey, (IndexRow.issued_iff.mp ha).1, (IndexRow.issued_iff.mp hb).1]
  rw [resolveGatewayId, hfind, Option.map_some]

theorem resolveGatewayId_none {tenant gatewayId : String} :
    resolveGatewayId tenant gatewayId c = none ↔
      ∀ r ∈ c.memoryIndex, ¬ (r.gatewayId = gatewayId ∧ r.tenantId = tenant ∧ r.live = true) := by
  rw [resolveGatewayId, Option.map_eq_none_iff, Table.find?_none]
  refine forall₂_congr (fun r _ => ?_)
  rw [← IndexRow.issued_iff, Bool.not_eq_true]

theorem mem_bury {p : IndexRow → Bool} {r : IndexRow} :
    r ∈ (bury env p c).memoryIndex ↔
      ∃ r₀ ∈ c.memoryIndex, r = if p r₀ then r₀.deleted (env.now c.ticks) else r₀ := by
  rw [bury, Table.mem_updateWhere]

theorem Catalog.Minted.bury {p : IndexRow → Bool} (h : c.Minted env) :
    (bury env p c).Minted env := by
  intro r hr
  obtain ⟨r₀, h₀, rfl⟩ := mem_bury.mp hr
  obtain ⟨k, hk, hid⟩ := h r₀ h₀
  refine ⟨k, Nat.lt_succ_of_lt hk, ?_⟩
  split <;> exact hid

/-! ## scope_binding -/

def BindingRow.bound (tenant subject : String) (b : BindingRow) : Bool :=
  b.tenantId == tenant && b.subject == subject

theorem BindingRow.bound_iff {tenant subject : String} {b : BindingRow} :
    b.bound tenant subject = true ↔ b.tenantId = tenant ∧ b.subject = subject := by
  simp [bound]

def getBinding (tenant subject : String) (c : Catalog) : Option String :=
  (c.scopeBinding.find? (BindingRow.bound tenant subject)).map BindingRow.provider

/-- The insertion of `bind`. -/
def insertBinding (env : Env) (tenant subject provider : String) (c : Catalog) :
    Except Exc Unit × Catalog :=
  let row : BindingRow :=
    { tenantId := tenant, subject := subject, provider := provider
      boundAt := env.now c.ticks, migratedFrom := none }
  match c.scopeBinding.insert [row] with
  | none => (.error (.integrity "UNIQUE constraint failed: scope_binding"),
      { c with ticks := c.ticks + 1 })
  | some binding => (.ok (), { c with scopeBinding := binding, ticks := c.ticks + 1 })

/-- The transaction of `rebind`: the old row out, the new row in. -/
def replaceBinding (env : Env) (tenant subject provider : String) (previous : Option String)
    (c : Catalog) : Except Exc Unit × Catalog :=
  let row : BindingRow :=
    { tenantId := tenant, subject := subject, provider := provider
      boundAt := env.now c.ticks, migratedFrom := previous }
  match (c.scopeBinding.deleteWhere (BindingRow.bound tenant subject)).insert [row] with
  | none => (.error (.integrity "UNIQUE constraint failed: scope_binding"),
      { c with ticks := c.ticks + 1 })
  | some binding => (.ok (), { c with scopeBinding := binding, ticks := c.ticks + 1 })

@[simp] theorem insertBinding_memoryIndex {tenant subject provider : String} :
    (insertBinding env tenant subject provider c).2.memoryIndex = c.memoryIndex := by
  simp only [insertBinding]
  split <;> rfl

@[simp] theorem insertBinding_episodeJournal {tenant subject provider : String} :
    (insertBinding env tenant subject provider c).2.episodeJournal = c.episodeJournal := by
  simp only [insertBinding]
  split <;> rfl

@[simp] theorem insertBinding_ticks {tenant subject provider : String} :
    (insertBinding env tenant subject provider c).2.ticks = c.ticks + 1 := by
  simp only [insertBinding]
  split <;> rfl

@[simp] theorem replaceBinding_memoryIndex {tenant subject provider : String}
    {previous : Option String} :
    (replaceBinding env tenant subject provider previous c).2.memoryIndex = c.memoryIndex := by
  simp only [replaceBinding]
  split <;> rfl

@[simp] theorem replaceBinding_episodeJournal {tenant subject provider : String}
    {previous : Option String} :
    (replaceBinding env tenant subject provider previous c).2.episodeJournal =
      c.episodeJournal := by
  simp only [replaceBinding]
  split <;> rfl

@[simp] theorem replaceBinding_ticks {tenant subject provider : String}
    {previous : Option String} :
    (replaceBinding env tenant subject provider previous c).2.ticks = c.ticks + 1 := by
  simp only [replaceBinding]
  split <;> rfl

theorem apart_binding {a b : BindingRow} :
    Apart bindingKeys a b ↔ ¬ (a.tenantId = b.tenantId ∧ a.subject = b.subject) := by
  simp [Apart, bindingKeys]

theorem getBinding_of_mem {b : BindingRow} (hb : b ∈ c.scopeBinding) :
    getBinding b.tenantId b.subject c = some b.provider := by
  have hfind : c.scopeBinding.find? (BindingRow.bound b.tenantId b.subject) = some b := by
    refine Table.find?_eq_some (fun r => [r.tenantId, r.subject]) (by simp [bindingKeys]) ?_
      hb (BindingRow.bound_iff.mpr ⟨rfl, rfl⟩)
    intro x y hx hy
    obtain ⟨hx₁, hx₂⟩ := BindingRow.bound_iff.mp hx
    obtain ⟨hy₁, hy₂⟩ := BindingRow.bound_iff.mp hy
    simp [hx₁, hx₂, hy₁, hy₂]
  rw [getBinding, hfind, Option.map_some]

theorem getBinding_none {tenant subject : String} :
    getBinding tenant subject c = none ↔
      ∀ b ∈ c.scopeBinding, ¬ (b.tenantId = tenant ∧ b.subject = subject) := by
  rw [getBinding, Option.map_eq_none_iff, Table.find?_none]
  refine forall₂_congr (fun b _ => ?_)
  rw [← BindingRow.bound_iff, Bool.not_eq_true]

theorem getBinding_some {tenant subject provider : String}
    (h : getBinding tenant subject c = some provider) :
    ∃ b ∈ c.scopeBinding, b.tenantId = tenant ∧ b.subject = subject ∧ b.provider = provider := by
  obtain ⟨b, hb, rfl⟩ := Option.map_eq_some_iff.mp h
  obtain ⟨hmem, hp⟩ := Table.find?_some hb
  obtain ⟨ht, hs⟩ := BindingRow.bound_iff.mp hp
  exact ⟨b, hmem, ht, hs, rfl⟩

/-- Binding succeeds exactly for a subject that has no binding. -/
theorem insertBinding_ok_iff {tenant subject provider : String} :
    (insertBinding env tenant subject provider c).1 = .ok () ↔
      getBinding tenant subject c = none := by
  rw [getBinding_none, insertBinding]
  have hsome := Table.insert_isSome_iff c.scopeBinding (
    [{ tenantId := tenant, subject := subject, provider := provider
       boundAt := env.now c.ticks, migratedFrom := none }])
  split
  · rename_i hnone
    simp only [hnone, apart_binding] at hsome
    simpa using hsome
  · rename_i b hb
    simp only [hb, apart_binding] at hsome
    simpa using hsome

/-- What binding does to the table: at most one new row, for this subject. -/
theorem mem_insertBinding {tenant subject provider : String} {b : BindingRow}
    (h : (insertBinding env tenant subject provider c).1 = .ok ()) :
    b ∈ (insertBinding env tenant subject provider c).2.scopeBinding ↔
      b ∈ c.scopeBinding ∨
        b = { tenantId := tenant, subject := subject, provider := provider
              boundAt := env.now c.ticks, migratedFrom := none } := by
  simp only [insertBinding] at h ⊢
  split at h
  · cases h
  · rename_i binding hb
    simp [Table.mem_insert hb]

theorem insertBinding_error {tenant subject provider : String} {e : Exc}
    (h : (insertBinding env tenant subject provider c).1 = .error e) :
    (insertBinding env tenant subject provider c).2.scopeBinding = c.scopeBinding ∧
      ∃ text, e = .integrity text := by
  simp only [insertBinding] at h ⊢
  split at h
  · simp only [true_and]
    exact ⟨_, (Except.error.inj h).symm⟩
  · cases h

/-- Rebinding always goes through: it removes what could be in its way. -/
theorem replaceBinding_ok {tenant subject provider : String} {previous : Option String} :
    (replaceBinding env tenant subject provider previous c).1 = .ok () := by
  have hsome := Table.insert_isSome_iff
    (c.scopeBinding.deleteWhere (BindingRow.bound tenant subject)) (
    [{ tenantId := tenant, subject := subject, provider := provider
       boundAt := env.now c.ticks, migratedFrom := previous }])
  rw [replaceBinding]
  split
  · rename_i hnone
    simp [hnone, apart_binding, BindingRow.bound] at hsome
  · rfl

theorem mem_replaceBinding {tenant subject provider : String} {previous : Option String}
    {b : BindingRow} :
    b ∈ (replaceBinding env tenant subject provider previous c).2.scopeBinding ↔
      (b ∈ c.scopeBinding ∧ ¬ (b.tenantId = tenant ∧ b.subject = subject)) ∨
        b = { tenantId := tenant, subject := subject, provider := provider
              boundAt := env.now c.ticks, migratedFrom := previous } := by
  have hok : (replaceBinding env tenant subject provider previous c).1 = .ok () := replaceBinding_ok
  simp only [replaceBinding] at hok ⊢
  split at hok
  · cases hok
  · rename_i binding hb
    simp [Table.mem_insert hb, ← BindingRow.bound_iff]

/-- The binding of a subject is that of its row, and there is one for each subject. -/
theorem getBinding_eq_some_iff {tenant subject provider : String} :
    getBinding tenant subject c = some provider ↔
      ∃ b ∈ c.scopeBinding, b.tenantId = tenant ∧ b.subject = subject ∧ b.provider = provider := by
  refine ⟨getBinding_some, ?_⟩
  rintro ⟨b, hb, rfl, rfl, rfl⟩
  exact getBinding_of_mem hb

theorem getBinding_congr {tenant subject : String} {c' : Catalog}
    (h : c'.scopeBinding = c.scopeBinding) :
    getBinding tenant subject c' = getBinding tenant subject c := by
  rw [getBinding, getBinding, h]

/-- The first to bind a subject decides. -/
theorem getBinding_insertBinding {tenant subject t s provider : String} :
    getBinding t s (insertBinding env tenant subject provider c).2 =
      if tenant = t ∧ subject = s then (getBinding t s c).or (some provider)
      else getBinding t s c := by
  cases hx : (insertBinding env tenant subject provider c).1 with
  | error e =>
    rw [getBinding_congr (insertBinding_error hx).1]
    split
    · rename_i hon
      obtain ⟨rfl, rfl⟩ := hon
      cases hb : getBinding tenant subject c with
      | some b => rfl
      | none => cases (insertBinding_ok_iff.mpr hb).symm.trans hx
    · rfl
  | ok u =>
    have hnone := insertBinding_ok_iff.mp hx
    ext q
    rw [getBinding_eq_some_iff]
    simp only [mem_insertBinding hx]
    split
    · rename_i hon
      obtain ⟨rfl, rfl⟩ := hon
      rw [hnone]
      constructor
      · rintro ⟨b, hb | rfl, ht, hs, rfl⟩
        · exact absurd ⟨ht, hs⟩ (getBinding_none.mp hnone b hb)
        · rfl
      · rintro ⟨rfl⟩
        exact ⟨_, .inr rfl, rfl, rfl, rfl⟩
    · rename_i hoff
      rw [getBinding_eq_some_iff]
      constructor
      · rintro ⟨b, hb | rfl, ht, hs, rfl⟩
        · exact ⟨b, hb, ht, hs, rfl⟩
        · exact absurd ⟨ht, hs⟩ hoff
      · rintro ⟨b, hb, ht, hs, rfl⟩
        exact ⟨b, .inl hb, ht, hs, rfl⟩

theorem getBinding_replaceBinding {tenant subject t s provider : String}
    {previous : Option String} :
    getBinding t s (replaceBinding env tenant subject provider previous c).2 =
      if tenant = t ∧ subject = s then some provider else getBinding t s c := by
  ext q
  rw [getBinding_eq_some_iff]
  simp only [mem_replaceBinding]
  split
  · rename_i hon
    obtain ⟨rfl, rfl⟩ := hon
    constructor
    · rintro ⟨b, ⟨-, hoff⟩ | rfl, ht, hs, rfl⟩
      · exact absurd ⟨ht, hs⟩ hoff
      · rfl
    · rintro ⟨rfl⟩
      exact ⟨_, .inr rfl, rfl, rfl, rfl⟩
  · rename_i hoff
    rw [getBinding_eq_some_iff]
    constructor
    · rintro ⟨b, ⟨hb, -⟩ | rfl, ht, hs, rfl⟩
      · exact ⟨b, hb, ht, hs, rfl⟩
      · exact absurd ⟨ht, hs⟩ hoff
    · rintro ⟨b, hb, rfl, rfl, rfl⟩
      exact ⟨b, .inl ⟨hb, fun h => hoff ⟨h.1.symm, h.2.symm⟩⟩, rfl, rfl, rfl⟩

/-! ## episode_journal -/

def journal (env : Env) (tenant : String) (scope : Scope) (payload : Episode)
    (ingestedTo : List (String × List String)) (c : Catalog) : Except Exc String × Catalog :=
  let row : JournalRow :=
    { episodeId := env.newId "ep" c.ticks
      tenantId := tenant
      subject := scope.subject
      agent := scope.agent
      session := scope.session
      payload := payload
      ingestedTo := ingestedTo
      createdAt := env.now c.ticks }
  match c.episodeJournal.insert [row] with
  | none => (.error (.integrity "UNIQUE constraint failed: episode_journal"),
      { c with ticks := c.ticks + 1 })
  | some rows => (.ok row.episodeId, { c with episodeJournal := rows, ticks := c.ticks + 1 })

def deleteJournal (tenant : String) (scope : Scope) (c : Catalog) : Nat × Catalog :=
  (c.episodeJournal.count (JournalRow.inScope tenant scope),
    { c with episodeJournal := c.episodeJournal.deleteWhere (JournalRow.inScope tenant scope) })

@[simp] theorem journal_memoryIndex {tenant : String} {scope : Scope} {payload : Episode}
    {ingestedTo : List (String × List String)} :
    (journal env tenant scope payload ingestedTo c).2.memoryIndex = c.memoryIndex := by
  simp only [journal]
  split <;> rfl

@[simp] theorem journal_scopeBinding {tenant : String} {scope : Scope} {payload : Episode}
    {ingestedTo : List (String × List String)} :
    (journal env tenant scope payload ingestedTo c).2.scopeBinding = c.scopeBinding := by
  simp only [journal]
  split <;> rfl

@[simp] theorem journal_ticks {tenant : String} {scope : Scope} {payload : Episode}
    {ingestedTo : List (String × List String)} :
    (journal env tenant scope payload ingestedTo c).2.ticks = c.ticks + 1 := by
  simp only [journal]
  split <;> rfl

theorem mem_journal {tenant : String} {scope : Scope} {payload : Episode}
    {ingestedTo : List (String × List String)} {id : String}
    (h : (journal env tenant scope payload ingestedTo c).1 = .ok id) :
    id = env.newId "ep" c.ticks ∧
      ∀ j, j ∈ (journal env tenant scope payload ingestedTo c).2.episodeJournal ↔
        j ∈ c.episodeJournal ∨
          j = { episodeId := id, tenantId := tenant, subject := scope.subject
                agent := scope.agent, session := scope.session, payload := payload
                ingestedTo := ingestedTo, createdAt := env.now c.ticks } := by
  simp only [journal] at h ⊢
  split at h
  · cases h
  · rename_i rows hrows
    obtain rfl := Except.ok.inj h
    simp [Table.mem_insert hrows]

theorem journal_error {tenant : String} {scope : Scope} {payload : Episode}
    {ingestedTo : List (String × List String)} {e : Exc}
    (h : (journal env tenant scope payload ingestedTo c).1 = .error e) :
    (journal env tenant scope payload ingestedTo c).2.episodeJournal = c.episodeJournal := by
  simp only [journal] at h ⊢
  split at h
  · simp
  · cases h

theorem mem_deleteJournal {tenant : String} {scope : Scope} {j : JournalRow} :
    j ∈ (deleteJournal tenant scope c).2.episodeJournal ↔
      j ∈ c.episodeJournal ∧ j.inScope tenant scope = false :=
  Table.mem_deleteWhere

/-- Every episode id of the journal was drawn from its supply. -/
def Catalog.Numbered (env : Env) (c : Catalog) : Prop :=
  ∀ j ∈ c.episodeJournal, ∃ k < c.ticks, j.episodeId = env.newId "ep" k

theorem Catalog.Numbered.mono {c' : Catalog} (h : c.Numbered env)
    (hjournal : ∀ j ∈ c'.episodeJournal, j ∈ c.episodeJournal) (hticks : c.ticks ≤ c'.ticks) :
    c'.Numbered env := by
  intro j hj
  obtain ⟨k, hk, hid⟩ := h j (hjournal j hj)
  exact ⟨k, lt_of_lt_of_le hk hticks, hid⟩

theorem journal_succeeds (h : c.Numbered env) {tenant : String} {scope : Scope}
    {payload : Episode} {ingestedTo : List (String × List String)} :
    ∃ id, (journal env tenant scope payload ingestedTo c).1 = .ok id := by
  have hsome : (c.episodeJournal.insert [{
      episodeId := env.newId "ep" c.ticks, tenantId := tenant, subject := scope.subject
      agent := scope.agent, session := scope.session, payload := payload, ingestedTo := ingestedTo
      createdAt := env.now c.ticks }]).isSome := by
    rw [Table.insert_isSome_iff]
    refine ⟨List.pairwise_singleton .., fun a ha b hb key hkey => ?_⟩
    obtain rfl := List.mem_singleton.mp hb
    obtain rfl : key = _ := by simpa [journalKeys] using hkey
    obtain ⟨k, hk, hid⟩ := h a ha
    intro heq
    have := env.newId_injective "ep" (hid.symm.trans (List.cons.inj heq).1)
    omega
  obtain ⟨rows, hrows⟩ := Option.isSome_iff_exists.mp hsome
  exact ⟨env.newId "ep" c.ticks, by simp only [journal, hrows]⟩

theorem Catalog.Numbered.journal (h : c.Numbered env) {tenant : String} {scope : Scope}
    {payload : Episode} {ingestedTo : List (String × List String)} :
    (journal env tenant scope payload ingestedTo c).2.Numbered env := by
  intro j hj
  obtain ⟨id, hid⟩ := journal_succeeds h
  obtain ⟨hnew, hmem⟩ := mem_journal hid
  rw [journal_ticks]
  rcases (hmem j).mp hj with hold | rfl
  · obtain ⟨k, hk, hid⟩ := h j hold
    exact ⟨k, by omega, hid⟩
  · exact ⟨c.ticks, by omega, hnew⟩

/-! ## The actions -/

inductive CatalogOp where
  | mapAttempt (tenant provider : String) (items : List (String × String)) (scope : Scope)
      (revive : Bool)
  | resolveGatewayId (tenant gatewayId : String)
  | markDeleted (tenant gatewayId : String)
  | markScopeDeleted (tenant : String) (scope : Scope) (provider : String)
  | liveCount (tenant subject provider : String)
  | getBinding (tenant subject : String)
  | insertBinding (tenant subject provider : String)
  | replaceBinding (tenant subject provider : String) (previous : Option String)
  | journal (tenant : String) (scope : Scope) (payload : Episode)
      (ingestedTo : List (String × List String))
  | deleteJournal (tenant : String) (scope : Scope)

@[reducible] def CatalogOp.Ans : CatalogOp → Type
  | .mapAttempt .. => List CatalogRow
  | .resolveGatewayId .. => Option CatalogRow
  | .markDeleted .. => Bool
  | .markScopeDeleted .. => Nat
  | .liveCount .. => Nat
  | .getBinding .. => Option String
  | .insertBinding .. => Unit
  | .replaceBinding .. => Unit
  | .journal .. => String
  | .deleteJournal .. => Nat

def CatalogOp.exec (env : Env) : (op : CatalogOp) → Catalog → Except Exc op.Ans × Catalog
  | .mapAttempt tenant provider items scope revive, c =>
    Memgw.mapAttempt env tenant provider items scope revive c
  | .resolveGatewayId tenant gatewayId, c => (.ok (Memgw.resolveGatewayId tenant gatewayId c), c)
  | .markDeleted tenant gatewayId, c =>
    let (n, c) := Memgw.markDeleted env tenant gatewayId c
    (.ok n, c)
  | .markScopeDeleted tenant scope provider, c =>
    let (n, c) := Memgw.markScopeDeleted env tenant scope provider c
    (.ok n, c)
  | .liveCount tenant subject provider, c => (.ok (Memgw.liveCount tenant subject provider c), c)
  | .getBinding tenant subject, c => (.ok (Memgw.getBinding tenant subject c), c)
  | .insertBinding tenant subject provider, c =>
    Memgw.insertBinding env tenant subject provider c
  | .replaceBinding tenant subject provider previous, c =>
    Memgw.replaceBinding env tenant subject provider previous c
  | .journal tenant scope payload ingestedTo, c =>
    Memgw.journal env tenant scope payload ingestedTo c
  | .deleteJournal tenant scope, c =>
    let (n, c) := Memgw.deleteJournal tenant scope c
    (.ok n, c)

/-! ## Frames -/

namespace CatalogOp

/-- The tenant on whose behalf an action runs. -/
def tenant : CatalogOp → String
  | .mapAttempt t .. | .resolveGatewayId t .. | .markDeleted t .. | .markScopeDeleted t ..
  | .liveCount t .. | .getBinding t .. | .insertBinding t .. | .replaceBinding t ..
  | .journal t .. | .deleteJournal t .. => t

def writesIndex : CatalogOp → Bool
  | .mapAttempt .. | .markDeleted .. | .markScopeDeleted .. => true
  | _ => false

def writesBinding : CatalogOp → Bool
  | .insertBinding .. | .replaceBinding .. => true
  | _ => false

def writesJournal : CatalogOp → Bool
  | .journal .. | .deleteJournal .. => true
  | _ => false

theorem exec_memoryIndex {op : CatalogOp} (h : op.writesIndex = false) :
    (op.exec env c).2.memoryIndex = c.memoryIndex := by
  cases op with
  | insertBinding => exact insertBinding_memoryIndex
  | replaceBinding => exact replaceBinding_memoryIndex
  | journal => exact journal_memoryIndex
  | resolveGatewayId | liveCount | getBinding | deleteJournal => rfl
  | mapAttempt | markDeleted | markScopeDeleted => cases h

theorem exec_scopeBinding {op : CatalogOp} (h : op.writesBinding = false) :
    (op.exec env c).2.scopeBinding = c.scopeBinding := by
  cases op with
  | mapAttempt tenant provider items scope revive =>
    cases hx : Memgw.mapAttempt env tenant provider items scope revive c with
    | mk r c' =>
      cases r with
      | ok rows => simpa [exec, hx] using (mapAttempt_ok hx).binding
      | error e => simpa [exec, hx] using (mapAttempt_error hx).1.binding
  | journal => exact journal_scopeBinding
  | resolveGatewayId | liveCount | getBinding | deleteJournal | markDeleted | markScopeDeleted => rfl
  | insertBinding | replaceBinding => cases h

theorem exec_episodeJournal {op : CatalogOp} (h : op.writesJournal = false) :
    (op.exec env c).2.episodeJournal = c.episodeJournal := by
  cases op with
  | mapAttempt tenant provider items scope revive =>
    cases hx : Memgw.mapAttempt env tenant provider items scope revive c with
    | mk r c' =>
      cases r with
      | ok rows => simpa [exec, hx] using (mapAttempt_ok hx).journal
      | error e => simpa [exec, hx] using (mapAttempt_error hx).1.journal
  | insertBinding => exact insertBinding_episodeJournal
  | replaceBinding => exact replaceBinding_episodeJournal
  | resolveGatewayId | liveCount | getBinding | markDeleted | markScopeDeleted => rfl
  | journal | deleteJournal => cases h

end CatalogOp

/-! ## Other tenants -/

/-- Every row of a tenant other than the given one is there after as it was before. -/
structure Catalog.OthersKept (tenant : String) (c c' : Catalog) : Prop where
  index : ∀ r : IndexRow, r.tenantId ≠ tenant → (r ∈ c'.memoryIndex ↔ r ∈ c.memoryIndex)
  binding : ∀ b : BindingRow, b.tenantId ≠ tenant → (b ∈ c'.scopeBinding ↔ b ∈ c.scopeBinding)
  journal : ∀ j : JournalRow, j.tenantId ≠ tenant → (j ∈ c'.episodeJournal ↔ j ∈ c.episodeJournal)

namespace Catalog.OthersKept

variable {tenant : String}

theorem refl (c : Catalog) : c.OthersKept tenant c :=
  ⟨fun _ _ => Iff.rfl, fun _ _ => Iff.rfl, fun _ _ => Iff.rfl⟩

theorem trans {c'' : Catalog} (h : c.OthersKept tenant c') (h' : c'.OthersKept tenant c'') :
    c.OthersKept tenant c'' where
  index r hr := (h'.index r hr).trans (h.index r hr)
  binding b hb := (h'.binding b hb).trans (h.binding b hb)
  journal j hj := (h'.journal j hj).trans (h.journal j hj)

theorem still (h : c.Still c') : c.OthersKept tenant c' where
  index r _ := by rw [h.index]
  binding b _ := by rw [h.binding]
  journal j _ := by rw [h.journal]

theorem mapped {provider : String} {items : List (String × String)} {scope : Scope} {revive : Bool}
    {rows : List CatalogRow} (h : Mapped env tenant provider items scope revive c rows c') :
    c.OthersKept tenant c' where
  index r hr := by
    obtain ⟨now, fresh, hindex, hfresh⟩ := h.index
    rw [hindex]
    constructor
    · rintro (⟨r₀, h₀, rfl⟩ | hmem)
      · split at hr
        · rename_i hb
          simp only [IndexRow.buried, Bool.and_eq_true, IndexRow.doomed_iff] at hb
          exact absurd hb.2.1.1 hr
        · rename_i hb
          rwa [if_neg hb]
      · exact absurd (hfresh r hmem).named_tenant hr
    · intro hmem
      refine .inl ⟨r, hmem, ?_⟩
      have hb : r.buried tenant provider (items.map Prod.fst) = false := by
        simp [IndexRow.buried, IndexRow.doomed, hr]
      simp [hb]
  binding b _ := by rw [h.binding]
  journal j _ := by rw [h.journal]

/-- Burying rows that belong to one tenant leaves the others' rows alone. -/
theorem bury {p : IndexRow → Bool} (hp : ∀ r, p r = true → r.tenantId = tenant) :
    c.OthersKept tenant (bury env p c) where
  index r hr := by
    rw [mem_bury]
    constructor
    · rintro ⟨r₀, h₀, rfl⟩
      split at hr
      · rename_i hsel
        exact absurd (hp r₀ hsel) hr
      · rename_i hsel
        rwa [if_neg hsel]
    · intro hmem
      have hsel : ¬ p r = true := fun h => hr (hp r h)
      exact ⟨r, hmem, by simp [hsel]⟩
  binding _ _ := Iff.rfl
  journal _ _ := Iff.rfl

theorem insertBinding {subject provider : String} :
    c.OthersKept tenant (insertBinding env tenant subject provider c).2 where
  index r _ := by rw [insertBinding_memoryIndex]
  binding b hb := by
    cases hx : (Memgw.insertBinding env tenant subject provider c).1 with
    | error e => rw [(insertBinding_error hx).1]
    | ok u =>
      rw [mem_insertBinding hx, or_iff_left_iff_imp]
      rintro rfl
      exact absurd rfl hb
  journal j _ := by rw [insertBinding_episodeJournal]

theorem replaceBinding {subject provider : String} {previous : Option String} :
    c.OthersKept tenant (replaceBinding env tenant subject provider previous c).2 where
  index r _ := by rw [replaceBinding_memoryIndex]
  binding b hb := by
    have hkeep : ¬ (b.tenantId = tenant ∧ b.subject = subject) := fun h => hb h.1
    rw [mem_replaceBinding, and_iff_left hkeep, or_iff_left_iff_imp]
    rintro rfl
    exact absurd rfl hb
  journal j _ := by rw [replaceBinding_episodeJournal]

theorem journalled {scope : Scope} {payload : Episode} {ingestedTo : List (String × List String)} :
    c.OthersKept tenant (Memgw.journal env tenant scope payload ingestedTo c).2 where
  index r _ := by rw [journal_memoryIndex]
  binding b _ := by rw [journal_scopeBinding]
  journal j hj := by
    cases hx : (Memgw.journal env tenant scope payload ingestedTo c).1 with
    | error e => rw [journal_error hx]
    | ok id =>
      rw [(mem_journal hx).2, or_iff_left_iff_imp]
      rintro rfl
      exact absurd rfl hj

theorem deleteJournal {scope : Scope} : c.OthersKept tenant (deleteJournal tenant scope c).2 where
  index _ _ := Iff.rfl
  binding _ _ := Iff.rfl
  journal j hj := by simp [mem_deleteJournal, JournalRow.inScope, hj]

end Catalog.OthersKept

end Memgw
