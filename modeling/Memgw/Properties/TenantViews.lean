-- SUMMARY: What a tenant can see of the catalog and of the tables, and the actions that show there.
import Memgw.Library.Views
import Memgw.Properties.OverlappingTenants

/-!
# What a tenant can see

The part of the catalog and of the tables that is about one tenant. A transaction or a
call for the tenant does to this part what it does to the whole, and gives the same
answer: it asks for no other rows, and the ids that it draws are in nobody's way. One
for another tenant leaves this part as it is, but for the readings that it takes.
-/

namespace Memgw

open Pgvector

variable {env : Env} {t u provider : String} {scope : Scope} {c : Catalog}

/-! ## The catalog -/

/-- The part of the catalog that is about a tenant. -/
def Catalog.only (t : String) (c : Catalog) : Catalog where
  memoryIndex := c.memoryIndex.restrict (·.tenantId == t)
  scopeBinding := c.scopeBinding.restrict (·.tenantId == t)
  episodeJournal := c.episodeJournal.restrict (·.tenantId == t)
  ticks := c.ticks

theorem findByNative_only {natives : List String} :
    findByNative (c.only t).memoryIndex t provider natives =
      findByNative c.memoryIndex t provider natives := by
  have hselect : ∀ chunk : List String, (c.only t).memoryIndex.select (fun r =>
      r.tenantId == t && r.provider == provider && chunk.contains r.nativeId) =
        c.memoryIndex.select fun r =>
          r.tenantId == t && r.provider == provider && chunk.contains r.nativeId := by
    intro chunk
    refine Table.select_restrict fun r _ hr => ?_
    exact (Bool.and_eq_true_iff.mp (Bool.and_eq_true_iff.mp hr).1).1
  simp only [findByNative, hselect]

theorem missingItems_only {items : List (String × String)} :
    missingItems (c.only t).memoryIndex t provider items =
      missingItems c.memoryIndex t provider items := by
  simp only [missingItems, findByNative_only]

/-- Fresh rows differ from those of other tenants, and their ids from all. -/
theorem apart_freshRows (hminted : c.Minted env) {missing : List (String × String)} :
    ∀ a ∈ c.memoryIndex, (a.tenantId == t) = false →
      ∀ b ∈ freshRows env t provider missing scope c.ticks, Apart indexKeys a b := by
  intro a ha hat b hb
  obtain ⟨hbt, -, -, -, -, -, -, k, hk, -, hid⟩ := mem_freshRows hb
  obtain ⟨j, hj, hid'⟩ := hminted a ha
  have hne : a.gatewayId ≠ b.gatewayId := by
    intro heq
    have := env.newId_injective "mg" (hid'.symm.trans (heq.trans hid))
    omega
  have htenant : a.tenantId ≠ b.tenantId := hbt ▸ ne_of_beq_false hat
  simp [Apart, indexKeys, IndexRow.idKey, IndexRow.nativeKey, hne, htenant]

theorem insertMissing_only (hminted : c.Minted env) {missing : List (String × String)} :
    insertMissing env t provider missing scope (c.only t) =
      ((insertMissing env t provider missing scope c).1,
        (insertMissing env t provider missing scope c).2.only t) := by
  have hinsert : (c.only t).memoryIndex.insert (freshRows env t provider missing scope c.ticks) =
      (c.memoryIndex.insert (freshRows env t provider missing scope c.ticks)).map
        (Table.restrict (·.tenantId == t)) :=
    Table.insert_restrict (fun b hb => beq_iff_eq.mpr (mem_freshRows hb).1)
      (apart_freshRows hminted)
  simp only [insertMissing, show (c.only t).ticks = c.ticks from rfl, hinsert]
  cases c.memoryIndex.insert (freshRows env t provider missing scope c.ticks) <;> rfl

theorem insertMissing_hidden (hut : u ≠ t) {missing : List (String × String)} :
    (c.only t).Still ((insertMissing env u provider missing scope c).2.only t) := by
  simp only [insertMissing]
  split
  · exact ⟨rfl, rfl, rfl, Nat.le_add_right ..⟩
  · rename_i index hindex
    refine ⟨Table.restrict_insert hindex fun b hb => ?_, rfl, rfl, Nat.le_add_right ..⟩
    rw [(mem_freshRows hb).1]
    exact beq_eq_false_iff_ne.mpr hut

theorem IndexRow.revived_keys {now : Time} {content : String} (r : IndexRow) :
    ∀ key ∈ indexKeys, key (r.revived env now scope content) = key r := by
  simp [indexKeys, IndexRow.idKey, IndexRow.nativeKey, IndexRow.revived]

section

variable {contents : String → Option String} {now : Time} {natives : List String} {n : String}
  {index : Table indexKeys}

theorem reviveAll_cons :
    reviveAll env u provider (n :: natives) scope contents now index =
      reviveAll env u provider natives scope contents now
        (index.updateWhere (IndexRow.named u provider n)
          (IndexRow.revived env now scope ((contents n).getD "")) IndexRow.revived_keys) := rfl

theorem reviveAll_only :
    reviveAll env t provider natives scope contents now (index.restrict (·.tenantId == t)) =
      (reviveAll env t provider natives scope contents now index).restrict (·.tenantId == t) := by
  induction natives generalizing index with
  | nil => rfl
  | cons n natives ih =>
    rw [reviveAll_cons, Table.updateWhere_restrict IndexRow.revived_keys fun _ _ _ => rfl, ih,
      reviveAll_cons]

theorem reviveAll_hidden (hut : u ≠ t) :
    (reviveAll env u provider natives scope contents now index).restrict (·.tenantId == t) =
      index.restrict (·.tenantId == t) := by
  induction natives generalizing index with
  | nil => rfl
  | cons n natives ih =>
    rw [reviveAll_cons, ih]
    refine Table.restrict_updateWhere IndexRow.revived_keys fun r _ hr => ?_
    obtain ⟨hru, -, -⟩ := IndexRow.named_iff.mp hr
    have hne : (r.tenantId == t) = false := beq_eq_false_iff_ne.mpr (hru ▸ hut)
    exact ⟨hne, hne⟩

end

/-- A transaction's effect on the index, and what it looked up there, as the tenant sees it. -/
theorem reviveDoomed_only {items : List (String × String)} {known : Known} :
    reviveDoomed env t provider items scope known (c.only t) =
      ((reviveDoomed env t provider items scope known c).1,
        (reviveDoomed env t provider items scope known c).2.only t) := by
  simp only [reviveDoomed]
  split
  · rfl
  · rename_i hdoomed
    generalize (items.map Prod.fst).filter (fun n => (known n).getD .gone = .gone) = doomed
    have hindex : (c.only t).memoryIndex = c.memoryIndex.restrict (·.tenantId == t) := rfl
    have hticks : (c.only t).ticks = c.ticks := rfl
    rw [hindex, hticks, reviveAll_only]
    generalize reviveAll env t provider doomed scope (contents items) (env.now c.ticks)
      c.memoryIndex = index
    exact Prod.ext (congrArg known.update (findByNative_only (c := { c with memoryIndex := index }))) rfl

theorem reviveDoomed_hidden (hut : u ≠ t) {items : List (String × String)} {known : Known} :
    (c.only t).Still ((reviveDoomed env u provider items scope known c).2.only t) := by
  simp only [reviveDoomed]
  split
  · exact .refl _
  · exact ⟨reviveAll_hidden hut, rfl, rfl, Nat.le_succ _⟩

theorem mapAttempt_only (hminted : c.Minted env) {items : List (String × String)} {revive : Bool} :
    mapAttempt env t provider items scope revive (c.only t) =
      ((mapAttempt env t provider items scope revive c).1,
        (mapAttempt env t provider items scope revive c).2.only t) := by
  simp only [mapAttempt, findByNative_only, missingItems_only, insertMissing_only hminted]
  generalize missingItems c.memoryIndex t provider items = missing
  by_cases hmissing : missing = []
  · simp only [if_pos hmissing]
    cases revive with
    | false => rfl
    | true => simp only [if_true, reviveDoomed_only]
  · simp only [if_neg hmissing]
    cases hinsert : insertMissing env t provider missing scope c with
    | mk r c' =>
      cases r with
      | error e => rfl
      | ok fresh =>
        cases revive with
        | false => rfl
        | true => simp only [if_true, reviveDoomed_only]

theorem mapAttempt_hidden (hut : u ≠ t) {items : List (String × String)} {revive : Bool} :
    (c.only t).Still ((mapAttempt env u provider items scope revive c).2.only t) := by
  simp only [mapAttempt]
  generalize missingItems c.memoryIndex u provider items = missing
  have hrevive : ∀ known : Known, ∀ c' : Catalog, (c.only t).Still (c'.only t) →
      (c.only t).Still ((if revive then reviveDoomed env u provider items scope known c'
        else (known, c')).2.only t) := by
    intro known c' hc'
    split
    · exact hc'.trans (reviveDoomed_hidden hut)
    · exact hc'
  by_cases hmissing : missing = []
  · simp only [if_pos hmissing]
    exact hrevive _ c (.refl _)
  · simp only [if_neg hmissing]
    have hinsert : (c.only t).Still ((insertMissing env u provider missing scope c).2.only t) :=
      insertMissing_hidden hut
    cases hresult : insertMissing env u provider missing scope c with
    | mk r c' =>
      rw [hresult] at hinsert
      cases r with
      | error e => exact hinsert
      | ok fresh => exact hrevive _ c' hinsert

theorem bury_only {p : IndexRow → Bool} : bury env p (c.only t) = (bury env p c).only t :=
  congrArg (fun index => { c.only t with memoryIndex := index, ticks := c.ticks + 1 })
    (Table.updateWhere_restrict IndexRow.deleted_keys fun _ _ _ => rfl)

theorem bury_hidden {p : IndexRow → Bool} (hp : ∀ r, p r = true → r.tenantId = u) (hut : u ≠ t) :
    (c.only t).Still ((bury env p c).only t) := by
  have hindex : ((bury env p c).only t).memoryIndex = (c.only t).memoryIndex := by
    refine Table.restrict_updateWhere IndexRow.deleted_keys fun r _ hr => ?_
    have hne : (r.tenantId == t) = false := beq_eq_false_iff_ne.mpr (hp r hr ▸ hut)
    exact ⟨hne, hne⟩
  exact ⟨hindex, rfl, rfl, Nat.le_succ _⟩

theorem insert_binding_only {table : Table bindingKeys} {row : BindingRow} (ht : row.tenantId = t) :
    (table.restrict (·.tenantId == t)).insert [row] =
      (table.insert [row]).map (Table.restrict (·.tenantId == t)) := by
  refine Table.insert_restrict (fun b hb => ?_) fun a _ hat b hb => ?_
  · obtain rfl := List.mem_singleton.mp hb
    exact beq_iff_eq.mpr ht
  · obtain rfl := List.mem_singleton.mp hb
    exact apart_binding.mpr fun hsame => ne_of_beq_false hat (hsame.1.trans ht)

theorem insertBinding_only {subject : String} :
    insertBinding env t subject provider (c.only t) =
      ((insertBinding env t subject provider c).1,
        (insertBinding env t subject provider c).2.only t) := by
  simp only [insertBinding, show (c.only t).ticks = c.ticks from rfl,
    show (c.only t).scopeBinding = c.scopeBinding.restrict (·.tenantId == t) from rfl]
  rw [insert_binding_only]
  · cases c.scopeBinding.insert _ <;> rfl
  · rfl

theorem insertBinding_hidden (hut : u ≠ t) {subject : String} :
    (c.only t).Still ((insertBinding env u subject provider c).2.only t) := by
  simp only [insertBinding]
  split
  · exact ⟨rfl, rfl, rfl, Nat.le_succ _⟩
  · rename_i binding hbinding
    refine ⟨rfl, Table.restrict_insert hbinding fun b hb => ?_, rfl, Nat.le_succ _⟩
    obtain rfl := List.mem_singleton.mp hb
    exact beq_eq_false_iff_ne.mpr hut

theorem replaceBinding_only {subject : String} {previous : Option String} :
    replaceBinding env t subject provider previous (c.only t) =
      ((replaceBinding env t subject provider previous c).1,
        (replaceBinding env t subject provider previous c).2.only t) := by
  simp only [replaceBinding, show (c.only t).ticks = c.ticks from rfl,
    show (c.only t).scopeBinding = c.scopeBinding.restrict (·.tenantId == t) from rfl]
  rw [Table.deleteWhere_restrict, insert_binding_only]
  · cases (c.scopeBinding.deleteWhere _).insert _ <;> rfl
  · rfl

theorem replaceBinding_hidden (hut : u ≠ t) {subject : String} {previous : Option String} :
    (c.only t).Still ((replaceBinding env u subject provider previous c).2.only t) := by
  simp only [replaceBinding]
  split
  · exact ⟨rfl, rfl, rfl, Nat.le_succ _⟩
  · rename_i binding hbinding
    have hinserted := Table.restrict_insert (v := (·.tenantId == t)) hbinding fun b hb => by
      obtain rfl := List.mem_singleton.mp hb
      exact beq_eq_false_iff_ne.mpr hut
    have hdeleted := Table.restrict_deleteWhere (t := c.scopeBinding) (v := (·.tenantId == t))
      (p := BindingRow.bound u subject) fun b _ hb =>
        beq_eq_false_iff_ne.mpr ((BindingRow.bound_iff.mp hb).1 ▸ hut)
    exact ⟨rfl, hinserted.trans hdeleted, rfl, Nat.le_succ _⟩

theorem journal_only (hnumbered : c.Numbered env) {payload : Episode}
    {ingestedTo : List (String × List String)} :
    journal env t scope payload ingestedTo (c.only t) =
      ((journal env t scope payload ingestedTo c).1,
        (journal env t scope payload ingestedTo c).2.only t) := by
  simp only [journal, show (c.only t).ticks = c.ticks from rfl,
    show (c.only t).episodeJournal = c.episodeJournal.restrict (·.tenantId == t) from rfl]
  rw [Table.insert_restrict]
  · cases c.episodeJournal.insert _ <;> rfl
  · intro b hb
    obtain rfl := List.mem_singleton.mp hb
    exact beq_self_eq_true t
  · intro a ha _ b hb
    obtain rfl := List.mem_singleton.mp hb
    obtain ⟨k, hk, hid⟩ := hnumbered a ha
    have hne : a.episodeId ≠ env.newId "ep" c.ticks := by
      intro heq
      have := env.newId_injective "ep" (hid.symm.trans heq)
      omega
    simp [Apart, journalKeys, hne]

theorem journal_hidden (hut : u ≠ t) {payload : Episode}
    {ingestedTo : List (String × List String)} :
    (c.only t).Still ((journal env u scope payload ingestedTo c).2.only t) := by
  simp only [journal]
  split
  · exact ⟨rfl, rfl, rfl, Nat.le_succ _⟩
  · rename_i rows hrows
    refine ⟨rfl, rfl, Table.restrict_insert hrows fun b hb => ?_, Nat.le_succ _⟩
    obtain rfl := List.mem_singleton.mp hb
    exact beq_eq_false_iff_ne.mpr hut

/-- A transaction for the tenant shows. -/
theorem CatalogOp.exec_only (hminted : c.Minted env) (hnumbered : c.Numbered env) (op : CatalogOp)
    (ht : op.tenant = t) :
    op.exec env (c.only t) = ((op.exec env c).1, (op.exec env c).2.only t) := by
  obtain rfl := ht
  cases op with
  | mapAttempt => exact mapAttempt_only hminted
  | resolveGatewayId tenant gatewayId =>
    have hfind : (c.only tenant).memoryIndex.find? (IndexRow.issued tenant gatewayId) =
        c.memoryIndex.find? (IndexRow.issued tenant gatewayId) :=
      Table.find?_restrict fun r _ hr => beq_iff_eq.mpr (IndexRow.issued_iff.mp hr).2.1
    simp only [exec, Memgw.resolveGatewayId, hfind, CatalogOp.tenant]
  | markDeleted tenant gatewayId =>
    have hcount : (c.only tenant).memoryIndex.count (IndexRow.issued tenant gatewayId) =
        c.memoryIndex.count (IndexRow.issued tenant gatewayId) :=
      Table.count_restrict fun r _ hr => beq_iff_eq.mpr (IndexRow.issued_iff.mp hr).2.1
    simp only [exec, Memgw.markDeleted, hcount, bury_only, CatalogOp.tenant]
  | markScopeDeleted tenant scope provider =>
    have hcount : (c.only tenant).memoryIndex.count (IndexRow.inScope tenant scope provider) =
        c.memoryIndex.count (IndexRow.inScope tenant scope provider) :=
      Table.count_restrict fun r _ hr => beq_iff_eq.mpr (IndexRow.inScope_iff.mp hr).1
    simp only [exec, Memgw.markScopeDeleted, hcount, bury_only, CatalogOp.tenant]
  | liveCount tenant subject provider =>
    have hcount : (c.only tenant).memoryIndex.count (IndexRow.liveAt tenant subject provider) =
        c.memoryIndex.count (IndexRow.liveAt tenant subject provider) := by
      refine Table.count_restrict fun r _ hr => ?_
      simp only [IndexRow.liveAt, Bool.and_eq_true] at hr
      exact hr.1.1.1
    simp only [exec, Memgw.liveCount, hcount, CatalogOp.tenant]
  | getBinding tenant subject =>
    have hfind : (c.only tenant).scopeBinding.find? (BindingRow.bound tenant subject) =
        c.scopeBinding.find? (BindingRow.bound tenant subject) :=
      Table.find?_restrict fun b _ hb => beq_iff_eq.mpr (BindingRow.bound_iff.mp hb).1
    simp only [exec, Memgw.getBinding, hfind, CatalogOp.tenant]
  | insertBinding => exact insertBinding_only
  | replaceBinding => exact replaceBinding_only
  | journal => exact journal_only hnumbered
  | deleteJournal tenant scope =>
    have hcount : (c.only tenant).episodeJournal.count (JournalRow.inScope tenant scope) =
        c.episodeJournal.count (JournalRow.inScope tenant scope) :=
      Table.count_restrict fun j _ hj => beq_iff_eq.mpr (JournalRow.inScope_iff.mp hj).1
    simp only [exec, Memgw.deleteJournal, hcount, CatalogOp.tenant]
    exact congrArg (fun rows => (_, { c.only tenant with episodeJournal := rows }))
      Table.deleteWhere_restrict

/-- One for another tenant does not. -/
theorem CatalogOp.exec_hidden (op : CatalogOp) (ht : op.tenant ≠ t) :
    (c.only t).Still ((op.exec env c).2.only t) := by
  cases op with
  | mapAttempt => exact mapAttempt_hidden ht
  | resolveGatewayId | liveCount | getBinding => exact .refl _
  | markDeleted => exact bury_hidden (fun r hr => (IndexRow.issued_iff.mp hr).2.1) ht
  | markScopeDeleted => exact bury_hidden (fun r hr => (IndexRow.inScope_iff.mp hr).1) ht
  | insertBinding => exact insertBinding_hidden ht
  | replaceBinding => exact replaceBinding_hidden ht
  | journal => exact journal_hidden ht
  | deleteJournal tenant scope =>
    refine ⟨rfl, rfl, Table.restrict_deleteWhere fun j _ hj => ?_, le_rfl⟩
    exact beq_eq_false_iff_ne.mpr ((JournalRow.inScope_iff.mp hj).1 ▸ ht)

theorem CatalogOp.minted (hminted : c.Minted env) (op : CatalogOp) :
    (op.exec env c).2.Minted env := by
  cases op with
  | mapAttempt t p items scope revive =>
    simp only [exec]
    cases hmap : Memgw.mapAttempt env t p items scope revive c with
    | mk r c' =>
      cases r with
      | ok rows => exact hminted.mapped (mapAttempt_ok hmap)
      | error e => exact hminted.still (mapAttempt_error hmap).1
  | markDeleted | markScopeDeleted => exact hminted.bury
  | resolveGatewayId | liveCount | getBinding | deleteJournal => exact hminted
  | insertBinding | replaceBinding | journal =>
    intro r hr
    obtain ⟨k, hk, hid⟩ := hminted r (by simpa [exec] using hr)
    exact ⟨k, by simp [exec]; omega, hid⟩

theorem CatalogOp.numbered (hnumbered : c.Numbered env) (op : CatalogOp) :
    (op.exec env c).2.Numbered env := by
  cases op with
  | mapAttempt t p items scope revive =>
    simp only [exec]
    cases hmap : Memgw.mapAttempt env t p items scope revive c with
    | mk r c' =>
      cases r with
      | ok rows =>
        have hmapped := mapAttempt_ok hmap
        exact hnumbered.mono (fun j hj => hmapped.journal ▸ hj) hmapped.ticks
      | error e =>
        have hstill := (mapAttempt_error hmap).1
        exact hnumbered.mono (fun j hj => hstill.journal ▸ hj) hstill.ticks
  | markDeleted | markScopeDeleted => exact hnumbered.mono (fun _ hj => hj) (Nat.le_succ _)
  | resolveGatewayId | liveCount | getBinding => exact hnumbered
  | insertBinding | replaceBinding =>
    exact hnumbered.mono (fun j hj => by simpa [exec] using hj) (by simp [exec])
  | journal => exact hnumbered.journal
  | deleteJournal => exact hnumbered.mono (fun j hj => (mem_deleteJournal.mp hj).1) le_rfl

/-! ## The tables -/

namespace Pgvector

variable {cfg : Config} {s : State}

/-- The part of the tables that is about a tenant. -/
def State.only (t : String) (s : State) : State where
  tables table := (s.tables table).restrict (·.tenant == some t)
  ticks := s.ticks

theorem setRows_only {rows : Rows} :
    (s.only t).setRows cfg (rows.restrict (·.tenant == some t)) = (s.setRows cfg rows).only t := by
  simp only [State.setRows, State.only]
  congr
  funext table
  by_cases htable : table = cfg.table
  · subst htable
    simp
  · simp [htable]

theorem rewriteIn_only {n content : String} {embedding : List Score} {now : Time} {rows : Rows} :
    rewriteIn n content embedding now (rows.restrict (·.tenant == some t)) =
      (rewriteIn n content embedding now rows).restrict (·.tenant == some t) :=
  Table.updateWhere_restrict _ fun _ _ _ => rfl

/-- The action asks for rows of the tenant alone, and what it writes are new rows of the
    tenant. -/
def Action.Inside (cfg : Config) (t : String) : Action → State → Prop
  | .embed _, _ | .extract .., _ | .draw _, _ => True
  | .insert rows, s => ∀ r ∈ rows, r.tenant = some t ∧ ∀ r₀ ∈ s.rows cfg, r₀.nativeId ≠ r.nativeId
  | .rewrite n .., s => ∀ r ∈ s.rows cfg, r.nativeId = n → r.tenant = some t
  | .select p, s => ∀ r ∈ s.rows cfg, p r = true → r.tenant = some t
  | .delete ps, s => ∀ r ∈ s.rows cfg, (∃ p ∈ ps, p r = true) → r.tenant = some t

theorem Action.Inside.shows {op : Action} (h : op.Inside cfg t s) :
    ShowsIn (handle cfg) (State.only t) op s := by
  have hrows : (s.only t).rows cfg = (s.rows cfg).restrict (·.tenant == some t) := rfl
  cases op with
  | embed | extract | draw => rfl
  | insert rows =>
    cases rows with
    | nil => rfl
    | cons r rows =>
      have hinsert : ((s.only t).rows cfg).insert (r :: rows) =
          ((s.rows cfg).insert (r :: rows)).map (Table.restrict (·.tenant == some t)) := by
        refine Table.insert_restrict (fun b hb => beq_iff_eq.mpr (h b hb).1) fun a ha _ b hb => ?_
        intro key hkey
        obtain rfl := List.mem_singleton.mp hkey
        exact (h b hb).2 a ha
      simp only [ShowsIn, handle, hinsert]
      cases (s.rows cfg).insert (r :: rows) with
      | none => rfl
      | some rows => exact congrArg (Prod.mk _) setRows_only
  | rewrite n content embedding now =>
    have hown : ∀ r ∈ s.rows cfg, (r.nativeId == n) = true → (r.tenant == some t) = true :=
      fun r hr hid => beq_iff_eq.mpr (h r hr (beq_iff_eq.mp hid))
    simp only [ShowsIn, handle, hrows, Table.count_restrict hown, rewriteIn_only, setRows_only]
  | select p =>
    have hown : ∀ r ∈ s.rows cfg, p r = true → (r.tenant == some t) = true :=
      fun r hr hp => beq_iff_eq.mpr (h r hr hp)
    simp only [ShowsIn, handle, hrows, Table.select_restrict hown]
  | delete ps =>
    have hown : ∀ r ∈ s.rows cfg, ps.any (· r) = true → (r.tenant == some t) = true :=
      fun r hr hp => beq_iff_eq.mpr (h r hr (List.any_eq_true.mp hp))
    simp only [ShowsIn, handle, hrows, deleteAll_eq, Table.count_restrict hown,
      Table.deleteWhere_restrict, setRows_only]

theorem unchanged_only {rows : Rows}
    (h : rows.restrict (·.tenant == some t) = (s.rows cfg).restrict (·.tenant == some t)) :
    Unchanged (s.only t) ((s.setRows cfg rows).only t) := by
  refine ⟨?_, le_rfl⟩
  rw [← setRows_only, h]
  exact congrArg State.tables (setRows_self (s := s.only t))

theorem Action.Inside.hidden {op : Action} (h : op.Inside cfg u s) (hut : u ≠ t) :
    Unchanged (s.only t) ((handle cfg op s).2.only t) := by
  have hother : ∀ r : Row, r.tenant = some u → (r.tenant == some t) = false :=
    fun r hr => beq_eq_false_iff_ne.mpr fun h => hut (Option.some.inj (hr.symm.trans h))
  cases op with
  | embed | extract | draw => exact ⟨rfl, Nat.le_add_right ..⟩
  | insert rows =>
    cases rows with
    | nil => exact .refl _
    | cons r rows =>
      simp only [handle]
      split
      · exact .refl _
      · rename_i rows' hinsert
        exact unchanged_only (Table.restrict_insert hinsert fun b hb => hother b (h b hb).1)
  | rewrite n content embedding now =>
    refine unchanged_only (Table.restrict_updateWhere _ fun r hr hid => ?_)
    have hne := hother r (h r hr (beq_iff_eq.mp hid))
    exact ⟨hne, hne⟩
  | select p => exact .refl _
  | delete ps =>
    simp only [handle, deleteAll_eq]
    refine unchanged_only (Table.restrict_deleteWhere fun r hr hp => ?_)
    exact hother r (h r hr (List.any_eq_true.mp hp))

/-! ## Programs -/

section

variable {bare : Scope} {n : String}

theorem tenant_of_conditions (ht : t ≠ "") {r : Row} (hr : conditions (bare.under t) r = true) :
    r.tenant = some t :=
  (conditions_iff.mp hr).2.1 t (bare.under_tenant? ht)

theorem along_act {β : Type} {C : Action → State → Prop} {op : Action} {f : op.Ans → PgProg β}
    (hop : C op s)
    (hf : ∀ a, (handle cfg op s).1 = .ok a → (f a).Along (handle cfg) C (handle cfg op s).2) :
    ((act op).bind f).Along (handle cfg) C s := Prog.along_perform_bind hop hf

theorem upsert_inside (hminted : ∀ r ∈ s.rows cfg, MintedBelow env s.ticks r.nativeId)
    {facts : List String} :
    (upsert env facts (bare.under t)).Along (handle cfg) (Action.Inside cfg t) s := by
  refine along_act trivial fun vectors _ => along_act trivial fun k hk => ?_
  obtain rfl : s.ticks + 1 = k := Except.ok.inj hk
  split
  · trivial
  split
  · trivial
  refine along_act ?_ fun _ _ => trivial
  intro r hr
  obtain ⟨htenant, -, -, -, -, i, hi, -, hid⟩ := newRows_fresh hr
  refine ⟨htenant, fun r₀ h₀ heq => ?_⟩
  obtain ⟨j, hj, hid'⟩ := hminted r₀ h₀
  have := env.newId_injective "pv" (hid'.symm.trans (heq.trans hid))
  omega

theorem get_inside (hown : ∀ r ∈ s.rows cfg, r.nativeId = n → r.tenant = some t) :
    (get n).Along (handle cfg) (Action.Inside cfg t) s :=
  along_act (fun r hr hid => hown r hr (beq_iff_eq.mp hid)) fun _ _ => trivial

theorem update_inside (hown : ∀ r ∈ s.rows cfg, r.nativeId = n → r.tenant = some t)
    {content : String} : (update env n content).Along (handle cfg) (Action.Inside cfg t) s := by
  refine along_act trivial fun vectors _ => ?_
  split
  · trivial
  · trivial
  refine along_act trivial fun k _ => along_act hown fun count _ => ?_
  split
  · trivial
  refine Prog.along_bind (get_inside fun r hr hid => ?_) fun got _ => ?_
  · simp only [handle, setRows_rows] at hr
    obtain ⟨r₀, h₀, rfl⟩ := Table.mem_updateWhere.mp hr
    split at hid <;> split <;> exact hown r₀ h₀ hid
  · split <;> trivial

theorem rowsInScope_inside (ht : t ≠ "") {orderByRecent : Bool} {limit : Option Nat} :
    (rowsInScope (bare.under t) orderByRecent limit).Along (handle cfg) (Action.Inside cfg t) s := by
  refine along_act (fun r _ hr => tenant_of_conditions ht hr) fun rows _ => ?_
  split <;> split <;> trivial

theorem search_inside (ht : t ≠ "") {query : SearchQuery} :
    (search cfg query (bare.under t)).Along (handle cfg) (Action.Inside cfg t) s := by
  unfold search
  split
  · trivial
  refine along_act trivial fun vectors _ => ?_
  split
  · trivial
  · trivial
  split
  · refine along_act (fun r _ hr => ?_) fun _ _ => trivial
    exact tenant_of_conditions ht (Bool.and_eq_true_iff.mp hr).1
  · exact Prog.along_bind (rowsInScope_inside ht) fun _ _ => trivial

theorem deleteScope_inside (ht : t ≠ "") :
    (deleteScope (bare.under t)).Along (handle cfg) (Action.Inside cfg t) s := by
  unfold deleteScope
  split
  · refine Prog.along_perform fun r _ hr => ?_
    obtain ⟨p, hp, hr⟩ := hr
    obtain rfl := List.mem_singleton.mp hp
    exact tenant_of_conditions ht hr
  refine Prog.along_bind (rowsInScope_inside ht) fun rows hrows => ?_
  rw [rowsInScope_run] at hrows ⊢
  obtain rfl := Except.ok.inj hrows
  dsimp only
  split
  · trivial
  refine along_act (fun r hr hchunk => ?_) fun _ _ => trivial
  -- a row with one of the ids is the row of the scope that the id was taken from
  obtain ⟨p, hp, hr'⟩ := hchunk
  obtain ⟨chunk, hchunk, rfl⟩ := List.mem_map.mp hp
  have hdoomed := mem_chunks.mp ⟨chunk, hchunk, List.contains_iff_mem.mp hr'⟩
  obtain ⟨r₀, h₀, hid⟩ := List.mem_map.mp hdoomed
  have h₀ : r₀ ∈ rowsOf cfg s (bare.under t) false := h₀
  obtain ⟨hmem, hselects⟩ := mem_rowsOf.mp h₀
  obtain rfl := eq_of_nativeId hmem hr hid
  exact tenant_of_conditions ht (Bool.and_eq_true_iff.mp hselects).1

/-- Whatever a call that is aimed at a tenant does is inside of the tenant. -/
theorem program_inside {op : AdapterOp} {ms : List Mention} (haim : op.AimedAt t ms) (ht : t ≠ "")
    (hknown : ∀ m ∈ ms, m.Known env s)
    (hminted : ∀ r ∈ s.rows cfg, MintedBelow env s.ticks r.nativeId) :
    (program env cfg op).Along (handle cfg) (Action.Inside cfg t) s := by
  have hown : ∀ n, (∃ m ∈ ms, m.tenant = t ∧ m.nativeId = n) →
      ∀ r ∈ s.rows cfg, r.nativeId = n → r.tenant = some t := by
    rintro n ⟨m, hm, rfl, rfl⟩ r hr hid
    exact ((hknown m hm).fits cfg.table r hr hid).tenant ht
  cases op with
  | ingest episode scope =>
    obtain ⟨bare, rfl⟩ := haim
    simp only [program, ingest]
    split
    · trivial
    refine along_act trivial fun facts _ => ?_
    split
    · trivial
    · exact upsert_inside (s := s.tick 1) fun r hr => (hminted r hr).mono (Nat.le_succ s.ticks)
  | upsert facts scope =>
    obtain ⟨bare, rfl⟩ := haim
    exact upsert_inside hminted
  | update n content => exact update_inside (hown n haim)
  | search query scope =>
    obtain ⟨bare, rfl⟩ := haim
    exact search_inside ht
  | listScope scope limit =>
    obtain ⟨bare, rfl⟩ := haim
    exact Prog.along_bind (rowsInScope_inside ht) fun _ _ => trivial
  | get n => exact get_inside (hown n haim)
  | delete n =>
    refine along_act (fun r hr hid => ?_) fun _ _ => trivial
    obtain ⟨p, hp, hid⟩ := hid
    obtain rfl := List.mem_singleton.mp hp
    exact hown n haim r hr (beq_iff_eq.mp hid)
  | deleteScope scope =>
    obtain ⟨bare, rfl⟩ := haim
    exact deleteScope_inside ht
  | health => trivial

end

end Pgvector

/-! ## Worlds -/

/-- The part of a world that is about a tenant. -/
def World.only (t : String) (w : World State) : World State where
  catalog := w.catalog.only t
  store := w.store.only t

/-- Nothing has happened in between, but ids may have been drawn and time may have passed. -/
structure World.Later (w w' : World State) : Prop where
  catalog : w.catalog.Still w'.catalog
  store : Unchanged w.store w'.store

theorem World.Later.refl (w : World State) : w.Later w := ⟨.refl _, .refl _⟩

theorem World.Later.trans (w₁ w₂ w₃ : World State) (h : w₁.Later w₂) (h' : w₂.Later w₃) :
    w₁.Later w₃ := ⟨h.catalog.trans h'.catalog, h.store.trans h'.store⟩

theorem Met.For.inside {cfg : Config} {name : String} {op : AdapterOp} {w : World State}
    (h : Met.For env t (.adapter name (Pgvector.adapter env cfg) op, w)) (ht : t ≠ "") :
    (program env cfg op).Along (Pgvector.handle cfg) (Action.Inside cfg t) w.store := by
  obtain ⟨hhosted, ms, ⟨-, haim⟩, hknown⟩ := h
  exact program_inside haim ht hknown (hhosted.minted cfg.table)

/-- What happens for a tenant shows in its part of the world. -/
theorem Met.For.shows {e : Met} (h : e.For env t) (ht : t ≠ "") (hminted : e.2.catalog.Minted env)
    (hnumbered : e.2.catalog.Numbered env) : ShowsIn (handle env) (World.only t) e.1 e.2 := by
  obtain ⟨op, w⟩ := e
  cases op with
  | note | emit => rfl
  | catalog op =>
    obtain ⟨-, ms, ⟨htenant, -⟩, -⟩ := h
    have hexec := op.exec_only hminted hnumbered htenant
    simp only [ShowsIn, handle, World.only, hexec]
  | adapter name a op =>
    obtain ⟨cfg, rfl⟩ := h.minds.choose_spec.1.1
    have hrun : (Pgvector.adapter env cfg).call op (w.store.only t) =
        (((Pgvector.adapter env cfg).call op w.store).1,
          ((Pgvector.adapter env cfg).call op w.store).2.only t) :=
      Prog.run_view ((h.inside ht).mono fun _ _ hin => hin.shows)
    simp only [ShowsIn, handle, World.only, hrun]

/-- What happens for another tenant does not. -/
theorem Met.For.hidden {e : Met} (h : e.For env u) (hu : u ≠ "") (hut : u ≠ t) :
    (e.2.only t).Later ((Met.left env e).only t) := by
  obtain ⟨op, w⟩ := e
  cases op with
  | note | emit => exact .refl _
  | catalog op =>
    obtain ⟨-, ms, ⟨rfl, -⟩, -⟩ := h
    exact ⟨op.exec_hidden hut, .refl _⟩
  | adapter name a op =>
    obtain ⟨cfg, rfl⟩ := h.minds.choose_spec.1.1
    refine ⟨.refl _, ?_⟩
    have hrun := Prog.run_related (R := fun s s' => Unchanged (s.only t) (s'.only t))
      (fun _ => .refl _) (fun _ _ _ => .trans) ((h.inside hu).mono fun _ _ hin => hin.hidden hut)
    exact hrun

theorem replay_supplied {ι : Type} {es : List (Event (@Op.Ans State) Exc ι)} {w : World State}
    (hw : w.catalog.Minted env ∧ w.catalog.Numbered env) :
    (replay (handle env) es w).catalog.Minted env ∧
      (replay (handle env) es w).catalog.Numbered env := by
  induction es generalizing w with
  | nil => exact hw
  | cons e es ih =>
    refine ih ?_
    obtain ⟨_, op, _⟩ := e
    cases op with
    | catalog op => exact ⟨op.minted hw.1, op.numbered hw.2⟩
    | adapter | note | emit => exact hw

/-! ## Without the others -/

section

variable {ι : Type} [DecidableEq ι]

/-- What programs for one tenant do shows in its part of the world, and what those for
    others do does not. -/
theorem Confined.leaves_no_trace {α : Type} {T : ι → String → Prop}
    {Q : ι → Except Exc α → Watched → Prop} {pool pool' : ι → CoreProg State α}
    {es : List (Event (@Op.Ans State) Exc ι)} {w' : World State} (hpool : Confined env T Q pool)
    (hone : ∀ i t u, T i t → T i u → t = u) (hnamed : ∀ i t, T i t → t ≠ "")
    (hrun : Exec (handle env) pool nothingStored es pool' w') (t : String)
    [DecidablePred fun i => T i t] :
    ∃ part, (∀ i, T i t → part i = pool' i) ∧
      Alongside (handle env) World.Later pool nothingStored (es.filter fun e => T e.who t) part
        (w'.only t) := by
  have hsupplied : ∀ es₁ : List (Event (@Op.Ans State) Exc ι),
      (replay (handle env) es₁ nothingStored).catalog.Minted env ∧
        (replay (handle env) es₁ nothingStored).catalog.Numbered env :=
    fun es₁ => replay_supplied ⟨fun _ hr => absurd hr Table.not_mem_empty,
      fun _ hj => absurd hj Table.not_mem_empty⟩
  refine exec_view (v := World.only t) (P := fun i => T i t) hrun .refl .trans ?_ ?_ fun _ _ => rfl
  · rintro es₁ e es₂ rfl hown
    obtain ⟨u, hu, -, -, hfor⟩ := hpool.kept hrun
    obtain rfl := hone _ _ _ hown hu
    cases hdata : e.step.1.isData with
    | true => exact (hfor hdata).shows (hnamed _ _ hu) (hsupplied es₁).1 (hsupplied es₁).2
    | false =>
      cases hop : e.step.1 with
      | note | emit => rfl
      | catalog | adapter => rw [hop] at hdata; cases hdata
  · rintro es₁ e es₂ rfl hother
    obtain ⟨u, hu, -, -, hfor⟩ := hpool.kept hrun
    have hut : u ≠ t := fun h => hother (h ▸ hu)
    rw [replay_append]
    cases hdata : e.step.1.isData with
    | true => exact (hfor hdata).hidden (hnamed _ _ hu) hut
    | false =>
      show World.Later _ ((handle env e.step.1 _).2.only t)
      cases hop : e.step.1 with
      | note | emit => exact .refl _
      | catalog | adapter => rw [hop] at hdata; cases hdata

/-- In any overlap of verbs of any tenants, those of one tenant do what they do, and get
    what they get, as if the others were not there: the actions of theirs, with the
    answers, make up a run of their own, in which ids are drawn and time passes between
    the actions and nothing else happens. It ends in their part of the world. -/
theorem others_leave_no_trace (env : Env) (gateway : ι → MemoryCore State) (call : ι → Call)
    (hcores : ∀ i, (gateway i).OverPgvector env) (htenants : ∀ i, (call i).tenant ≠ "")
    (es : List (Event (@Op.Ans State) Exc ι)) (pool' : ι → CoreProg State Reply)
    (w' : World State)
    (hrun : Exec (handle env) (overlapping gateway call) nothingStored es pool' w') (t : String) :
    ∃ part, (∀ i, (call i).tenant = t → part i = pool' i) ∧
      Alongside (handle env) World.Later (overlapping gateway call) nothingStored
        (es.filter fun e => (call e.who).tenant = t) part (w'.only t) :=
  (overlapping_confined hcores htenants).leaves_no_trace (fun _ _ _ h h' => h.symm.trans h')
    (fun i _ h => h ▸ htenants i) hrun t

end

theorem crowd_leaves_no_trace :
    ∃ part, (∀ i, (crowd i).tenant = "a" → part i = playCrowd.2.1 i) ∧
      Alongside (handle .counting) World.Later (overlapping (fun _ => plainGateway) crowd)
        nothingStored (playCrowd.1.filter fun e => (crowd e.who).tenant = "a") part
        (playCrowd.2.2.only "a") := by
  have htenants : ∀ i, (crowd i).tenant ≠ "" := by
    intro i
    cases i <;> decide
  have hrun := play_exec (h := handle .counting) ((List.replicate 5 [.first, .second]).flatten)
    (overlapping (fun _ => plainGateway) crowd) nothingStored
  exact others_leave_no_trace .counting (fun _ => plainGateway) crowd
    (fun _ => plainGateway_overPgvector) htenants _ _ _ hrun "a"

end Memgw
