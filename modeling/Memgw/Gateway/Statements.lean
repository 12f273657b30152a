-- SUMMARY: The map-or-insert transaction statement by statement, and that alone it is the transaction of `Mapping`.
import Memgw.Gateway.Bookkeeping
import Memgw.Library.Interference

/-!
# Statements

To the rest of the development an attempt of `_map` is one action. Under a database
that lets transactions overlap it is several statements, and others may commit
between them: lookups in chunks, one insertion, one update for each id that is
revived, and a second lookup. This module has the calls on the index at that grain.

A transaction keeps other writers off its rows from its first write to its commit,
so its writes can be taken to happen one after the other where it commits. Here any
statement of another call may come in between, which allows for more.
-/

namespace Memgw.Statements

variable {env : Env} {c c' : Catalog}

inductive Statement where
  | lookup (tenant provider : String) (chunk : List String)
  /-- The ids are drawn before it runs. -/
  | insert (tenant provider : String) (missing : List (String × String)) (scope : Scope)
  | clock
  | revive (tenant provider native : String) (scope : Scope) (content : String) (now : Time)
  | markDeleted (tenant gatewayId : String)
  | markScopeDeleted (tenant : String) (scope : Scope) (provider : String)

@[reducible] def Statement.Ans : Statement → Type
  | .lookup .. => List IndexRow
  | .insert .. => Known
  | .clock => Time
  | .revive .. => Unit
  | .markDeleted .. => Bool
  | .markScopeDeleted .. => Nat

def chunkRows (index : Table indexKeys) (tenant provider : String) (chunk : List String) :
    List IndexRow :=
  index.select fun r => r.tenantId == tenant && r.provider == provider && chunk.contains r.nativeId

def reviveOne (env : Env) (tenant provider native : String) (scope : Scope) (content : String)
    (now : Time) (index : Table indexKeys) : Table indexKeys :=
  index.updateWhere (IndexRow.named tenant provider native) (IndexRow.revived env now scope content)
    (by simp [indexKeys, IndexRow.idKey, IndexRow.nativeKey, IndexRow.revived])

def Statement.exec (env : Env) : Handler Statement.Ans Exc Catalog
  | .lookup tenant provider chunk, c => (.ok (chunkRows c.memoryIndex tenant provider chunk), c)
  | .insert tenant provider missing scope, c => insertMissing env tenant provider missing scope c
  | .clock, c => (.ok (env.now c.ticks), { c with ticks := c.ticks + 1 })
  | .revive tenant provider native scope content now, c =>
    (.ok (), { c with
      memoryIndex := reviveOne env tenant provider native scope content now c.memoryIndex })
  | .markDeleted tenant gatewayId, c =>
    let (found, c) := Memgw.markDeleted env tenant gatewayId c
    (.ok found, c)
  | .markScopeDeleted tenant scope provider, c =>
    let (count, c) := Memgw.markScopeDeleted env tenant scope provider c
    (.ok count, c)

abbrev IndexProg (α : Type) : Type := Prog Statement.Ans Exc α


def execute (st : Statement) : IndexProg st.Ans := Prog.perform st

theorem under_execute {R G : Catalog → Catalog → Prop} {st : Statement}
    {Q : Except Exc st.Ans → Catalog → Prop} :
    (execute st).Under (Statement.exec env) R G Q c ↔
      ∀ c', R c c' → G c' (st.exec env c').2 ∧ Q (st.exec env c').1 (st.exec env c').2 :=
  Prog.under_perform

/-! ## One attempt -/

/-- `_find_by_native`, one statement for each chunk. -/
def findByNative (tenant provider : String) : List (List String) → Known → IndexProg Known
  | [], found => .ret found
  | chunk :: rest, found => do
    let rows ← execute (.lookup tenant provider chunk)
    findByNative tenant provider rest (found.record rows)

/-- `if missing: known.update(_insert(…))`. -/
def insertMissing (tenant provider : String) (missing : List (String × String)) (scope : Scope)
    (known : Known) : IndexProg Known :=
  if missing = [] then .ret known
  else do
    let fresh ← execute (.insert tenant provider missing scope)
    return known.update fresh

/-- The loop of `_revive`. -/
def reviveEach (tenant provider : String) (scope : Scope) (contents : String → Option String)
    (now : Time) : List String → IndexProg Unit
  | [] => .ret ()
  | native :: natives => do
    execute (.revive tenant provider native scope ((contents native).getD "") now)
    reviveEach tenant provider scope contents now natives

def reviveDoomed (tenant provider : String) (items : List (String × String)) (scope : Scope)
    (known : Known) : IndexProg Known :=
  let doomed := (items.map Prod.fst).filter fun n => (known n).getD .gone = .gone
  if doomed = [] then .ret known
  else do
    let now ← execute .clock
    reviveEach tenant provider scope (contents items) now doomed
    let found ← findByNative tenant provider (chunks doomed) fun _ => none
    return known.update found

/-- A page as `record_many` and `ensure_many` hand it to `_map`. -/
structure Page where
  tenant : String
  provider : String
  items : List (String × String)
  scope : Scope
  revive : Bool

def Page.natives (q : Page) : List String := q.items.map Prod.fst

/-- `if revive:` -/
def Page.takeBack (q : Page) (known : Known) : IndexProg Known :=
  if q.revive then reviveDoomed q.tenant q.provider q.items q.scope known else .ret known

/-- What an attempt does once it has looked its page up. -/
def Page.settle (q : Page) (known : Known) : IndexProg (List CatalogRow) := do
  let missing := q.items.filter fun item => (known item.1).isNone
  let known ← insertMissing q.tenant q.provider missing q.scope known
  let known ← q.takeBack known
  return known.rows q.natives

/-- One pass of `_map` through its transaction. -/
def Page.attempt (q : Page) : IndexProg (List CatalogRow) := do
  let known ← findByNative q.tenant q.provider (chunks q.natives) fun _ => none
  q.settle known

/-- What follows a lost race. -/
def retry (n : Nat) (next : IndexProg (List CatalogRow)) : Exc → IndexProg (List CatalogRow)
  | .integrity text => if n = 0 then .raise (.integrity text) else next
  | e => .raise e

def Page.attempts (q : Page) : Nat → IndexProg (List CatalogRow)
  | 0 => .raise (.other "AssertionError" "unreachable")
  | n + 1 => q.attempt.tryCatch (retry n (q.attempts n))

/-- `_map`. -/
def Page.map (q : Page) : IndexProg (List CatalogRow) :=
  if q.items = [] then .ret [] else q.attempts retries

/-! ## The calls -/

inductive IndexCall where
  | recordMany (tenant provider : String) (items : List (String × String)) (scope : Scope)
  | ensureMany (tenant provider : String) (items : List (String × String)) (scope : Scope)
  | markDeleted (tenant gatewayId : String)
  | markScopeDeleted (tenant : String) (scope : Scope) (provider : String)

inductive IndexReply where
  | mapped (rows : List CatalogRow)
  | marked (found : Bool)
  | erased (count : Nat)
  deriving DecidableEq

def IndexCall.prog : IndexCall → IndexProg IndexReply
  | .recordMany tenant provider items scope => do
    let rows ← Page.map ⟨tenant, provider, items, scope, true⟩
    return .mapped rows
  | .ensureMany tenant provider items scope => do
    let rows ← Page.map ⟨tenant, provider, items, scope, false⟩
    return .mapped rows
  | .markDeleted tenant gatewayId => do
    let found ← execute (.markDeleted tenant gatewayId)
    return .marked found
  | .markScopeDeleted tenant scope provider => do
    let count ← execute (.markScopeDeleted tenant scope provider)
    return .erased count

/-! ## Alone -/

theorem findByNative_run {tenant provider : String} {cs : List (List String)} {found : Known} :
    (findByNative tenant provider cs found).run (Statement.exec env) c =
      (.ok (cs.foldl (fun found chunk =>
        found.record (chunkRows c.memoryIndex tenant provider chunk)) found), c) := by
  induction cs generalizing found with
  | nil => rfl
  | cons chunk cs ih => exact ih

theorem lookup_run {tenant provider : String} {natives : List String} :
    (findByNative tenant provider (chunks natives) fun _ => none).run (Statement.exec env) c =
      (.ok (Memgw.findByNative c.memoryIndex tenant provider natives), c) :=
  findByNative_run

theorem insertMissing_run {tenant provider : String} {missing : List (String × String)}
    {scope : Scope} {known : Known} :
    (insertMissing tenant provider missing scope known).run (Statement.exec env) c =
      match (if missing = [] then (.ok fun _ => none, c)
        else Memgw.insertMissing env tenant provider missing scope c :
          Except Exc Known × Catalog) with
      | (.error e, c) => (.error e, c)
      | (.ok fresh, c) => (.ok (known.update fresh), c) := by
  unfold insertMissing
  split
  · rfl
  · rw [Prog.bind_eq, Prog.run_bind, execute, Prog.run_perform, Statement.exec]
    cases Memgw.insertMissing env tenant provider missing scope c with
    | mk r c' => cases r <;> rfl

theorem reviveEach_run {tenant provider : String} {scope : Scope}
    {contents : String → Option String} {now : Time} {natives : List String} :
    (reviveEach tenant provider scope contents now natives).run (Statement.exec env) c =
      (.ok (), { c with
        memoryIndex :=
          reviveAll env tenant provider natives scope contents now c.memoryIndex }) := by
  induction natives generalizing c with
  | nil => rfl
  | cons native natives ih => exact ih

theorem reviveDoomed_run {tenant provider : String} {items : List (String × String)}
    {scope : Scope} {known : Known} :
    (reviveDoomed tenant provider items scope known).run (Statement.exec env) c =
      (.ok (Memgw.reviveDoomed env tenant provider items scope known c).1,
        (Memgw.reviveDoomed env tenant provider items scope known c).2) := by
  unfold reviveDoomed Memgw.reviveDoomed
  dsimp only
  split
  · rfl
  · simp only [Prog.bind_eq, Prog.run_bind, execute, Prog.run_perform, Statement.exec,
      reviveEach_run, lookup_run]
    rfl

/-- Alone, the statements of an attempt do what the transaction does. -/
theorem attempt_run (q : Page) :
    q.attempt.run (Statement.exec env) c =
      mapAttempt env q.tenant q.provider q.items q.scope q.revive c := by
  have hmissing : (q.items.filter fun item =>
      (Memgw.findByNative c.memoryIndex q.tenant q.provider q.natives item.1).isNone) =
        missingItems c.memoryIndex q.tenant q.provider q.items := rfl
  simp only [Page.attempt, Page.settle, Prog.bind_eq, Prog.run_bind, lookup_run, hmissing,
    insertMissing_run, mapAttempt]
  generalize (if missingItems c.memoryIndex q.tenant q.provider q.items = []
    then (.ok fun _ => none, c)
    else Memgw.insertMissing env q.tenant q.provider
      (missingItems c.memoryIndex q.tenant q.provider q.items) q.scope c :
        Except Exc Known × Catalog) = inserted
  obtain ⟨r, c₁⟩ := inserted
  cases r with
  | error e => rfl
  | ok fresh =>
    unfold Page.takeBack
    cases q.revive with
    | false => rfl
    | true =>
      simp only [if_true, reviveDoomed_run]
      rfl

/-! ## Rows stay -/

/-- The index has a row under the ids of the given one. -/
def Stored (row : CatalogRow) (c : Catalog) : Prop :=
  ∃ r ∈ c.memoryIndex, r.gatewayId = row.gatewayId ∧ r.tenantId = row.tenantId ∧
    r.provider = row.provider ∧ r.nativeId = row.nativeId

/-- No row has gone, and none has changed an id. -/
def Keeps (c c' : Catalog) : Prop := ∀ row, Stored row c → Stored row c'

theorem Keeps.refl (c : Catalog) : Keeps c c := fun _ hrow => hrow

theorem Keeps.trans {c'' : Catalog} (h : Keeps c c') (h' : Keeps c' c'') : Keeps c c'' :=
  fun row hrow => h' row (h row hrow)

theorem stored_toRow {r : IndexRow} (hr : r ∈ c.memoryIndex) : Stored r.toRow c :=
  ⟨r, hr, rfl, rfl, rfl, rfl⟩

theorem keeps_subset (h : ∀ r ∈ c.memoryIndex, r ∈ c'.memoryIndex) : Keeps c c' := by
  rintro row ⟨r, hr, hids⟩
  exact ⟨r, h r hr, hids⟩

/-- An update that rewrites other columns changes no id. -/
theorem stored_update {p : IndexRow → Bool} {f : IndexRow → IndexRow} {row : CatalogRow}
    (hf : ∀ r, ∀ key ∈ indexKeys, key (f r) = key r)
    (h : c'.memoryIndex = c.memoryIndex.updateWhere p f hf) : Stored row c' ↔ Stored row c := by
  have hids : ∀ r, (if p r then f r else r).gatewayId = r.gatewayId ∧
      (if p r then f r else r).tenantId = r.tenantId ∧
      (if p r then f r else r).provider = r.provider ∧
      (if p r then f r else r).nativeId = r.nativeId := by
    intro r
    split
    · have hid := hf r IndexRow.idKey (by simp [indexKeys])
      have hnative := hf r IndexRow.nativeKey (by simp [indexKeys])
      simpa [IndexRow.idKey, IndexRow.nativeKey] using And.intro hid hnative
    · exact ⟨rfl, rfl, rfl, rfl⟩
  unfold Stored
  rw [h]
  constructor
  · rintro ⟨r, hr, hrow⟩
    obtain ⟨r₀, h₀, rfl⟩ := Table.mem_updateWhere.mp hr
    obtain ⟨hg, ht, hp, hn⟩ := hids r₀
    rw [hg, ht, hp, hn] at hrow
    exact ⟨r₀, h₀, hrow⟩
  · rintro ⟨r, hr, hrow⟩
    obtain ⟨hg, ht, hp, hn⟩ := hids r
    rw [← hg, ← ht, ← hp, ← hn] at hrow
    exact ⟨_, Table.mem_updateWhere.mpr ⟨r, hr, rfl⟩, hrow⟩

/-- The one statement that adds rows. -/
def Statement.inserts : Statement → Bool
  | .insert .. => true
  | _ => false

theorem stored_exec {st : Statement} (h : st.inserts = false) {row : CatalogRow} :
    Stored row (st.exec env c).2 ↔ Stored row c := by
  cases st with
  | lookup | clock => exact Iff.rfl
  | revive =>
    exact stored_update
      (by simp [indexKeys, IndexRow.idKey, IndexRow.nativeKey, IndexRow.revived]) rfl
  | markDeleted | markScopeDeleted => exact stored_update IndexRow.deleted_keys rfl
  | insert => cases h

theorem keeps_exec (st : Statement) : Keeps c (st.exec env c).2 := by
  cases st with
  | insert tenant provider missing scope =>
    show Keeps c (Memgw.insertMissing env tenant provider missing scope c).2
    cases hins : Memgw.insertMissing env tenant provider missing scope c with
    | mk r c' =>
      cases r with
      | ok fresh =>
        exact keeps_subset fun r hr => (Table.mem_insert (insertMissing_ok hins).1).mpr (.inl hr)
      | error e => exact keeps_subset fun r hr => (insertMissing_error hins).1.index ▸ hr
  | lookup | clock | revive | markDeleted | markScopeDeleted =>
    exact fun row hrow => (stored_exec rfl).mpr hrow

theorem ticks_exec (st : Statement) : c.ticks ≤ (st.exec env c).2.ticks := by
  cases st with
  | lookup | revive => exact le_rfl
  | clock | markDeleted | markScopeDeleted => exact Nat.le_succ _
  | insert tenant provider missing scope =>
    show c.ticks ≤ (Memgw.insertMissing env tenant provider missing scope c).2.ticks
    cases hins : Memgw.insertMissing env tenant provider missing scope c with
    | mk r c' =>
      cases r with
      | ok fresh => rw [(insertMissing_ok hins).2.2.2.1]; exact Nat.le_add_right _ _
      | error e => exact (insertMissing_error hins).1.ticks

/-- Ids are drawn from the supply, whichever statement draws them. -/
theorem minted_exec (st : Statement) (h : c.Minted env) : (st.exec env c).2.Minted env := by
  cases st with
  | insert tenant provider missing scope =>
    show Catalog.Minted env (Memgw.insertMissing env tenant provider missing scope c).2
    cases hins : Memgw.insertMissing env tenant provider missing scope c with
    | mk r c' =>
      cases r with
      | ok fresh =>
        obtain ⟨hindex, -, -, hticks, -⟩ := insertMissing_ok hins
        intro r hr
        rcases (Table.mem_insert hindex).mp hr with hr | hr
        · obtain ⟨k, hk, hid⟩ := h r hr
          exact ⟨k, hticks ▸ Nat.lt_add_right _ hk, hid⟩
        · obtain ⟨-, -, -, -, -, -, -, k, -, hk, hid⟩ := mem_freshRows hr
          exact ⟨k, hticks ▸ hk, hid⟩
      | error e => exact h.still (insertMissing_error hins).1
  | lookup | clock | revive | markDeleted | markScopeDeleted =>
    intro r hr
    obtain ⟨r₀, h₀, hid, -⟩ := (stored_exec rfl).mp (stored_toRow hr)
    obtain ⟨k, hk, hid₀⟩ := h r₀ h₀
    exact ⟨k, lt_of_lt_of_le hk (ticks_exec _), hid.symm.trans hid₀⟩

end Memgw.Statements
