-- SUMMARY: The binding calls on one subject statement by statement, and that alone they are the transactions of `Bookkeeping`.
import Memgw.Gateway.Bookkeeping
import Memgw.Library.Interleaving

/-!
# Binding statements

To the rest of the development `rebind` moves a subject in one action. Under a database
that lets transactions overlap the move is a deletion, an insertion and a commit, and
other calls may commit in between. This module has `bind` and `rebind` of the catalog at
that grain, for one tenant and subject, under READ COMMITTED: a statement sees what has
been committed when it runs.

The primary key of `scope_binding` admits one row for the subject. An insertion raises
where a committed row stands that its own transaction has not deleted. Where a row is
inserted and not committed yet, the insertion waits for that transaction to end. A
database with row locks lets a deletion wait as well; here it answers with what it has
seen, and only the insertion waits, which allows for more.
-/

namespace Memgw.Bindings

/-! ## The rows of a subject -/

/-- A row of `scope_binding` for the subject, as one insertion has written it. The number
    tells apart the rows that stand under the key one after another. -/
structure Version where
  number : Nat
  provider : String
  migratedFrom : Option String
  deriving DecidableEq, Repr

/-- What a transaction that has inserted its row commits. -/
structure Pending where
  deleted : List Nat
  version : Version
  deriving DecidableEq, Repr

structure Rows where
  committed : List Version := []
  /-- The transaction that has inserted a row and not committed it. -/
  pending : Option Pending := none
  /-- How many insertions have gone through. -/
  inserted : Nat := 0
  /-- `live_count` of the subject at a provider. -/
  live : String → Nat := fun _ => 0

inductive Statement where
  | select
  | liveCount (provider : String)
  /-- Answers which rows it has deleted. -/
  | delete
  /-- Of a transaction that has deleted these rows. Answers the number of its row. -/
  | insert (deleted : List Nat) (provider : String) (migratedFrom : Option String)
  /-- Of the transaction that has inserted the row with this number. -/
  | commit (number : Nat)
  deriving DecidableEq

@[reducible] def Statement.Ans : Statement → Type
  | .select => Option String
  | .liveCount _ => Nat
  | .delete => List Nat
  | .insert .. => Nat
  | .commit _ => Unit

def Rows.numbers (rows : Rows) : List Nat := rows.committed.map Version.number

/-- No committed row stands in the way of a transaction that has deleted these. -/
def Rows.free (rows : Rows) (deleted : List Nat) : Bool :=
  rows.committed.all fun v => deleted.contains v.number

def Pending.apply (p : Pending) (committed : List Version) : List Version :=
  (committed.filter fun v => !p.deleted.contains v.number) ++ [p.version]

def Statement.exec : Handler Statement.Ans Exc Rows
  | .select, rows => (.ok (rows.committed.head?.map Version.provider), rows)
  | .liveCount provider, rows => (.ok (rows.live provider), rows)
  | .delete, rows => (.ok rows.numbers, rows)
  | .insert deleted provider migratedFrom, rows =>
    if rows.free deleted then
      (.ok rows.inserted, { rows with
        pending := some ⟨deleted, ⟨rows.inserted, provider, migratedFrom⟩⟩
        inserted := rows.inserted + 1 })
    else (.error (.integrity "UNIQUE constraint failed: scope_binding"), rows)
  | .commit number, rows =>
    match rows.pending with
    | none => (.ok (), rows)
    | some p =>
      if p.version.number = number then
        (.ok (), { rows with committed := p.apply rows.committed, pending := none })
      else (.ok (), rows)

/-- An insertion waits while another transaction holds the key. -/
def Statement.Admits : Statement → Rows → Prop
  | .insert .., rows => rows.pending = none
  | _, _ => True

/-! ## The calls -/

abbrev BindProg (α : Type) : Type := Prog Statement.Ans Exc α

def execute (st : Statement) : BindProg st.Ans := Prog.perform st

/-- `bind`. -/
def bind (provider : String) : BindProg String :=
  Prog.tryCatch (do
    let number ← execute (.insert [] provider none)
    execute (.commit number)
    return provider) fun
    | .integrity _ => do
      let existing ← execute .select
      return (existing.filter (· != "")).getD provider
    | e => .raise e

/-- `rebind`. Its first two lookups are transactions of their own. -/
def rebind (provider : String) : BindProg RebindResult := do
  let previous ← execute .select
  let orphaned ← strandedAt previous
  let deleted ← execute .delete
  let number ← execute (.insert deleted provider previous)
  execute (.commit number)
  return {
    provider := provider
    orphanedAt := if previous ≠ some provider then previous else none
    orphanedCount := orphaned }
where
  strandedAt (previous : Option String) : BindProg Nat :=
    match previous with
    | some previous => if previous ≠ provider then execute (.liveCount previous) else .ret 0
    | none => .ret 0

inductive BindingCall where
  | bind (provider : String)
  | rebind (provider : String)
  deriving DecidableEq, Repr

inductive BindingReply where
  | bound (provider : String)
  | rebound (result : RebindResult)
  deriving DecidableEq, Repr

def BindingCall.provider : BindingCall → String
  | .bind provider | .rebind provider => provider

def BindingCall.isRebind : BindingCall → Bool
  | .bind _ => false
  | .rebind _ => true

def BindingCall.prog : BindingCall → BindProg BindingReply
  | .bind provider => do
    let provider ← Bindings.bind provider
    return .bound provider
  | .rebind provider => do
    let result ← Bindings.rebind provider
    return .rebound result

/-! ## Alone -/

def Version.columns (v : Version) : String × Option String := (v.provider, v.migratedFrom)

/-- The rows are those of the subject in the catalog, and no call is under way. -/
structure Reflects (tenant subject : String) (rows : Rows) (c : Catalog) : Prop where
  pending : rows.pending = none
  committed : rows.committed.map Version.columns =
    (c.scopeBinding.select (BindingRow.bound tenant subject)).map fun b =>
      (b.provider, b.migratedFrom)
  live : ∀ provider, rows.live provider = liveCount tenant subject provider c

variable {σ : Type} {env : Env} {tenant subject : String} {rows : Rows} {c : Catalog}

theorem Reflects.select (h : Reflects tenant subject rows c) :
    rows.committed.head?.map Version.provider = getBinding tenant subject c := by
  have hhead := congrArg (fun l => l.head?.map Prod.fst) h.committed
  simp only [List.head?_map, Option.map_map] at hhead
  have hfind : (c.scopeBinding.select (BindingRow.bound tenant subject)).head? =
      c.scopeBinding.find? (BindingRow.bound tenant subject) := List.head?_filter ..
  rw [hfind] at hhead
  exact hhead

/-- An insertion that goes through leaves its row behind those of the subject. -/
theorem select_insertBinding {provider : String}
    (h : (insertBinding env tenant subject provider c).1 = .ok ()) :
    ((insertBinding env tenant subject provider c).2.scopeBinding.select
        (BindingRow.bound tenant subject)).map (fun b => (b.provider, b.migratedFrom)) =
      (c.scopeBinding.select (BindingRow.bound tenant subject)).map
        (fun b => (b.provider, b.migratedFrom)) ++ [(provider, none)] := by
  simp only [insertBinding] at h ⊢
  split at h
  · cases h
  · rename_i binding hb
    simp [Table.select, Table.insert_rows hb, BindingRow.bound]

theorem select_replaceBinding {provider : String} {previous : Option String} :
    ((replaceBinding env tenant subject provider previous c).2.scopeBinding.select
        (BindingRow.bound tenant subject)).map (fun b => (b.provider, b.migratedFrom)) =
      [(provider, previous)] := by
  have hok : (replaceBinding env tenant subject provider previous c).1 = .ok () := replaceBinding_ok
  simp only [replaceBinding] at hok ⊢
  split at hok
  · cases hok
  · rename_i binding hb
    simp [Table.select, Table.insert_rows hb, Table.deleteWhere, BindingRow.bound]

theorem free_numbers : rows.free rows.numbers = true := by
  simp only [Rows.free, Rows.numbers, List.all_eq_true, List.contains_iff_mem]
  exact fun v hv => List.mem_map_of_mem hv

/-- A transaction that has deleted all that stands leaves its own row alone. -/
theorem Pending.apply_free {p : Pending} (h : rows.free p.deleted = true) :
    p.apply rows.committed = [p.version] := by
  have hnone : rows.committed.filter (fun v => !p.deleted.contains v.number) = [] := by
    refine List.filter_eq_nil_iff.mpr fun v hv => ?_
    simpa using List.all_eq_true.mp h v hv
  rw [Pending.apply, hnone, List.nil_append]

theorem rebind_alone {provider : String} :
    (rebind provider).run Statement.exec rows =
      let previous := rows.committed.head?.map Version.provider
      (.ok {
        provider := provider
        orphanedAt := if previous ≠ some provider then previous else none
        orphanedCount := stranded rows.live previous provider },
      { rows with
        committed := [⟨rows.inserted, provider, previous⟩]
        pending := none
        inserted := rows.inserted + 1 }) := by
  have hstranded : ∀ previous, (rebind.strandedAt provider previous).run Statement.exec rows =
      (.ok (stranded rows.live previous provider), rows) := by
    intro previous
    cases previous with
    | none => rfl
    | some previous =>
      simp only [rebind.strandedAt, stranded]
      split <;> rfl
  have happly := Pending.apply_free (p := ⟨rows.numbers, ⟨rows.inserted, provider,
    rows.committed.head?.map Version.provider⟩⟩) free_numbers
  simp only [rebind, Prog.bind_eq, Prog.run_bind, execute, Prog.run_perform, Statement.exec,
    hstranded, free_numbers, if_true, happly]
  rfl

/-- Alone, the statements of `rebind` do what its transactions do. -/
theorem rebind_run {w : World σ} {provider : String} (h : Reflects tenant subject rows w.catalog) :
    ((rebind provider).run Statement.exec rows).1 =
        ((rebindSubject tenant subject provider).run (handle env) w).1 ∧
      Reflects tenant subject ((rebind provider).run Statement.exec rows).2
        ((rebindSubject tenant subject provider).run (handle env) w).2.catalog := by
  have hlive : (fun p => liveCount tenant subject p w.catalog) = rows.live :=
    funext fun p => (h.live p).symm
  rw [rebind_alone, rebindSubject_run, ← h.select, hlive]
  refine ⟨rfl, rfl, select_replaceBinding.symm, fun p => ?_⟩
  simp only [liveCount, replaceBinding_memoryIndex]
  exact h.live p

theorem bind_unbound {provider : String} (h : rows.committed = []) :
    (bind provider).run Statement.exec rows = (.ok provider, { rows with
      committed := [⟨rows.inserted, provider, none⟩]
      pending := none
      inserted := rows.inserted + 1 }) := by
  have hfree : rows.free [] = true := by rw [Rows.free, h, List.all_nil]
  have happly := Pending.apply_free (p := ⟨[], ⟨rows.inserted, provider, none⟩⟩) hfree
  simp only [bind, Prog.run_tryCatch, Prog.bind_eq, Prog.run_bind, execute, Prog.run_perform,
    Statement.exec, hfree, if_true, happly]
  rfl

theorem bind_bound {provider standing : String}
    (h : rows.committed.head?.map Version.provider = some standing) :
    (bind provider).run Statement.exec rows =
      (.ok (((some standing).filter (· != "")).getD provider), rows) := by
  have hne : rows.committed ≠ [] := by
    intro hnil
    simp [hnil] at h
  have hfree : rows.free [] = false := by
    obtain ⟨v, hv⟩ := List.exists_mem_of_ne_nil _ hne
    exact List.all_eq_false.mpr ⟨v, hv, by simp⟩
  simp only [bind, Prog.run_tryCatch, Prog.bind_eq, Prog.run_bind, execute, Prog.run_perform,
    Statement.exec, hfree, Bool.false_eq_true, if_false, h]
  rfl

/-- Alone, the statements of `bind` do what its transaction does. -/
theorem bind_run {w : World σ} {provider : String} (h : Reflects tenant subject rows w.catalog) :
    ((bind provider).run Statement.exec rows).1 =
        ((Memgw.bind tenant subject provider).run (handle env) w).1 ∧
      Reflects tenant subject ((bind provider).run Statement.exec rows).2
        ((Memgw.bind tenant subject provider).run (handle env) w).2.catalog := by
  have hlive : ∀ p, rows.live p =
      liveCount tenant subject p (insertBinding env tenant subject provider w.catalog).2 := by
    intro p
    simp only [liveCount, insertBinding_memoryIndex]
    exact h.live p
  rw [Memgw.bind_run]
  cases hbound : getBinding tenant subject w.catalog with
  | none =>
    have hnil : rows.committed = [] := by simpa [hbound] using h.select
    rw [bind_unbound hnil]
    refine ⟨rfl, rfl, ?_, hlive⟩
    rw [select_insertBinding (insertBinding_ok_iff.mpr hbound), ← h.committed, hnil]
    rfl
  | some standing =>
    rw [bind_bound (h.select.trans hbound)]
    refine ⟨rfl, h.pending, ?_, hlive⟩
    cases hins : (insertBinding env tenant subject provider w.catalog).1 with
    | ok u => cases (insertBinding_ok_iff.mp hins).symm.trans hbound
    | error e =>
      rw [(insertBinding_error hins).1]
      exact h.committed

end Memgw.Bindings
