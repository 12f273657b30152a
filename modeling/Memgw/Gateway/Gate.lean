-- SUMMARY: A catalog on one shared connection: its statements, transactions that commit or roll back, and the gate before them.
import Memgw.Gateway.Statements
import Memgw.Library.Sections
import Memgw.Library.Relay

/-!
# The gate

A catalog in memory has one connection, which every task is handed. Two transactions on
it are one transaction: what one rolls back or commits is everything that has been
written since. `_write` and `_read` therefore hold a gate while they are on it.

This module has the connection at the grain of its statements. What a statement does is
settled by the tables it sees, but it may also fail, and so may a commit; and the caller
may be told of a failure although the statement or the commit has been carried out, as
when its task is cancelled while the answer is on its way.
-/

namespace Memgw.Gate

open Statements (IndexProg Page)

variable {env : Env} {c c' : Catalog} {σ α β : Type}

/-! ## Statements -/

inductive Statement where
  | index (st : Statements.Statement)
  | resolveGatewayId (tenant gatewayId : String)
  | liveCount (tenant subject provider : String)
  | getBinding (tenant subject : String)
  | insertBinding (tenant subject provider : String) (migratedFrom : Option String)
  | deleteBinding (tenant subject : String)
  /-- The id of the episode is drawn before it runs. -/
  | insertEpisode (tenant : String) (scope : Scope) (payload : Episode)
      (ingestedTo : List (String × List String))
  | deleteJournal (tenant : String) (scope : Scope)

@[reducible] def Statement.Ans : Statement → Type
  | .index st => st.Ans
  | .resolveGatewayId .. => Option CatalogRow
  | .liveCount .. => Nat
  | .getBinding .. => Option String
  | .insertBinding .. | .deleteBinding .. => Unit
  | .insertEpisode .. => String
  | .deleteJournal .. => Nat

def insertBinding (env : Env) (tenant subject provider : String) (migratedFrom : Option String)
    (c : Catalog) : Except Exc Unit × Catalog :=
  let row : BindingRow :=
    { tenantId := tenant, subject := subject, provider := provider
      boundAt := env.now c.ticks, migratedFrom := migratedFrom }
  match c.scopeBinding.insert [row] with
  | none => (.error (.integrity "UNIQUE constraint failed: scope_binding"),
      { c with ticks := c.ticks + 1 })
  | some binding => (.ok (), { c with scopeBinding := binding, ticks := c.ticks + 1 })

def Statement.exec (env : Env) : Handler Statement.Ans Exc Catalog
  | .index st, c => st.exec env c
  | .resolveGatewayId tenant gatewayId, c => (.ok (Memgw.resolveGatewayId tenant gatewayId c), c)
  | .liveCount tenant subject provider, c => (.ok (Memgw.liveCount tenant subject provider c), c)
  | .getBinding tenant subject, c => (.ok (Memgw.getBinding tenant subject c), c)
  | .insertBinding tenant subject provider migratedFrom, c =>
    Gate.insertBinding env tenant subject provider migratedFrom c
  | .deleteBinding tenant subject, c =>
    (.ok (), { c with
      scopeBinding := c.scopeBinding.deleteWhere (BindingRow.bound tenant subject) })
  | .insertEpisode tenant scope payload ingestedTo, c =>
    Memgw.journal env tenant scope payload ingestedTo c
  | .deleteJournal tenant scope, c =>
    let (count, c) := Memgw.deleteJournal tenant scope c
    (.ok count, c)

abbrev SqlProg (α : Type) : Type := Prog Statement.Ans Exc α

def execute (st : Statement) : SqlProg st.Ans := Prog.perform st

/-- The statements of the index among those of the catalog. -/
def onIndex : IndexProg α → SqlProg α
  | .ret a => .ret a
  | .raise e => .raise e
  | .act st k => .act (.index st) fun r => onIndex (k r)

/-! ## Transactions -/

/-- What a method of the catalog does on its connection. -/
inductive Method (α : Type) where
  /-- `async with self._read() as conn`. -/
  | read (body : SqlProg α)
  /-- `async with self._write() as conn`. -/
  | write (body : SqlProg α)

/-- The statements of each transaction. -/
def method : (op : CatalogOp) → Method op.Ans
  | .mapAttempt tenant provider items scope revive =>
    .write (onIndex (Page.attempt ⟨tenant, provider, items, scope, revive⟩))
  | .resolveGatewayId tenant gatewayId => .read (execute (.resolveGatewayId tenant gatewayId))
  | .markDeleted tenant gatewayId => .write (execute (.index (.markDeleted tenant gatewayId)))
  | .markScopeDeleted tenant scope provider =>
    .write (execute (.index (.markScopeDeleted tenant scope provider)))
  | .liveCount tenant subject provider => .read (execute (.liveCount tenant subject provider))
  | .getBinding tenant subject => .read (execute (.getBinding tenant subject))
  | .insertBinding tenant subject provider =>
    .write (execute (.insertBinding tenant subject provider none))
  | .replaceBinding tenant subject provider previous => .write do
    execute (.deleteBinding tenant subject)
    execute (.insertBinding tenant subject provider previous)
  | .journal tenant scope payload ingestedTo =>
    .write (execute (.insertEpisode tenant scope payload ingestedTo))
  | .deleteJournal tenant scope => .write (execute (.deleteJournal tenant scope))

/-! ## The connection -/

structure Connection where
  /-- What its statements see. The supply of ids and times is not part of the database,
      and is never rolled back. -/
  tables : Catalog := {}
  /-- What the last commit left. -/
  committed : Catalog := {}
  /-- How many statements and commits it has been sent. -/
  sent : Nat := 0

/-- What becomes of a statement or a commit. -/
inductive Fate where
  | done
  /-- It fails, and changes nothing. -/
  | failed (e : Exc)
  /-- It is carried out, but the caller is told otherwise. -/
  | lost (e : Exc)

inductive Action where
  | statement (st : Statement)
  | commit
  | rollback

@[reducible] def Action.Ans : Action → Type
  | .statement st => st.Ans
  | .commit | .rollback => Unit

/-- The catalog, but for what it has drawn from its supply. -/
def drawnTo (ticks : Nat) (c : Catalog) : Catalog := { c with ticks := ticks }

def Connection.rolledBack (conn : Connection) : Connection :=
  { conn with tables := drawnTo conn.tables.ticks conn.committed }

/-- An answer, unless the fate of what was sent is another. -/
def Fate.resolve {A S : Type} (fate : Fate) (x : Except Exc A × S) (s : S) : Except Exc A × S :=
  match fate with
  | .done => x
  | .failed e => (.error e, s)
  | .lost e => (.error e, x.2)

def Action.exec (env : Env) (fate : Nat → Fate) : Handler Action.Ans Exc Connection
  | .statement st, conn =>
    let (r, tables) := (fate conn.sent).resolve (st.exec env conn.tables) conn.tables
    (r, { conn with tables := tables, sent := conn.sent + 1 })
  | .commit, conn =>
    let (r, committed) := (fate conn.sent).resolve (.ok (), conn.tables) conn.committed
    (r, { conn with committed := committed, sent := conn.sent + 1 })
  | .rollback, conn => (.ok (), conn.rolledBack)

abbrev ConnProg (α : Type) : Type := Prog Action.Ans Exc α

def send (op : Action) : ConnProg op.Ans := Prog.perform op

def statements : SqlProg α → ConnProg α
  | .ret a => .ret a
  | .raise e => .raise e
  | .act st k => .act (.statement st) fun r => statements (k r)

/-- A write commits when its body has returned, and rolls back whatever else happens. A
    read is rolled back as its connection is returned. -/
def Method.onConnection : Method α → ConnProg α
  | .read body => (statements body).attempt.bind fun r => do
    send .rollback
    Prog.ofExcept r
  | .write body => Prog.tryCatch (do
      let a ← statements body
      send .commit
      return a) fun e => do
    send .rollback
    .raise e

/-- A gateway on the connection. Its transactions go through the gate, and the calls of
    its adapters do not. -/
def machine (env : Env) (fate : Nat → Fate) (gaveUp : Nat → Option Exc) :
    Sections.Machine (@Op.Ans σ) Action.Ans Exc Connection σ where
  step := Action.exec env fate
  meaning
    | .catalog op => .guarded (method op).onConnection
    | .adapter _ a op => .free (a.call op)
    | .note .. => .free fun s => (.ok (), s)
    | .emit .. => .free fun s => (.ok (), s)
  gaveUp := gaveUp

/-! ## Bodies -/

theorem onIndex_run {p : IndexProg α} :
    (onIndex p).run (Statement.exec env) c = p.run (Statements.Statement.exec env) c := by
  induction p generalizing c with
  | ret a => rfl
  | raise e => rfl
  | act st k ih => exact ih _

theorem strict_onIndex {p : IndexProg α} (h : p.Strict) : (onIndex p).Strict := by
  induction p with
  | ret a => trivial
  | raise e => trivial
  | act st k ih =>
    refine ⟨fun e => ?_, fun a => ih (.ok a) (h.2 a)⟩
    show onIndex (k (.error e)) = .raise e
    rw [h.1 e]
    rfl

theorem strict_findByNative {tenant provider : String} {cs : List (List String)} {found : Known} :
    (Statements.findByNative tenant provider cs found).Strict := by
  induction cs generalizing found with
  | nil => trivial
  | cons chunk cs ih => exact Prog.strict_bind Prog.strict_perform fun _ => ih

theorem strict_reviveEach {tenant provider : String} {scope : Scope}
    {contents : String → Option String} {now : Time} {natives : List String} :
    (Statements.reviveEach tenant provider scope contents now natives).Strict := by
  induction natives with
  | nil => trivial
  | cons native natives ih => exact Prog.strict_bind Prog.strict_perform fun _ => ih

/-- No statement of an attempt is caught within its transaction. -/
theorem strict_attempt {q : Page} : q.attempt.Strict := by
  refine Prog.strict_bind strict_findByNative fun known => ?_
  refine Prog.strict_bind ?_ fun known => Prog.strict_bind ?_ fun known => trivial
  · unfold Statements.insertMissing
    split
    · trivial
    · exact Prog.strict_bind Prog.strict_perform fun _ => trivial
  · unfold Page.takeBack
    split
    · unfold Statements.reviveDoomed
      dsimp only
      split
      · trivial
      · refine Prog.strict_bind Prog.strict_perform fun _ => ?_
        refine Prog.strict_bind strict_reviveEach fun _ => ?_
        exact Prog.strict_bind strict_findByNative fun _ => trivial
    · trivial

def Method.body : Method α → SqlProg α
  | .read body | .write body => body

theorem strict_method (op : CatalogOp) : (method op).body.Strict := by
  cases op with
  | mapAttempt => exact strict_onIndex strict_attempt
  | replaceBinding => exact Prog.strict_bind Prog.strict_perform fun _ => Prog.strict_perform
  | resolveGatewayId | markDeleted | markScopeDeleted | liveCount | getBinding | insertBinding
  | journal | deleteJournal => exact Prog.strict_perform

/-! ## Alone and undisturbed -/

/-- What is left of a transaction that has run its statements. -/
def settle (c : Catalog) : Except Exc α × Catalog → Except Exc α × Catalog
  | (.ok a, c') => (.ok a, c')
  | (.error e, c') => (.error e, drawnTo c'.ticks c)

/-- What a method does when nothing fails but its own statements. -/
def Method.alone (env : Env) : Method α → Catalog → Except Exc α × Catalog
  | .read body, c =>
    let (r, c') := body.run (Statement.exec env) c
    (r, drawnTo c'.ticks c)
  | .write body, c => settle c (body.run (Statement.exec env) c)

/-- A catalog whose tables are those of another one. -/
theorem drawnTo_eq (h : c.Still c') : drawnTo c'.ticks c = c' := by
  obtain ⟨index, binding, journal, ticks⟩ := c'
  obtain ⟨rfl, rfl, rfl, -⟩ := h
  rfl

theorem alone_execute {st : Statement} :
    (Method.write (execute st)).alone env c = settle c (st.exec env c) := by
  rw [Method.alone, execute, Prog.run_perform]

theorem settle_insertBinding {tenant subject provider : String} {migratedFrom : Option String} :
    settle c (insertBinding env tenant subject provider migratedFrom c) =
      insertBinding env tenant subject provider migratedFrom c := by
  simp only [insertBinding]
  generalize c.scopeBinding.insert _ = inserted
  cases inserted <;> rfl

/-- The statements of each transaction do, all together, what the transaction does. -/
theorem method_alone (op : CatalogOp) : (method op).alone env c = op.exec env c := by
  cases op with
  | mapAttempt tenant provider items scope revive =>
    show settle c ((onIndex (Page.attempt ⟨tenant, provider, items, scope, revive⟩)).run _ c) =
      mapAttempt env tenant provider items scope revive c
    rw [onIndex_run, Statements.attempt_run]
    cases hx : mapAttempt env tenant provider items scope revive c with
    | mk r c' =>
      cases r with
      | ok rows => rfl
      | error e => rw [settle, drawnTo_eq (mapAttempt_error hx).1]
  | insertBinding tenant subject provider =>
    exact alone_execute.trans settle_insertBinding
  | replaceBinding tenant subject provider previous =>
    show settle c ((Prog.bind _ _).run _ c) =
      Memgw.replaceBinding env tenant subject provider previous c
    rw [Prog.run_bind, execute, Prog.run_perform]
    show settle c ((execute (.insertBinding tenant subject provider previous)).run _ _) = _
    rw [execute, Prog.run_perform]
    simp only [Statement.exec, insertBinding, replaceBinding]
    generalize (c.scopeBinding.deleteWhere _).insert _ = inserted
    cases inserted <;> rfl
  | journal tenant scope payload ingestedTo =>
    refine alone_execute.trans ?_
    show settle c (Memgw.journal env tenant scope payload ingestedTo c) =
      Memgw.journal env tenant scope payload ingestedTo c
    simp only [Memgw.journal]
    generalize c.episodeJournal.insert _ = inserted
    cases inserted <;> rfl
  | resolveGatewayId | markDeleted | markScopeDeleted | liveCount | getBinding
  | deleteJournal => rfl

/-! ## On the connection -/

variable {fate : Nat → Fate} {conn : Connection}

/-- No transaction is under way: what is seen has been committed. -/
def Connection.Clean (conn : Connection) : Prop :=
  conn.tables = drawnTo conn.tables.ticks conn.committed

/-- What a transaction has come to, which found the tables `c`. -/
inductive Method.Outcome (env : Env) (m : Method α) (c : Catalog) :
    Except Exc α → Catalog → Prop where
  | whole : Outcome env m c (m.alone env c).1 (m.alone env c).2
  /-- Something failed on the way, and what had been done by then is undone. -/
  | nothing {e : Exc} {c' : Catalog} (h : c.Still c') : Outcome env m c (.error e) c'
  /-- It has been committed, and its caller does not know. -/
  | unconfirmed {a : α} {e : Exc} {c' : Catalog} (h : m.alone env c = (.ok a, c')) :
      Outcome env m c (.error e) c'

theorem insertBinding_ticks {tenant subject provider : String} {migratedFrom : Option String} :
    (insertBinding env tenant subject provider migratedFrom c).2.ticks = c.ticks + 1 := by
  simp only [insertBinding]
  split <;> rfl

theorem ticks_exec (st : Statement) : c.ticks ≤ (st.exec env c).2.ticks := by
  cases st with
  | index st => exact Statements.ticks_exec st
  | resolveGatewayId | liveCount | getBinding | deleteBinding | deleteJournal => exact le_rfl
  | insertBinding => exact insertBinding_ticks ▸ Nat.le_succ _
  | insertEpisode => exact journal_ticks ▸ Nat.le_succ _

/-- The statements of a body are carried out as if alone, until one of them fails. -/
theorem statements_spec {body : SqlProg α} (hbody : body.Strict) :
    (statements body).wp (Action.exec env fate) (fun r conn' =>
      conn'.committed = conn.committed ∧ conn.tables.ticks ≤ conn'.tables.ticks ∧
        ((r, conn'.tables) = body.run (Statement.exec env) conn.tables ∨ ∃ e, r = .error e))
      conn := by
  induction body generalizing conn with
  | ret a => exact ⟨rfl, le_rfl, .inl rfl⟩
  | raise e => exact ⟨rfl, le_rfl, .inr ⟨e, rfl⟩⟩
  | act st k ih =>
    rw [statements, Prog.wp_act]
    cases hfate : fate conn.sent with
    | done =>
      simp only [Action.exec, hfate, Fate.resolve]
      exact Prog.wp_mono (fun r conn' h => ⟨h.1, (ticks_exec st).trans h.2.1, h.2.2⟩)
        (ih _ (hbody.after _))
    | failed e =>
      simp only [Action.exec, hfate, Fate.resolve, hbody.1 e]
      exact ⟨rfl, le_rfl, .inr ⟨e, rfl⟩⟩
    | lost e =>
      simp only [Action.exec, hfate, Fate.resolve, hbody.1 e]
      exact ⟨rfl, ticks_exec st, .inr ⟨e, rfl⟩⟩

/-- Undisturbed, they are carried out as if alone. -/
theorem statements_undisturbed {body : SqlProg α} :
    (statements body).wp (Action.exec env fun _ => .done) (fun r conn' =>
      conn'.committed = conn.committed ∧
        (r, conn'.tables) = body.run (Statement.exec env) conn.tables) conn := by
  induction body generalizing conn with
  | ret a => exact ⟨rfl, rfl⟩
  | raise e => exact ⟨rfl, rfl⟩
  | act st k ih => exact ih _

theorem Connection.Clean.rolledBack {conn' : Connection} (h : conn.Clean)
    (hcommitted : conn'.committed = conn.committed) :
    conn'.rolledBack.Clean ∧ conn'.rolledBack.tables = drawnTo conn'.tables.ticks conn.tables := by
  refine ⟨rfl, ?_⟩
  rw [h, Connection.rolledBack, hcommitted]
  rfl

theorem still_drawnTo {k : Nat} (h : c.ticks ≤ k) : c.Still (drawnTo k c) := ⟨rfl, rfl, rfl, h⟩

/-- A transaction is carried out whole or not at all, whatever fails on the way, and leaves
    none under way. -/
theorem onConnection_spec {m : Method α} (hm : m.body.Strict) (hconn : conn.Clean) :
    m.onConnection.wp (Action.exec env fate) (fun r conn' =>
      conn'.Clean ∧ m.Outcome env conn.tables r conn'.tables) conn := by
  cases m with
  | read body =>
    simp only [Method.onConnection, Prog.wp_bind, Prog.wp_attempt]
    refine Prog.wp_mono (fun r conn' h => ?_) (statements_spec hm)
    obtain ⟨hcommitted, hticks, hrun⟩ := h
    obtain ⟨hclean, htables⟩ := hconn.rolledBack hcommitted
    have hback : (Prog.ofExcept r : ConnProg α).wp (Action.exec env fate) (fun r conn' =>
        conn'.Clean ∧ (Method.read body).Outcome env conn.tables r conn'.tables)
        conn'.rolledBack := by
      have hout : (Method.read body).Outcome env conn.tables r conn'.rolledBack.tables := by
        rw [htables]
        rcases hrun with hrun | ⟨e, rfl⟩
        · have halone : (Method.read body).alone env conn.tables =
              (r, drawnTo conn'.tables.ticks conn.tables) := by
            rw [Method.alone, ← hrun]
          have hwhole := @Method.Outcome.whole _ env (.read body) conn.tables
          rwa [halone] at hwhole
        · exact .nothing (still_drawnTo hticks)
      cases r with
      | ok a => exact ⟨hclean, hout⟩
      | error e => exact ⟨hclean, hout⟩
    exact hback
  | write body =>
    simp only [Method.onConnection, Prog.wp_tryCatch, Prog.bind_eq, Prog.wp_bind]
    refine Prog.wp_mono (fun r conn' h => ?_) (statements_spec hm)
    obtain ⟨hcommitted, hticks, hrun⟩ := h
    obtain ⟨hclean, htables⟩ := hconn.rolledBack hcommitted
    have hundone : ∀ e, (Method.write body).Outcome env conn.tables (.error e)
        conn'.rolledBack.tables := by
      intro e
      rw [htables]
      exact .nothing (still_drawnTo hticks)
    cases r with
    | error e => exact ⟨hclean, hundone e⟩
    | ok a =>
      have halone : (Method.write body).alone env conn.tables = (.ok a, conn'.tables) := by
        rcases hrun with hrun | ⟨e, he⟩
        · rw [Method.alone, ← hrun]
          rfl
        · cases he
      simp only [send, Prog.wp_perform]
      cases hfate : fate conn'.sent with
      | done =>
        simp only [Action.exec, hfate, Fate.resolve]
        refine ⟨rfl, ?_⟩
        have hwhole := @Method.Outcome.whole _ env (.write body) conn.tables
        rwa [halone] at hwhole
      | failed e =>
        -- nothing has been committed, and the rollback that follows undoes it all
        simp only [Action.exec, hfate, Fate.resolve]
        exact ⟨hclean, hundone e⟩
      | lost e =>
        simp only [Action.exec, hfate, Fate.resolve]
        exact ⟨rfl, .unconfirmed halone⟩

/-- Undisturbed, it does what the transaction does. -/
theorem onConnection_undisturbed {m : Method α} (hconn : conn.Clean) :
    m.onConnection.wp (Action.exec env fun _ => .done) (fun r conn' =>
      conn'.Clean ∧ (r, conn'.tables) = m.alone env conn.tables) conn := by
  cases m with
  | read body =>
    simp only [Method.onConnection, Prog.wp_bind, Prog.wp_attempt]
    refine Prog.wp_mono (fun r conn' h => ?_) statements_undisturbed
    obtain ⟨hcommitted, hrun⟩ := h
    obtain ⟨hclean, htables⟩ := hconn.rolledBack hcommitted
    have halone : (r, conn'.rolledBack.tables) = (Method.read body).alone env conn.tables := by
      rw [Method.alone, ← hrun, htables]
    cases r with
    | ok a => exact ⟨hclean, halone⟩
    | error e => exact ⟨hclean, halone⟩
  | write body =>
    simp only [Method.onConnection, Prog.wp_tryCatch, Prog.bind_eq, Prog.wp_bind]
    refine Prog.wp_mono (fun r conn' h => ?_) statements_undisturbed
    obtain ⟨hcommitted, hrun⟩ := h
    have halone : (Method.write body).alone env conn.tables =
        settle conn.tables (r, conn'.tables) := by
      rw [Method.alone, ← hrun]
    cases r with
    | ok a => exact ⟨rfl, halone.symm⟩
    | error e =>
      obtain ⟨hclean, htables⟩ := hconn.rolledBack hcommitted
      have hback : ((.error e, conn'.rolledBack.tables) : Except Exc _ × Catalog) =
          (Method.write body).alone env conn.tables := by
        rw [halone, settle, htables]
      exact ⟨hclean, hback⟩

end Memgw.Gate
