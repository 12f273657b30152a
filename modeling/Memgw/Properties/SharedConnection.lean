-- SUMMARY: Through the gate, statements on a shared connection come to whole transactions one after the other, whatever fails.
import Memgw.Gateway.Gate

/-!
# One connection for every task

The rest of the development takes a transaction of the catalog for one action. On a
catalog in memory it is many statements on a connection that all tasks share, and what
makes one action of it is the gate. Here the gateway runs statement by statement, and
what it does is what it does transaction by transaction.
-/

namespace Memgw

open Gate

variable {σ α ι : Type} [DecidableEq ι] {env : Env}

/-! ## Nothing fails -/

/-- Every statement is carried out, and nobody gives up waiting. -/
abbrev Gate.undisturbed (env : Env) : Sections.Machine (@Op.Ans σ) Action.Ans Exc Connection σ :=
  machine env (fun _ => .done) fun _ => none

/-- The world that the verbs of a gateway on the connection work on. -/
def Gate.world (s : Sections.Shared Connection σ) : World σ where
  catalog := s.inside.tables
  store := s.outside

theorem Gate.coarse_undisturbed (op : Op σ) {s : Sections.Shared Connection σ}
    (hs : s.inside.Clean) :
    ((undisturbed env).coarse op s).2.inside.Clean ∧
      ((undisturbed env).coarse op s).1 = (handle env op (world s)).1 ∧
        world ((undisturbed env).coarse op s).2 = (handle env op (world s)).2 := by
  cases op with
  | adapter | note | emit => exact ⟨hs, rfl, rfl⟩
  | catalog op =>
    obtain ⟨hclean, hall⟩ := @onConnection_undisturbed env _ _ (method op) hs
    rw [method_alone] at hall
    obtain ⟨hr, htables⟩ := Prod.mk.inj hall
    exact ⟨hclean, hr, by rw [handle]; exact congrArg (World.mk · s.outside) htables⟩

/-- The tasks of a gateway on a shared connection, statement by statement, do what they do
    with each transaction in one action: they end alike, and leave the same tables and the
    same store. -/
theorem gated_serialises (pool : ι → CoreProg σ α) (conn : Connection) (store : σ)
    (hconn : conn.Clean)
    {fpool' : ι → Prog (Sections.Fine.Answer (@Op.Ans σ) Action.Ans) Exc α}
    {s' : Sections.Locked Connection σ}
    {es : List (Event (Sections.Fine.Answer (@Op.Ans σ) Action.Ans) Exc ι)}
    (hx : Exec (undisturbed env).fine (fun i => (undisturbed env).expand (pool i))
      { inside := conn, outside := store } es fpool' s')
    (hadmitted : Admitted (undisturbed env).fine (undisturbed env).Admits es
      { inside := conn, outside := store }) :
    ∃ es' pool' w', Exec (handle env) pool { catalog := conn.tables, store := store } es' pool' w' ∧
      (∀ i out, (fpool' i).Ends [] out → (pool' i).Ends [] out) ∧
        (s'.held = false → s'.inside.Clean ∧
          w' = { catalog := s'.inside.tables, store := s'.outside }) := by
  obtain ⟨es', pool', t, hcoarse, hagree⟩ := hx.coarsen hadmitted
  obtain ⟨hclean, hexec⟩ := hcoarse.project (I := fun s => s.inside.Clean) hconn
    fun op s hs => coarse_undisturbed op hs
  refine ⟨es', pool', world t, hexec, fun i out => hagree.ended, fun hfree => ?_⟩
  obtain ⟨-, rfl⟩ := hagree.lock_free hfree
  exact ⟨hclean, rfl⟩

/-! ## Anything fails -/

/-- One action of a gateway on a connection that may fail. -/
inductive Gate.Takes (env : Env) : (op : Op σ) → World σ → Except Exc op.Ans → World σ → Prop where
  | whole {op : Op σ} {w : World σ} : Takes env op w (handle env op w).1 (handle env op w).2
  /-- A transaction that failed, and changed no table. -/
  | nothing {op : CatalogOp} {w : World σ} {e : Exc} {c' : Catalog} (h : w.catalog.Still c') :
      Takes env (.catalog op) w (.error e) { w with catalog := c' }
  /-- A transaction that was committed, and its caller does not know. -/
  | unconfirmed {op : CatalogOp} {w : World σ} {a : op.Ans} {e : Exc}
      (h : (op.exec env w.catalog).1 = .ok a) :
      Takes env (.catalog op) w (.error e) { w with catalog := (op.exec env w.catalog).2 }

/-- Tasks that act one at a time, each action of a transaction whole or without effect. -/
inductive Gate.Serial (env : Env) :
    (ι → CoreProg σ α) → World σ → (ι → CoreProg σ α) → World σ → Prop where
  | done {pool : ι → CoreProg σ α} {w : World σ} : Serial env pool w pool w
  | step {pool pool' : ι → CoreProg σ α} {w w' w'' : World σ} {i : ι} {op : Op σ}
      {k : Except Exc op.Ans → CoreProg σ α} {r : Except Exc op.Ans} (hi : pool i = .act op k)
      (h : Takes env op w r w') (rest : Serial env (Function.update pool i (k r)) w' pool' w'') :
      Serial env pool w pool' w''

variable {fate : ℕ → Fate} {gaveUp : ℕ → Option Exc}

theorem Gate.Method.Outcome.takes {op : CatalogOp} {w : World σ} {r : Except Exc op.Ans}
    {c' : Catalog} (h : (method op).Outcome env w.catalog r c') :
    Takes env (.catalog op) w r { w with catalog := c' } := by
  cases h with
  | whole =>
    rw [method_alone]
    exact .whole
  | nothing h => exact .nothing h
  | @unconfirmed _ e _ h =>
    rw [method_alone] at h
    have htakes := Takes.unconfirmed (w := w) (e := e) (congrArg Prod.fst h)
    rwa [h] at htakes

theorem Gate.coarse_takes (op : Op σ) {s : Sections.Shared Connection σ} (hs : s.inside.Clean) :
    ((machine env fate gaveUp).coarse op s).2.inside.Clean ∧
      Takes env op (world s) ((machine env fate gaveUp).coarse op s).1
        (world ((machine env fate gaveUp).coarse op s).2) := by
  cases op with
  | adapter | note | emit => exact ⟨hs, .whole⟩
  | catalog op =>
    cases hwait : gaveUp s.arrivals with
    | some e =>
      have hcoarse : (machine env fate gaveUp).coarse (.catalog op) s =
          (.error e, { s with arrivals := s.arrivals + 1 }) :=
        Sections.coarse_gaveUp rfl hwait
      rw [hcoarse]
      exact ⟨hs, .nothing (.refl _)⟩
    | none =>
      rw [Sections.coarse_guarded rfl hwait]
      obtain ⟨hclean, hout⟩ := @onConnection_spec env _ fate _ _ (strict_method op) hs
      exact ⟨hclean, Method.Outcome.takes (w := world s) hout⟩

theorem Gate.serial_of_coarse {pool pool' : ι → CoreProg σ α} {s s' : Sections.Shared Connection σ}
    {es : List (Event (@Op.Ans σ) Exc ι)}
    (hx : Exec (machine env fate gaveUp).coarse pool s es pool' s') (hs : s.inside.Clean) :
    s'.inside.Clean ∧ Serial env pool (world s) pool' (world s') := by
  induction hx with
  | done => exact ⟨hs, .done⟩
  | step hi _ ih =>
    obtain ⟨hclean, htakes⟩ := coarse_takes _ hs
    obtain ⟨hclean', hserial⟩ := ih hclean
    exact ⟨hclean', .step hi htakes hserial⟩

/-- And nobody waits for ever: while a task has something left to do, some task can make
    its next step, and the gate is free when all are done. -/
theorem gate_never_stuck (fate : ℕ → Fate) (gaveUp : ℕ → Option Exc)
    (pool : ι → CoreProg σ α) (conn : Connection) (store : σ)
    {fpool' : ι → Prog (Sections.Fine.Answer (@Op.Ans σ) Action.Ans) Exc α}
    {s' : Sections.Locked Connection σ}
    {es : List (Event (Sections.Fine.Answer (@Op.Ans σ) Action.Ans) Exc ι)}
    (hx : Exec (machine env fate gaveUp).fine (fun i => (machine env fate gaveUp).expand (pool i))
      { inside := conn, outside := store } es fpool' s')
    (hadmitted : Admitted (machine env fate gaveUp).fine (machine env fate gaveUp).Admits es
      { inside := conn, outside := store }) :
    (∃ j op k, fpool' j = .act op k ∧ (machine (σ := σ) env fate gaveUp).Admits op s') ∨
      (∀ i, (fpool' i).Ended) ∧ s'.held = false := by
  obtain ⟨es', pool', t, -, hagree⟩ := hx.coarsen hadmitted
  by_cases hall : ∀ i, (fpool' i).Ended
  · exact .inr ⟨hall, hagree.free_of_ended hall⟩
  · obtain ⟨i, hi⟩ := not_forall.mp hall
    exact .inl (hagree.progress hi)

/-! ## Two tasks -/

/-- A task that notes something, and binds a subject. -/
def bindTask (provider : String) : CoreProg Unit Unit := do
  note "provider" (.str provider)
  transact (.insertBinding "a" "u" provider)

def bindTasks (first : Bool) : CoreProg Unit Unit := bindTask (if first then "pg" else "zep")

/-- The first task is on the connection when the second one takes its note, and the second
    one comes to the gate when it is free again. -/
def bindSchedule : List Bool :=
  [true, true, false, true, true, true, true, false, false, false, false]

/-- What the two do on the schedule, from an empty catalog. -/
def bindRun (fate : ℕ → Fate) (schedule : List Bool) :=
  play (machine .counting fate fun _ => none).fine schedule
    (fun i => (machine .counting fate fun _ => none).expand (bindTasks i))
    { inside := ({} : Connection), outside := () }

/-- The first commit goes through, and the cancelled task does not know. -/
def cancelledCommit (sent : ℕ) : Fate := if sent = 1 then .lost .cancelled else .done

theorem clean_empty : ({} : Connection).Clean := rfl

theorem two_binds_serialise : ∃ es' pool' w',
    Exec (handle .counting) bindTasks { catalog := {}, store := () } es' pool' w' ∧
      w'.catalog.scopeBinding.rows.map BindingRow.provider = ["pg"] := by
  have hexec := play_exec (h := (undisturbed .counting).fine) bindSchedule
    (fun i => (undisturbed .counting).expand (bindTasks i))
    { inside := ({} : Connection), outside := () }
  obtain ⟨es', pool', w', hserial, -, hfree⟩ :=
    gated_serialises bindTasks {} () clean_empty hexec (by decide +kernel)
  obtain ⟨-, rfl⟩ := hfree (by decide +kernel)
  exact ⟨es', pool', _, hserial, by decide +kernel⟩

/-- With the first task on the connection, there is a step to make. -/
theorem bind_goes_on : ∃ j op k,
    (bindRun cancelledCommit [true, true, false]).2.1 j = .act op k ∧
      (machine .counting cancelledCommit fun _ => none).Admits op
        (bindRun cancelledCommit [true, true, false]).2.2 := by
  have hexec := play_exec (h := (machine .counting cancelledCommit fun _ => none).fine)
    [true, true, false]
    (fun i => (machine .counting cancelledCommit fun _ => none).expand (bindTasks i))
    { inside := ({} : Connection), outside := () }
  refine (gate_never_stuck cancelledCommit (fun _ => none) bindTasks {} () hexec
    (by decide +kernel)).resolve_right ?_
  rintro ⟨-, hfree⟩
  have hheld : (bindRun cancelledCommit [true, true, false]).2.2.held = true := by decide +kernel
  cases hheld.symm.trans hfree

end Memgw
