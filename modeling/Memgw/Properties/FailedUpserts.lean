-- SUMMARY: What a failed upsert leaves with the provider: nothing at a database, and the facts before the failure at a remote service.
import Memgw.Gateway.Calls
import Memgw.Adapters.Mem0
import Memgw.Adapters.PgvectorCalls
import Memgw.Adapters.Zep

/-!
# Failed upserts

The error of a failed upsert says that the call can be made again. The database adapter
writes all facts in one transaction, so nothing is stored twice when it is. The other
two make one call for each fact: what they have stored by the time a call fails stays
with the service, and has no row in the catalog.
-/

namespace Memgw

variable {σ : Type} {env : Env}

/-! ## The verb -/

/-- The adapter that the upsert reaches, if it reaches one. -/
def MemoryCore.ServedBy (core : MemoryCore σ) (c : Catalog) (t : String) (scope : Scope)
    (asserted : Option String) (a : Adapter σ) : Prop :=
  ∀ name b, core.Prepares c t scope asserted name b → b = a

/-- The question of an upsert. -/
theorem MemoryCore.Asks.upsert_inv {core : MemoryCore σ} {c : Catalog} {t : String}
    {facts : List String} {scope : Scope} {asserted : Option String} {name : String}
    {a b : Adapter σ} {op : AdapterOp}
    (hask : core.Asks c (.upsert t facts scope asserted) name b op)
    (hserved : core.ServedBy c t scope asserted a) :
    b = a ∧ op = .upsert facts (scope.under t) := by
  cases hask with
  | upsert _ hp => exact ⟨hserved _ _ hp, rfl⟩

/-- Asking after the health of a provider changes nothing that is kept there. -/
theorem HealthSteps.kept {H : Type} {holds : σ → H} {name : String} {a : Adapter σ} {s s' : σ}
    {steps : List (CoreStep σ)} (h : HealthSteps name a s steps s')
    (hhealth : ∀ s, holds (a.call .health s).2 = holds s) : holds s' = holds s := by
  rcases h with ⟨-, rfl⟩ | ⟨-, rfl⟩
  · rfl
  · exact hhealth s

/-- Either a check refuses the upsert, or the adapter is asked, and at most asked after its
    health then. -/
theorem MemoryCore.ServedBy.upsert_cases {core : MemoryCore σ} {a : Adapter σ} {t : String}
    {scope : Scope} {asserted : Option String} {w : World σ}
    (hserved : core.ServedBy w.catalog t scope asserted a) (env : Env) (facts : List String) :
    (core.Refuses w.catalog (.upsert t facts scope asserted) ∧
      (Request.after env (core, .upsert t facts scope asserted) w).store = w.store) ∨
    ∃ name, core.Asks w.catalog (.upsert t facts scope asserted) name a
        (.upsert facts (scope.under t)) ∧
      ∃ steps, HealthSteps name a (a.call (.upsert facts (scope.under t)) w.store).2 steps
        (Request.after env (core, .upsert t facts scope asserted) w).store := by
  have hconducts := Request.conducts env (core, .upsert t facts scope asserted) w
  generalize Request.asked env (core, .upsert t facts scope asserted) w = steps at hconducts
  generalize Request.answer env (core, .upsert t facts scope asserted) w = r at hconducts
  generalize Request.after env (core, .upsert t facts scope asserted) w = w' at hconducts ⊢
  cases hconducts with
  | refused h => exact .inl ⟨h, rfl⟩
  | failed hask _ hsteps =>
    obtain ⟨rfl, rfl⟩ := hask.upsert_inv hserved
    exact .inr ⟨_, hask, _, hsteps⟩
  | answered hask _ hstore =>
    obtain ⟨rfl, rfl⟩ := hask.upsert_inv hserved
    exact .inr ⟨_, hask, [], .inl ⟨rfl, hstore⟩⟩
  | rebound hcall => cases hcall

/-- What an upsert leaves with the provider is what the adapter's own upsert leaves,
    unless a check keeps it from the adapter. -/
theorem upsert_leaves_nothing_iff {H : Type} (holds : σ → H) {core : MemoryCore σ}
    {a : Adapter σ} {t : String} {facts : List String} {scope : Scope} {asserted : Option String}
    {w : World σ} (hserved : core.ServedBy w.catalog t scope asserted a)
    (hhealth : ∀ s, holds (a.call .health s).2 = holds s) :
    holds (Request.after env (core, .upsert t facts scope asserted) w).store = holds w.store ↔
      core.Refuses w.catalog (.upsert t facts scope asserted) ∨
        holds (a.call (.upsert facts (scope.under t)) w.store).2 = holds w.store := by
  rcases hserved.upsert_cases env facts with ⟨hrefused, hstore⟩ | ⟨name, hask, steps, hsteps⟩
  · exact ⟨fun _ => .inl hrefused, fun _ => congrArg holds hstore⟩
  · rw [or_iff_right hask.not_refuses, hsteps.kept hhealth]

/-! ## The adapters -/

/-- An upsert through the database adapter that raised has changed no table. -/
theorem Pgvector.upsert_leaves_nothing {cfg : Config} {h : Handler Action.Ans Exc State}
    {core : MemoryCore State} {t : String} {facts : List String} {scope : Scope}
    {asserted : Option String} {w : World State} {e : Exc} (hfaulty : Faulty cfg h)
    (hserved : core.ServedBy w.catalog t scope asserted (adapterOver env cfg h))
    (hminted : w.catalog.Minted env)
    (hraised : Request.answer env (core, .upsert t facts scope asserted) w = .error e) :
    (Request.after env (core, .upsert t facts scope asserted) w).store.tables =
      w.store.tables := by
  refine (upsert_leaves_nothing_iff State.tables hserved fun _ => rfl).mpr ?_
  rcases hserved.upsert_cases env facts with ⟨hrefused, -⟩ | ⟨name, hask, -⟩
  · exact .inl hrefused
  refine .inr ?_
  cases hcall : (adapterOver env cfg h).call (.upsert facts (scope.under t)) w.store with
  | mk r s₁ =>
    have hall := Prog.of_wp (upsert_all_or_none hfaulty) hcall
    cases r with
    | error e => exact hall
    | ok memories =>
      -- new rows have new ids, so the bookkeeping after the call cannot fail
      obtain ⟨reply, hreply⟩ := upsert_returns hask hcall hminted hall
      cases hraised.symm.trans hreply

/-- An upsert through the Mem0 adapter has left nothing behind exactly when it was
    refused, or the client did not take its first fact. -/
theorem Mem0.upsert_leaves_nothing {κ E : Type} {client : Client κ} {rounds : Nat}
    {holds : κ → Set E} {core : MemoryCore κ} {t : String} {facts : List String} {scope : Scope}
    {asserted : Option String} {w : World κ} (hadds : client.Adds holds)
    (hserved : core.ServedBy w.catalog t scope asserted (adapter client rounds)) :
    holds (Request.after env (core, .upsert t facts scope asserted) w).store = holds w.store ↔
      core.Refuses w.catalog (.upsert t facts scope asserted) ∨
        ∀ fact ∈ facts.head?, ¬ client.Accepts (scope.under t) w.store fact :=
  (Memgw.upsert_leaves_nothing_iff holds hserved fun _ => health_holds hadds).trans
    (or_congr_right (upsert_leaves_nothing_iff hadds))

/-- And so with the Zep adapter. -/
theorem Zep.upsert_leaves_nothing {κ E : Type} {client : Client κ} {holds : κ → Set E}
    {core : MemoryCore (State κ)} {t : String} {facts : List String} {scope : Scope}
    {asserted : Option String} {w : World (State κ)} (hadds : client.Adds holds)
    (hserved : core.ServedBy w.catalog t scope asserted (adapter client)) :
    holds (Request.after env (core, .upsert t facts scope asserted) w).store.client =
        holds w.store.client ↔
      core.Refuses w.catalog (.upsert t facts scope asserted) ∨
        ∀ fact ∈ facts.head?, ¬ client.Accepts (scope.under t) w.store fact := by
  have hhealth : ∀ s : State κ,
      holds ((adapter client).call .health s).2.client = holds s.client :=
    fun _ => health_holds hadds
  exact (Memgw.upsert_leaves_nothing_iff (fun s => holds s.client) hserved hhealth).trans
    (or_congr_right (upsert_leaves_nothing_iff hadds))

/-- A world that some earlier requests led to, from an empty catalog. -/
def Reached (env : Env) (w : World σ) : Prop :=
  ∃ earlier store, w = serve env earlier { catalog := {}, store := store }

/-- A client that takes one memory, and has no connection from then on. -/
def briefClient : Mem0.Client (List String)
  | .add messages _ _ _, [] => (.ok (.list [some { id := some "n", memory := some "likes tea" }]),
      messages.map Prod.snd)
  | .add .., s => (.error (.other "ConnectionError" "connection reset"), s)
  | .search .., s | .getAll .., s => (.ok .null, s)
  | .get _, s => (.ok none, s)
  | .update .., s | .delete _, s => (.ok (), s)

def briefGateway : MemoryCore (List String) where
  providers := [("mem0", Mem0.adapter briefClient 1)]
  defaultProvider := some "mem0"

def twoFacts : Request (List String) :=
  (briefGateway, .upsert "a" ["likes tea", "likes rye"] { subject := ⟨"u_1", u_1_mustBeReal⟩ } none)

theorem briefClient_adds : briefClient.Adds fun s => {x | x ∈ s} where
  add text metadata ids s answer h := by
    cases s with
    | nil => exact ⟨fun _ hx => absurd hx List.not_mem_nil, text, List.mem_singleton_self _,
        List.not_mem_nil⟩
    | cons x xs => cases h
  raised text metadata ids s e h := by
    cases s with
    | nil => cases h
    | cons x xs => rfl
  getAll filters topK s := rfl

theorem servedBy_single {core : MemoryCore σ} {a : Adapter σ} {name t : String} {c : Catalog}
    {scope : Scope} {asserted : Option String} (hsingle : core.providers = [(name, a)]) :
    core.ServedBy c t scope asserted a :=
  fun _ _ hp => MemoryCore.adapter_single hsingle hp.configured

/-- The first fact stays with the service, without a row, although the upsert failed. -/
theorem first_fact_stays :
    (∃ e, twoFacts.answer .counting { catalog := {}, store := [] } = .error e) ∧
      (twoFacts.after .counting { catalog := {}, store := [] }).store = ["likes tea"] ∧
      (twoFacts.after .counting { catalog := {}, store := [] }).catalog.memoryIndex.rows = [] :=
  ⟨⟨_, rfl⟩, by decide, by decide⟩

def plainConfig : Pgvector.Config where
  table := "pgvector_memories"
  embed _ texts := .ok (texts.map fun _ => [])
  sqrt := id
  distance _ _ := .number 0

/-- A database that is out of space. -/
def fullDatabase : Handler Pgvector.Action.Ans Exc Pgvector.State
  | .insert _, s => (.error (.other "OperationalError" "database or disk is full"), s)
  | op, s => Pgvector.handle plainConfig op s

theorem fullDatabase_faulty : Pgvector.Faulty plainConfig fullDatabase := by
  intro op s
  cases op with
  | insert rows => exact .inr ⟨_, rfl⟩
  | embed | extract | draw | rewrite | select | delete => exact .inl rfl

/-- The Zep client of the same kind as `briefClient`. -/
def briefGraph : Zep.Client (List String) where
  answer
    | .graphAdd _ data, [] => (.ok { uuid_ := some "n" }, [data])
    | .graphAdd .., s => (.error (.other "ConnectError" "connection reset"), s)
    | .graphSearch .., s | .edgesOf .., s | .edgeGet _, s => (.ok none, s)
    | .userAdd _, s | .userDelete _, s | .edgeDelete _, s => (.ok (), s)
  statusCode _ := none

theorem briefGraph_adds : briefGraph.Adds fun s => {x | x ∈ s} where
  graphAdd user data s edge h := by
    cases s with
    | nil => exact ⟨fun _ hx => absurd hx List.not_mem_nil, data, List.mem_singleton_self _,
        List.not_mem_nil⟩
    | cons x xs => cases h
  raised user data s e h := by
    cases s with
    | nil => cases h
    | cons x xs => rfl
  userAdd user s := rfl
  graphSearch query user scope limit s := rfl

def fullGateway : MemoryCore Pgvector.State where
  providers := [("pgvector", Pgvector.adapterOver .counting plainConfig fullDatabase)]
  defaultProvider := some "pgvector"

def briefGraphGateway : MemoryCore (Zep.State (List String)) where
  providers := [("zep", Zep.adapter briefGraph)]
  defaultProvider := some "zep"

def oneFact {σ : Type} (core : MemoryCore σ) : Request σ :=
  (core, .upsert "a" ["likes tea"] { subject := ⟨"u_1", u_1_mustBeReal⟩ } none)

end Memgw
