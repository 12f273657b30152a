-- SUMMARY: What the callers of a self-hosted gateway may count on, over whole runs.
import Memgw.Properties.ShelfRefinement

/-!
# Counting on a shelf

Every run of a gateway over self-hosted adapters is a run of a shelf, and what a caller
may count on is read off the shelf: a memory that was written is there until it is
removed, and an id that was given out stands for one memory for good.
-/

namespace Memgw

open Pgvector

variable {env : Env} {naming : String → String}

/-- A request to a gateway over tables of its own, by a tenant with a name. -/
structure Request.Hosted (env : Env) (naming : String → String) (q : Request State) : Prop where
  tables : q.1.OverTables env naming
  tenant : q.2.tenant ≠ ""

/-- The calls of a run, each with its answer. -/
@[reducible] def heard (env : Env) (qs : List (Request State)) (w : World State) :
    List (Call × Except Exc Reply) :=
  Spec.transcript Prod.snd (Request.answer env) (Request.after env) qs w

/-- Before any request. -/
@[reducible] def started (env : Env) (qs : List (Request State)) : World State :=
  serve env qs { catalog := {}, store := {} }

theorem shelf_empty : shelf naming { catalog := {}, store := {} } = Shelf.empty := by
  funext g
  refine shelf_unused.mpr ?_
  rintro ⟨r, hr, -⟩
  exact Table.not_mem_empty hr

/-- One request after the other, the gateway is a server that a shelf specifies. -/
theorem shelf_simulates (hinj : Function.Injective naming) :
    Spec.Simulates (Shelf.Serves longestPage) Prod.snd (Request.answer env) (Request.after env)
      (Request.Hosted env naming) (Shelved env naming) (shelf naming) where
  keeps q w hq hw := by
    have hdid := Request.did env q w
    exact ⟨hdid.selfHosted hq.tables.overPgvector hw.hosted, hdid.minted hw.minted,
      hdid.numbered hw.numbered, (hw.step hinj hq.tables hq.tenant).1⟩
  allowed q w hq hw := (hw.step hinj hq.tables hq.tenant).2

theorem serve_shelved (hinj : Function.Injective naming) {qs : List (Request State)}
    (hqs : ∀ q ∈ qs, q.Hosted env naming) : Shelved env naming (started env qs) :=
  (shelf_simulates hinj).invariant hqs .empty

/-- The table of the plain gateway, and a table for every other name. -/
def plainTable (provider : String) : String := Equiv.swap "pg" "memories" provider

theorem plainTable_injective : Function.Injective plainTable := Equiv.injective _

theorem plainGateway_tables : plainGateway.OverTables .counting plainTable := by
  intro name a ha
  simp only [MemoryCore.adapter, plainGateway, List.lookup_cons] at ha
  by_cases hname : name = "pg"
  · subst hname
    simp only [beq_self_eq_true] at ha
    exact ⟨.plain "memories", (Except.ok.inj ha).symm, (Equiv.swap_apply_left ..).symm⟩
  · simp [beq_eq_false_iff_ne.mpr hname] at ha

theorem plainGateway_hosted {call : Call} (h : call.tenant ≠ "") :
    Request.Hosted .counting plainTable (plainGateway, call) :=
  ⟨plainGateway_tables, h⟩

def cocoaUpsert : Request State := (plainGateway, .upsert "a" ["cocoa"] userScope none)

/-- A tenant writes a memory and words it anew, and another tries to delete it. -/
def cocoaRequests : List (Request State) :=
  [cocoaUpsert, (plainGateway, .update "a" "mg" "hot cocoa"), (plainGateway, .delete "b" "mg")]

/-- Reading it back. -/
def cocoaRead : Request State := (plainGateway, .get "a" "mg")

theorem cocoaRequests_hosted :
    ∀ q ∈ cocoaRequests ++ [cocoaRead], q.Hosted .counting plainTable := by
  have hplain : ∀ q ∈ cocoaRequests ++ [cocoaRead], q = (plainGateway, q.2) ∧ q.2.tenant ≠ "" := by
    simp [cocoaRequests, cocoaUpsert, cocoaRead, Call.tenant]
  intro q hq
  obtain ⟨heq, ht⟩ := hplain q hq
  exact heq ▸ plainGateway_hosted ht

/-- From a state that a run has reached, more requests are a run of the shelf too. -/
theorem shelf_goes_on (hinj : Function.Injective naming) {qs qs' : List (Request State)}
    (hqs : ∀ q ∈ qs ++ qs', q.Hosted env naming) :
    Spec.Runs (Shelf.Serves longestPage) (shelf naming (started env qs))
      (heard env qs' (started env qs)) (shelf naming (started env (qs ++ qs'))) := by
  obtain ⟨hqs, hqs'⟩ := List.forall_mem_append.mp hqs
  rw [started, started, serve_append]
  exact (shelf_simulates hinj).runs hqs' (serve_shelved hinj hqs)

/-- What an answer hands out is on the shelf that the request leaves. -/
theorem shelf_shown (hinj : Function.Injective naming) {qs : List (Request State)}
    {q : Request State} (hqs : ∀ q' ∈ qs ++ [q], q'.Hosted env naming) {reply : Reply}
    (hreply : q.answer env (started env qs) = .ok reply) {record : MemoryRecord}
    (hrecord : record ∈ reply.records) :
    ∃ e, shelf naming (started env (qs ++ [q])) record.id = .kept e ∧
      e.HandsOut q.2.tenant record := by
  obtain ⟨hqs, hq⟩ := List.forall_mem_append.mp hqs
  have hq := hq q (List.mem_singleton_self q)
  have hserves := ((serve_shelved hinj hqs).step hinj hq.tables hq.tenant).2
  rw [hreply] at hserves
  rw [started, serve_append]
  exact hserves.shown hrecord

/-! ## What was written is there -/

/-- A get of an id that holds a memory of the tenant hands the memory out. -/
theorem Shelved.get_kept {w : World State} {core : MemoryCore State}
    (hcore : core.OverTables env naming) {g : String} {e : Entry}
    (hkept : shelf naming w g = .kept e) {a : Adapter State} (ha : core.adapter e.provider = .ok a) :
    Request.answer env (core, .get e.tenant g) w = .ok (.memory (e.record g)) := by
  obtain ⟨r, hr, rfl, hlive, row, hrow, rfl⟩ := shelf_kept.mp hkept
  obtain ⟨cfg, rfl, htable⟩ := hcore _ _ ha
  have hcall : (Pgvector.adapter env cfg).call (.get r.nativeId) w.store =
      (.ok (some (toMemory none row)), w.store) := by
    rw [call_get]
    have hfind : (w.store.rows cfg).find? (·.nativeId == r.nativeId) = some row := by
      rw [State.rows, htable]
      exact hrow
    rw [hfind, Option.map_some]
  exact congrArg Prod.fst (get_run (resolveGatewayId_of_mem hr hlive) ha hcall)

def cocoaRecord : MemoryRecord where
  id := "mg"
  provider := "pg"
  nativeId := "pvI"
  content := "cocoa"
  scope := userScope
  createdAt := some 1
  updatedAt := some 1
  providerRaw := [("adapter", .str "pgvector")]

theorem cocoa_written :
    cocoaUpsert.answer .counting (started .counting []) =
      .ok (.wrote { results := [cocoaRecord], provider := "pg" }) := by
  decide

end Memgw
