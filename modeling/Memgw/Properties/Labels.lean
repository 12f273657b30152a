-- SUMMARY: When a Mem0 scope with labels narrows: the filters never name a label, so it depends on what is stored.
import Memgw.Adapters.Mem0
import Memgw.Library.Table

/-!
# Labels at Mem0

The adapter declares labels and stores them as metadata, so the gateway lets a
scope with labels through. The filters of its three scoped calls are built from the
user, the agent and the session alone. Whether such a call stays within the labels
is then decided by the memories that happen to be there.
-/

namespace Memgw

open Mem0

variable {κ : Type} {client : Client κ} {stored : κ → List Stored}

/-! ## Writing under a scope -/

/-- The scope of a call that writes memories. -/
def AdapterOp.writeScope : AdapterOp → Option Scope
  | .ingest _ scope | .upsert _ scope => some scope
  | _ => none

/-- The state of a client after the adapter has served some calls. -/
def Mem0.afterCalls (client : Client κ) (rounds : Nat) (ops : List AdapterOp) (s : κ) : κ :=
  ops.foldl (fun s op => ((adapter client rounds).call op s).2) s

/-- The memory was stored for one of the calls, under that call's scope. -/
def WrittenBy (ops : List AdapterOp) (w : Stored) (scope : Scope) : Prop :=
  ∃ op ∈ ops, op.writeScope = some scope ∧ w.ids = writeIds scope ∧ w.metadata = scope.labels

theorem ingest_written (hlawful : client.Lawful stored) {s : κ} {episode : Episode} {scope : Scope} :
    (ingest episode scope).wp client (fun _ s' => ∀ w ∈ stored s',
      w ∈ stored s ∨ (w.ids = writeIds scope ∧ w.metadata = scope.labels)) s := by
  simp only [ingest, ask, Prog.bind_eq, Prog.wp_bind]
  refine Prog.wp_perform.mpr ?_
  split
  · intro w hw
    exact add_written hlawful hw
  · intro w hw
    exact add_written hlawful hw

theorem upsert_written (hlawful : client.Lawful stored) {s : κ} {facts : List String}
    {scope : Scope} :
    (upsert facts scope).wp client (fun _ s' => ∀ w ∈ stored s',
      w ∈ stored s ∨ (w.ids = writeIds scope ∧ w.metadata = scope.labels)) s := by
  induction facts generalizing s with
  | nil => exact fun w hw => .inl hw
  | cons fact facts ih =>
    simp only [upsert, ask, Prog.bind_eq, Prog.wp_bind]
    refine Prog.wp_perform.mpr ?_
    split
    · refine Prog.wp_mono (fun r s' hr => ?_) ih
      have hall : ∀ w ∈ stored s', w ∈ stored s ∨ (w.ids = writeIds scope ∧
          w.metadata = scope.labels) := by
        intro w hw
        rcases hr w hw with hw | hw
        · exact add_written hlawful hw
        · exact .inr hw
      cases r <;> exact hall
    · intro w hw
      exact add_written hlawful hw

/-- Whatever a run of writes leaves in an empty store, one of them wrote. -/
theorem afterCalls_written (hlawful : client.Lawful stored) {rounds : Nat} {ops : List AdapterOp}
    (hwrites : ∀ op ∈ ops, op.writeScope.isSome = true) {s : κ} (hempty : stored s = []) :
    ∀ w ∈ stored (afterCalls client rounds ops s), ∃ scope, WrittenBy ops w scope := by
  have hstep : ∀ (op : AdapterOp) (s : κ), op.writeScope.isSome = true →
      ∀ w ∈ stored ((adapter client rounds).call op s).2, w ∈ stored s ∨
        ∃ scope, WrittenBy [op] w scope := by
    intro op s hop w hw
    cases op with
    | ingest episode scope =>
      refine (ingest_written hlawful w hw).imp id (fun h => ?_)
      exact ⟨scope, _, List.mem_singleton_self _, rfl, h.1, h.2⟩
    | upsert facts scope =>
      refine (upsert_written hlawful w hw).imp id (fun h => ?_)
      exact ⟨scope, _, List.mem_singleton_self _, rfl, h.1, h.2⟩
    | update | search | listScope | get | delete | deleteScope | health => cases hop
  -- the induction peels the first call off, and its memories are old ones for the rest
  have hrun : ∀ (ops : List AdapterOp) (s : κ), (∀ op ∈ ops, op.writeScope.isSome = true) →
      ∀ w ∈ stored (afterCalls client rounds ops s), w ∈ stored s ∨
        ∃ scope, WrittenBy ops w scope := by
    intro ops
    induction ops with
    | nil => intro s _ w hw; exact .inl hw
    | cons op ops ih =>
      intro s hops w hw
      rcases ih _ (fun op' hop' => hops op' (List.mem_cons_of_mem op hop')) w hw with
        hw | ⟨scope, op', hop', hscope⟩
      · refine (hstep op s (hops op (List.mem_cons_self ..)) w hw).imp id ?_
        rintro ⟨scope, op', hop', hscope⟩
        obtain rfl := List.mem_singleton.mp hop'
        exact ⟨scope, op', List.mem_cons_self .., hscope⟩
      · exact .inr ⟨scope, op', List.mem_cons_of_mem op hop', hscope⟩
  intro w hw
  exact (hrun ops s hwrites w hw).resolve_left (by simp [hempty])

/-! ## Reading and erasing under labels -/

/-- The memory was written under labels that agree with every label asked for. -/
def WrittenUnder (ops : List AdapterOp) (asked : Labels) (w : Stored) : Prop :=
  ∃ scope, WrittenBy ops w scope ∧ scope.labels.agree asked = true

/-- The three scoped calls of the adapter keep to the labels of their scope. -/
structure Narrows (client : Client κ) (stored : κ → List Stored) (rounds : Nat)
    (ops : List AdapterOp) (scope : Scope) (s : κ) : Prop where
  search : ∀ query memories, ((adapter client rounds).call (.search query scope) s).1 = .ok memories →
    ∀ m ∈ memories, ∃ w ∈ stored s, w.id = m.nativeId ∧ WrittenUnder ops scope.labels w
  listScope : ∀ limit memories,
    ((adapter client rounds).call (.listScope scope limit) s).1 = .ok memories →
      ∀ m ∈ memories, ∃ w ∈ stored s, w.id = m.nativeId ∧ WrittenUnder ops scope.labels w
  deleteScope : ∀ w ∈ stored s, w ∉ stored ((adapter client rounds).call (.deleteScope scope) s).2 →
    WrittenUnder ops scope.labels w

/-- Every memory with a text that the filters of the scope match carries its labels. -/
def MatchesCarry (stored : κ → List Stored) (ops : List AdapterOp) (scope : Scope) (s : κ) : Prop :=
  ∀ w ∈ stored s, (buildFilters scope).selects w = true → w.memory ≠ "" →
    WrittenUnder ops scope.labels w

theorem labels_narrow_iff (client : Client κ) (stored : κ → List Stored)
    (hlawful : client.Lawful stored) (rounds : Nat) (ops : List AdapterOp)
    (hwrites : ∀ op ∈ ops, op.writeScope.isSome = true) (s₀ : κ) (hempty : stored s₀ = [])
    (scope : Scope) :
    let s := afterCalls client rounds ops s₀
    (∀ w ∈ stored s, ∃ written, WrittenBy ops w written) ∧
      (Narrows client stored rounds ops scope s ↔ MatchesCarry stored ops scope s) := by
  intro s
  refine ⟨afterCalls_written hlawful hwrites hempty, fun h w hw hsel htext => ?_, fun h => ?_⟩
  · obtain ⟨memories, hrun, m, hm, hid⟩ := listScope_complete hlawful hw hsel htext
    obtain ⟨w', hw', hid', hunder⟩ := h.listScope _ memories hrun m hm
    obtain rfl := hlawful.one s w' hw' w hw (hid'.trans hid)
    exact hunder
  · have hshown : ∀ m : ProviderMemory, (∃ w ∈ stored s, (buildFilters scope).selects w = true ∧
        w.memory ≠ "" ∧ w.id = m.nativeId) →
        ∃ w ∈ stored s, w.id = m.nativeId ∧ WrittenUnder ops scope.labels w := by
      rintro m ⟨w, hw, hsel, htext, hid⟩
      exact ⟨w, hw, hid, h w hw hsel htext⟩
    refine ⟨fun query memories hrun m hm => ?_, fun limit memories hrun m hm => ?_,
      fun w hw hgone => ?_⟩
    · exact hshown m ((search_selects hlawful).2 memories hrun m hm)
    · exact hshown m (listScope_selects hlawful memories hrun m hm)
    · obtain ⟨hsel, htext⟩ := (drain_only hlawful).2 w hw hgone
      exact h w hw hsel htext

/-! ## An erasure wider than asked -/

/-- A client over a table: it stores each message as one memory. -/
def tableClient : Client (Table [fun m : Stored => m.id])
  | .add messages metadata _ ids, t =>
    let rows := messages.mapIdx fun i message =>
      { id := String.ofList ('m' :: List.replicate (t.rows.length + i) 'I'), memory := message.2
        ids := ids, metadata := metadata.getD {} }
    match t.insert rows with
    | none => (.error (.other "ValueError" "duplicate id"), t)
    | some t' => (.ok (.object (some (.many (rows.map fun row => some (shown row))))), t')
  | .update .., t => (.ok (), t)
  | .search _ topK filters _, t => (.ok (listing topK filters t), t)
  | .getAll filters topK, t => (.ok (listing topK filters t), t)
  | .get nativeId, t => (.ok ((t.find? (·.id == nativeId)).map shown), t)
  | .delete nativeId, t => (.ok (), t.deleteWhere (·.id == nativeId))
where
  shown (m : Stored) : Item := { id := some m.id, memory := some m.memory }
  listing (topK : Nat) (filters : Entities) (t : Table [fun m : Stored => m.id]) : Answer :=
    .object (some (.many (((t.select filters.selects).take topK).map fun m => some (shown m))))

theorem tableClient_lawful : tableClient.Lawful Table.rows := by
  have hitems : ∀ topK filters t, (tableClient.listing topK filters t).items =
      ((t.select filters.selects).take topK).map tableClient.shown := by
    intro topK filters t
    have hsome : (id ∘ fun m => some (tableClient.shown m)) = some ∘ tableClient.shown := rfl
    rw [tableClient.listing, Answer.items, Answer.entries, List.filterMap_map, hsome,
      List.filterMap_eq_map]
  have hshows : ∀ m, (tableClient.shown m).Shows m := fun m => ⟨rfl, rfl, rfl, rfl⟩
  have hsound : ∀ topK filters t, ∀ item ∈ (tableClient.listing topK filters t).items,
      ∃ m ∈ t.rows, filters.selects m = true ∧ item.Shows m := by
    intro topK filters t item hitem
    rw [hitems] at hitem
    obtain ⟨m, hm, rfl⟩ := List.mem_map.mp hitem
    obtain ⟨hmem, hsel⟩ := Table.mem_select.mp (List.mem_of_mem_take hm)
    exact ⟨m, hmem, hsel, hshows m⟩
  refine {
    one := fun t m hm m' hm' hid => Table.eq_of_key (fun m => m.id) (by simp) hm hm' hid
    add := ?_
    search_keeps := fun _ _ _ _ _ => rfl
    search := ?_
    getAll_keeps := fun _ _ _ => rfl
    getAll := ?_
    delete_only := ?_
    delete_keeps := ?_ }
  · intro messages metadata infer ids t w hw
    simp only [tableClient] at hw
    split at hw
    · exact .inl hw
    · rename_i t' hinsert
      rw [Table.insert_rows hinsert, List.mem_append] at hw
      refine hw.imp id (fun hw => ?_)
      obtain ⟨i, hi, rfl⟩ := List.mem_mapIdx.mp hw
      exact ⟨rfl, rfl⟩
  · intro query topK filters threshold t answer hanswer
    obtain rfl := Except.ok.inj hanswer
    exact hsound topK filters t
  · intro filters topK t
    refine ⟨_, rfl, ?_, hsound topK filters t, fun hcount m hm hsel => ?_⟩
    · rw [hitems, List.length_map]
      exact List.length_take_le ..
    · refine ⟨tableClient.shown m, ?_, hshows m⟩
      rw [hitems]
      refine List.mem_map_of_mem ?_
      rw [List.take_of_length_le]
      · exact Table.mem_select.mpr ⟨hm, hsel⟩
      · rwa [Table.select, ← List.countP_eq_length_filter]
  · intro id t m hm hne
    exact Table.mem_deleteWhere.mpr ⟨hm, by simpa using hne⟩
  · intro id t m hm
    exact (Table.mem_deleteWhere.mp hm).1

def workScope : Scope where
  subject := ⟨"u_1", u_1_mustBeReal⟩
  labels := ⟨[("plan", "work")], by decide⟩

def homeScope : Scope where
  subject := ⟨"u_1", u_1_mustBeReal⟩
  labels := ⟨[("plan", "home")], by decide⟩

/-- Erasing what was written under one label takes what was written under another. -/
theorem labels_do_not_narrow :
    tableClient.Lawful Table.rows ∧ assertScopeSupported homeScope capabilities = .ok () ∧
      ¬ Narrows tableClient Table.rows 2 [.upsert ["tea"] workScope] homeScope
        (afterCalls tableClient 2 [.upsert ["tea"] workScope] .empty) := by
  refine ⟨tableClient_lawful, by decide, fun h => ?_⟩
  let w : Stored := { id := "m", memory := "tea", ids := writeIds workScope
                      metadata := workScope.labels }
  have hgone := h.deleteScope w (by decide) (by decide)
  obtain ⟨scope, ⟨op, hop, hscope, -, -⟩, hagree⟩ := hgone
  obtain rfl := List.mem_singleton.mp hop
  obtain rfl := Option.some.inj hscope
  exact absurd hagree (by decide)

/-- With the label it was written under, the same memory is all that is erased. -/
theorem labels_narrow_alone :
    Narrows tableClient Table.rows 2 [.upsert ["tea"] workScope] workScope
      (afterCalls tableClient 2 [.upsert ["tea"] workScope] .empty) := by
  refine (labels_narrow_iff tableClient Table.rows tableClient_lawful 2 [.upsert ["tea"] workScope]
    (by decide) .empty rfl workScope).2.mpr (fun w hw _ _ => ?_)
  obtain ⟨written, hwritten⟩ := (labels_narrow_iff tableClient Table.rows tableClient_lawful 2
    [.upsert ["tea"] workScope] (by decide) .empty rfl workScope).1 w hw
  refine ⟨written, hwritten, ?_⟩
  obtain ⟨op, hop, hscope, -, -⟩ := hwritten
  obtain rfl := List.mem_singleton.mp hop
  obtain rfl := Option.some.inj hscope
  decide

end Memgw
