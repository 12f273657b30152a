-- SUMMARY: When a delete outlives an overlapping update: the update has to record before the delete marks.
import Memgw.Gateway.Traces
import Memgw.Properties.Reads

/-!
# An update overlapping a delete

An update records what the provider answered through the path of writes, which
revives a deleted row. A delete that marked the row between the update's adapter
call and that record is undone. Each of the two changes the index once, so it all
comes down to the order of these two steps.
-/

namespace Memgw

variable {σ : Type} {env : Env}

/-! ## Deleted for good -/

/-- The row of the gateway id is deleted, and no read by anyone finds it. -/
structure StaysDeleted (env : Env) (core : MemoryCore σ) (t gatewayId : String) (w : World σ) :
    Prop where
  row : ∃ r ∈ w.catalog.memoryIndex, r.gatewayId = gatewayId ∧ r.tenantId = t ∧ r.live = false
  get : ∃ e, Request.answer env (core, .get t gatewayId) w = .error (.gateway e) ∧
    e.cls = .memoryNotFound
  reads : ∀ (later : List (Request σ)) (q : Request σ), (∀ q' ∈ later, q'.2.isRead = true) →
    q.2.isRead = true → ∀ reply, q.answer env (serve env later w) = .ok reply →
      ∀ record ∈ reply.records, record.id ≠ gatewayId

theorem staysDeleted_of_row {core : MemoryCore σ} {t gatewayId : String} {w : World σ}
    {r : IndexRow} (hr : r ∈ w.catalog.memoryIndex) (hg : r.gatewayId = gatewayId)
    (ht : r.tenantId = t) (hdead : r.live = false) : StaysDeleted env core t gatewayId w where
  row := ⟨r, hr, hg, ht, hdead⟩
  get := by
    have hnone : resolveGatewayId t gatewayId w.catalog = none := by
      refine resolveGatewayId_none.mpr fun r' hr' ⟨hg', _, hl⟩ => ?_
      rw [eq_of_gatewayId hr' hr (hg'.trans hg.symm), hdead] at hl
      cases hl
    exact ⟨_, congrArg Prod.fst (get_missing_run hnone), rfl⟩
  reads later q hlater hread reply hreply record hrecord hid := by
    have hdid := hreply ▸ q.did env (serve env later w)
    obtain ⟨r₁, h₁, -, -, -, hg₁, hl₁⟩ := hdid.read_row hread hrecord
    have hr := (hdid.read_extends hread).rows r ((serve_reads_extend hlater).rows r hr)
    rw [eq_of_gatewayId h₁ hr (hg₁.trans (hid.trans hg.symm)), hdead] at hl₁
    cases hl₁

/-! ## The overlap -/

inductive UpdateDelete where
  | updater
  | deleter
  deriving DecidableEq

def updateAndDelete (core : MemoryCore σ) (t gatewayId content : String) :
    UpdateDelete → CoreProg σ Reply
  | .updater => core.exec (.update t gatewayId content)
  | .deleter => core.exec (.delete t gatewayId)

/-- The adapter answered the update with another native id than the one it was given. -/
def Renamed (es : List (Event (@Op.Ans σ) Exc UpdateDelete)) : Prop :=
  ∃ name a n content memory,
    ⟨.updater, ⟨.adapter name a (.update n content), .ok memory⟩⟩ ∈ es ∧ memory.nativeId ≠ n

/-- A row that was resolved on the way is there at the end, dead or alive. -/
theorem row_of_resolved {ι : Type} {es : List (Event (@Op.Ans σ) Exc ι)} {w : World σ}
    {t gatewayId : String} {row : CatalogRow} {i : ι} (hes : Faithful (handle env) es w)
    (hmem : ⟨i, ⟨.catalog (.resolveGatewayId t gatewayId), .ok (some row)⟩⟩ ∈ es) :
    ∃ r ∈ (replay (handle env) es w).catalog.memoryIndex, r.gatewayId = gatewayId ∧
      r.tenantId = t ∧ r.provider = row.provider ∧ r.nativeId = row.nativeId := by
  obtain ⟨es₁, es₂, rfl⟩ := List.append_of_mem hmem
  obtain ⟨-, hans, h₂⟩ := faithful_append.mp hes
  obtain ⟨r, hr, rfl, rfl, -, rfl⟩ := resolveGatewayId_some (Except.ok.inj hans).symm
  obtain ⟨r', hr', hid, hkey⟩ := row_survives h₂ hr
  refine ⟨r', replay_append ▸ hr', ?_⟩
  simpa [IndexRow.idKey, IndexRow.nativeKey, IndexRow.toRow] using And.intro hid hkey

/-- Once an id is marked, and while the index stays as it is, its rows are deleted. -/
theorem dead_of_marked {ι : Type} {es₁ es₂ : List (Event (@Op.Ans σ) Exc ι)} {w : World σ}
    {t gatewayId : String} {i : ι} {x : Except Exc Bool}
    (hes : Faithful (handle env) (es₁ ++ ⟨i, ⟨.catalog (.markDeleted t gatewayId), x⟩⟩ :: es₂) w)
    (hkept : es₂.filter (fun e => changesIndex e.step) = []) {r : IndexRow}
    (hr : r ∈ (replay (handle env) (es₁ ++ ⟨i, ⟨.catalog (.markDeleted t gatewayId), x⟩⟩ :: es₂)
      w).catalog.memoryIndex)
    (hg : r.gatewayId = gatewayId) (ht : r.tenantId = t) : r.live = false := by
  obtain ⟨-, -, h₂⟩ := faithful_append.mp hes
  rw [replay_append, replay_cons, replay_memoryIndex h₂ hkept] at hr
  obtain ⟨r₀, -, rfl⟩ := mem_bury.mp hr
  split
  · rfl
  · rename_i hspared
    by_contra hl
    simp only [hspared] at hg ht hl
    exact hspared (IndexRow.issued_iff.mpr ⟨hg, ht, by simpa using hl⟩)

section

variable {core : MemoryCore σ} {t gatewayId : String} {w : World σ}
  {es : List (Event (@Op.Ans σ) Exc UpdateDelete)} {row : CatalogRow} {marked : Bool}

/-- What marks the row is the last to change the index. -/
theorem staysDeleted_of_marked_last (hes : Faithful (handle env) es w)
    (hresolved :
      ⟨.updater, ⟨.catalog (.resolveGatewayId t gatewayId), .ok (some row)⟩⟩ ∈ es)
    {x : Event (@Op.Ans σ) Exc UpdateDelete}
    (hpair : es.filter (fun e => changesIndex e.step) =
      [x, ⟨.deleter, ⟨.catalog (.markDeleted t gatewayId), .ok marked⟩⟩]) :
    StaysDeleted env core t gatewayId (replay (handle env) es w) := by
  obtain ⟨r, hr, hg, ht, -⟩ := row_of_resolved hes hresolved
  obtain ⟨l₁, l₂, rfl, -, -, hpair⟩ := List.filter_eq_cons_iff.mp hpair
  obtain ⟨l₂, l₃, rfl, -, -, hkept⟩ := List.filter_eq_cons_iff.mp hpair
  have hsplit : ∀ y, l₁ ++ x :: (l₂ ++ y :: l₃) = (l₁ ++ x :: l₂) ++ y :: l₃ := by simp
  rw [hsplit] at hes hr ⊢
  exact staysDeleted_of_row hr hg ht (dead_of_marked hes hkept hr hg ht)

/-- The record comes after the mark: it revives the row when it is for its native id. -/
theorem staysDeleted_of_recorded_last {es₁ es₂ : List (Event (@Op.Ans σ) Exc UpdateDelete)}
    {content native : String} {rows : List CatalogRow}
    (hes : Faithful (handle env) (es₁ ++ ⟨.updater, ⟨.catalog (.mapAttempt t row.provider
      [(native, content)] row.scope true), .ok rows⟩⟩ :: es₂) w)
    (hresolved :
      ⟨.updater, ⟨.catalog (.resolveGatewayId t gatewayId), .ok (some row)⟩⟩ ∈ es₁)
    (hmarked : es₁.filter (fun e => changesIndex e.step) =
      [⟨.deleter, ⟨.catalog (.markDeleted t gatewayId), .ok marked⟩⟩])
    (hkept : es₂.filter (fun e => changesIndex e.step) = []) :
    StaysDeleted env core t gatewayId (replay (handle env) (es₁ ++ ⟨.updater,
      ⟨.catalog (.mapAttempt t row.provider [(native, content)] row.scope true), .ok rows⟩⟩ ::
        es₂) w) ↔ native ≠ row.nativeId := by
  obtain ⟨h₁, hans, h₂⟩ := faithful_append.mp hes
  obtain ⟨r, hr, hg, ht, hp, hn⟩ := row_of_resolved h₁ hresolved
  have hdead : r.live = false := by
    obtain ⟨l₁, l₂, rfl, -, -, hnone⟩ := List.filter_eq_cons_iff.mp hmarked
    exact dead_of_marked h₁ hnone hr hg ht
  have hmap := mapAttempt_ok (Prod.ext hans.symm rfl)
  obtain ⟨now, fresh, hindex, -⟩ := hmap.index
  have hfinal : (replay (handle env) (es₁ ++ ⟨.updater, ⟨.catalog (.mapAttempt t row.provider
      [(native, content)] row.scope true), .ok rows⟩⟩ :: es₂) w).catalog.memoryIndex =
        (mapAttempt env t row.provider [(native, content)] row.scope true
          (replay (handle env) es₁ w).catalog).2.memoryIndex := by
    rw [replay_append, replay_cons, replay_memoryIndex h₂ hkept]
    rfl
  constructor
  · -- the row is revived, and it is the only one under its id
    rintro hstays rfl
    have hburied : r.buried t row.provider ([(row.nativeId, content)].map Prod.fst) = true := by
      simp [IndexRow.buried, IndexRow.doomed_iff, ht, hp, hn, hdead]
    have hrevived := (hindex _).mpr (.inl ⟨r, hr, rfl⟩)
    rw [hburied, Bool.and_self, if_pos rfl, ← hfinal] at hrevived
    obtain ⟨r', hr', hg', -, hdead'⟩ := hstays.row
    have hsame := eq_of_gatewayId hrevived hr' (hg.trans hg'.symm)
    rw [← hsame] at hdead'
    cases hdead'
  · intro hne
    have hspared : r.buried t row.provider ([(native, content)].map Prod.fst) = false := by
      simp [IndexRow.buried, IndexRow.doomed, hn, Ne.symm hne]
    have hstill := (hindex _).mpr (.inl ⟨r, hr, rfl⟩)
    rw [hspared, Bool.and_false, if_neg Bool.false_ne_true, ← hfinal] at hstill
    exact staysDeleted_of_row hstill hg ht hdead

end

theorem delete_sticks_iff (env : Env) (core : MemoryCore σ) (t gatewayId content : String)
    (w w' : World σ) (es : List (Event (@Op.Ans σ) Exc UpdateDelete))
    (pool' : UpdateDelete → CoreProg σ Reply) (updated erased : Reply)
    (hrun : Exec (handle env) (updateAndDelete core t gatewayId content) w es pool' w')
    (hupdated : pool' .updater = .ret updated) (hdeleted : pool' .deleter = .ret erased) :
    StaysDeleted env core t gatewayId w' ↔
      order changesIndex es = [.updater, .deleter] ∨ Renamed es := by
  have hes := hrun.faithful
  obtain rfl := hrun.replay
  obtain ⟨row, a, memory, lost, rows, hlost, -, hU⟩ := update_traces _ _ (hrun.returned hupdated)
  obtain ⟨row', a', b, marked, hD⟩ := delete_traces _ _ (hrun.returned hdeleted)
  have hrecord : (own .updater es).filter changesIndex =
      [⟨.catalog (.mapAttempt t row.provider [(memory.nativeId, content)] row.scope true),
        .ok rows⟩] := by
    rw [← filter_dataSteps fun _ h => (changes_nothing h).1, hU]
    have hnone : lost.filter changesIndex = [] := hlost.filter fun _ => rfl
    simp [changesIndex, CatalogOp.writesIndex, hnone]
  have hmark : (own .deleter es).filter changesIndex =
      [⟨.catalog (.markDeleted t gatewayId), .ok marked⟩] := by
    rw [← filter_dataSteps fun _ h => (changes_nothing h).1, hD]
    rfl
  have hresolved : ⟨.catalog (.resolveGatewayId t gatewayId), .ok (some row)⟩ ∈
      dataSteps (own .updater es) := by simp [hU]
  have hrenamed : Renamed es ↔ memory.nativeId ≠ row.nativeId := by
    constructor
    · rintro ⟨name, a', n, content', memory', hmem, hne⟩
      have hmem : ⟨.adapter name a' (.update n content'), .ok memory'⟩ ∈
          dataSteps (own .updater es) := List.mem_filter.mpr ⟨mem_own.mpr hmem, rfl⟩
      rw [hU] at hmem
      rcases List.mem_cons.mp hmem with h | hmem
      · cases h
      · rcases List.mem_cons.mp hmem with h | hmem
        · cases h
          exact hne
        · rcases List.mem_append.mp hmem with hmem | hmem
          · obtain ⟨text, h⟩ := hlost _ hmem
            cases h
          · cases List.mem_singleton.mp hmem
    · intro hne
      exact ⟨row.provider, a, row.nativeId, content, memory, mem_of_dataSteps (by simp [hU]), hne⟩
  have hwho : ∀ e ∈ es, e.who = .updater ∨ e.who = .deleter := by
    intro e _
    cases e.who <;> simp
  rcases filter_eq_pair (by simp) hwho hrecord hmark with hpair | hpair
  · have horder : order changesIndex es = [.updater, .deleter] := by simp [order, hpair]
    exact iff_of_true (staysDeleted_of_marked_last hes (mem_of_dataSteps hresolved) hpair)
      (.inl horder)
  · have horder : order changesIndex es ≠ [.updater, .deleter] := by simp [order, hpair]
    rw [hrenamed, or_iff_right horder]
    obtain ⟨es₁, es₂, rfl, hpre, -⟩ := own_split (hU.trans (by simp :
      _ = (⟨.catalog (.resolveGatewayId t gatewayId), .ok (some row)⟩ ::
        ⟨.adapter row.provider a (.update row.nativeId content), .ok memory⟩ :: lost) ++
          ⟨.catalog (.mapAttempt t row.provider [(memory.nativeId, content)] row.scope true),
            .ok rows⟩ :: []))
    obtain ⟨hmarked, -, hkept⟩ := filter_split_second hpair rfl (by simp)
    exact staysDeleted_of_recorded_last hes (mem_of_dataSteps (by simp [dataSteps, hpre])) hmarked
      hkept

/-! ## A delete that does not stick -/

/-- A gateway that has stored one memory. -/
def overlapGateway : MemoryCore Unit := .serving "mem0" [{ nativeId := "n", content := "tea" }] id

def storedWorld : World Unit :=
  serve .counting [(overlapGateway, .upsert "a" ["tea"] { subject := ⟨"u_1", u_1_mustBeReal⟩ } none)]
    { catalog := {}, store := () }

/-- The update has called its adapter when the delete runs from start to end. -/
def lateRecord : List UpdateDelete :=
  [.updater, .updater, .deleter, .deleter, .deleter, .deleter, .updater, .updater]

def overlapped (sched : List UpdateDelete) :
    List (Event (@Op.Ans Unit) Exc UpdateDelete) × (UpdateDelete → CoreProg Unit Reply) ×
      World Unit :=
  play (handle .counting) sched (updateAndDelete overlapGateway "a" "mg" "green tea") storedWorld

theorem late_record_revives :
    ∃ es pool' w' updated erased, Exec (handle .counting)
      (updateAndDelete overlapGateway "a" "mg" "green tea") storedWorld es pool' w' ∧
      pool' .updater = .ret updated ∧ pool' .deleter = .ret erased ∧
        ¬ StaysDeleted .counting overlapGateway "a" "mg" w' := by
  refine ⟨_, _, _, _, _, play_exec lateRecord _ _, rfl, rfl, fun h => ?_⟩
  have halive : ∀ r ∈ (overlapped lateRecord).2.2.catalog.memoryIndex.rows, r.live = true := by
    decide
  obtain ⟨r, hr, -, -, hdead⟩ := h.row
  rw [halive r hr] at hdead
  cases hdead

/-- The update records before the delete marks, and the delete sticks. -/
def earlyRecord : List UpdateDelete :=
  [.updater, .deleter, .updater, .deleter, .updater, .updater, .deleter, .deleter]

theorem early_record_sticks :
    StaysDeleted .counting overlapGateway "a" "mg" (overlapped earlyRecord).2.2 :=
  (delete_sticks_iff .counting overlapGateway "a" "mg" "green tea" storedWorld _ _ _ _ _
    (play_exec earlyRecord _ _) rfl rfl).mpr (.inl (by decide))

end Memgw
