-- SUMMARY: When a subject's erasure makes all of its gateway ids unknown: no live memory may be at another provider.
import Memgw.Properties.WriteRecords
import Memgw.Properties.ErasedReads

/-!
# Erasing a subject

A scope erasure works at the provider that the subject is bound to, while a gateway
id is looked up at the provider of its row. After a rebind these may differ: the
memories that the subject left behind keep their live rows, and their ids go on
answering after the subject has been erased.
-/

namespace Memgw

variable {σ : Type} {env : Env} {t : String} {s : Subject}

/-! ## Writes to a subject -/

/-- The request writes to the subject: its scope says so, or the provider answers with
    the native id of one of the subject's memories. -/
def Request.WritesTo (t : String) (s : Subject) (q : Request σ) (w : World σ) : Prop :=
  ∃ provider items scope, q.1.Writes w q.2 provider items scope ∧ q.2.tenant = t ∧
    (scope.subject = s ∨ ∃ r ∈ w.catalog.memoryIndex, r.tenantId = t ∧ r.subject = s ∧
      r.provider = provider ∧ r.nativeId ∈ items.map Prod.fst)

/-- No request of the run writes to the subject. -/
def NotWritten (env : Env) (t : String) (s : Subject) : List (Request σ) → World σ → Prop
  | [], _ => True
  | q :: qs, w => ¬ q.WritesTo t s w ∧ NotWritten env t s qs (q.after env w)

/-- What a write does to the index is the mapping of what its provider answered. -/
theorem MemoryCore.Did.write_mapped {core : MemoryCore σ} {call : Call} {w w' : World σ}
    {r : Except Exc Reply} (h : core.Did env call w r w') (hwrite : call.isWrite = true) :
    w'.catalog.memoryIndex = w.catalog.memoryIndex ∨
      ∃ provider items scope rows c₁, core.Writes w call provider items scope ∧
        Mapped env call.tenant provider items scope true w.catalog rows c₁ ∧
        w'.catalog.memoryIndex = c₁.memoryIndex := by
  cases h with
  | refused | failed => exact .inl rfl
  | unsettled _ _ hc => exact .inl hc.index
  | ingested hask hcall hmap hjournal _ =>
    refine .inr ⟨_, _, _, _, _, .ingest hask (congrArg Prod.fst hcall), hmap, ?_⟩
    subst hjournal
    split <;> simp
  | upserted hask hcall hmap =>
    exact .inr ⟨_, _, _, _, _, .upsert hask (congrArg Prod.fst hcall), hmap, by simp⟩
  | updated hrow hask hcall hmap _ =>
    exact .inr ⟨_, _, _, _, _, .update hrow hask (congrArg Prod.fst hcall), hmap, rfl⟩
  | searched | listed | failedOpen | got | deleted | erased | rebound => cases hwrite

/-- A dead row that the page does not name stays as it is. -/
theorem Mapped.keeps_unnamed {tenant provider : String} {items : List (String × String)}
    {scope : Scope} {c c' : Catalog} {rows : List CatalogRow}
    (h : Mapped env tenant provider items scope true c rows c') {r : IndexRow}
    (hr : r ∈ c.memoryIndex) (hno : r.doomed tenant provider (items.map Prod.fst) = false) :
    r ∈ c'.memoryIndex := by
  obtain ⟨now, fresh, hindex, -⟩ := h.index
  refine (hindex r).mpr (.inl ⟨r, hr, ?_⟩)
  simp [IndexRow.buried, hno]

/-- A request that does not write to the subject leaves its dead rows as they are. -/
theorem Request.keeps_erased {q : Request σ} {w : World σ} (hno : ¬ q.WritesTo t s w)
    {row : IndexRow} (hrow : row ∈ w.catalog.memoryIndex) (ht : row.tenantId = t)
    (hs : row.subject = s) (hdead : row.live = false) :
    row ∈ (q.after env w).catalog.memoryIndex := by
  have hdid := q.did env w
  cases hwrite : q.2.isWrite with
  | false => exact hdid.keeps_dead hwrite hrow hdead
  | true =>
    rcases hdid.write_mapped hwrite with hsame |
      ⟨provider, items, scope, rows, c₁, hwrites, hmap, hindex⟩
    · exact hsame ▸ hrow
    · rw [hindex]
      refine hmap.keeps_unnamed hrow ?_
      by_contra hdoomed
      obtain ⟨htenant, hp, hn⟩ := IndexRow.doomed_iff.mp (by simpa using hdoomed)
      exact hno ⟨provider, items, scope, hwrites, htenant.symm.trans ht,
        .inr ⟨row, hrow, ht, hs, hp, hn⟩⟩

theorem NotWritten.keeps_erased {later : List (Request σ)} {w : World σ}
    (hno : NotWritten env t s later w) {row : IndexRow} (hrow : row ∈ w.catalog.memoryIndex)
    (ht : row.tenantId = t) (hs : row.subject = s) (hdead : row.live = false) :
    row ∈ (serve env later w).catalog.memoryIndex := by
  induction later generalizing w with
  | nil => exact hrow
  | cons q qs ih => exact ih hno.2 (q.keeps_erased hno.1 hrow ht hs hdead)

/-! ## Ids that no longer answer -/

/-- Asked for the id, every gateway says that there is no such memory. -/
def Unknown (env : Env) (t gatewayId : String) (w : World σ) : Prop :=
  ∀ core : MemoryCore σ, ∃ e : GatewayError, e.cls = .memoryNotFound ∧
    Request.answer env (core, .get t gatewayId) w = .error (.gateway e)

theorem unknown_of_dead {row : IndexRow} {w : World σ} (hrow : row ∈ w.catalog.memoryIndex)
    (hdead : row.live = false) : Unknown env t row.gatewayId w := by
  intro core
  have hnone : resolveGatewayId t row.gatewayId w.catalog = none := by
    cases hresolve : resolveGatewayId t row.gatewayId w.catalog with
    | none => rfl
    | some found =>
      obtain ⟨r, hr, hid, -, hlive, -⟩ := resolveGatewayId_some hresolve
      obtain rfl := eq_of_gatewayId hr hrow hid
      cases hdead.symm.trans hlive
  have hrun : (core.exec (.get t row.gatewayId)).run (handle env) w = (.error (.gateway _), w) :=
    get_missing_run hnone
  exact ⟨_, rfl, congrArg Prod.fst hrun⟩

/-- The provider of a live row may still have the memory. -/
theorem not_unknown_of_live {row : IndexRow} {w : World σ} (hrow : row ∈ w.catalog.memoryIndex)
    (ht : row.tenantId = t) (hlive : row.live = true) : ¬ Unknown env t row.gatewayId w := by
  intro hunknown
  let memory : ProviderMemory := { nativeId := row.nativeId, content := "" }
  obtain ⟨e, -, herror⟩ := hunknown (.serving row.provider [memory] id)
  have hresolve : resolveGatewayId t row.gatewayId w.catalog = some row.toRow :=
    ht ▸ resolveGatewayId_of_mem hrow hlive
  have hget : ((.serving row.provider [memory] id : MemoryCore σ).exec
      (.get t row.gatewayId)).run (handle env) w =
        (.ok (.memory (toRecord row.gatewayId row.provider memory row.toRow.scope)), w) :=
    get_run hresolve serving_adapter (by simp [Adapter.serving, memory, IndexRow.toRow])
  rw [Request.answer, hget] at herror
  cases herror

/-- The ids of the subject's memories, which the index had before, are unknown now and
    stay so until something is written to the subject. -/
def SubjectErased (env : Env) (t : String) (s : Subject) (before : Catalog) (w : World σ) : Prop :=
  ∀ r ∈ before.memoryIndex, r.tenantId = t → r.subject = s →
    ∀ later : List (Request σ), NotWritten env t s later w →
      Unknown env t r.gatewayId (serve env later w)

/-- After an erasure of a subject that succeeded, the subject's ids are unknown exactly
    when none of its live memories was at a provider other than the resolved one. -/
theorem subject_erased_iff (env : Env) (w₀ : World σ) (history : List (Request σ))
    (core : MemoryCore σ) (t : String) (s : Subject) (asserted : Option String) (removed : Nat)
    (hok : Request.answer env (core, .deleteScope t { subject := s } asserted)
      (serve env history w₀) = .ok (.erased removed)) :
    let w := serve env history w₀
    let w' := Request.after env (core, .deleteScope t { subject := s } asserted) w
    ∃ provider, chooseProvider s (getBinding t s w.catalog) core.defaultProvider asserted =
        .ok provider ∧
      (SubjectErased env t s w.catalog w' ↔
        ∀ r ∈ w.catalog.memoryIndex, r.tenantId = t → r.subject = s → r.live = true →
          r.provider = provider) := by
  intro w w'
  have hdid : core.Did env (.deleteScope t { subject := s } asserted) w
      (.ok (.erased removed)) w' :=
    hok ▸ Request.did env (core, .deleteScope t { subject := s } asserted) w
  clear_value w w'
  generalize hs' : w'.store = s'
  cases hdid with
  | @erased _ _ _ _ provider a _ s₁ hask hcall =>
    cases hask with
    | deleteScope hp _ =>
      refine ⟨provider, hp.chosen, fun herased r hr ht hs hlive => ?_, fun hall => ?_⟩
      · -- a row at another provider is as live as before
        by_contra hne
        have hout : r.inScope t { subject := s } provider = false := by
          rw [Bool.eq_false_iff]
          exact fun hin => hne (IndexRow.inScope_iff.mp hin).2.1
        refine not_unknown_of_live (mem_bury.mpr ⟨r, hr, ?_⟩) ht hlive
          (herased r hr ht hs [] trivial)
        rw [hout]
        rfl
      · intro r hr ht hs later hno
        -- the erasure leaves the row dead, and no later request touches it
        obtain ⟨row, hrow, hdead, hid, ht', hs'⟩ : ∃ row ∈ (bury env (IndexRow.inScope t
            { subject := s } provider) w.catalog).memoryIndex, row.live = false ∧
            row.gatewayId = r.gatewayId ∧ row.tenantId = t ∧ row.subject = s := by
          refine ⟨_, mem_bury.mpr ⟨r, hr, rfl⟩, ?_⟩
          cases hlive : r.live with
          | true =>
            have hin : r.inScope t { subject := s } provider = true :=
              IndexRow.inScope_iff.mpr ⟨ht, hall r hr ht hs hlive, hs, hlive, rfl, rfl⟩
            rw [hin]
            exact ⟨rfl, rfl, ht, hs⟩
          | false =>
            have hout : r.inScope t { subject := s } provider = false := by
              rw [Bool.eq_false_iff]
              intro hin
              cases hlive.symm.trans (IndexRow.inScope_iff.mp hin).2.2.2.1
            rw [hout]
            exact ⟨hlive, rfl, ht, hs⟩
        exact hid ▸ unknown_of_dead (hno.keeps_erased hrow ht' hs' hdead) hdead

/-! ## A subject that was moved -/

/-- A gateway with a provider for the first writes and one to move to. -/
def movingGateway : MemoryCore Unit where
  providers := [("mem0", .serving [{ nativeId := "n", content := "tea" }] id),
    ("zep", .serving [] id)]
  defaultProvider := some "mem0"

def movingSubject : Subject := ⟨"u_1", u_1_mustBeReal⟩

def movingWrite : Request Unit :=
  (movingGateway, .upsert "a" ["tea"] { subject := movingSubject } none)

def movingRebind : Request Unit := (movingGateway, .rebind "a" movingSubject "zep" .freshStart)

def movingErasure : Request Unit :=
  (movingGateway, .deleteScope "a" { subject := movingSubject } none)

def movingStart : World Unit := { catalog := {}, store := () }

/-- The memory stayed at the old provider, and so does its answer. -/
theorem moved_subject_answers :
    movingErasure.answer .counting (serve .counting [movingWrite, movingRebind] movingStart) =
        .ok (.erased 0) ∧
      ¬ SubjectErased .counting "a" movingSubject
        (serve .counting [movingWrite, movingRebind] movingStart).catalog
        (movingErasure.after .counting (serve .counting [movingWrite, movingRebind] movingStart)) := by
  refine ⟨by decide, fun herased => ?_⟩
  have hrow : ∃ r ∈ (serve .counting [movingWrite, movingRebind]
      movingStart).catalog.memoryIndex.rows, r.tenantId = "a" ∧ r.subject = movingSubject ∧
      r.live = true ∧ r ∈ (movingErasure.after .counting
        (serve .counting [movingWrite, movingRebind] movingStart)).catalog.memoryIndex.rows := by
    decide
  obtain ⟨r, hr, ht, hs, hlive, hafter⟩ := hrow
  exact not_unknown_of_live hafter ht hlive (herased r hr ht hs [] trivial)

/-- Without the move the erasure reaches the memory. -/
theorem unmoved_subject_erased :
    SubjectErased .counting "a" movingSubject (serve .counting [movingWrite] movingStart).catalog
      (movingErasure.after .counting (serve .counting [movingWrite] movingStart)) := by
  obtain ⟨provider, hchosen, hiff⟩ := subject_erased_iff .counting movingStart [movingWrite]
    movingGateway "a" movingSubject none 1 (by decide)
  obtain rfl : "mem0" = provider := Except.ok.inj hchosen
  refine hiff.mpr (fun r hr _ _ _ => ?_)
  have hall : ((serve .counting [movingWrite] movingStart).catalog.memoryIndex.rows.all
      fun r => r.provider == "mem0") = true := by decide
  simpa using List.all_eq_true.mp hall r hr

end Memgw
