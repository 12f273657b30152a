-- SUMMARY: The steps of a verb that returned, and what each kind of step leaves alone.
import Memgw.Gateway.Verbs

/-!
# Traces

When verbs overlap, what one of them did is no longer a run from one world to
another. What is left is the list of its steps: the transactions and the adapter
calls it made, with their answers. This module says for each verb what that list
is when the verb returns.
-/

namespace Memgw

variable {σ α β : Type} {env : Env}

/-! ## What a step changes -/

def changesIndex : CoreStep σ → Bool
  | ⟨.catalog op, .ok _⟩ => op.writesIndex
  | _ => false

def changesJournal : CoreStep σ → Bool
  | ⟨.catalog op, .ok _⟩ => op.writesJournal
  | _ => false

def changesStore : CoreStep σ → Bool
  | ⟨.adapter .., _⟩ => true
  | _ => false

/-- A statement of the index that failed has left the index as it was. -/
theorem memoryIndex_kept {st : CoreStep σ} (hst : changesIndex st = false) {w : World σ}
    (hans : st.2 = (handle env st.1 w).1) :
    (handle env st.1 w).2.catalog.memoryIndex = w.catalog.memoryIndex := by
  obtain ⟨op, r⟩ := st
  cases op with
  | adapter | note | emit => rfl
  | catalog op =>
    cases r with
    | ok a => exact CatalogOp.exec_memoryIndex hst
    | error e =>
      cases hw : op.writesIndex with
      | false => exact CatalogOp.exec_memoryIndex hw
      | true =>
        cases op with
        | mapAttempt t provider items scope revive =>
          exact (mapAttempt_error (Prod.ext hans.symm rfl)).1.index
        | markDeleted | markScopeDeleted => cases hans
        | _ => cases hw

theorem episodeJournal_kept {st : CoreStep σ} (hst : changesJournal st = false) {w : World σ}
    (hans : st.2 = (handle env st.1 w).1) :
    (handle env st.1 w).2.catalog.episodeJournal = w.catalog.episodeJournal := by
  obtain ⟨op, r⟩ := st
  cases op with
  | adapter | note | emit => rfl
  | catalog op =>
    cases r with
    | ok a => exact CatalogOp.exec_episodeJournal hst
    | error e =>
      cases hw : op.writesJournal with
      | false => exact CatalogOp.exec_episodeJournal hw
      | true =>
        cases op with
        | journal => exact journal_error hans.symm
        | deleteJournal => cases hans
        | _ => cases hw

theorem store_kept {st : CoreStep σ} (hst : changesStore st = false) {w : World σ} :
    (handle env st.1 w).2.store = w.store := by
  obtain ⟨op, r⟩ := st
  cases op with
  | catalog | note | emit => rfl
  | adapter => cases hst

/-- A history without a change to the index leaves it as it was. -/
theorem replay_memoryIndex {ι : Type} {es : List (Event (@Op.Ans σ) Exc ι)} {w : World σ}
    (hes : Faithful (handle env) es w) (hkept : es.filter (fun e => changesIndex e.step) = []) :
    (replay (handle env) es w).catalog.memoryIndex = w.catalog.memoryIndex :=
  replay_frame (f := fun w => w.catalog.memoryIndex) hes fun e he _ hans =>
    memoryIndex_kept (by simpa using List.filter_eq_nil_iff.mp hkept e he) hans

/-- A row of the index keeps its keys, whatever happens. -/
theorem row_survives {ι : Type} {es : List (Event (@Op.Ans σ) Exc ι)} {w : World σ}
    (hes : Faithful (handle env) es w) {r : IndexRow} (hr : r ∈ w.catalog.memoryIndex) :
    ∃ r' ∈ (replay (handle env) es w).catalog.memoryIndex, r'.idKey = r.idKey ∧
      r'.nativeKey = r.nativeKey := by
  refine replay_invariant (I := fun w => ∃ r' ∈ w.catalog.memoryIndex, r'.idKey = r.idKey ∧
    r'.nativeKey = r.nativeKey) hes (fun e _ w hans hI => ?_) ⟨r, hr, rfl, rfl⟩
  obtain ⟨r', hr', hid, hkey⟩ := hI
  have hbury : ∀ p, ∃ r' ∈ (bury env p w.catalog).memoryIndex, r'.idKey = r.idKey ∧
      r'.nativeKey = r.nativeKey := by
    refine fun p => ⟨_, mem_bury.mpr ⟨r', hr', rfl⟩, ?_⟩
    split <;> exact ⟨hid, hkey⟩
  cases hch : changesIndex e.step with
  | false =>
    rw [memoryIndex_kept hch hans]
    exact ⟨r', hr', hid, hkey⟩
  | true =>
    obtain ⟨i, op, x⟩ := e
    cases op with
    | adapter | note | emit => cases hch
    | catalog op =>
      cases op with
      | mapAttempt t provider items scope revive =>
        cases x with
        | error e => cases hch
        | ok rows =>
          have hmap := mapAttempt_ok (Prod.ext hans.symm rfl)
          obtain ⟨r₁, h₁, hg, ht, hp, hn, -⟩ := hmap.survives hr'
          refine ⟨r₁, h₁, ?_, ?_⟩
          · simpa [IndexRow.idKey, hg] using hid
          · simpa [IndexRow.nativeKey, ht, hp, hn] using hkey
      | markDeleted => exact hbury _
      | markScopeDeleted => exact hbury _
      | _ => cases x <;> cases hch

/-- Only data steps change anything. -/
theorem changes_nothing {st : CoreStep σ} (h : st.1.isData = false) :
    changesIndex st = false ∧ changesJournal st = false ∧ changesStore st = false := by
  obtain ⟨op, r⟩ := st
  cases op with
  | catalog | adapter => cases h
  | note | emit => exact ⟨rfl, rfl, rfl⟩

theorem mem_of_dataSteps {ι : Type} [DecidableEq ι] {i : ι} {st : CoreStep σ}
    {es : List (Event (@Op.Ans σ) Exc ι)} (h : st ∈ dataSteps (own i es)) : ⟨i, st⟩ ∈ es :=
  mem_own.mp (List.mem_filter.mp h).1

/-- A kind of data steps can be looked for among the data steps alone. -/
theorem filter_dataSteps {P : CoreStep σ → Bool} (hP : ∀ st, st.1.isData = false → P st = false)
    {steps : List (CoreStep σ)} : (dataSteps steps).filter P = steps.filter P := by
  rw [dataSteps, List.filter_filter]
  refine List.filter_congr fun st _ => ?_
  cases h : st.1.isData with
  | false => simp [hP st h]
  | true => simp

/-! ## Rules -/

/-- Whenever the program returns, its data steps and what it returned satisfy `Φ`. -/
def Traces (p : CoreProg σ α) (Φ : List (CoreStep σ) → α → Prop) : Prop :=
  ∀ steps a, p.Ends steps (.ok a) → Φ (dataSteps steps) a

theorem traces_ret {a : α} {Φ : List (CoreStep σ) → α → Prop} (h : Φ [] a) : Traces (.ret a) Φ := by
  intro steps b hends
  obtain ⟨rfl, hb⟩ := Prog.ends_ret.mp hends
  exact Except.ok.inj hb ▸ h

theorem traces_bind {p : CoreProg σ α} {f : α → CoreProg σ β} {Φ : List (CoreStep σ) → β → Prop}
    (hp : Traces p fun pre a => Traces (f a) fun post b => Φ (pre ++ post) b) :
    Traces (p.bind f) Φ := by
  intro steps b hends
  obtain ⟨a, pre, post, rfl, hpre, hpost⟩ := Prog.ends_bind_ok.mp hends
  rw [dataSteps_append]
  exact hp pre a hpre post b hpost

theorem traces_observe {verb tenant : String} {subject : Option String} {body : CoreProg σ α}
    {Φ : List (CoreStep σ) → α → Prop} (h : Traces body Φ) :
    Traces (observe verb tenant subject body) Φ := by
  intro steps a hends
  obtain ⟨inner, hinner, hsteps, -⟩ := ends_observe hends
  exact hsteps ▸ h inner a hinner

theorem traces_note {key : String} {value : Value} {Φ : List (CoreStep σ) → Unit → Prop}
    (h : Φ [] ()) : Traces (note key value) Φ := by
  intro steps a hends
  obtain rfl := Prog.ends_perform.mp hends
  exact h

theorem traces_transact {op : CatalogOp} {Φ : List (CoreStep σ) → op.Ans → Prop}
    (h : ∀ a, Φ [⟨.catalog op, .ok a⟩] a) : Traces (transact op) Φ := by
  intro steps a hends
  obtain rfl := Prog.ends_perform.mp hends
  exact h a

theorem traces_check {x : Except GatewayError α} {Φ : List (CoreStep σ) → α → Prop}
    (h : ∀ a, x = .ok a → Φ [] a) : Traces (check x) Φ := by
  cases x with
  | ok a => exact traces_ret (h a rfl)
  | error e =>
    intro steps b hends
    cases (Prog.ends_raise.mp hends).2

theorem traces_refuseIf {b : Bool} {e : GatewayError} {Φ : List (CoreStep σ) → Unit → Prop}
    (h : Φ [] ()) : Traces (refuseIf b e) Φ :=
  traces_check fun _ _ => h

theorem not_ends_raiseFailure {name : String} {a : Adapter σ} {exc : Exc}
    {steps : List (CoreStep σ)} {b : α} : ¬ (raiseFailure name a exc).Ends steps (.ok b) := by
  intro hends
  obtain ⟨e, pre, post, -, -, hraise⟩ := Prog.ends_bind_ok.mp hends
  cases (Prog.ends_raise.mp hraise).2

/-- A call that returns has made the one adapter call, and no health check. -/
theorem traces_call {name : String} {a : Adapter σ} {op : AdapterOp}
    {Φ : List (CoreStep σ) → op.Ans → Prop} (h : ∀ ans, Φ [⟨.adapter name a op, .ok ans⟩] ans) :
    Traces (call name a op) Φ := by
  intro steps ans hends
  rw [call, Prog.tryCatch] at hends
  obtain ⟨r, pre, post, rfl, hpre, hpost⟩ := Prog.ends_bind_ok.mp hends
  obtain ⟨r', hr, hpre⟩ := Prog.ends_attempt.mp hpre
  obtain rfl := Except.ok.inj hr
  obtain rfl := Prog.ends_perform.mp hpre
  cases r with
  | ok ans' =>
    obtain ⟨rfl, hans⟩ := Prog.ends_ret.mp hpost
    exact Except.ok.inj hans ▸ h ans'
  | error exc =>
    cases exc with
    | gateway e => cases (Prog.ends_raise.mp hpost).2
    | cancelled => cases (Prog.ends_raise.mp hpost).2
    | integrity text => exact absurd hpost not_ends_raiseFailure
    | other kind text => exact absurd hpost not_ends_raiseFailure

/-- Attempts at a transaction that lost their race. -/
def LostRaces (op : CatalogOp) (lost : List (CoreStep σ)) : Prop :=
  ∀ st ∈ lost, ∃ text, st = ⟨.catalog op, .error (.integrity text)⟩

theorem LostRaces.filter {P : CoreStep σ → Bool} {op : CatalogOp} {lost : List (CoreStep σ)}
    (h : LostRaces op lost) (hP : ∀ e, P ⟨.catalog op, .error e⟩ = false) : lost.filter P = [] := by
  refine List.filter_eq_nil_iff.mpr fun st hst => ?_
  obtain ⟨text, rfl⟩ := h st hst
  simp [hP]

theorem LostRaces.dataSteps {op : CatalogOp} {lost : List (CoreStep σ)} (h : LostRaces op lost) :
    dataSteps lost = lost := by
  refine List.filter_eq_self.mpr fun st hst => ?_
  obtain ⟨text, rfl⟩ := h st hst
  rfl

theorem traces_mapPage {tenant provider : String} {items : List (String × String)} {scope : Scope}
    {revive : Bool} {Φ : List (CoreStep σ) → List CatalogRow → Prop} (hitems : items ≠ [])
    (h : ∀ lost rows, LostRaces (.mapAttempt tenant provider items scope revive) lost →
      Φ (lost ++ [⟨.catalog (.mapAttempt tenant provider items scope revive), .ok rows⟩]) rows) :
    Traces (mapPage tenant provider items scope revive) Φ := by
  intro steps rows hends
  rcases ends_mapPage hends with ⟨hnil, -, -⟩ | ⟨lost, rfl, hlost⟩
  · exact absurd hnil hitems
  · have hlost : LostRaces (.mapAttempt tenant provider items scope revive) lost := hlost
    rw [dataSteps_append, hlost.dataSteps]
    exact h lost rows hlost

/-- The steps that map a page of written memories. There are none for an empty page. -/
def PageSteps (t name : String) (memories : List ProviderMemory) (scope : Scope)
    (rows : List CatalogRow) (steps : List (CoreStep σ)) : Prop :=
  if memories = [] then steps = []
  else ∃ lost, LostRaces (.mapAttempt t name (hitItems memories) scope true) lost ∧
    steps = lost ++ [⟨.catalog (.mapAttempt t name (hitItems memories) scope true), .ok rows⟩]

theorem PageSteps.filter {t name : String} {memories : List ProviderMemory} {scope : Scope}
    {rows : List CatalogRow} {steps : List (CoreStep σ)}
    (h : PageSteps t name memories scope rows steps) {P : CoreStep σ → Bool}
    (hP : ∀ e, P ⟨.catalog (.mapAttempt t name (hitItems memories) scope true), .error e⟩ = false) :
    steps.filter P = if memories = [] then []
      else [⟨.catalog (.mapAttempt t name (hitItems memories) scope true), .ok rows⟩].filter P := by
  unfold PageSteps at h
  split at h
  · rename_i hnil
    rw [h, if_pos hnil]
    rfl
  · rename_i hne
    obtain ⟨lost, hlost, rfl⟩ := h
    rw [if_neg hne, List.filter_append, hlost.filter hP, List.nil_append]

theorem traces_writtenRecords {t name : String} {memories : List ProviderMemory} {scope : Scope}
    {Φ : List (CoreStep σ) → List MemoryRecord → Prop}
    (h : ∀ steps rows, PageSteps t name memories scope rows steps →
      Φ steps (toRecords name memories (fun _ => scope) rows)) :
    Traces (writtenRecords t name memories scope) Φ := by
  unfold writtenRecords
  split
  · rename_i hnil
    subst hnil
    exact traces_ret (h [] [] (by simp [PageSteps]))
  · rename_i hne
    refine traces_bind (traces_mapPage (by simpa [hitItems] using hne) fun lost rows hlost => ?_)
    refine traces_ret ?_
    rw [List.append_nil]
    exact h _ rows (by simpa only [PageSteps, hne, if_false] using ⟨lost, hlost, rfl⟩)

/-- The steps of a bind: it is the first, or it reads the one that stands. -/
def BindSteps (t subject name : String) (steps : List (CoreStep σ)) : Prop :=
  steps = [⟨.catalog (.insertBinding t subject name), .ok ()⟩] ∨
    ∃ text existing, steps = [⟨.catalog (.insertBinding t subject name), .error (.integrity text)⟩,
      ⟨.catalog (.getBinding t subject), .ok existing⟩]

theorem BindSteps.filter {t subject name : String} {steps : List (CoreStep σ)}
    (h : BindSteps t subject name steps) {P : CoreStep σ → Bool}
    (hinsert : ∀ r, P ⟨.catalog (.insertBinding t subject name), r⟩ = false)
    (hget : ∀ r, P ⟨.catalog (.getBinding t subject), r⟩ = false) : steps.filter P = [] := by
  rcases h with rfl | ⟨text, existing, rfl⟩ <;> simp [hinsert, hget]

theorem traces_bind_subject {t subject name : String} {Φ : List (CoreStep σ) → String → Prop}
    (h : ∀ steps p, BindSteps t subject name steps → Φ steps p) :
    Traces (bind t subject name) Φ := by
  intro steps p hends
  rw [bind, Prog.tryCatch] at hends
  obtain ⟨r, pre, post, rfl, hpre, hpost⟩ := Prog.ends_bind_ok.mp hends
  obtain ⟨r', hr, hbody⟩ := Prog.ends_attempt.mp hpre
  obtain rfl := Except.ok.inj hr
  rw [Prog.bind_eq, Prog.ends_bind] at hbody
  rcases hbody with ⟨u, pre, ret, rfl, hinsert, hret⟩ | ⟨e, rfl, hinsert⟩
  · obtain rfl := Prog.ends_perform.mp hinsert
    obtain ⟨rfl, rfl⟩ := Prog.ends_ret.mp hret
    obtain ⟨rfl, -⟩ := Prog.ends_ret.mp hpost
    exact h _ p (.inl rfl)
  · obtain rfl := Prog.ends_perform.mp hinsert
    cases e with
    | integrity text =>
      obtain ⟨existing, pre, ret, rfl, hget, hret⟩ := Prog.ends_bind_ok.mp hpost
      obtain rfl := Prog.ends_perform.mp hget
      obtain ⟨rfl, -⟩ := Prog.ends_ret.mp hret
      exact h _ p (.inr ⟨text, existing, rfl⟩)
    | gateway e => cases (Prog.ends_raise.mp hpost).2
    | other kind text => cases (Prog.ends_raise.mp hpost).2
    | cancelled => cases (Prog.ends_raise.mp hpost).2

/-! ## Programs that may raise -/

/-- However the program ends, its data steps and its outcome satisfy `Φ`, so long as
    the notes it makes are taken. -/
def Outcomes (p : CoreProg σ α) (Φ : List (CoreStep σ) → Except Exc α → Prop) : Prop :=
  ∀ steps out, (∀ st ∈ steps, NoteTaken st) → p.Ends steps out → Φ (dataSteps steps) out

theorem outcomes_ret {a : α} {Φ : List (CoreStep σ) → Except Exc α → Prop} (h : Φ [] (.ok a)) :
    Outcomes (.ret a) Φ := by
  intro steps out _ hends
  obtain ⟨rfl, rfl⟩ := Prog.ends_ret.mp hends
  exact h

/-- A raised exception skips the second part. -/
theorem outcomes_bind {p : CoreProg σ α} {f : α → CoreProg σ β}
    {Φ : List (CoreStep σ) → Except Exc β → Prop}
    (hp : Outcomes p fun pre r => match r with
      | .ok a => Outcomes (f a) fun post out => Φ (pre ++ post) out
      | .error e => Φ pre (.error e)) : Outcomes (p.bind f) Φ := by
  intro steps out htaken hends
  rcases Prog.ends_bind.mp hends with ⟨a, pre, post, rfl, hpre, hpost⟩ | ⟨e, rfl, hpre⟩
  · rw [dataSteps_append]
    obtain ⟨hl, hr⟩ := List.forall_mem_append.mp htaken
    exact hp pre _ hl hpre post out hr hpost
  · exact hp steps _ htaken hpre

theorem outcomes_observe {verb tenant : String} {subject : Option String} {body : CoreProg σ α}
    {Φ : List (CoreStep σ) → Except Exc α → Prop} (h : Outcomes body Φ) :
    Outcomes (observe verb tenant subject body) Φ := by
  intro steps out _ hends
  obtain ⟨inner, hinner, hsteps, htaken⟩ := ends_observe hends
  exact hsteps ▸ h inner out htaken hinner

theorem outcomes_note {key : String} {value : Value} {Φ : List (CoreStep σ) → Except Exc Unit → Prop}
    (h : Φ [] (.ok ())) : Outcomes (note key value) Φ := by
  intro steps out htaken hends
  obtain rfl := Prog.ends_perform.mp hends
  obtain rfl : out = .ok () := htaken _ (List.mem_singleton_self _)
  exact h

theorem outcomes_transact {op : CatalogOp} {Φ : List (CoreStep σ) → Except Exc op.Ans → Prop}
    (h : ∀ r, Φ [⟨.catalog op, r⟩] r) : Outcomes (transact op) Φ := by
  intro steps out _ hends
  obtain rfl := Prog.ends_perform.mp hends
  exact h out

theorem outcomes_check {x : Except GatewayError α} {Φ : List (CoreStep σ) → Except Exc α → Prop}
    (h : ∀ r, Φ [] r) : Outcomes (check x) Φ := by
  intro steps out _ hends
  obtain ⟨rfl, -⟩ := Prog.ends_ofExcept.mp hends
  exact h out

/-! ## The verbs -/

section

variable {core : MemoryCore σ} {t : String}

theorem traces_issuedRow {gatewayId : String} {Φ : List (CoreStep σ) → CatalogRow → Prop}
    (h : ∀ row, Φ [⟨.catalog (.resolveGatewayId t gatewayId), .ok (some row)⟩] row) :
    Traces (issuedRow t gatewayId) Φ := by
  refine traces_bind (traces_transact fun row => traces_check fun row' hrow => ?_)
  cases row with
  | none => cases hrow
  | some row =>
    obtain rfl := Except.ok.inj hrow
    exact h row

theorem traces_prepare {scope : Scope} {asserted : Option String}
    {Φ : List (CoreStep σ) → MemoryCore.Prepared σ → Prop}
    (h : ∀ bound name a,
      chooseProvider scope.subject bound core.defaultProvider asserted = .ok name →
      core.adapter name = .ok a →
      Φ [⟨.catalog (.getBinding t scope.subject), .ok bound⟩]
        { name := name, adapter := a, bound := scope.under t }) :
    Traces (core.prepare t scope asserted) Φ := by
  refine traces_bind (traces_bind (traces_transact fun bound => ?_))
  refine traces_check fun name hname => ?_
  refine traces_bind (traces_check fun a ha => ?_)
  refine traces_bind (traces_check fun _ _ => traces_ret ?_)
  exact h bound name a hname ha

theorem update_traces {gatewayId content : String} :
    Traces (core.exec (.update t gatewayId content)) fun steps reply =>
      ∃ row a memory lost rows,
        LostRaces (.mapAttempt t row.provider [(memory.nativeId, content)] row.scope true) lost ∧
        reply = .memory (toRecord row.gatewayId row.provider memory row.scope) ∧
        steps = ⟨.catalog (.resolveGatewayId t gatewayId), .ok (some row)⟩ ::
          ⟨.adapter row.provider a (.update row.nativeId content), .ok memory⟩ :: (lost ++
            [⟨.catalog (.mapAttempt t row.provider [(memory.nativeId, content)] row.scope true),
              .ok rows⟩]) := by
  refine traces_bind (traces_observe ?_)
  refine traces_bind (traces_issuedRow fun row => ?_)
  refine traces_bind (traces_note (traces_bind (traces_note ?_)))
  refine traces_bind (traces_check fun a _ => traces_bind (traces_refuseIf ?_))
  refine traces_bind (traces_call fun memory => traces_bind (traces_bind ?_))
  refine traces_mapPage (by simp) fun lost rows hlost => ?_
  split
  · rename_i mapped
    exact traces_ret (traces_ret (traces_ret ⟨row, a, memory, lost, [mapped], hlost, rfl, by simp⟩))
  · intro steps a hends
    cases (Prog.ends_raise.mp hends).2

theorem delete_traces {gatewayId : String} :
    Traces (core.exec (.delete t gatewayId)) fun steps _ => ∃ row a b marked,
      steps = [⟨.catalog (.resolveGatewayId t gatewayId), .ok (some row)⟩,
        ⟨.adapter row.provider a (.delete row.nativeId), .ok b⟩,
        ⟨.catalog (.markDeleted t gatewayId), .ok marked⟩] := by
  refine traces_bind (traces_observe ?_)
  refine traces_bind (traces_issuedRow fun row => ?_)
  refine traces_bind (traces_note (traces_bind (traces_note ?_)))
  refine traces_bind (traces_check fun a _ => traces_bind (traces_check fun _ _ => ?_))
  refine traces_bind (traces_call fun b => traces_bind (traces_transact fun marked => ?_))
  exact traces_ret (traces_ret ⟨row, a, b, marked, rfl⟩)

theorem deleteScope_traces {scope : Scope} {asserted : Option String} :
    Traces (core.exec (.deleteScope t scope asserted)) fun steps _ =>
      ∃ bound name a removed marked erased,
        chooseProvider scope.subject bound core.defaultProvider asserted = .ok name ∧
        core.adapter name = .ok a ∧
        steps = [⟨.catalog (.getBinding t scope.subject), .ok bound⟩,
          ⟨.adapter name a (.deleteScope (scope.under t)), .ok removed⟩,
          ⟨.catalog (.markScopeDeleted t scope name), .ok marked⟩,
          ⟨.catalog (.deleteJournal t scope), .ok erased⟩] := by
  refine traces_bind (traces_observe ?_)
  refine traces_bind (traces_prepare fun bound name a hname ha => ?_)
  refine traces_bind (traces_note (traces_bind (traces_check fun _ _ => ?_)))
  refine traces_bind (traces_call fun removed => traces_bind (traces_transact fun marked => ?_))
  refine traces_bind (traces_transact fun erased => ?_)
  refine traces_bind (traces_note (traces_bind (traces_note (traces_ret (traces_ret ?_)))))
  exact ⟨bound, name, a, removed, marked, erased, hname, ha, rfl⟩

/-- The steps that journal an episode. There are none when the gateway keeps no journal. -/
def JournalSteps (core : MemoryCore σ) (t : String) (scope : Scope) (episode : Episode)
    (name : String) (memories : List ProviderMemory) (steps : List (CoreStep σ)) : Prop :=
  if core.journalEnabled then
    ∃ id, steps = [⟨.catalog (.journal t scope episode (ingestedTo name memories)), .ok id⟩]
  else steps = []

theorem JournalSteps.filter {core : MemoryCore σ} {t name : String} {scope : Scope}
    {episode : Episode} {memories : List ProviderMemory} {steps : List (CoreStep σ)}
    (h : JournalSteps core t scope episode name memories steps) {P : CoreStep σ → Bool}
    (hP : ∀ r, P ⟨.catalog (.journal t scope episode (ingestedTo name memories)), r⟩ = false) :
    steps.filter P = [] := by
  unfold JournalSteps at h
  split at h
  · obtain ⟨id, rfl⟩ := h
    simp [hP]
  · rw [h]
    rfl

theorem traces_journal {episode : Episode} {scope : Scope} {name : String}
    {memories : List ProviderMemory} {Φ : List (CoreStep σ) → Unit → Prop}
    (h : ∀ steps, JournalSteps core t scope episode name memories steps → Φ steps ()) :
    Traces (runIf core.journalEnabled do
      let _ ← transact (.journal t scope episode (ingestedTo name memories))
      return ()) Φ := by
  cases hj : core.journalEnabled with
  | false => exact traces_ret (h [] (by simp [JournalSteps, hj]))
  | true =>
    refine traces_bind (traces_transact fun id => traces_ret ?_)
    exact h _ (by simp [JournalSteps, hj])

theorem ingest_traces {episode : Episode} {scope : Scope} {asserted : Option String} :
    Traces (core.exec (.ingest t episode scope asserted)) fun steps reply =>
      ∃ bound name a memories rows page binds journals,
        chooseProvider scope.subject bound core.defaultProvider asserted = .ok name ∧
        core.adapter name = .ok a ∧ PageSteps t name memories scope rows page ∧
        BindSteps t scope.subject name binds ∧
        JournalSteps core t scope episode name memories journals ∧
        reply = .wrote { results := toRecords name memories (fun _ => scope) rows
                         provider := name } ∧
        steps = ⟨.catalog (.getBinding t scope.subject), .ok bound⟩ ::
          ⟨.adapter name a (.ingest episode (scope.under t)), .ok memories⟩ ::
            (page ++ (binds ++ journals)) := by
  refine traces_bind (traces_observe ?_)
  refine traces_bind (traces_prepare fun bound name a hname ha => ?_)
  refine traces_bind (traces_note (traces_bind (traces_refuseIf ?_)))
  refine traces_bind (traces_call fun memories => ?_)
  refine traces_bind (traces_writtenRecords fun page rows hpage => ?_)
  refine traces_bind (traces_bind_subject fun binds _ hbinds => ?_)
  refine traces_bind (traces_journal fun journals hjournals => ?_)
  refine traces_bind (traces_note (traces_ret (traces_ret ?_)))
  exact ⟨bound, name, a, memories, rows, page, binds, journals, hname, ha, hpage, hbinds, hjournals,
    rfl, by simp⟩

theorem upsert_traces {facts : List String} {scope : Scope} {asserted : Option String} :
    Traces (core.exec (.upsert t facts scope asserted)) fun steps reply =>
      ∃ bound name a memories rows page binds,
        chooseProvider scope.subject bound core.defaultProvider asserted = .ok name ∧
        core.adapter name = .ok a ∧ PageSteps t name memories scope rows page ∧
        BindSteps t scope.subject name binds ∧
        reply = .wrote { results := toRecords name memories (fun _ => scope) rows
                         provider := name } ∧
        steps = ⟨.catalog (.getBinding t scope.subject), .ok bound⟩ ::
          ⟨.adapter name a (.upsert facts (scope.under t)), .ok memories⟩ :: (page ++ binds) := by
  refine traces_bind (traces_bind (traces_refuseIf (traces_observe ?_)))
  refine traces_bind (traces_prepare fun bound name a hname ha => ?_)
  refine traces_bind (traces_note (traces_bind (traces_refuseIf ?_)))
  refine traces_bind (traces_call fun memories => ?_)
  refine traces_bind (traces_writtenRecords fun page rows hpage => ?_)
  refine traces_bind (traces_bind_subject fun binds _ hbinds => ?_)
  refine traces_bind (traces_note (traces_ret (traces_ret ?_)))
  exact ⟨bound, name, a, memories, rows, page, binds, hname, ha, hpage, hbinds, rfl, by simp⟩

/-- The steps of a rebind that takes the subject away from `previous`, where it counted
    `n` memories. -/
def rebindSteps (t subject provider previous : String) (n : Nat) : List (CoreStep σ) :=
  [⟨.catalog (.getBinding t subject), .ok (some previous)⟩,
    ⟨.catalog (.liveCount t subject previous), .ok n⟩,
    ⟨.catalog (.replaceBinding t subject provider (some previous)), .ok ()⟩]

/-- The provider that a step takes a subject away from. -/
def movedFrom : CoreStep σ → Option String
  | ⟨.catalog (.replaceBinding _ _ provider (some previous)), .ok _⟩ =>
    if previous ≠ provider then some previous else none
  | _ => none

/-- A rebind that took the subject away from a provider counted there first, and
    returned what it counted. -/
theorem rebindSubject_outcomes {subject provider : String} :
    Outcomes (σ := σ) (rebindSubject t subject provider) fun steps out =>
      ∀ previous, (∃ st ∈ steps, movedFrom st = some previous) → ∃ n,
        steps = rebindSteps t subject provider previous n ∧
          out = .ok { provider := provider, orphanedAt := some previous, orphanedCount := n } := by
  apply outcomes_bind
  apply outcomes_transact
  intro r
  cases r with
  | error e => simp [movedFrom]
  | ok bound =>
    apply outcomes_bind
    cases bound with
    | none =>
      apply outcomes_ret
      apply outcomes_bind
      apply outcomes_transact
      intro r
      cases r with
      | error e => simp [movedFrom]
      | ok u => exact outcomes_ret (by simp [movedFrom])
    | some b =>
      by_cases hb : b = provider
      · -- a rebind to where the subject is moves nothing
        simp only [rebindSubject.strandedAt, hb, ne_eq, not_true_eq_false, if_false]
        apply outcomes_ret
        apply outcomes_bind
        apply outcomes_transact
        intro r
        cases r with
        | error e => simp [movedFrom]
        | ok u => exact outcomes_ret (by simp [movedFrom, hb])
      · simp only [rebindSubject.strandedAt, hb, ne_eq, not_false_eq_true, if_true]
        apply outcomes_transact
        intro r
        cases r with
        | error e => simp [movedFrom]
        | ok n =>
          apply outcomes_bind
          apply outcomes_transact
          intro r
          cases r with
          | error e => simp [movedFrom]
          | ok u =>
            apply outcomes_ret
            rintro previous hmoved
            obtain rfl : b = previous := by simpa [movedFrom, hb] using hmoved
            exact ⟨n, rfl, by simp [hb]⟩

theorem rebind_outcomes {subject provider : String} {strategy : RebindStrategy} :
    Outcomes (core.exec (.rebind t subject provider strategy)) fun steps out =>
      ∀ previous, (∃ st ∈ steps, movedFrom st = some previous) → ∃ n,
        steps = rebindSteps t subject provider previous n ∧
          out = .ok (.rebound { provider := provider, orphanedAt := some previous
                                orphanedCount := n }) := by
  apply outcomes_bind
  apply outcomes_observe
  apply outcomes_bind
  apply outcomes_note
  apply outcomes_bind
  apply outcomes_check
  intro r
  cases r with
  | error e => simp
  | ok u =>
    apply outcomes_bind
    apply outcomes_check
    intro r
    cases r with
    | error e => simp
    | ok a =>
      apply outcomes_bind
      intro steps out htaken hends
      have hsubject := rebindSubject_outcomes steps out htaken hends
      cases out with
      | error e =>
        intro previous hmoved
        obtain ⟨n, -, hout⟩ := hsubject previous (by simpa using hmoved)
        cases hout
      | ok result =>
        apply outcomes_bind
        apply outcomes_note
        apply outcomes_ret
        apply outcomes_ret
        intro previous hmoved
        obtain ⟨n, hsteps, hout⟩ := hsubject previous (by simpa using hmoved)
        exact ⟨n, by simpa using hsteps, by rw [Except.ok.inj hout]⟩

/-! ## Actions -/

/-- The actions of an ingest or an upsert. -/
def Op.ofWrite : Op σ → Bool
  | .catalog (.getBinding ..) | .catalog (.mapAttempt ..) | .catalog (.insertBinding ..)
  | .catalog (.journal ..) => true
  | .catalog _ => false
  | .adapter .. | .note .. | .emit .. => true

/-- The actions of a rebind. -/
def Op.ofRebind : Op σ → Bool
  | .catalog (.getBinding ..) | .catalog (.liveCount ..) | .catalog (.replaceBinding ..) => true
  | .catalog _ => false
  | .adapter .. => false
  | .note .. | .emit .. => true

theorem within_refuseIf {A : Op σ → Prop} {b : Bool} {e : GatewayError} :
    (refuseIf b e : CoreProg σ Unit).Within A :=
  Prog.within_ofExcept

theorem within_raiseFailure {A : Op σ → Prop} {β : Type} {name : String} {a : Adapter σ} {exc : Exc}
    (hA : ∀ op, A (.adapter name a op)) : (raiseFailure name a exc : CoreProg σ β).Within A := by
  apply Prog.within_bind
  · apply Prog.within_bind
    · apply Prog.within_tryCatch
      · exact Prog.within_bind (Prog.within_perform (hA _)) fun _ => trivial
      · intro e
        split <;> trivial
    · intro down
      trivial
  · intro e
    trivial

theorem within_call {A : Op σ → Prop} {name : String} {a : Adapter σ} {op : AdapterOp}
    (hA : ∀ op, A (.adapter name a op)) : (call name a op).Within A := by
  apply Prog.within_tryCatch (Prog.within_perform (hA op))
  intro exc
  cases exc with
  | gateway e => trivial
  | cancelled => trivial
  | integrity text => exact within_raiseFailure hA
  | other kind text => exact within_raiseFailure hA

theorem within_mapPage {A : Op σ → Prop} {name : String} {items : List (String × String)}
    {scope : Scope} {revive : Bool} (hA : A (.catalog (.mapAttempt t name items scope revive))) :
    (mapPage t name items scope revive).Within A := by
  have hloop : ∀ n, (mapPage.attempts t name items scope revive n).Within A := by
    intro n
    induction n with
    | zero => trivial
    | succ n ih =>
      apply Prog.within_tryCatch (Prog.within_perform hA)
      intro e
      split
      · split
        · trivial
        · exact ih
      · trivial
  unfold mapPage
  split
  · trivial
  · exact hloop _

theorem within_writtenRecords {A : Op σ → Prop} {name : String} {memories : List ProviderMemory}
    {scope : Scope} (hA : ∀ items, A (.catalog (.mapAttempt t name items scope true))) :
    (writtenRecords t name memories scope).Within A := by
  rw [writtenRecords_eq]
  exact Prog.within_bind (within_mapPage (hA _)) fun _ => trivial

theorem within_mapHits {A : Op σ → Prop} {name : String} {memories : List ProviderMemory}
    {scope : Scope} (hA : ∀ items, A (.catalog (.mapAttempt t name items scope false))) :
    (mapHits t name memories scope).Within A := by
  rw [mapHits_eq]
  exact Prog.within_bind (within_mapPage (hA _)) fun _ => trivial

theorem within_bind_subject {A : Op σ → Prop} {subject name : String}
    (hinsert : A (.catalog (.insertBinding t subject name)))
    (hget : A (.catalog (.getBinding t subject))) : (bind t subject name).Within A := by
  apply Prog.within_tryCatch
  · exact Prog.within_bind (Prog.within_perform hinsert) fun _ => trivial
  · intro e
    split
    · exact Prog.within_bind (Prog.within_perform hget) fun _ => trivial
    · trivial

theorem within_prepare {A : Op σ → Prop} {scope : Scope} {asserted : Option String}
    (hget : A (.catalog (.getBinding t scope.subject))) :
    (core.prepare t scope asserted).Within A := by
  apply Prog.within_bind
  · exact Prog.within_bind (Prog.within_perform hget) fun _ => Prog.within_ofExcept
  · intro name
    apply Prog.within_bind Prog.within_ofExcept
    intro a
    exact Prog.within_bind Prog.within_ofExcept fun _ => trivial

theorem within_rebindSubject {A : Op σ → Prop} {subject provider : String}
    (hA : ∀ op : CatalogOp, (Op.catalog op : Op σ).ofRebind = true → A (.catalog op)) :
    (rebindSubject t subject provider).Within A := by
  refine Prog.within_bind (Prog.within_perform (hA _ rfl)) fun previous => ?_
  apply Prog.within_bind
  · unfold rebindSubject.strandedAt
    split
    · split
      · exact Prog.within_perform (hA _ rfl)
      · trivial
    · trivial
  · intro n
    exact Prog.within_bind (Prog.within_perform (hA _ rfl)) fun _ => trivial

theorem ingest_within {episode : Episode} {scope : Scope} {asserted : Option String} :
    (core.exec (.ingest t episode scope asserted)).Within fun op => op.ofWrite := by
  apply Prog.within_bind
  · refine within_observe (fun _ => rfl) ?_
    refine Prog.within_bind (within_prepare rfl) fun p => ?_
    refine Prog.within_bind (Prog.within_perform rfl) fun _ => ?_
    refine Prog.within_bind within_refuseIf fun _ => ?_
    refine Prog.within_bind (within_call fun _ => rfl) fun memories => ?_
    refine Prog.within_bind (within_writtenRecords fun _ => rfl) fun records => ?_
    refine Prog.within_bind (within_bind_subject rfl rfl) fun _ => ?_
    apply Prog.within_bind
    · unfold runIf
      split
      · exact Prog.within_bind (Prog.within_perform rfl) fun _ => trivial
      · trivial
    · intro _
      exact Prog.within_bind (Prog.within_perform rfl) fun _ => trivial
  · intro result
    trivial

theorem upsert_within {facts : List String} {scope : Scope} {asserted : Option String} :
    (core.exec (.upsert t facts scope asserted)).Within fun op => op.ofWrite := by
  apply Prog.within_bind
  · refine Prog.within_bind within_refuseIf fun _ => ?_
    refine within_observe (fun _ => rfl) ?_
    refine Prog.within_bind (within_prepare rfl) fun p => ?_
    refine Prog.within_bind (Prog.within_perform rfl) fun _ => ?_
    refine Prog.within_bind within_refuseIf fun _ => ?_
    refine Prog.within_bind (within_call fun _ => rfl) fun memories => ?_
    refine Prog.within_bind (within_writtenRecords fun _ => rfl) fun records => ?_
    refine Prog.within_bind (within_bind_subject rfl rfl) fun _ => ?_
    exact Prog.within_bind (Prog.within_perform rfl) fun _ => trivial
  · intro result
    trivial

theorem rebind_within {subject provider : String} {strategy : RebindStrategy} :
    (core.exec (.rebind t subject provider strategy)).Within fun op => op.ofRebind := by
  apply Prog.within_bind
  · refine within_observe (fun _ => rfl) ?_
    refine Prog.within_bind (Prog.within_perform rfl) fun _ => ?_
    refine Prog.within_bind within_refuseIf fun _ => ?_
    refine Prog.within_bind Prog.within_ofExcept fun a => ?_
    refine Prog.within_bind (within_rebindSubject fun _ hop => hop) fun result => ?_
    exact Prog.within_bind (Prog.within_perform rfl) fun _ => trivial
  · intro result
    trivial

end

end Memgw
