-- SUMMARY: When writes and rebinds that overlap strand no memory silently: each step finds the binding it counts on.
import Memgw.Gateway.Traces

/-!
# Writes overlapping rebinds

A write resolves its provider at the start and binds the subject at the end, and
does not look at what binding answers. A rebind reads the binding and counts what
it strands before the transaction that moves the subject. What such a step relied
on may have changed when it happens, and then a memory is left at a provider that
no read asks and that no rebind has counted.
-/

namespace Memgw

variable {σ ι : Type} {env : Env}

/-! ## The calls -/

/-- A write to the subject, or a rebind of it. -/
def Call.On (t subject : String) : Call → Prop
  | .ingest t' _ scope _ | .upsert t' _ scope _ => t' = t ∧ scope.subject.val = subject
  | .rebind t' subject' _ _ => t' = t ∧ subject' = subject
  | _ => False

/-- Calls that overlap, each served by a gateway of its own. -/
def overlapping (gateway : ι → MemoryCore σ) (call : ι → Call) : ι → CoreProg σ Reply :=
  fun i => (gateway i).exec (call i)

/-! ## Stranded -/

/-- The memory was live at the provider when a rebind counted there, and the rebind
    reported this count and this provider. -/
def Counted (env : Env) (t subject provider gatewayId : String) (w : World σ)
    (es : List (Event (@Op.Ans σ) Exc ι)) (pool' : ι → CoreProg σ Reply) : Prop :=
  ∃ j rebound es₁ es₂, pool' j = .ret (.rebound rebound) ∧ rebound.orphanedAt = some provider ∧
    es = es₁ ++ ⟨j, ⟨.catalog (.liveCount t subject provider), .ok rebound.orphanedCount⟩⟩ :: es₂ ∧
    ∃ r ∈ (replay (handle env) es₁ w).catalog.memoryIndex, r.gatewayId = gatewayId ∧
      r.liveAt t subject provider = true

/-- Every memory that a caller was told of is at the provider of the subject, or was
    counted by a rebind. -/
def NoneStranded (env : Env) (t subject : String) (w : World σ)
    (es : List (Event (@Op.Ans σ) Exc ι)) (pool' : ι → CoreProg σ Reply) : Prop :=
  ∀ i result, pool' i = .ret (.wrote result) → ∀ record ∈ result.results,
    getBinding t subject (replay (handle env) es w).catalog = some result.provider ∨
      Counted env t subject result.provider record.id w es pool'

/-- What each step of a history has to find. -/
structure Orderly (env : Env) (t subject : String) (w : World σ)
    (es : List (Event (@Op.Ans σ) Exc ι)) : Prop where
  /-- No native id of a page is live under another subject. -/
  page : ∀ before i p items scope rows after,
    es = before ++ ⟨i, ⟨.catalog (.mapAttempt t p items scope true), .ok rows⟩⟩ :: after →
      ∀ r ∈ (replay (handle env) before w).catalog.memoryIndex, r.tenantId = t → r.provider = p →
        r.nativeId ∈ items.map Prod.fst → r.live = true → r.subject.val = subject
  /-- Binding finds the subject unbound or at the provider of the write, unless a rebind
      has moved it from there after the page of the write was recorded. -/
  bind : ∀ before i p x after,
    es = before ++ ⟨i, ⟨.catalog (.insertBinding t subject p), x⟩⟩ :: after →
      getBinding t subject (replay (handle env) before w).catalog = none ∨
      getBinding t subject (replay (handle env) before w).catalog = some p ∨
      ∀ es₁ items scope rows es₂,
        before = es₁ ++ ⟨i, ⟨.catalog (.mapAttempt t p items scope true), .ok rows⟩⟩ :: es₂ →
          ∃ e ∈ es₂, movedFrom e.step = some p
  /-- Rebinding finds the binding that it has read, and no page recorded at the old
      provider since it counted there. -/
  rebind : ∀ before j q previous x after,
    es = before ++ ⟨j, ⟨.catalog (.replaceBinding t subject q previous), x⟩⟩ :: after →
      getBinding t subject (replay (handle env) before w).catalog = previous ∧
      ∀ p es₁ n es₂, previous = some p →
        before = es₁ ++ ⟨j, ⟨.catalog (.liveCount t subject p), n⟩⟩ :: es₂ →
          ∀ i items scope rows,
            ⟨i, ⟨.catalog (.mapAttempt t p items scope true), .ok rows⟩⟩ ∉ es₂

/-! ## The binding -/

/-- Only a rebind moves a binding. -/
theorem getBinding_moved {t subject p : String} {c : Catalog} {op : CatalogOp}
    (hbefore : getBinding t subject c = some p)
    (hafter : getBinding t subject (op.exec env c).2 ≠ some p) :
    ∃ q previous, op = .replaceBinding t subject q previous ∧ q ≠ p := by
  cases hw : op.writesBinding with
  | false =>
    rw [getBinding_congr (CatalogOp.exec_scopeBinding hw)] at hafter
    exact absurd hbefore hafter
  | true =>
    cases op with
    | insertBinding t' s' q =>
      simp only [CatalogOp.exec, getBinding_insertBinding, hbefore] at hafter
      split at hafter <;> simp at hafter
    | replaceBinding t' s' q previous =>
      simp only [CatalogOp.exec, getBinding_replaceBinding, hbefore] at hafter
      split at hafter
      · rename_i hon
        obtain ⟨rfl, rfl⟩ := hon
        exact ⟨q, previous, rfl, fun hq => hafter (congrArg some hq)⟩
      · simp at hafter
    | mapAttempt | resolveGatewayId | markDeleted | markScopeDeleted | liveCount | getBinding
    | journal | deleteJournal => cases hw

theorem getBinding_inserted {t subject p : String} {c : Catalog}
    (h : getBinding t subject c = none ∨ getBinding t subject c = some p) :
    getBinding t subject (insertBinding env t subject p c).2 = some p := by
  rw [getBinding_insertBinding, if_pos ⟨rfl, rfl⟩]
  rcases h with h | h
  · rw [h, Option.none_or]
  · rw [h, Option.some_or]

/-! ## What a write leaves in the index -/

/-- An index whose rows are not marked as deleted keeps its live rows. -/
theorem liveRow_kept {es : List (Event (@Op.Ans σ) Exc ι)} {w : World σ}
    (hes : Faithful (handle env) es w)
    (hcalls : ∀ e ∈ es, e.step.1.ofWrite = true ∨ e.step.1.ofRebind = true) {r : IndexRow}
    (hr : r ∈ w.catalog.memoryIndex) (hlive : r.live = true) :
    r ∈ (replay (handle env) es w).catalog.memoryIndex := by
  refine replay_invariant (I := fun w => r ∈ w.catalog.memoryIndex) hes (fun e he w hans hr => ?_) hr
  cases hch : changesIndex e.step with
  | false => rwa [memoryIndex_kept hch hans]
  | true =>
    have hcall := hcalls e he
    obtain ⟨i, op, x⟩ := e
    cases op with
    | adapter | note | emit => cases hch
    | catalog op =>
      cases op with
      | mapAttempt t p items scope revive =>
        cases x with
        | error e => cases hch
        | ok rows =>
          have hmap := mapAttempt_ok (Prod.ext hans.symm rfl)
          obtain ⟨r', hr', -, -, -, -, hsame⟩ := hmap.survives hr
          exact hsame hlive ▸ hr'
      | markDeleted | markScopeDeleted => rcases hcall with h | h <;> cases h
      | _ => cases x <;> cases hch

/-- Where the page names no row of another subject, each memory it records has a live row
    under the subject of the write. -/
theorem recorded_row {t p : String} {memories : List ProviderMemory} {scope : Scope}
    {rows : List CatalogRow} {c c' : Catalog} {record : MemoryRecord}
    (hmap : Mapped env t p (hitItems memories) scope true c rows c')
    (hsubject : ∀ r ∈ c.memoryIndex, r.tenantId = t → r.provider = p →
      r.nativeId ∈ (hitItems memories).map Prod.fst → r.live = true → r.subject.val = scope.subject)
    (hrecord : record ∈ toRecords p memories (fun _ => scope) rows) :
    ∃ r ∈ c'.memoryIndex, r.gatewayId = record.id ∧ r.live = true ∧
      r.liveAt t scope.subject p = true := by
  obtain ⟨memory, -, row, hrow, -, rfl⟩ := mem_toRecords hrecord
  obtain ⟨r, hr, ht, hp, hn, hlive, rfl⟩ := hmap.mem_rows.mp hrow
  refine ⟨r, hr, rfl, hlive, ?_⟩
  obtain ⟨r', hr', hkey, -, hold⟩ := hmap.written hn
  obtain rfl : r = r' := Table.eq_of_key IndexRow.nativeKey (by simp [indexKeys]) hr hr'
    (by rw [hkey]; simp [IndexRow.nativeKey, ht, hp])
  have hat : r.subject.val = scope.subject := by
    rcases hold with hold | ⟨hsame, -⟩
    · exact hsubject r hold ht hp hn hlive
    · rw [hsame]
  simp [IndexRow.liveAt, ht, hp, hat, hlive]

/-- A memory whose page was recorded is live under the subject from then on. -/
theorem recorded_stays {before mid : List (Event (@Op.Ans σ) Exc ι)} {w : World σ} {i : ι}
    {t p : String} {memories : List ProviderMemory} {scope : Scope} {rows : List CatalogRow}
    {record : MemoryRecord}
    (hes : Faithful (handle env) (before ++
      ⟨i, ⟨.catalog (.mapAttempt t p (hitItems memories) scope true), .ok rows⟩⟩ :: mid) w)
    (hcalls : ∀ e ∈ mid, e.step.1.ofWrite = true ∨ e.step.1.ofRebind = true)
    (hsubject : ∀ r ∈ (replay (handle env) before w).catalog.memoryIndex, r.tenantId = t →
      r.provider = p → r.nativeId ∈ (hitItems memories).map Prod.fst → r.live = true →
        r.subject.val = scope.subject)
    (hrecord : record ∈ toRecords p memories (fun _ => scope) rows) :
    ∃ r ∈ (replay (handle env) (before ++
        ⟨i, ⟨.catalog (.mapAttempt t p (hitItems memories) scope true), .ok rows⟩⟩ :: mid)
          w).catalog.memoryIndex,
      r.gatewayId = record.id ∧ r.liveAt t scope.subject p = true := by
  obtain ⟨-, hans, hmid⟩ := faithful_append.mp hes
  obtain ⟨r, hr, hid, hlive, hat⟩ :=
    recorded_row (mapAttempt_ok (Prod.ext hans.symm rfl)) hsubject hrecord
  refine ⟨r, ?_, hid, hat⟩
  rw [replay_append, replay_cons]
  exact liveRow_kept hmid hcalls hr hlive

/-! ## One call's part in a history -/

section

variable {t subject : String}

theorem Call.On.within {core : MemoryCore σ} {call : Call} (hon : call.On t subject) :
    (core.exec call).Within fun op => op.ofWrite = true ∨ op.ofRebind = true := by
  cases call with
  | ingest => exact ingest_within.mono fun _ => .inl
  | upsert => exact upsert_within.mono fun _ => .inl
  | rebind => exact rebind_within.mono fun _ => .inr
  | update | search | listScope | get | delete | deleteScope => exact hon.elim

theorem PageSteps.last {name : String} {memories : List ProviderMemory} {scope : Scope}
    {rows : List CatalogRow} {steps : List (CoreStep σ)}
    (h : PageSteps t name memories scope rows steps) (hne : memories ≠ []) :
    ∃ lost, steps = lost ++
      [⟨.catalog (.mapAttempt t name (hitItems memories) scope true), .ok rows⟩] := by
  unfold PageSteps at h
  rw [if_neg hne] at h
  obtain ⟨lost, -, rfl⟩ := h
  exact ⟨lost, rfl⟩

theorem BindSteps.head {name : String} {steps : List (CoreStep σ)}
    (h : BindSteps t subject name steps) :
    ∃ x rest, steps = ⟨.catalog (.insertBinding t subject name), x⟩ :: rest := by
  rcases h with rfl | ⟨text, existing, rfl⟩
  · exact ⟨.ok (), [], rfl⟩
  · exact ⟨.error (.integrity text), [⟨.catalog (.getBinding t subject), .ok existing⟩], rfl⟩

/-- A call that acknowledged a memory recorded its page and went on to bind. -/
theorem wrote_traces {core : MemoryCore σ} {call : Call} (hon : call.On t subject) :
    Traces (core.exec call) fun steps reply => ∀ result, reply = .wrote result →
      ∀ record ∈ result.results, ∃ memories scope rows pre x rest,
        scope.subject.val = subject ∧
        record ∈ toRecords result.provider memories (fun _ => scope) rows ∧
        steps = pre ++
          ⟨.catalog (.mapAttempt t result.provider (hitItems memories) scope true), .ok rows⟩ ::
            ⟨.catalog (.insertBinding t subject result.provider), x⟩ :: rest := by
  intro steps reply hends result hreply record hrecord
  have hne : ∀ {p : String} {memories : List ProviderMemory} {scope : Scope}
      {rows : List CatalogRow}, record ∈ toRecords p memories (fun _ => scope) rows →
        memories ≠ [] := by
    rintro p memories scope rows h rfl
    cases h
  cases call with
  | ingest t' episode scope asserted =>
    obtain ⟨rfl, rfl⟩ := hon
    obtain ⟨bound, name, a, memories, rows, page, binds, journals, -, -, hpage, hbinds, -, hwrote,
      hsteps⟩ := ingest_traces steps reply hends
    obtain rfl : _ = result := by simpa [hreply] using hwrote.symm
    obtain ⟨lost, rfl⟩ := hpage.last (hne hrecord)
    obtain ⟨x, rest, rfl⟩ := hbinds.head
    refine ⟨memories, scope, rows, ⟨.catalog (.getBinding t' scope.subject), .ok bound⟩ ::
      ⟨.adapter name a (.ingest episode (scope.under t')), .ok memories⟩ :: lost, x,
      rest ++ journals, rfl, hrecord, ?_⟩
    simp [hsteps]
  | upsert t' facts scope asserted =>
    obtain ⟨rfl, rfl⟩ := hon
    obtain ⟨bound, name, a, memories, rows, page, binds, -, -, hpage, hbinds, hwrote, hsteps⟩ :=
      upsert_traces steps reply hends
    obtain rfl : _ = result := by simpa [hreply] using hwrote.symm
    obtain ⟨lost, rfl⟩ := hpage.last (hne hrecord)
    obtain ⟨x, rest, rfl⟩ := hbinds.head
    refine ⟨memories, scope, rows, ⟨.catalog (.getBinding t' scope.subject), .ok bound⟩ ::
      ⟨.adapter name a (.upsert facts (scope.under t')), .ok memories⟩ :: lost, x, rest, rfl,
      hrecord, ?_⟩
    simp [hsteps]
  | rebind t' subject' provider strategy =>
    subst hreply
    obtain ⟨result', pre, post, -, -, hret⟩ := Prog.ends_bind_ok.mp hends
    cases (Prog.ends_ret.mp hret).2
  | update | search | listScope | get | delete | deleteScope => exact hon.elim

/-- The step of a rebind that takes the subject away is the one after its count. -/
theorem rebindSteps_moved {q p p' : String} {n : Nat} {pre post : List (CoreStep σ)}
    {st : CoreStep σ} (h : pre ++ st :: post = rebindSteps t subject q p n)
    (hmoved : movedFrom st = some p') :
    pre = [⟨.catalog (.getBinding t subject), .ok (some p)⟩,
        ⟨.catalog (.liveCount t subject p), .ok n⟩] ∧
      st = ⟨.catalog (.replaceBinding t subject q (some p)), .ok ()⟩ := by
  have hsteps : pre ++ st :: post = [⟨.catalog (.getBinding t subject), .ok (some p)⟩,
      ⟨.catalog (.liveCount t subject p), .ok n⟩] ++
        ⟨.catalog (.replaceBinding t subject q (some p)), .ok ()⟩ :: [] := h
  obtain ⟨hpre, hst, -⟩ := split_unique (P := fun st => (movedFrom st).isSome) hsteps
    (by simp [hmoved]) (by simp [movedFrom]) (by simp)
  exact ⟨hpre, hst⟩

variable [DecidableEq ι] {gateway : ι → MemoryCore σ} {call : ι → Call} {w w' : World σ}
  {es : List (Event (@Op.Ans σ) Exc ι)} {pool' : ι → CoreProg σ Reply}

/-- Whoever took the subject from a provider had counted there before, and reported it. -/
theorem moved_counted (hrun : Exec (handle env) (overlapping gateway call) w es pool' w')
    (hon : ∀ i, (call i).On t subject) (hended : ∀ i, (pool' i).Ended)
    {before after : List (Event (@Op.Ans σ) Exc ι)} {j : ι} {st : CoreStep σ}
    (hsplit : es = before ++ ⟨j, st⟩ :: after) {p : String} (hmoved : movedFrom st = some p) :
    ∃ es₁ n es₂ q, before = es₁ ++ ⟨j, ⟨.catalog (.liveCount t subject p), .ok n⟩⟩ :: es₂ ∧
      st = ⟨.catalog (.replaceBinding t subject q (some p)), .ok ()⟩ ∧
      pool' j = .ret (.rebound { provider := q, orphanedAt := some p, orphanedCount := n }) := by
  obtain ⟨out, hout⟩ := (hended j).ends
  have hends := hrun.ends hout
  rw [List.append_nil] at hends
  have hmem : st ∈ own j es := mem_own.mpr (by simp [hsplit])
  have hwrite : st.1.ofWrite = true → False := by
    intro hw
    obtain ⟨op, x⟩ := st
    cases op with
    | catalog op =>
      cases op with
      | replaceBinding => cases hw
      | _ => cases x <;> cases hmoved
    | adapter | note | emit => cases hmoved
  have hj := hon j
  unfold overlapping at hends
  cases hcall : call j with
  | ingest =>
    rw [hcall] at hends
    exact (hwrite (hends.within ingest_within st hmem)).elim
  | upsert =>
    rw [hcall] at hends
    exact (hwrite (hends.within upsert_within st hmem)).elim
  | rebind t' subject' q strategy =>
    rw [hcall] at hends hj
    obtain ⟨rfl, rfl⟩ := hj
    have htaken : ∀ st ∈ own j es, NoteTaken st := by
      intro st hst
      obtain ⟨w₀, hans⟩ := hrun.faithful.answer (mem_own.mp hst)
      obtain ⟨op, x⟩ := st
      cases op with
      | note key value => exact hans
      | catalog | adapter | emit => trivial
    have hdata : st.1.isData = true := by
      by_contra hno
      obtain ⟨op, x⟩ := st
      cases op with
      | catalog | adapter => exact hno rfl
      | note | emit => cases hmoved
    obtain ⟨n, hsteps, rfl⟩ := rebind_outcomes _ _ htaken hends p
      ⟨st, List.mem_filter.mpr ⟨hmem, hdata⟩, hmoved⟩
    rw [hsplit, own_append, own_cons_self, dataSteps_append, dataSteps_cons, if_pos hdata] at hsteps
    obtain ⟨hpre, rfl⟩ := rebindSteps_moved hsteps hmoved
    have hpre : (own j before).filter (fun st => st.1.isData) =
        [⟨.catalog (.getBinding t' subject'), .ok (some p)⟩] ++
          ⟨.catalog (.liveCount t' subject' p), .ok n⟩ :: [] := hpre
    obtain ⟨es₁, es₂, hbefore, -, -⟩ := own_split hpre
    exact ⟨es₁, n, es₂, q, hbefore, rfl, hout.eq_ret⟩
  | update | search | listScope | get | delete | deleteScope =>
    rw [hcall] at hj
    exact hj.elim

omit [DecidableEq ι] in
/-- A step after which the subject is no longer at a provider is a rebind's, and what the
    rebind had read was that provider. -/
theorem moved_of_lost (hes : Faithful (handle env) es w) (horderly : Orderly env t subject w es)
    {before after : List (Event (@Op.Ans σ) Exc ι)} {e : Event (@Op.Ans σ) Exc ι} {p : String}
    (hsplit : es = before ++ e :: after)
    (hbound : getBinding t subject (replay (handle env) before w).catalog = some p)
    (hlost : getBinding t subject
      (handle env e.step.1 (replay (handle env) before w)).2.catalog ≠ some p) :
    movedFrom e.step = some p := by
  obtain ⟨j, op, x⟩ := e
  cases op with
  | adapter | note | emit => exact absurd hbound hlost
  | catalog op =>
    obtain ⟨q, previous, rfl, hne⟩ := getBinding_moved hbound hlost
    obtain ⟨hread, -⟩ := horderly.rebind before j q previous x after hsplit
    obtain rfl : previous = some p := hread.symm.trans hbound
    rw [hsplit, faithful_append] at hes
    have hans : x = .ok () := hes.2.1.trans replaceBinding_ok
    simp [hans, movedFrom, Ne.symm hne]

omit [DecidableEq ι] in
/-- After a write has bound, either the subject is at its provider, or a rebind has moved
    it from there since the page was recorded. -/
theorem bound_or_moved (hes : Faithful (handle env) es w) (horderly : Orderly env t subject w es)
    {before mid after : List (Event (@Op.Ans σ) Exc ι)} {i : ι} {p : String}
    {items : List (String × String)} {scope : Scope} {rows : List CatalogRow} {x : Except Exc Unit}
    (hsplit : es = before ++ ⟨i, ⟨.catalog (.mapAttempt t p items scope true), .ok rows⟩⟩ ::
      (mid ++ ⟨i, ⟨.catalog (.insertBinding t subject p), x⟩⟩ :: after)) :
    getBinding t subject (replay (handle env) es w).catalog = some p ∨
      ∃ mid' e after', movedFrom e.step = some p ∧
        es = before ++ ⟨i, ⟨.catalog (.mapAttempt t p items scope true), .ok rows⟩⟩ ::
          (mid' ++ e :: after') := by
  generalize hpage : (⟨i, ⟨.catalog (.mapAttempt t p items scope true), .ok rows⟩⟩ :
    Event (@Op.Ans σ) Exc ι) = page at hsplit ⊢
  have hsplit' : es = (before ++ page :: mid) ++
      ⟨i, ⟨.catalog (.insertBinding t subject p), x⟩⟩ :: after := by simp [hsplit]
  have hbind := horderly.bind _ i p x after hsplit'
  rw [← or_assoc] at hbind
  rcases hbind with hfree | hsince
  · -- from the bind on the subject is at the provider, until a step takes it away
    have hbound : getBinding t subject (handle env (.catalog (.insertBinding t subject p))
        (replay (handle env) (before ++ page :: mid) w)).2.catalog = some p :=
      getBinding_inserted hfree
    by_cases hfinal : getBinding t subject (replay (handle env) es w).catalog = some p
    · exact .inl hfinal
    · rw [hsplit', replay_append, replay_cons] at hfinal
      obtain ⟨mid₁, e, mid₂, rfl, hbefore, hafter⟩ :=
        replay_broken (I := fun w : World σ => getBinding t subject w.catalog = some p) hbound hfinal
      have hlost : es = (before ++ page :: mid ++
          ⟨i, ⟨.catalog (.insertBinding t subject p), x⟩⟩ :: mid₁) ++ e :: mid₂ := by simp [hsplit]
      refine .inr ⟨mid ++ ⟨i, ⟨.catalog (.insertBinding t subject p), x⟩⟩ :: mid₁, e, mid₂, ?_,
        by simp [hsplit]⟩
      apply moved_of_lost hes horderly hlost
      · rwa [replay_append, replay_cons]
      · rwa [replay_append, replay_cons]
  · obtain ⟨e, he, hmoved⟩ := hsince before items scope rows mid (by rw [hpage])
    obtain ⟨mid₁, mid₂, rfl⟩ := List.append_of_mem he
    exact .inr ⟨mid₁, e, mid₂ ++ ⟨i, ⟨.catalog (.insertBinding t subject p), x⟩⟩ :: after, hmoved,
      by simp [hsplit]⟩

/-- No overlap of writes to a subject and rebinds of it strands a memory silently, when
    each step finds what it counts on. -/
theorem orderly_strands_none (env : Env) (gateway : ι → MemoryCore σ) (call : ι → Call)
    (t subject : String) (hon : ∀ i, (call i).On t subject) (w w' : World σ)
    (es : List (Event (@Op.Ans σ) Exc ι)) (pool' : ι → CoreProg σ Reply)
    (hrun : Exec (handle env) (overlapping gateway call) w es pool' w')
    (hended : ∀ i, (pool' i).Ended) (horderly : Orderly env t subject w es) :
    NoneStranded env t subject w es pool' := by
  intro i result hwrote record hrecord
  have hes := hrun.faithful
  obtain ⟨memories, scope, rows, pre, x, rest, rfl, hmem, hsteps⟩ :=
    wrote_traces (hon i) _ _ (hrun.returned hwrote) result rfl record hrecord
  -- where the write recorded its page, and where it bound
  obtain ⟨before, later, hpage, -, hlater⟩ := own_split hsteps
  have hbinds : (own i later).filter (fun st => st.1.isData) = [] ++
      ⟨.catalog (.insertBinding t scope.subject result.provider), x⟩ :: rest := hlater
  obtain ⟨mid, after, rfl, -, -⟩ := own_split hbinds
  refine (bound_or_moved hes horderly hpage).imp_right ?_
  rintro ⟨mid', ⟨j, st⟩, after', hmoved, hsplit⟩
  have hsplit' : es = (before ++ ⟨i, ⟨.catalog (.mapAttempt t result.provider (hitItems memories)
      scope true), .ok rows⟩⟩ :: mid') ++ ⟨j, st⟩ :: after' := by simp [hsplit]
  obtain ⟨es₁, n, es₂, q, hcount, rfl, hreply⟩ :=
    moved_counted hrun hon hended hsplit' hmoved
  -- the rebind counted after the page, or the page would be in its way
  obtain ⟨-, hunseen⟩ := horderly.rebind _ j q _ _ after' hsplit'
  rcases split_ordered hcount (by simp) with ⟨mid₁, rfl, -⟩ | hlate
  · rw [hcount, List.append_assoc] at hsplit'
    have hcalls : ∀ e ∈ es, e.step.1.ofWrite = true ∨ e.step.1.ofRebind = true :=
      hrun.within fun i => (hon i).within
    rw [hsplit'] at hes hcalls
    have hstays := recorded_stays (faithful_append.mp hes).1
      (fun e he => hcalls e (by simp [he])) (horderly.page before i _ _ scope rows _ hpage) hmem
    exact ⟨j, _, _, _, hreply, rfl, hsplit', hstays⟩
  · exact absurd hlate (hunseen _ es₁ _ es₂ rfl hcount i _ _ _)

end

/-! ## Two first writes -/

inductive TwoCalls where
  | first
  | second
  deriving DecidableEq

/-- The two gateways share the catalog, and have different defaults. -/
def twoGateways : TwoCalls → MemoryCore Unit
  | .first => .serving "mem0" [{ nativeId := "n", content := "tea" }] id
  | .second => .serving "zep" [{ nativeId := "e", content := "tea" }] id

def teaUpsert : Call := .upsert "a" ["tea"] { subject := ⟨"u_1", u_1_mustBeReal⟩ } none

def playTwo (call : TwoCalls → Call) (sched : List TwoCalls) :
    List (Event (@Op.Ans Unit) Exc TwoCalls) × (TwoCalls → CoreProg Unit Reply) × World Unit :=
  play (handle .counting) sched (overlapping twoGateways call) { catalog := {}, store := () }

/-- Both writes resolve their provider before one of them binds. -/
def bothResolve : List TwoCalls :=
  [.first, .second] ++ .replicate 4 .first ++ .replicate 5 .second

theorem two_first_writes_strand :
    ∃ es pool' w', Exec (handle .counting) (overlapping twoGateways fun _ => teaUpsert)
      { catalog := {}, store := () } es pool' w' ∧ (∀ i, (pool' i).Ended) ∧
        ¬ NoneStranded .counting "a" "u_1" { catalog := {}, store := () } es pool' := by
  refine ⟨_, _, _, play_exec bothResolve _ _, ?_, fun h => ?_⟩
  · intro i
    cases i <;> trivial
  · have hwrote : ∃ result, (playTwo (fun _ => teaUpsert) bothResolve).2.1 .second =
        .ret (.wrote result) ∧ result.provider = "zep" ∧ result.results ≠ [] :=
      ⟨_, rfl, rfl, by decide⟩
    obtain ⟨result, hret, hprovider, hne⟩ := hwrote
    obtain ⟨record, hrecord⟩ := List.exists_mem_of_ne_nil _ hne
    rcases h .second result hret record hrecord with hbound | ⟨j, rebound, es₁, es₂, hj, -⟩
    · have hmem0 : getBinding "a" "u_1" (playTwo (fun _ => teaUpsert) bothResolve).2.2.catalog =
          some "mem0" := by decide
      rw [hprovider] at hbound
      have hend : (playTwo (fun _ => teaUpsert) bothResolve).2.2 = _ := (play_exec _ _ _).replay
      rw [hend] at hmem0
      exact absurd (hmem0.symm.trans hbound) (by decide)
    · cases j <;> cases hj

/-- The subject is moved to the other provider once the write has ended. -/
def writeThenRebind : TwoCalls → Call
  | .first => teaUpsert
  | .second => .rebind "a" "u_1" "zep" .freshStart

def inTurn : List TwoCalls := .replicate 5 .first ++ .replicate 4 .second

/-- The history of the write and the rebind, one after the other. -/
def inTurnEvents : List (Event (@Op.Ans Unit) Exc TwoCalls) := (playTwo writeThenRebind inTurn).1

/-- The statements that the history has once each. -/
def insertsBinding : Op Unit → Bool
  | .catalog (.insertBinding ..) => true
  | _ => false

def replacesBinding : Op Unit → Bool
  | .catalog (.replaceBinding ..) => true
  | _ => false

def countsLive : Op Unit → Bool
  | .catalog (.liveCount ..) => true
  | _ => false

theorem inTurn_orderly :
    Orderly .counting "a" "u_1" { catalog := {}, store := () } inTurnEvents where
  page before i p items scope rows after h r hr := by
    have hpage : inTurnEvents = inTurnEvents.take 2 ++ _ :: inTurnEvents.drop 3 := rfl
    obtain ⟨rfl, -⟩ := split_unique (P := fun e => changesIndex e.step) (h.symm.trans hpage) rfl
      (by decide) (by decide)
    have hempty : (replay (handle .counting) (inTurnEvents.take 2)
        { catalog := {}, store := () }).catalog.memoryIndex.rows = [] := by decide
    have hr : r ∈ (replay (handle .counting) (inTurnEvents.take 2)
        { catalog := {}, store := () }).catalog.memoryIndex.rows := hr
    rw [hempty] at hr
    cases hr
  bind before i p x after h := by
    have hbind : inTurnEvents = inTurnEvents.take 3 ++ _ :: inTurnEvents.drop 4 := rfl
    obtain ⟨rfl, -⟩ := split_unique (P := fun e => insertsBinding e.step.1) (h.symm.trans hbind) rfl
      (by decide) (by decide)
    exact .inl (by decide)
  rebind before j q previous x after h := by
    have hrebind : inTurnEvents = inTurnEvents.take 7 ++ ⟨.second, ⟨.catalog
      (.replaceBinding "a" "u_1" "zep" (some "mem0")), .ok ()⟩⟩ :: inTurnEvents.drop 8 := rfl
    obtain ⟨rfl, hstep, -⟩ := split_unique (P := fun e => replacesBinding e.step.1)
      (h.symm.trans hrebind) rfl (by decide) (by decide)
    cases hstep
    refine ⟨by decide, fun p es₁ n es₂ hp hcount i items scope rows hmem => ?_⟩
    have hlast : inTurnEvents.take 7 = inTurnEvents.take 6 ++ _ :: [] := rfl
    obtain ⟨-, -, rfl⟩ := split_unique (P := fun e => countsLive e.step.1)
      (hcount.symm.trans hlast) rfl (by decide) (by decide)
    cases hmem

theorem in_turn_strands_none :
    NoneStranded .counting "a" "u_1" { catalog := {}, store := () } inTurnEvents
      (playTwo writeThenRebind inTurn).2.1 := by
  refine orderly_strands_none .counting twoGateways writeThenRebind "a" "u_1" ?_ _ _ _ _
    (play_exec inTurn _ _) ?_ inTurn_orderly
  · intro i
    cases i <;> exact ⟨rfl, rfl⟩
  · intro i
    cases i <;> trivial

end Memgw
