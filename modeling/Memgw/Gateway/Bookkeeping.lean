-- SUMMARY: The methods of the catalog and the provider resolution, as programs of transactions.
import Memgw.Gateway.Effects

/-!
# Bookkeeping

A method of the catalog is one transaction or a few. Mapping a page retries its
transaction when it loses a race, binding reads the binding back when it finds
one, and rebinding reads before it writes; between their transactions other tasks
may run.
-/

namespace Memgw

variable {σ : Type} {env : Env} {w : World σ}

/-! ## Mapping -/

/-- `_RETRIES`. -/
def retries : Nat := 3

/-- `_map`. A lost race is retried; the last one reaches the caller. -/
def mapPage (tenant provider : String) (items : List (String × String)) (scope : Scope)
    (revive : Bool) : CoreProg σ (List CatalogRow) :=
  if items = [] then .ret [] else attempts retries
where
  attempts : Nat → CoreProg σ (List CatalogRow)
    | 0 => .raise (.other "AssertionError" "unreachable")
    | n + 1 =>
      (transact (.mapAttempt tenant provider items scope revive)).tryCatch fun
        | .integrity text => if n = 0 then .raise (.integrity text) else attempts n
        | e => .raise e

def recordMany (tenant provider : String) (items : List (String × String)) (scope : Scope) :
    CoreProg σ (List CatalogRow) :=
  mapPage tenant provider items scope true

def ensureMany (tenant provider : String) (items : List (String × String)) (scope : Scope) :
    CoreProg σ (List CatalogRow) :=
  mapPage tenant provider items scope false

/-- `record`, which takes the one row of a page of one. -/
def record (tenant provider nativeId : String) (scope : Scope) (content : String) :
    CoreProg σ String := do
  let rows ← recordMany tenant provider [(nativeId, content)] scope
  match rows with
  | [row] => return row.gatewayId
  | _ => .raise (.other "ValueError" "not enough values to unpack")

/-- What a page leaves when it is mapped, or when every attempt lost its race. -/
theorem mapPage_spec {tenant provider : String} {items : List (String × String)} {scope : Scope}
    {revive : Bool} :
    (mapPage tenant provider items scope revive).wp (handle env) (fun r w' =>
      w'.store = w.store ∧
        match r with
        | .ok rows => Mapped env tenant provider items scope revive w.catalog rows w'.catalog
        | .error e => w.catalog.Still w'.catalog ∧ ∃ text, e = .integrity text) w := by
  have hloop : ∀ n (w : World σ), (mapPage.attempts tenant provider items scope revive (n + 1)).wp
      (handle env) (fun r w' => w'.store = w.store ∧
        match r with
        | .ok rows => Mapped env tenant provider items scope revive w.catalog rows w'.catalog
        | .error e => w.catalog.Still w'.catalog ∧ ∃ text, e = .integrity text) w := by
    intro n
    induction n with
    | zero =>
      intro w
      rw [mapPage.attempts, Prog.wp_tryCatch, wp_transact]
      cases hx : mapAttempt env tenant provider items scope revive w.catalog with
      | mk r c' =>
        cases r with
        | ok rows => simpa [CatalogOp.exec, hx] using mapAttempt_ok hx
        | error e =>
          obtain ⟨hstill, text, rfl⟩ := mapAttempt_error hx
          simpa [CatalogOp.exec, hx] using hstill
    | succ n ih =>
      intro w
      rw [mapPage.attempts, Prog.wp_tryCatch, wp_transact]
      cases hx : mapAttempt env tenant provider items scope revive w.catalog with
      | mk r c' =>
        cases r with
        | ok rows => simpa [CatalogOp.exec, hx] using mapAttempt_ok hx
        | error e =>
          obtain ⟨hstill, text, rfl⟩ := mapAttempt_error hx
          simp only [CatalogOp.exec, hx, Nat.succ_ne_zero, if_false]
          refine Prog.wp_mono (fun r w' hr => ⟨hr.1, ?_⟩) (ih { w with catalog := c' })
          cases r with
          | ok rows => exact hr.2.of_still hstill
          | error e => exact ⟨hstill.trans hr.2.1, hr.2.2⟩
  unfold mapPage
  split
  · rename_i hnil
    subst hnil
    exact ⟨rfl, .nil⟩
  · exact hloop 2 w

/-- Step by step, a mapped page is some lost races and one transaction that
    committed. -/
theorem ends_mapPage {tenant provider : String} {items : List (String × String)} {scope : Scope}
    {revive : Bool} {steps : List (CoreStep σ)} {rows : List CatalogRow}
    (h : (mapPage tenant provider items scope revive).Ends steps (.ok rows)) :
    (items = [] ∧ steps = [] ∧ rows = []) ∨
      ∃ lost, steps = lost ++
          [⟨.catalog (.mapAttempt tenant provider items scope revive), .ok rows⟩] ∧
        ∀ st ∈ lost, ∃ text, st =
          ⟨.catalog (.mapAttempt tenant provider items scope revive), .error (.integrity text)⟩ := by
  have hloop : ∀ n steps, (mapPage.attempts tenant provider items scope revive n).Ends steps
      (.ok rows) → ∃ lost, steps = lost ++
          [⟨(.catalog (.mapAttempt tenant provider items scope revive) : Op σ), .ok rows⟩] ∧
        ∀ st ∈ lost, ∃ text, st =
          ⟨.catalog (.mapAttempt tenant provider items scope revive), .error (.integrity text)⟩ := by
    intro n
    induction n with
    | zero => intro steps h; simp [mapPage.attempts] at h
    | succ n ih =>
      intro steps h
      rw [mapPage.attempts, Prog.tryCatch, Prog.ends_bind_ok] at h
      obtain ⟨r, pre, post, rfl, hpre, hpost⟩ := h
      obtain ⟨r', hr, hpre⟩ := Prog.ends_attempt.mp hpre
      obtain rfl := Except.ok.inj hr
      rw [transact, Prog.ends_perform] at hpre
      subst hpre
      cases r with
      | ok rows' =>
        obtain ⟨rfl, hrows⟩ := Prog.ends_ret.mp hpost
        obtain rfl := Except.ok.inj hrows
        exact ⟨[], rfl, by simp⟩
      | error e =>
        cases e with
        | integrity text =>
          simp only at hpost
          split at hpost
          · simp at hpost
          · obtain ⟨lost, rfl, hlost⟩ := ih post hpost
            refine ⟨⟨_, .error (.integrity text)⟩ :: lost, rfl, fun st hst => ?_⟩
            rcases List.mem_cons.mp hst with rfl | hst
            · exact ⟨text, rfl⟩
            · exact hlost st hst
        | gateway e => simp at hpost
        | other name text => simp at hpost
        | cancelled => simp at hpost
  unfold mapPage at h
  split at h
  · rename_i hnil
    obtain ⟨rfl, hrows⟩ := Prog.ends_ret.mp h
    exact .inl ⟨hnil, rfl, Except.ok.inj hrows⟩
  · exact .inr (hloop _ _ h)

/-! ## Binding -/

/-- `bind`: on first write. It never moves an existing binding, and answers with
    the one that stands. -/
def bind (tenant subject provider : String) : CoreProg σ String :=
  Prog.tryCatch (do
    transact (.insertBinding tenant subject provider)
    return provider) fun
    | .integrity _ => do
      let existing ← transact (.getBinding tenant subject)
      return (existing.filter (· != "")).getD provider
    | e => .raise e

structure RebindResult where
  provider : String
  orphanedAt : Option String
  orphanedCount : Nat
  deriving DecidableEq, Repr

/-- `rebind` of the catalog. The old binding and the count of what it strands are
    read outside the transaction that moves the subject. -/
def rebindSubject (tenant subject provider : String) : CoreProg σ RebindResult := do
  let previous ← transact (.getBinding tenant subject)
  let orphaned ← strandedAt previous
  transact (.replaceBinding tenant subject provider previous)
  return {
    provider := provider
    orphanedAt := if previous ≠ some provider then previous else none
    orphanedCount := orphaned }
where
  strandedAt (previous : Option String) : CoreProg σ Nat :=
    match previous with
    | some previous =>
      if previous ≠ provider then transact (.liveCount tenant subject previous) else .ret 0
    | none => .ret 0

section

variable {env : Env} {w : World σ} {tenant subject provider : String}

/-- Alone, binding never fails: its insertion goes through, or it finds what stands. -/
theorem bind_run :
    (bind tenant subject provider).run (handle env) w =
      (.ok (match getBinding tenant subject w.catalog with
        | none => provider
        | some standing => ((some standing).filter (· != "")).getD provider),
        { w with catalog := (insertBinding env tenant subject provider w.catalog).2 }) := by
  cases hins : (insertBinding env tenant subject provider w.catalog).1 with
  | ok u =>
    rw [insertBinding_ok_iff.mp hins]
    simp only [bind, Prog.run_tryCatch, Prog.bind_eq, Prog.run_bind, transact,
      Prog.run_perform, handle, CatalogOp.exec, hins]
    rfl
  | error e =>
    obtain ⟨hstill, text, rfl⟩ := insertBinding_error hins
    simp only [bind, Prog.run_tryCatch, Prog.bind_eq, Prog.run_bind, transact,
      Prog.run_perform, handle, CatalogOp.exec, hins, getBinding_congr hstill]
    cases hbound : getBinding tenant subject w.catalog with
    | none => cases (insertBinding_ok_iff.mpr hbound).symm.trans hins
    | some standing => rfl

/-- What a subject strands by moving, where it stands at `previous`. -/
def stranded (live : String → Nat) (previous : Option String) (provider : String) : Nat :=
  match previous with
  | some previous => if previous ≠ provider then live previous else 0
  | none => 0

/-- Alone, rebinding never fails. -/
theorem rebindSubject_run :
    (rebindSubject tenant subject provider).run (handle env) w =
      let previous := getBinding tenant subject w.catalog
      (.ok {
        provider := provider
        orphanedAt := if previous ≠ some provider then previous else none
        orphanedCount := stranded (fun p => liveCount tenant subject p w.catalog) previous provider },
      { w with catalog := (replaceBinding env tenant subject provider previous w.catalog).2 }) := by
  have hstranded : ∀ previous,
      (rebindSubject.strandedAt tenant subject provider previous).run (handle env) w =
        (.ok (stranded (fun p => liveCount tenant subject p w.catalog) previous provider), w) := by
    intro previous
    cases previous with
    | none => rfl
    | some previous =>
      simp only [rebindSubject.strandedAt, stranded]
      split <;> rfl
  simp only [rebindSubject, Prog.bind_eq, Prog.run_bind, transact, Prog.run_perform, handle,
    CatalogOp.exec, hstranded, replaceBinding_ok]
  rfl

end

/-! ## Routing -/

/-- Binding, else default, else refuse; a provider that the caller asserts is only
    checked against that. An empty text counts as no binding. -/
def chooseProvider (subject : String) (bound default asserted : Option String) :
    Except GatewayError String :=
  match (bound.filter (· != "")).or default with
  | none => .error <| (ErrorClass.invalidRequest.error
      s!"no provider bound for subject {Text.quoted subject} and no tenant default configured"
      [("subject", .str subject)]).withCode "no_provider_resolved"
  | some resolved =>
    match asserted with
    | none => .ok resolved
    | some a =>
      if a ≠ resolved then
        .error <| ErrorClass.providerMismatch.error
          (s!"asserted provider {Text.quoted a} disagrees with the resolved provider " ++
            Text.quoted resolved)
          [("asserted", .str a), ("bound", .str resolved)]
      else .ok resolved

def resolveProvider (tenant subject : String) (default asserted : Option String) :
    CoreProg σ String := do
  let bound ← transact (.getBinding tenant subject)
  check (chooseProvider subject bound default asserted)

/-- Where the subject is bound, the default plays no part. -/
theorem chooseProvider_bound {subject bound provider : String} {default asserted : Option String}
    (hbound : bound ≠ "") (h : chooseProvider subject (some bound) default asserted = .ok provider) :
    provider = bound := by
  have hfilter : (some bound).filter (· != "") = some bound := by simp [hbound]
  simp only [chooseProvider, hfilter, Option.some_or] at h
  cases asserted with
  | none => exact (Except.ok.inj h).symm
  | some a =>
    simp only at h
    split at h
    · cases h
    · exact (Except.ok.inj h).symm

/-- A gateway whose default is the provider that was chosen chooses it as well. -/
theorem chooseProvider_default {subject provider : String} {bound default asserted : Option String}
    (h : chooseProvider subject bound default asserted = .ok provider) :
    chooseProvider subject bound (some provider) none = .ok provider := by
  unfold chooseProvider at h ⊢
  cases hb : bound.filter (· != "") with
  | none => rfl
  | some b =>
    simp only [hb, Option.some_or] at h ⊢
    cases asserted with
    | none => exact h
    | some a =>
      simp only at h
      split at h
      · cases h
      · exact h

end Memgw
