-- SUMMARY: Which calls leave exactly one event in the audit trail, and what that event names.
import Memgw.Library.Alone
import Memgw.Library.Relay
import Memgw.Gateway.Traces

/-!
# The audit trail

`observe` emits one event when its body returns or raises an `Exception`. What is
checked before it, and the cancellation of the task, pass by without an event. The
event has the tenant from the start, and the provider and the subject as soon as the
verb has found them, which is before it asks an adapter for anything.
-/

namespace Memgw

variable {σ α : Type}

/-! ## Fields of an event -/

/-- New fields go over old ones. -/
theorem lookup_setFields {fields news : Fields} {k : String} (hnews : (news.map Prod.fst).Nodup) :
    (setFields fields news).lookup k = (news.lookup k).or (fields.lookup k) := by
  induction news generalizing fields with
  | nil => rfl
  | cons kv news ih =>
    obtain ⟨key, value⟩ := kv
    obtain ⟨hnew, hnodup⟩ := List.nodup_cons.mp hnews
    have hstep : setFields fields ((key, value) :: news) =
        setFields (setField fields key value) news := rfl
    rw [hstep, ih hnodup, lookup_setField]
    by_cases hk : k = key
    · subst hk
      have hnone : news.lookup k = none := by
        rw [List.lookup_eq_none_iff]
        intro kv hkv
        have hne : kv.1 ≠ k := fun h => hnew (List.mem_map.mpr ⟨kv, hkv, h⟩)
        simpa using hne.symm
      simp [hnone]
    · simp [List.lookup_cons, hk, beq_eq_false_iff_ne.mpr hk]

def AuditEvent.field (event : AuditEvent) (key : String) : Option Value := event.payload.lookup key

/-- The fields that an event starts with. -/
def startFields (verb tenant : String) (subject : Option String) : Fields :=
  [("verb", .str verb), ("tenant", .str tenant), ("subject", (subject.map .str).getD .null)]

/-- The fields that the outcome adds. -/
def outcomeKeys : List String := ["outcome", "error", "code"]

/-- Outside the fields for the outcome, an event says what was noted, or else what it
    started with. -/
theorem closingEvents_field {verb tenant : String} {subject : Option String} {extra : Fields}
    {out : Except Exc α} {event : AuditEvent} {key : String}
    (hevent : event ∈ closingEvents verb tenant subject extra out)
    (hextra : (extra.map Prod.fst).Nodup) (hkey : key ∉ outcomeKeys) :
    event.field key = (extra.lookup key).or ((startFields verb tenant subject).lookup key) := by
  simp only [outcomeKeys, List.mem_cons, List.not_mem_nil, or_false, not_or] at hkey
  obtain ⟨houtcome, herror, hcode⟩ := hkey
  have hfield : ∀ (level : LogLevel) (outcome : Fields), (outcome.map Prod.fst).Nodup →
      outcome.lookup key = none →
      (auditEvent level verb tenant subject extra outcome).field key =
        (extra.lookup key).or ((startFields verb tenant subject).lookup key) := by
    intro level outcome hnodup hnone
    rw [AuditEvent.field, auditEvent, lookup_setFields hnodup, hnone, Option.none_or,
      lookup_setFields hextra]
    rfl
  have hno : ∀ k v (rest : Fields), key ≠ k →
      List.lookup key ((k, v) :: rest) = rest.lookup key := by
    intro k v rest hk
    rw [List.lookup_cons, beq_eq_false_iff_ne.mpr hk]
  cases out with
  | ok a =>
    obtain rfl := List.mem_singleton.mp hevent
    exact hfield _ _ (by simp) (by rw [hno _ _ _ houtcome, List.lookup_nil])
  | error e =>
    simp only [closingEvents] at hevent
    split at hevent
    · obtain rfl := List.mem_singleton.mp hevent
      refine hfield _ _ (by simp) ?_
      rw [hno _ _ _ houtcome, hno _ _ _ herror, hno _ _ _ hcode, List.lookup_nil]
    · cases hevent

/-! ## Notes -/

/-- The steps leave the field alone. -/
def Unnoted (key : String) (steps : List (CoreStep σ)) : Prop :=
  ∀ st ∈ steps, ∀ value, st.1 ≠ .note key value

theorem notedFields_nodup {extra : Fields} {steps : List (CoreStep σ)}
    (h : (extra.map Prod.fst).Nodup) : ((notedFields extra steps).map Prod.fst).Nodup := by
  induction steps generalizing extra with
  | nil => exact h
  | cons st steps ih =>
    obtain ⟨op, r⟩ := st
    cases op with
    | note key value => exact ih (nodup_setField h)
    | catalog | adapter | emit => exact ih h

theorem notedFields_append {extra : Fields} {steps steps' : List (CoreStep σ)} :
    notedFields extra (steps ++ steps') = notedFields (notedFields extra steps) steps' :=
  List.foldl_append

theorem lookup_notedFields {extra : Fields} {steps : List (CoreStep σ)} {key : String}
    (h : Unnoted key steps) : (notedFields extra steps).lookup key = extra.lookup key := by
  induction steps generalizing extra with
  | nil => rfl
  | cons st steps ih =>
    obtain ⟨hst, hrest⟩ := List.forall_mem_cons.mp h
    obtain ⟨op, r⟩ := st
    cases op with
    | note k value =>
      have hk : key ≠ k := fun hk => hst value (by rw [hk])
      show (notedFields (setField extra k value) steps).lookup key = _
      rw [ih hrest, lookup_setField, if_neg hk]
    | catalog | adapter | emit => exact ih hrest

/-! ## Cancellation -/

/-- The task was cancelled while it waited for the catalog or for an adapter. -/
def Cancelled (steps : List (CoreStep σ)) : Prop :=
  ∃ st ∈ steps, st.1.isData = true ∧ st.2 = .error .cancelled

theorem cancelled_dataSteps {steps : List (CoreStep σ)} :
    (∃ st ∈ dataSteps steps, st.2 = .error .cancelled) ↔ Cancelled steps := by
  simp only [dataSteps, List.mem_filter, Cancelled, and_assoc]

/-- A program of the gateway that lets the cancellation of its task by. -/
abbrev PassesOn (p : CoreProg σ α) : Prop := p.Relays .cancelled

theorem passesOn_check {x : Except GatewayError α} : PassesOn (check x : CoreProg σ α) := by
  refine Prog.relays_ofExcept ?_
  cases x <;> simp [Except.mapError]

theorem passesOn_raiseFailure {name : String} {a : Adapter σ} {exc : Exc} :
    PassesOn (raiseFailure name a exc : CoreProg σ α) := by
  refine Prog.relays_bind (Prog.relays_bind ?_ fun down => Prog.relays_ret) fun e => ?_
  · refine Prog.relays_tryCatch ?_ rfl fun e he => ?_
    · exact Prog.relays_bind Prog.relays_perform fun _ => Prog.relays_ret
    · split
      · exact Prog.relays_ret
      · exact Prog.relays_raise he
  · exact Prog.relays_raise (by simp)

theorem passesOn_call {name : String} {a : Adapter σ} {op : AdapterOp} :
    PassesOn (call name a op) := by
  refine Prog.relays_tryCatch Prog.relays_perform rfl fun e he => ?_
  cases e with
  | gateway e => exact Prog.relays_raise he
  | cancelled => exact absurd rfl he
  | integrity text => exact passesOn_raiseFailure
  | other kind text => exact passesOn_raiseFailure

theorem passesOn_mapPage {tenant name : String} {items : List (String × String)} {scope : Scope}
    {revive : Bool} : PassesOn (mapPage tenant name items scope revive : CoreProg σ _) := by
  have hloop : ∀ n,
      PassesOn (mapPage.attempts tenant name items scope revive n : CoreProg σ _) := by
    intro n
    induction n with
    | zero => exact Prog.relays_raise (by simp)
    | succ n ih =>
      refine Prog.relays_tryCatch Prog.relays_perform rfl fun e he => ?_
      cases e with
      | integrity text =>
        simp only
        split
        · exact Prog.relays_raise he
        · exact ih
      | gateway | other | cancelled => exact Prog.relays_raise he
  unfold mapPage
  split
  · exact Prog.relays_ret
  · exact hloop _

theorem passesOn_writtenRecords {tenant name : String} {memories : List ProviderMemory}
    {scope : Scope} : PassesOn (writtenRecords tenant name memories scope : CoreProg σ _) := by
  rw [writtenRecords_eq]
  exact Prog.relays_bind passesOn_mapPage fun _ => Prog.relays_ret

theorem passesOn_mapHits {tenant name : String} {memories : List ProviderMemory} {scope : Scope} :
    PassesOn (mapHits tenant name memories scope : CoreProg σ _) := by
  rw [mapHits_eq]
  exact Prog.relays_bind passesOn_mapPage fun _ => Prog.relays_ret

theorem passesOn_bindSubject {tenant subject name : String} :
    PassesOn (bind tenant subject name : CoreProg σ _) := by
  refine Prog.relays_tryCatch ?_ rfl fun e he => ?_
  · exact Prog.relays_bind Prog.relays_perform fun _ => Prog.relays_ret
  · cases e with
    | integrity text => exact Prog.relays_bind Prog.relays_perform fun _ => Prog.relays_ret
    | gateway | other | cancelled => exact Prog.relays_raise he

theorem passesOn_rebindSubject {tenant subject name : String} :
    PassesOn (rebindSubject tenant subject name : CoreProg σ _) := by
  refine Prog.relays_bind Prog.relays_perform fun previous => Prog.relays_bind ?_ fun n => ?_
  · unfold rebindSubject.strandedAt
    split
    · split
      · exact Prog.relays_perform
      · exact Prog.relays_ret
    · exact Prog.relays_ret
  · exact Prog.relays_bind Prog.relays_perform fun _ => Prog.relays_ret

theorem passesOn_record {tenant name nativeId content : String} {scope : Scope} :
    PassesOn (record tenant name nativeId scope content : CoreProg σ _) := by
  refine Prog.relays_bind passesOn_mapPage fun rows => ?_
  split
  · exact Prog.relays_ret
  · exact Prog.relays_raise (by simp)

theorem passesOn_prepare {core : MemoryCore σ} {tenant : String} {scope : Scope}
    {asserted : Option String} : PassesOn (core.prepare tenant scope asserted) := by
  refine Prog.relays_bind ?_ fun name => Prog.relays_bind passesOn_check fun a => ?_
  · exact Prog.relays_bind Prog.relays_perform fun _ => passesOn_check
  · exact Prog.relays_bind passesOn_check fun _ => Prog.relays_ret

/-! ## Tame programs -/

/-- The program does only what is allowed, and lets the cancellation of its task by. -/
structure Tame (A : Op σ → Prop) (p : CoreProg σ α) : Prop where
  within : p.Within A
  passesOn : PassesOn p

namespace Tame

variable {A : Op σ → Prop} {β : Type} {tenant name : String} {scope : Scope}

theorem mono {B : Op σ → Prop} {p : CoreProg σ α} (hp : Tame A p) (hAB : ∀ op, A op → B op) :
    Tame B p :=
  ⟨hp.within.mono hAB, hp.passesOn⟩

theorem ret {a : α} : Tame A (.ret a) := ⟨trivial, Prog.relays_ret⟩

theorem raise {e : Exc} (he : e ≠ .cancelled) : Tame A (.raise e : CoreProg σ α) :=
  ⟨trivial, Prog.relays_raise he⟩

theorem bind {p : CoreProg σ α} {f : α → CoreProg σ β} (hp : Tame A p) (hf : ∀ a, Tame A (f a)) :
    Tame A (p.bind f) :=
  ⟨Prog.within_bind hp.within fun a => (hf a).within,
    Prog.relays_bind hp.passesOn fun a => (hf a).passesOn⟩

/-- A handler that raises the cancellation again may do what it likes with the rest. -/
theorem attempt_bind {p : CoreProg σ α} {f : Except Exc α → CoreProg σ β} (hp : Tame A p)
    (hc : f (.error .cancelled) = .raise .cancelled)
    (hf : ∀ r, r ≠ .error .cancelled → Tame A (f r)) : Tame A (p.attempt.bind f) := by
  refine ⟨Prog.within_bind (Prog.within_attempt hp.within) fun r => ?_,
    Prog.relays_attempt_bind hp.passesOn hc fun r hr => (hf r hr).passesOn⟩
  by_cases hr : r = .error .cancelled
  · rw [hr, hc]
    trivial
  · exact (hf r hr).within

theorem perform {op : Op σ} (h : A op) : Tame A (Prog.perform op : CoreProg σ op.Ans) :=
  ⟨Prog.within_perform h, Prog.relays_perform⟩

theorem transact {op : CatalogOp} (h : A (.catalog op)) : Tame A (Memgw.transact op) := perform h

theorem note {key : String} {value : Value} (h : A (.note key value)) :
    Tame A (Memgw.note key value) :=
  perform h

theorem check {x : Except GatewayError α} : Tame A (Memgw.check x) :=
  ⟨Prog.within_ofExcept, passesOn_check⟩

theorem raiseFailure {a : Adapter σ} {exc : Exc} (h : ∀ op, A (.adapter name a op)) :
    Tame A (Memgw.raiseFailure name a exc : CoreProg σ α) :=
  ⟨within_raiseFailure h, passesOn_raiseFailure⟩

theorem call {a : Adapter σ} {op : AdapterOp} (h : ∀ op, A (.adapter name a op)) :
    Tame A (Memgw.call name a op) :=
  ⟨within_call h, passesOn_call⟩

theorem prepare {core : MemoryCore σ} {asserted : Option String}
    (h : A (.catalog (.getBinding tenant scope.subject))) :
    Tame A (core.prepare tenant scope asserted) :=
  ⟨within_prepare h, passesOn_prepare⟩

theorem issuedRow {gatewayId : String} (h : A (.catalog (.resolveGatewayId tenant gatewayId))) :
    Tame A (Memgw.issuedRow tenant gatewayId) :=
  bind (transact h) fun _ => check

theorem writtenRecords {memories : List ProviderMemory}
    (h : ∀ items, A (.catalog (.mapAttempt tenant name items scope true))) :
    Tame A (Memgw.writtenRecords tenant name memories scope) :=
  ⟨within_writtenRecords h, passesOn_writtenRecords⟩

theorem mapHits {memories : List ProviderMemory}
    (h : ∀ items, A (.catalog (.mapAttempt tenant name items scope false))) :
    Tame A (Memgw.mapHits tenant name memories scope) :=
  ⟨within_mapHits h, passesOn_mapHits⟩

theorem bindSubject {subject : String} (hinsert : A (.catalog (.insertBinding tenant subject name)))
    (hget : A (.catalog (.getBinding tenant subject))) :
    Tame A (Memgw.bind tenant subject name) :=
  ⟨within_bind_subject hinsert hget, passesOn_bindSubject⟩

theorem rebindSubject {subject : String}
    (h : ∀ op : CatalogOp, (Op.catalog op : Op σ).ofRebind = true → A (.catalog op)) :
    Tame A (Memgw.rebindSubject tenant subject name) :=
  ⟨within_rebindSubject h, passesOn_rebindSubject⟩

theorem record {nativeId content : String}
    (h : ∀ items, A (.catalog (.mapAttempt tenant name items scope true))) :
    Tame A (Memgw.record tenant name nativeId scope content) := by
  refine ⟨Prog.within_bind (within_mapPage (h _)) fun rows => ?_, passesOn_record⟩
  split <;> trivial

end Tame

/-! ## Observed bodies -/

/-- An observed body that emits nothing itself leaves one event, unless it was
    cancelled. The event says what the body noted. -/
theorem observed_events {verb tenant : String} {subject : Option String} {body : CoreProg σ α}
    {steps : List (CoreStep σ)} {out : Except Exc α}
    (h : (observe verb tenant subject body).Ends steps out)
    (hbody : Tame (fun op => ∀ event, op ≠ .emit event) body) :
    ∃ inner, body.Ends inner out ∧ dataSteps steps = dataSteps inner ∧
      (Cancelled steps → events steps = []) ∧
      (¬ Cancelled steps → ∃ event, events steps = [event] ∧ ∀ key ∉ outcomeKeys,
        event.field key = ((notedFields [("provider", .null)] inner).lookup key).or
          ((startFields verb tenant subject).lookup key)) := by
  obtain ⟨inner, hinner, hsteps, htaken, hevents⟩ := ends_observe_events h
  have hquiet : events inner = [] := by
    refine List.filterMap_eq_nil_iff.mpr fun st hst => ?_
    have hemit := hinner.within hbody.within st hst
    obtain ⟨op, r⟩ := st
    cases op with
    | emit event => exact absurd rfl (hemit event)
    | catalog | adapter | note => rfl
  rw [hquiet, List.nil_append] at hevents
  -- Only the catalog and the adapters can be interrupted: a note is taken at once.
  have hcancelled : Cancelled steps ↔ out = .error .cancelled := by
    rw [← cancelled_dataSteps, hsteps, cancelled_dataSteps, hbody.passesOn inner out hinner]
    constructor
    · rintro ⟨st, hst, -, hc⟩
      exact ⟨st, hst, hc⟩
    · rintro ⟨⟨op, r⟩, hst, hc⟩
      refine ⟨_, hst, ?_, hc⟩
      cases op with
      | note key value =>
        have : r = .ok () := htaken _ hst
        simp [this] at hc
      | emit event => exact absurd rfl (hinner.within hbody.within _ hst event)
      | catalog | adapter => rfl
  refine ⟨inner, hinner, hsteps, fun hc => ?_, fun hc => ?_⟩
  · rw [hevents, hcancelled.mp hc]
    rfl
  · have hone : ∃ event, closingEvents verb tenant subject
        (notedFields [("provider", .null)] inner) out = [event] := by
      cases out with
      | ok a => exact ⟨_, rfl⟩
      | error e =>
        have hexc : e.isException = true := by
          cases e with
          | cancelled => exact absurd (hcancelled.mpr rfl) hc
          | gateway | integrity | other => rfl
        exact ⟨_, if_pos hexc⟩
    obtain ⟨event, hevent⟩ := hone
    refine ⟨event, hevents.trans hevent, fun key hkey => ?_⟩
    exact closingEvents_field (by rw [hevent]; exact List.mem_singleton_self _)
      (notedFields_nodup (by simp)) hkey

/-- The notes that a verb makes after it has named its provider. -/
def furtherNotes : List String :=
  ["count", "mode", "outcome_detail", "episodes_erased", "orphaned"]

/-- What a verb does once it has named its provider: the catalog, this provider, and
    further notes. -/
def Op.named (name : String) : Op σ → Prop
  | .catalog _ => True
  | .adapter n _ _ => n = name
  | .note key _ => key ∈ furtherNotes
  | .emit _ => False

/-- What a verb does before that. -/
def Op.unnamed : Op σ → Prop
  | .catalog _ => True
  | .adapter .. | .note .. | .emit _ => False

theorem Op.named_not_emit {name : String} {op : Op σ} (h : op.named name) :
    ∀ event, op ≠ .emit event := by
  rintro event rfl
  exact h

theorem Op.unnamed_not_emit {op : Op σ} (h : op.unnamed) : ∀ event, op ≠ .emit event := by
  rintro event rfl
  exact h

theorem unnoted_of_named {name key : String} {steps : List (CoreStep σ)}
    (h : ∀ st ∈ steps, st.1.named name) (hkey : key ∉ furtherNotes) : Unnoted key steps := by
  intro st hst value hnote
  have hnamed := h st hst
  rw [hnote] at hnamed
  exact hkey hnamed

theorem unnoted_of_unnamed {key : String} {steps : List (CoreStep σ)}
    (h : ∀ st ∈ steps, st.1.unnamed) : Unnoted key steps := by
  intro st hst value hnote
  have hunnamed := h st hst
  rw [hnote] at hunnamed
  exact hunnamed

/-! ## Verbs -/

/-- The subject whose memories a call is about: that of its scope, or of the row that its
    gateway id resolved to. -/
def Call.About (steps : List (CoreStep σ)) (subject : String) : Call → Prop
  | .ingest _ _ scope _ | .upsert _ _ scope _ | .search _ _ scope _ | .listScope _ scope _ _
  | .deleteScope _ scope _ => subject = scope.subject
  | .update t gatewayId _ | .get t gatewayId | .delete t gatewayId =>
    ∃ row : CatalogRow, subject = row.subject ∧
      (⟨.catalog (.resolveGatewayId t gatewayId), .ok (some row)⟩ : CoreStep σ) ∈ steps
  | .rebind _ bound _ _ => subject = bound

/-- Exactly one event. It has the tenant of the caller, and where an adapter was asked, it
    names its provider and the subject. -/
def Audited (call : Call) (steps : List (CoreStep σ)) : Prop :=
  ∃ event, events steps = [event] ∧ event.field "tenant" = some (.str call.tenant) ∧
    ∀ name a op r, (⟨.adapter name a op, r⟩ : CoreStep σ) ∈ steps →
      event.field "provider" = some (.str name) ∧
      ∃ subject, call.About steps subject ∧ event.field "subject" = some (.str subject)

theorem mem_dataSteps {steps steps' : List (CoreStep σ)} (h : dataSteps steps = dataSteps steps')
    {st : CoreStep σ} (hdata : st.1.isData = true) : st ∈ steps ↔ st ∈ steps' := by
  have hmem : ∀ l : List (CoreStep σ), st ∈ dataSteps l ↔ st ∈ l := by
    intro l
    simp [dataSteps, List.mem_filter, hdata]
  rw [← hmem steps, h, hmem]

/-- A verb that wraps up what an observed program returned does the same steps. -/
theorem ends_wrapped {β : Type} {p : CoreProg σ α} {reply : α → β} {steps : List (CoreStep σ)}
    {out : Except Exc β} (h : (p.bind fun a => .ret (reply a)).Ends steps out) :
    ∃ out', p.Ends steps out' := by
  rcases Prog.ends_bind.mp h with ⟨a, pre, post, rfl, hp, hpost⟩ | ⟨e, -, hp⟩
  · obtain ⟨rfl, -⟩ := Prog.ends_ret.mp hpost
    exact ⟨_, by rwa [List.append_nil]⟩
  · exact ⟨_, hp⟩

/-- A note comes first, and the rest after it unless it failed. -/
theorem ends_note_bind {key : String} {value : Value} {q : CoreProg σ α}
    {steps : List (CoreStep σ)} {out : Except Exc α}
    (h : ((note key value).bind fun _ => q).Ends steps out) :
    ∃ r post, steps = ⟨.note key value, r⟩ :: post ∧ (post = [] ∨ q.Ends post out) := by
  rcases Prog.ends_bind.mp h with ⟨u, pre, post, rfl, hnote, hpost⟩ | ⟨e, rfl, hnote⟩
  · obtain rfl := Prog.ends_perform.mp hnote
    exact ⟨_, post, rfl, .inr hpost⟩
  · obtain rfl := Prog.ends_perform.mp hnote
    exact ⟨_, [], rfl, .inl rfl⟩

/-- The steps ask no adapter for anything. -/
def Unasked (steps : List (CoreStep σ)) : Prop :=
  ∀ name a op r, (⟨.adapter name a op, r⟩ : CoreStep σ) ∉ steps

theorem unasked_of_unnamed {steps : List (CoreStep σ)} (h : ∀ st ∈ steps, st.1.unnamed) :
    Unasked steps :=
  fun _ _ _ _ hmem => h _ hmem

theorem unasked_append_note {steps : List (CoreStep σ)} {key : String} {value : Value}
    {r : Except Exc Unit} (h : Unasked steps) : Unasked (steps ++ [⟨.note key value, r⟩]) := by
  intro name a op r hmem
  rcases List.mem_append.mp hmem with hmem | hmem
  · exact h name a op r hmem
  · cases List.mem_singleton.mp hmem

theorem lookup_append_note {extra : Fields} {steps : List (CoreStep σ)} {key k : String}
    {value : Value} {r : Except Exc Unit} :
    (notedFields extra (steps ++ [⟨.note key value, r⟩])).lookup k =
      if k = key then some value else (notedFields extra steps).lookup k := by
  rw [notedFields_append]
  exact lookup_setField

section

variable {core : MemoryCore σ} {verb tenant : String} {steps : List (CoreStep σ)}
  {out : Except Exc α} (call : Call)

/-- A body that names its provider and the subject before it asks an adapter is audited. -/
theorem audited_of_named {subject : Option String} {event : AuditEvent}
    {head tail : List (CoreStep σ)} (name : String) (hevent : events steps = [event])
    (hfield : ∀ key ∉ outcomeKeys, event.field key =
      ((notedFields [("provider", .null)] (head ++ tail)).lookup key).or
        ((startFields verb call.tenant subject).lookup key))
    (hsteps : dataSteps steps = dataSteps (head ++ tail)) (hhead : Unasked head)
    (htail : ∀ st ∈ tail, st.1.named name) (htenant : Unnoted "tenant" head)
    (hprovider : tail ≠ [] →
      (notedFields [("provider", .null)] head).lookup "provider" = some (.str name))
    (hsubject : tail ≠ [] → ∃ s, call.About steps s ∧
      ((notedFields [("provider", .null)] head).lookup "subject").or
        ((startFields verb call.tenant subject).lookup "subject") = some (.str s)) :
    Audited call steps := by
  have hnotes : ∀ key ∉ furtherNotes,
      (notedFields [("provider", .null)] (head ++ tail)).lookup key =
        (notedFields [("provider", .null)] head).lookup key := by
    intro key hkey
    rw [notedFields_append]
    exact lookup_notedFields (unnoted_of_named htail hkey)
  refine ⟨event, hevent, ?_, fun name' a op r hmem => ?_⟩
  · rw [hfield _ (by decide), hnotes _ (by decide), lookup_notedFields htenant]
    rfl
  · have hasked : (⟨.adapter name' a op, r⟩ : CoreStep σ) ∈ tail := by
      rcases List.mem_append.mp ((mem_dataSteps hsteps rfl).mp hmem) with hmem | hmem
      · exact absurd hmem (hhead name' a op r)
      · exact hmem
    have hname : name' = name := htail _ hasked
    obtain ⟨s, habout, hs⟩ := hsubject (List.ne_nil_of_mem hasked)
    refine ⟨?_, s, habout, ?_⟩
    · rw [hfield _ (by decide), hnotes _ (by decide), hprovider (List.ne_nil_of_mem hasked), hname]
      rfl
    · rw [hfield _ (by decide), hnotes _ (by decide), hs]

/-- A verb with a scope: it is prepared, names its provider, and goes on with it. -/
theorem audited_scoped {scope : Scope} {asserted : Option String}
    {rest : MemoryCore.Prepared σ → CoreProg σ α} (habout : call.About steps scope.subject)
    (hrest : ∀ p, Tame (Op.named p.name) (rest p))
    (h : (observe verb call.tenant (some scope.subject)
      ((core.prepare call.tenant scope asserted).bind fun p =>
        (note "provider" (.str p.name)).bind fun _ => rest p)).Ends steps out) :
    (Cancelled steps → events steps = []) ∧ (¬ Cancelled steps → Audited call steps) := by
  have hprepare : Tame (Op.unnamed (σ := σ)) (core.prepare call.tenant scope asserted) :=
    .prepare trivial
  obtain ⟨inner, hinner, hsteps, hnone, hone⟩ := observed_events h
    (.bind (hprepare.mono fun _ => Op.unnamed_not_emit) fun p => .bind (.note (by simp)) fun _ =>
      (hrest p).mono fun _ => Op.named_not_emit)
  refine ⟨hnone, fun hc => ?_⟩
  obtain ⟨event, hevent, hfield⟩ := hone hc
  rcases Prog.ends_bind.mp hinner with ⟨p, pre, post, rfl, hpre, hpost⟩ | ⟨e, -, hpre⟩
  · have hunnamed := hpre.within hprepare.within
    obtain ⟨r, tail, rfl, htail⟩ := ends_note_bind hpost
    have hnamed : ∀ st ∈ tail, st.1.named p.name := by
      rcases htail with rfl | htail
      · simp
      · exact htail.within (hrest p).within
    rw [List.append_cons] at hfield hsteps
    refine audited_of_named call p.name hevent hfield hsteps
      (unasked_append_note (unasked_of_unnamed hunnamed)) hnamed ?_ (fun _ => ?_)
      (fun _ => ⟨_, habout, ?_⟩)
    · refine List.forall_mem_append.mpr ⟨unnoted_of_unnamed hunnamed, ?_⟩
      simp
    · rw [lookup_append_note, if_pos rfl]
    · rw [lookup_append_note, if_neg (by decide), lookup_notedFields (unnoted_of_unnamed hunnamed)]
      rfl
  · have hunnamed := hpre.within hprepare.within
    rw [← List.append_nil inner] at hfield hsteps
    exact audited_of_named call "" hevent hfield hsteps (unasked_of_unnamed hunnamed) (by simp)
      (unnoted_of_unnamed hunnamed) (fun h => absurd rfl h) (fun h => absurd rfl h)

theorem ends_issuedRow {gatewayId : String} {row : CatalogRow}
    (h : (issuedRow tenant gatewayId : CoreProg σ _).Ends steps (.ok row)) :
    steps = [⟨.catalog (.resolveGatewayId tenant gatewayId), .ok (some row)⟩] := by
  obtain ⟨found, pre, post, rfl, hpre, hpost⟩ := Prog.ends_bind_ok.mp h
  obtain rfl := Prog.ends_perform.mp hpre
  obtain ⟨rfl, hrow⟩ := Prog.ends_ofExcept.mp hpost
  cases found with
  | none => cases hrow
  | some row' =>
    obtain rfl := Except.ok.inj hrow
    rfl

/-- A verb with a gateway id: the row of the id has the subject and the provider. -/
theorem audited_issued {gatewayId : String} {rest : CatalogRow → CoreProg σ α}
    (habout : ∀ row : CatalogRow, (⟨.catalog (.resolveGatewayId call.tenant gatewayId),
      .ok (some row)⟩ : CoreStep σ) ∈ steps → call.About steps row.subject)
    (hrest : ∀ row, Tame (Op.named row.provider) (rest row))
    (h : (observe verb call.tenant none ((issuedRow call.tenant gatewayId).bind fun row =>
      (note "subject" (.str row.subject)).bind fun _ =>
        (note "provider" (.str row.provider)).bind fun _ => rest row)).Ends steps out) :
    (Cancelled steps → events steps = []) ∧ (¬ Cancelled steps → Audited call steps) := by
  have hissued : Tame Op.unnamed (issuedRow call.tenant gatewayId : CoreProg σ _) :=
    .issuedRow trivial
  obtain ⟨inner, hinner, hsteps, hnone, hone⟩ := observed_events h
    (.bind (hissued.mono fun _ => Op.unnamed_not_emit) fun row => .bind (.note (by simp)) fun _ =>
      .bind (.note (by simp)) fun _ => (hrest row).mono fun _ => Op.named_not_emit)
  refine ⟨hnone, fun hc => ?_⟩
  obtain ⟨event, hevent, hfield⟩ := hone hc
  -- Where the row is not found, or a note fails, nothing is asked.
  have hstopped : ∀ {head : List (CoreStep σ)}, inner = head → Unasked head →
      Unnoted "tenant" head → Audited call steps := by
    rintro head rfl hhead htenant
    rw [← List.append_nil inner] at hfield hsteps
    exact audited_of_named call "" hevent hfield hsteps hhead (by simp) htenant
      (fun h => absurd rfl h) (fun h => absurd rfl h)
  rcases Prog.ends_bind.mp hinner with ⟨row, pre, post, rfl, hpre, hpost⟩ | ⟨e, -, hpre⟩
  · have hunnamed := hpre.within hissued.within
    have hunasked := unasked_of_unnamed hunnamed
    have hresolved := ends_issuedRow hpre
    obtain ⟨r, later, rfl, hlater⟩ := ends_note_bind hpost
    rcases hlater with rfl | hlater
    · refine hstopped rfl (unasked_append_note hunasked) ?_
      exact List.forall_mem_append.mpr ⟨unnoted_of_unnamed hunnamed, by simp⟩
    · obtain ⟨r', tail, rfl, htail⟩ := ends_note_bind hlater
      have hnamed : ∀ st ∈ tail, st.1.named row.provider := by
        rcases htail with rfl | htail
        · simp
        · exact htail.within (hrest row).within
      rw [List.append_cons, List.append_cons] at hfield hsteps
      refine audited_of_named call row.provider hevent hfield hsteps
        (unasked_append_note (unasked_append_note hunasked)) hnamed ?_ (fun _ => ?_)
        (fun _ => ⟨row.subject, habout row ?_, ?_⟩)
      · refine List.forall_mem_append.mpr ⟨List.forall_mem_append.mpr ⟨?_, by simp⟩, by simp⟩
        exact unnoted_of_unnamed hunnamed
      · rw [lookup_append_note, if_pos rfl]
      · rw [mem_dataSteps hsteps rfl, hresolved]
        simp
      · rw [lookup_append_note, if_neg (by decide), lookup_append_note, if_pos rfl]
        rfl
  · have hunnamed := hpre.within hissued.within
    exact hstopped rfl (unasked_of_unnamed hunnamed) (unnoted_of_unnamed hunnamed)

/-- What a verb does that asks no adapter. -/
def Op.unasking : Op σ → Prop
  | .catalog _ => True
  | .note key _ => key ∈ "provider" :: furtherNotes
  | .adapter .. | .emit _ => False

/-- A verb that asks no adapter. -/
theorem audited_unasked {subject : Option String} {body : CoreProg σ α}
    (hbody : Tame Op.unasking body)
    (h : (observe verb call.tenant subject body).Ends steps out) :
    (Cancelled steps → events steps = []) ∧ (¬ Cancelled steps → Audited call steps) := by
  have hemit : ∀ op : Op σ, op.unasking → ∀ event, op ≠ .emit event := by
    rintro op hop event rfl
    exact hop
  obtain ⟨inner, hinner, hsteps, hnone, hone⟩ := observed_events h (hbody.mono hemit)
  refine ⟨hnone, fun hc => ?_⟩
  obtain ⟨event, hevent, hfield⟩ := hone hc
  have hunasking := hinner.within hbody.within
  rw [← List.append_nil inner] at hfield hsteps
  refine audited_of_named call "" hevent hfield hsteps ?_ (by simp) ?_ (fun h => absurd rfl h)
    (fun h => absurd rfl h)
  · intro name a op r hmem
    exact hunasking _ hmem
  · intro st hst value hnote
    have hkey := hunasking st hst
    rw [hnote] at hkey
    simp [Op.unasking, furtherNotes] at hkey

end

/-! ## The nine verbs -/

variable {core : MemoryCore σ} {t : String} {steps : List (CoreStep σ)} {out : Except Exc Reply}

theorem named_note {name key : String} {value : Value} (h : key ∈ furtherNotes) :
    (Op.note key value : Op σ).named name := h

theorem ingest_audited {episode : Episode} {scope : Scope} {asserted : Option String}
    (h : (core.exec (.ingest t episode scope asserted)).Ends steps out) :
    (Cancelled steps → events steps = []) ∧
      (¬ Cancelled steps → Audited (.ingest t episode scope asserted) steps) := by
  obtain ⟨out', h⟩ := ends_wrapped h
  refine audited_scoped (.ingest t episode scope asserted) rfl (fun p => ?_) h
  refine .bind .check fun _ => ?_
  refine .bind (.call fun _ => rfl) fun memories => ?_
  refine .bind (.writtenRecords fun _ => trivial) fun records => ?_
  refine .bind (.bindSubject trivial trivial) fun _ => ?_
  refine .bind ?_ fun _ => ?_
  · unfold runIf
    split
    · exact .bind (.transact trivial) fun _ => .ret
    · exact .ret
  · exact .bind (.note (named_note (by decide))) fun _ => .ret

theorem upsert_audited {facts : List String} {scope : Scope} {asserted : Option String}
    (hfacts : facts ≠ []) (h : (core.exec (.upsert t facts scope asserted)).Ends steps out) :
    (Cancelled steps → events steps = []) ∧
      (¬ Cancelled steps → Audited (.upsert t facts scope asserted) steps) := by
  obtain ⟨out', h⟩ := ends_wrapped h
  have hempty : facts.isEmpty = false := by simpa using hfacts
  unfold MemoryCore.upsert at h
  rw [hempty] at h
  refine audited_scoped (.upsert t facts scope asserted) rfl (fun p => ?_) h
  refine .bind .check fun _ => ?_
  refine .bind (.call fun _ => rfl) fun memories => ?_
  refine .bind (.writtenRecords fun _ => trivial) fun records => ?_
  refine .bind (.bindSubject trivial trivial) fun _ => ?_
  exact .bind (.note (named_note (by decide))) fun _ => .ret

/-- Without facts, an upsert is refused before there is anything to observe it. -/
theorem upsert_unobserved {scope : Scope} {asserted : Option String}
    (h : (core.exec (.upsert t [] scope asserted)).Ends steps out) : steps = [] := by
  obtain ⟨out', h⟩ := ends_wrapped h
  exact (Prog.ends_raise.mp h).1

theorem update_audited {gatewayId content : String}
    (h : (core.exec (.update t gatewayId content)).Ends steps out) :
    (Cancelled steps → events steps = []) ∧
      (¬ Cancelled steps → Audited (.update t gatewayId content) steps) := by
  obtain ⟨out', h⟩ := ends_wrapped h
  refine audited_issued (.update t gatewayId content) (fun row hrow => ⟨row, rfl, hrow⟩)
    (fun row => ?_) h
  refine .bind .check fun a => ?_
  refine .bind .check fun _ => ?_
  refine .bind (.call fun _ => rfl) fun memory => ?_
  exact .bind (.record fun _ => trivial) fun _ => .ret

theorem Tame.searchFailed {query : SearchQuery} {name : String} {a : Adapter σ} {exc : Exc}
    (hexc : exc ≠ .cancelled) :
    Tame (Op.named name) (MemoryCore.searchFailed query name a exc) := by
  have houtage : ∀ exc, Tame (Op.named (σ := σ) name) (MemoryCore.outage query name a exc) := by
    intro exc
    unfold MemoryCore.outage
    split
    · refine .bind (.note (named_note (by decide))) fun _ => ?_
      exact .bind (.note (named_note (by decide))) fun _ => .ret
    · exact .raiseFailure fun _ => rfl
  cases exc with
  | gateway e =>
    simp only [MemoryCore.searchFailed]
    split
    · exact .raise hexc
    · exact houtage _
  | cancelled => exact absurd rfl hexc
  | integrity | other => exact houtage _

theorem search_audited {query : SearchQuery} {scope : Scope} {asserted : Option String}
    (h : (core.exec (.search t query scope asserted)).Ends steps out) :
    (Cancelled steps → events steps = []) ∧
      (¬ Cancelled steps → Audited (.search t query scope asserted) steps) := by
  obtain ⟨out', h⟩ := ends_wrapped h
  refine audited_scoped (.search t query scope asserted) rfl (fun p => ?_) h
  refine .bind (.note (named_note (by decide))) fun _ => ?_
  refine .bind .check fun _ => ?_
  refine .bind .check fun decision => ?_
  refine .attempt_bind (.perform rfl) rfl fun answer hanswer => ?_
  cases answer with
  | error exc => exact .searchFailed fun hexc => hanswer (by rw [hexc])
  | ok memories =>
    refine .bind (.mapHits fun _ => trivial) fun records => ?_
    exact .bind (.note (named_note (by decide))) fun _ => .ret

theorem listScope_audited {scope : Scope} {limit : Nat} {asserted : Option String}
    (h : (core.exec (.listScope t scope limit asserted)).Ends steps out) :
    (Cancelled steps → events steps = []) ∧
      (¬ Cancelled steps → Audited (.listScope t scope limit asserted) steps) := by
  obtain ⟨out', h⟩ := ends_wrapped h
  refine audited_scoped (.listScope t scope limit asserted) rfl (fun p => ?_) h
  refine .bind .check fun _ => ?_
  refine .bind (.call fun _ => rfl) fun memories => ?_
  refine .bind (.mapHits fun _ => trivial) fun records => ?_
  exact .bind (.note (named_note (by decide))) fun _ => .ret

theorem get_audited {gatewayId : String} (h : (core.exec (.get t gatewayId)).Ends steps out) :
    (Cancelled steps → events steps = []) ∧
      (¬ Cancelled steps → Audited (.get t gatewayId) steps) := by
  obtain ⟨out', h⟩ := ends_wrapped h
  refine audited_issued (.get t gatewayId) (fun row hrow => ⟨row, rfl, hrow⟩) (fun row => ?_) h
  refine .bind .check fun a => ?_
  exact .bind (.call fun _ => rfl) fun memory => .check

theorem delete_audited {gatewayId : String} (h : (core.exec (.delete t gatewayId)).Ends steps out) :
    (Cancelled steps → events steps = []) ∧
      (¬ Cancelled steps → Audited (.delete t gatewayId) steps) := by
  obtain ⟨out', h⟩ := ends_wrapped h
  refine audited_issued (.delete t gatewayId) (fun row hrow => ⟨row, rfl, hrow⟩) (fun row => ?_) h
  refine .bind .check fun a => ?_
  refine .bind .check fun _ => ?_
  refine .bind (.call fun _ => rfl) fun _ => ?_
  exact .bind (.transact trivial) fun _ => .ret

theorem deleteScope_audited {scope : Scope} {asserted : Option String}
    (h : (core.exec (.deleteScope t scope asserted)).Ends steps out) :
    (Cancelled steps → events steps = []) ∧
      (¬ Cancelled steps → Audited (.deleteScope t scope asserted) steps) := by
  obtain ⟨out', h⟩ := ends_wrapped h
  refine audited_scoped (.deleteScope t scope asserted) rfl (fun p => ?_) h
  refine .bind .check fun _ => ?_
  refine .bind (.call fun _ => rfl) fun removed => ?_
  refine .bind (.transact trivial) fun _ => ?_
  refine .bind (.transact trivial) fun erased => ?_
  refine .bind (.note (named_note (by decide))) fun _ => ?_
  exact .bind (.note (named_note (by decide))) fun _ => .ret

theorem rebind_audited {subject provider : String} {strategy : RebindStrategy}
    (h : (core.exec (.rebind t subject provider strategy)).Ends steps out) :
    (Cancelled steps → events steps = []) ∧
      (¬ Cancelled steps → Audited (.rebind t subject provider strategy) steps) := by
  obtain ⟨out', h⟩ := ends_wrapped h
  refine audited_unasked (.rebind t subject provider strategy) ?_ h
  refine .bind (.note (List.mem_cons_self ..)) fun _ => ?_
  refine .bind .check fun _ => ?_
  refine .bind .check fun a => ?_
  refine .bind (.rebindSubject fun _ _ => trivial) fun result => ?_
  exact .bind (.note (List.mem_cons_of_mem _ (by decide))) fun _ => .ret

/-- An upsert has something to store. -/
def Call.HasFacts : Call → Prop
  | .upsert _ facts _ _ => facts ≠ []
  | _ => True

/-- A call leaves its one event, with the tenant, and the provider and subject where it
    asked a provider, exactly when it is no upsert without facts and its task is not
    cancelled at any of its awaits. Nothing is assumed of the answers that it gets. -/
theorem audited_iff (core : MemoryCore σ) (call : Call) (steps : List (CoreStep σ))
    (out : Except Exc Reply) (h : (core.exec call).Ends steps out) :
    Audited call steps ↔ call.HasFacts ∧ ¬ Cancelled steps := by
  have hverbs : call.HasFacts →
      (Cancelled steps → events steps = []) ∧ (¬ Cancelled steps → Audited call steps) := by
    intro hfacts
    cases call with
    | ingest => exact ingest_audited h
    | upsert => exact upsert_audited hfacts h
    | update => exact update_audited h
    | search => exact search_audited h
    | listScope => exact listScope_audited h
    | get => exact get_audited h
    | delete => exact delete_audited h
    | deleteScope => exact deleteScope_audited h
    | rebind => exact rebind_audited h
  constructor
  · rintro ⟨event, hevent, -⟩
    have hfacts : call.HasFacts := by
      cases call with
      | upsert t facts scope asserted =>
        rintro rfl
        rw [upsert_unobserved h] at hevent
        cases hevent
      | _ => trivial
    refine ⟨hfacts, fun hc => ?_⟩
    rw [(hverbs hfacts).1 hc] at hevent
    cases hevent
  · rintro ⟨hfacts, hc⟩
    exact (hverbs hfacts).2 hc

/-- Looking for an id that was never issued is audited. -/
theorem stray_get_audited :
    let core : MemoryCore Unit := .serving "mem0" [] id
    ∃ steps out, (core.exec (.get "a" "mg")).Ends steps out ∧ Audited (.get "a" "mg") steps := by
  refine ⟨_, _, Prog.ends_trace (handle .counting) ⟨{}, ()⟩, ?_⟩
  refine (audited_iff _ _ _ _ (Prog.ends_trace (handle .counting) ⟨{}, ()⟩)).mpr ⟨trivial, ?_⟩
  rintro ⟨st, hst, -, hc⟩
  change st ∈ [⟨.catalog (.resolveGatewayId "a" "mg"), .ok none⟩, ⟨.emit _, .ok ()⟩] at hst
  simp only [List.mem_cons, List.not_mem_nil, or_false] at hst
  rcases hst with rfl | rfl <;> cases hc

/-- An upsert without facts leaves no event. -/
theorem empty_upsert_unaudited : ¬ ∀ (core : MemoryCore Unit) call steps out,
    (core.exec call).Ends steps out → Audited call steps := by
  intro h
  obtain ⟨event, hevent, -⟩ := h (.serving "mem0" [] id)
    (.upsert "a" [] { subject := ⟨"s", by decide⟩ } none) [] _ .raise
  cases hevent

end Memgw
