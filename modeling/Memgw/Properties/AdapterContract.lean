-- SUMMARY: However verbs overlap, no adapter is asked what it does not declare, and each failure ends its verb in one way.
import Memgw.Gateway.Conversations
import Memgw.Properties.Rebinding

/-!
# The contract with the adapters

An adapter declares what it can do, and its contract promises that it is asked nothing
else: no mode that it does not serve, no scope dimension that it has no place for, no page
larger than it allows, and no scope without its tenant. The promise has to hold at every
moment of an overlap and whatever the other verbs do to the bindings and the rows, and
for the verbs that are still on their way as for those that have ended.
-/

namespace Memgw

variable {σ ι : Type} [DecidableEq ι] {env : Env}

/-- The handler takes every note. -/
theorem noteTaken_answer {st : CoreStep σ} {w : World σ} (h : st.2 = (handle env st.1 w).1) :
    NoteTaken st := by
  obtain ⟨op, r⟩ := st
  cases op with
  | note key value => exact h
  | catalog | adapter | emit => trivial

theorem noteTaken_own {es : List (Event (@Op.Ans σ) Exc ι)} {w : World σ}
    (hes : Faithful (handle env) es w) (i : ι) : ∀ st ∈ own i es, NoteTaken st := by
  intro st hst
  obtain ⟨w', hans⟩ := hes.answer (mem_own.mp hst)
  exact noteTaken_answer hans

/-- What is left of a verb can end alone, and so its steps are the first of a whole run. -/
theorem overlap_conversed {core : MemoryCore σ} {call : Call} {pool pool' : ι → CoreProg σ Reply}
    {w w' : World σ} {es : List (Event (@Op.Ans σ) Exc ι)} (hrun : Exec (handle env) pool w es pool' w')
    {i : ι} (hi : pool i = core.exec call) {rest : List (CoreStep σ)} {out : Except Exc Reply}
    (hrest : ∀ st ∈ rest, NoteTaken st) (hends : (pool' i).Ends rest out) :
    core.Conversation call ((own i es ++ rest).filter changesStore) out := by
  have hwhole := hrun.ends hends
  rw [hi] at hwhole
  exact exec_talks core call _ _ hwhole
    (List.forall_mem_append.mpr ⟨noteTaken_own hrun.faithful i, hrest⟩)

/-- Every call that an adapter gets is one that it declares, within its limits, and for the
    tenant of the caller. -/
theorem contract_kept (gateway : ι → MemoryCore σ) (call : ι → Call) (w w' : World σ)
    (es : List (Event (@Op.Ans σ) Exc ι)) (pool' : ι → CoreProg σ Reply)
    (hrun : Exec (handle env) (overlapping gateway call) w es pool' w') :
    ∀ e ∈ es, ∀ name a op, e.step.1 = .adapter name a op →
      (gateway e.who).adapter name = .ok a ∧ op.Honours (call e.who).tenant a := by
  intro e he name a op hop
  -- the verb goes on alone from here
  have hrest : (pool' e.who).Ends _ _ := Prog.ends_trace (handle env) w'
  have htaken : ∀ st ∈ (pool' e.who).trace (handle env) w', NoteTaken st := by
    intro st hst
    obtain ⟨w'', hans⟩ := Prog.trace_answer hst
    exact noteTaken_answer hans
  refine (overlap_conversed hrun rfl htaken hrest).honours ?_ hop
  refine List.mem_filter.mpr ⟨List.mem_append_left _ (mem_own.mpr he), ?_⟩
  obtain ⟨who, op', r⟩ := e
  obtain rfl : op' = _ := hop
  rfl

def downAdapter : Adapter Unit where
  capabilities := (Adapter.serving [] id : Adapter Unit).capabilities
  call
    | .health, s => (.ok { ok := false }, s)
    | _, s => (.error (.other "ConnectError" "refused"), s)

def downGateway : MemoryCore Unit where
  providers := [("mem0", downAdapter)]
  defaultProvider := some "mem0"

/-- The first of them is to fail open. -/
def searchTea (who : TwoCalls) : Call :=
  .search "a"
    { query := "tea"
      failOpen := decide (who = .first)
      limitPos := SearchQuery.defaultLimitPos }
    { subject := ⟨"u_1", u_1_mustBeReal⟩ } none

def playDown :
    List (Event (@Op.Ans Unit) Exc TwoCalls) × (TwoCalls → CoreProg Unit Reply) × World Unit :=
  play (handle .counting) (.replicate 3 .second ++ .replicate 3 .first ++ .replicate 2 .second)
    (overlapping (fun _ => downGateway) searchTea) { catalog := {}, store := () }

/-- The second search asks the adapter, in the second step of the overlap. -/
theorem searches_honoured : ∃ e ∈ playDown.1, ∃ name a op, e.step.1 = .adapter name a op ∧
    downGateway.adapter name = .ok a ∧ op.Honours "a" a := by
  have hasks : 1 < playDown.1.length := by decide
  have hmem := List.getElem_mem hasks
  exact ⟨_, hmem, _, _, _, rfl, contract_kept (fun _ => downGateway) searchTea _ _ _ _
    (play_exec _ _ _) _ hmem _ _ _ rfl⟩

end Memgw
