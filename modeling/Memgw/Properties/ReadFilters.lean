-- SUMMARY: When a read filter of the Mem0 adapter selects exactly its scope: no dimension may be named after the wildcard.
import Memgw.Adapters.Mem0

/-!
# Read filters

A write of the Mem0 adapter names the dimensions that its scope sets, and a read
names all of them, with the wildcard for those left open. The wildcard is a text
like any other, so a caller may have chosen it as an agent or as a session. What a
filter then selects is more than the scope it was built for.
-/

namespace Memgw.Mem0

/-! ## One dimension -/

/-- The dimension of the read is left open, or it is the one of the write. -/
def Admits (asked stored : Option Dim) : Prop := asked = none ∨ asked = stored

instance {asked stored : Option Dim} : Decidable (Admits asked stored) :=
  inferInstanceAs (Decidable (_ ∨ _))

/-- The read asks for the wildcard by name, and the write did not. -/
def Widens (asked stored : Option Dim) : Prop := asked.map Subtype.val = some any ∧ stored ≠ asked

/-- The read asks for an ordinary value, and the write has another one or none. -/
def RulesOut (asked stored : Option Dim) : Prop :=
  asked ≠ none ∧ asked.map Subtype.val ≠ some any ∧ stored ≠ asked

/-- The entry that a filter has for a dimension. -/
def filterEntry (asked : Option Dim) : Option String := some ((asked.map Subtype.val).getD any)

theorem entryMatches_iff {asked stored : Option Dim} :
    entryMatches (filterEntry asked) (stored.map Subtype.val) = true ↔
      Admits asked stored ∨ Widens asked stored := by
  unfold entryMatches filterEntry Admits Widens
  cases asked with
  | none => simp
  | some a =>
    cases stored with
    | none => simp
    | some s =>
      have hval : s.val = a.val ↔ a = s := by rw [Subtype.ext_iff, eq_comm]
      simp only [Option.map_some, Option.getD_some, Bool.or_eq_true, beq_iff_eq, Option.some.injEq,
        reduceCtorEq, false_or, hval, ne_eq, eq_comm (a := s)]
      tauto

/-- A dimension that the filter does not match is ruled out, and only such a one. -/
theorem not_entryMatches_iff {asked stored : Option Dim} :
    ¬ (Admits asked stored ∨ Widens asked stored) ↔ RulesOut asked stored := by
  unfold Admits Widens RulesOut
  rw [ne_comm (a := stored)]
  tauto

theorem Widens.not_admits {asked stored : Option Dim} (h : Widens asked stored) :
    ¬ Admits asked stored := by
  rintro (rfl | rfl)
  · cases h.1
  · exact h.2 rfl

/-! ## Scopes -/

/-- The filter of a read and the ids of a write for one user agree on the user. -/
theorem selects_iff {w r : Scope} (htenant : w.tenant = r.tenant) (hsubject : w.subject = r.subject)
    {m : Stored} (hm : m.ids = writeIds w) :
    (buildFilters r).selects m = true ↔
      (Admits r.agent w.agent ∨ Widens r.agent w.agent) ∧
        (Admits r.session w.session ∨ Widens r.session w.session) := by
  have huser : userId w = userId r := by simp [userId, Scope.tenant?, htenant, hsubject]
  have hself : entryMatches (some (userId r)) (some (userId w)) = true := by
    simp [entryMatches, huser]
  rw [← entryMatches_iff, ← entryMatches_iff]
  simp only [Entities.selects, hm, writeIds, buildFilters, hself, Bool.true_and, Bool.and_eq_true]
  rfl

/-- Nothing in scope is missed. -/
theorem in_scope_selected {w r : Scope} (htenant : w.tenant = r.tenant)
    (hsubject : w.subject = r.subject) {m : Stored} (hm : m.ids = writeIds w)
    (hagent : Admits r.agent w.agent) (hsession : Admits r.session w.session) :
    (buildFilters r).selects m = true :=
  (selects_iff htenant hsubject hm).mpr ⟨.inl hagent, .inl hsession⟩

/-- A filter selects exactly its scope unless it asks for the wildcard by name and nothing
    else in it rules the write out. -/
theorem readFilters_exact_iff (w r : Scope) (htenant : w.tenant = r.tenant)
    (hsubject : w.subject = r.subject) :
    (∀ m : Stored, m.ids = writeIds w →
        ((buildFilters r).selects m = true ↔
          Admits r.agent w.agent ∧ Admits r.session w.session)) ↔
      (¬ Widens r.agent w.agent ∧ ¬ Widens r.session w.session) ∨
        RulesOut r.agent w.agent ∨ RulesOut r.session w.session := by
  have hagent := @Widens.not_admits r.agent w.agent
  have hsession := @Widens.not_admits r.session w.session
  simp only [← not_entryMatches_iff]
  constructor
  · intro h
    have hone := h { id := "", memory := "", ids := writeIds w, metadata := {} } rfl
    rw [selects_iff htenant hsubject rfl] at hone
    tauto
  · intro h m hm
    rw [selects_iff htenant hsubject hm]
    tauto

/-- An agent that is asked for under an ordinary name. -/
theorem named_agent_exact :
    let w : Scope := { subject := ⟨"u_1", by decide⟩, agent := some ⟨"lugo", by decide⟩ }
    let r : Scope := { subject := ⟨"u_1", by decide⟩, agent := some ⟨"nova", by decide⟩ }
    let m : Stored := { id := "m", memory := "tea", ids := writeIds w, metadata := {} }
    (buildFilters r).selects m = true ↔ Admits r.agent w.agent ∧ Admits r.session w.session := by
  intro w r m
  have hplain : ¬ Widens r.agent w.agent ∧ ¬ Widens r.session w.session :=
    ⟨fun h => absurd h.1 (by decide), fun h => absurd h.1 (by decide)⟩
  exact (readFilters_exact_iff w r rfl rfl).mpr (.inl hplain) m rfl

/-- An agent that is called like the wildcard sees the memories of every other one. -/
theorem agent_named_any_sees_all :
    ¬ ∀ w r : Scope, w.tenant = r.tenant → w.subject = r.subject → ∀ m : Stored,
      m.ids = writeIds w → ((buildFilters r).selects m = true ↔
        Admits r.agent w.agent ∧ Admits r.session w.session) := by
  intro h
  have hone := h { subject := ⟨"u_1", by decide⟩, agent := some ⟨"lugo", by decide⟩ }
    { subject := ⟨"u_1", by decide⟩, agent := some ⟨"*", by decide⟩ } rfl rfl
    { id := "m", memory := "tea", ids := { userId := "u_1", agentId := some "lugo" }, metadata := {} }
    rfl
  exact absurd hone (by decide)

end Memgw.Mem0
