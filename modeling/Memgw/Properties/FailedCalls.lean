-- SUMMARY: What refused and failed verbs leave behind: no table changes, and no provider is asked by one that is refused.
import Memgw.Gateway.Calls

/-!
# Refusals and failures

A verb makes its checks before its call and does its bookkeeping after it. So a verb
that one of the checks refuses has asked no adapter for anything, and neither it nor
one whose call raised has touched a table.
-/

namespace Memgw

variable {σ : Type}

/-- A step on an adapter that raised. -/
def Raised (st : CoreStep σ) : Prop := ∃ e, st.2 = .error e

/-- A verb that one of its checks refuses raises, and asks no adapter; if it is refused
    or a call that it makes raises, the tables are as they were; and a verb that raises
    without a call has been refused by one of these checks. -/
theorem failures_keep_tables (env : Env) (q : Request σ) (w : World σ) :
    (q.1.Refuses w.catalog q.2 →
      (∃ e, q.answer env w = .error (.gateway e)) ∧ q.asked env w = []) ∧
    (q.1.Refuses w.catalog q.2 ∨ (∃ st ∈ q.asked env w, Raised st) →
      (q.after env w).catalog = w.catalog) ∧
    ∀ e, q.answer env w = .error e → q.asked env w = [] → q.1.Refuses w.catalog q.2 := by
  have hconducts := q.conducts env w
  generalize q.asked env w = steps at hconducts
  generalize q.answer env w = r at hconducts
  generalize q.after env w = w' at hconducts
  cases hconducts with
  | refused h => exact ⟨fun _ => ⟨⟨_, rfl⟩, rfl⟩, fun _ => rfl, fun _ _ _ => h⟩
  | failed hask =>
    exact ⟨fun h => absurd h hask.not_refuses, fun _ => rfl, fun _ _ h => by cases h⟩
  | answered hask =>
    refine ⟨fun h => absurd h hask.not_refuses, ?_, fun _ _ h => by cases h⟩
    rintro (h | ⟨st, hst, e, he⟩)
    · exact absurd h hask.not_refuses
    · obtain rfl := List.mem_singleton.mp hst
      cases he
  | rebound hcall hstrategy ha =>
    have hpassed : ¬ q.1.Refuses w.catalog q.2 :=
      hcall ▸ MemoryCore.not_refuses_rebind hstrategy ha
    refine ⟨fun h => absurd h hpassed, ?_, fun e h => by cases h⟩
    rintro (h | ⟨st, hst, -⟩)
    · exact absurd h hpassed
    · cases hst

/-! ## An id that was never issued -/

def strayGet : Request Unit :=
  (.serving "mem0" [{ nativeId := "n", content := "tea" }] id, .get "a" "mg")

def freshWorld : World Unit := { catalog := {}, store := () }

theorem stray_get_refused :
    ((∃ e, strayGet.answer .counting freshWorld = .error (.gateway e)) ∧
      strayGet.asked .counting freshWorld = []) ∧
      (strayGet.after .counting freshWorld).catalog = freshWorld.catalog := by
  obtain ⟨hasks, hkeeps, -⟩ := failures_keep_tables .counting strayGet freshWorld
  have hrefused : strayGet.1.Refuses freshWorld.catalog strayGet.2 := .unknownId rfl rfl
  exact ⟨hasks hrefused, hkeeps (.inl hrefused)⟩

end Memgw
