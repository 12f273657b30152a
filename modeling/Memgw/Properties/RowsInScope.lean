-- SUMMARY: Erasure and listing of the self-hosted adapter agree on what is in scope, and its search in Python is an exact filtered top k.
import Memgw.Adapters.PgvectorCalls

/-!
# The rows in scope

The adapter applies a scope in two languages: its dimensions in the statement, its
labels in Python. Listing, erasure and the ranking in Python all come down to the same
rows of the table, whichever of their paths runs: labels are matched before anything is
cut, and the ids that an erasure deletes in chunks are those of the rows.
-/

namespace Memgw.Pgvector

variable {cfg : Config} {s : State} {scope : Scope}

theorem nodup_rows {t : Rows} : t.rows.Nodup :=
  t.unique.imp fun {_ _} hab h => hab Row.nativeId (List.mem_singleton_self _) (congrArg _ h)

theorem nodup_rowsOf {orderByRecent : Bool} : (rowsOf cfg s scope orderByRecent).Nodup := by
  have hselect : ((s.rows cfg).select (selects scope)).Nodup := nodup_rows.filter _
  cases orderByRecent with
  | true => exact ((List.perm_insertionSort newestFirst _).nodup_iff).mpr hselect
  | false => exact hselect

theorem length_rowsOf {orderByRecent : Bool} :
    (rowsOf cfg s scope orderByRecent).length = (s.rows cfg).count (selects scope) := by
  have hselect : ((s.rows cfg).select (selects scope)).length =
      (s.rows cfg).count (selects scope) := List.countP_eq_length_filter.symm
  cases orderByRecent with
  | true => exact (List.length_insertionSort newestFirst _).trans hselect
  | false => exact hselect

/-! ## Erasure and listing -/

/-- There is one list of rows, newest first, that a listing shows up to its limit and that
    an erasure removes, counts, and removes alone. -/
theorem deleteScope_agrees_listScope (env : Env) (cfg : Config) (s : State) (scope : Scope) :
    ∃ inScope : List Row, inScope.Nodup ∧ inScope.Pairwise newestFirst ∧
      (∀ r, r ∈ inScope ↔ r ∈ s.rows cfg ∧ selects scope r = true) ∧
      (∀ n, (adapter env cfg).call (.listScope scope n) s =
        (.ok ((inScope.take n).map (toMemory none)), s)) ∧
      (∀ n, inScope.length ≤ n → (adapter env cfg).call (.listScope scope n) s =
        (.ok (inScope.map (toMemory none)), s)) ∧
      ∃ s', (adapter env cfg).call (.deleteScope scope) s = (.ok inScope.length, s') ∧
        (s'.rows cfg).rows = (s.rows cfg).rows.filter (fun r => r ∉ inScope) ∧
        (∀ table, table ≠ cfg.table → s'.tables table = s.tables table) ∧ s'.ticks = s.ticks := by
  refine ⟨rowsOf cfg s scope true, nodup_rowsOf, List.pairwise_insertionSort _ _,
    fun r => mem_rowsOf, fun n => listScope_run, fun n hn => ?_,
    s.setRows cfg ((s.rows cfg).deleteWhere (selects scope)), ?_, ?_, fun table hne => ?_, rfl⟩
  · refine listScope_run.trans ?_
    rw [List.take_of_length_le hn]
  · rw [length_rowsOf]
    exact deleteScope_run
  · rw [setRows_rows]
    refine List.filter_congr fun r hr => ?_
    have hmem : r ∈ rowsOf cfg s scope true ↔ selects scope r = true := by
      rw [mem_rowsOf]
      exact and_iff_right hr
    simp [hmem]
  · exact setRows_tables.trans (if_neg hne)

/-! ## Ranking in Python -/

/-- A row that a search may answer with: in scope, labels included, and scoring enough. -/
def eligible (cfg : Config) (query : SearchQuery) (scope : Scope) (needle : List Score) (r : Row) :
    Bool :=
  selects scope r && scoresEnough query.minScore (cosine cfg.sqrt needle r.embedding)

section

variable {query : SearchQuery} {needle : List Score}

theorem pythonPool_eq :
    pythonPool cfg s query scope needle = (s.rows cfg).select (eligible cfg query scope needle) := by
  simp only [pythonPool, rowsOf, Table.select, List.filter_filter, Bool.false_eq_true, if_false]
  exact List.filter_congr fun r _ => Bool.and_comm ..

theorem topOf_python : TopOf (fun r => cosine cfg.sqrt needle r.embedding) query.limit
    (pythonPool cfg s query scope needle) (pythonTop cfg s query scope needle) :=
  TopOf.take_sort (fun _ _ => Iff.rfl) _

end

/-- The search in Python answers with the best of the eligible rows, each once, best first,
    and with as many as there are up to the limit. -/
theorem searchInPython_top_k (cfg : Config) (s : State) (query : SearchQuery) (scope : Scope)
    (needle : List Score) :
    ∃ top : List Row,
      (searchInPython cfg query scope needle).run (handle cfg) s =
        (.ok (top.map fun r =>
          toMemory (some (.number (cosine cfg.sqrt needle r.embedding))) r), s) ∧
      top.Nodup ∧
      (∀ r ∈ top, r ∈ s.rows cfg ∧ eligible cfg query scope needle r = true) ∧
      (top.Pairwise fun a b =>
        cosine cfg.sqrt needle b.embedding ≤ cosine cfg.sqrt needle a.embedding) ∧
      top.length = min query.limit ((s.rows cfg).count (eligible cfg query scope needle)) ∧
      ∀ r ∈ s.rows cfg, eligible cfg query scope needle r = true → r ∉ top → ∀ r' ∈ top,
        cosine cfg.sqrt needle r.embedding ≤ cosine cfg.sqrt needle r'.embedding := by
  have hmem : ∀ r, r ∈ pythonPool cfg s query scope needle ↔
      r ∈ s.rows cfg ∧ eligible cfg query scope needle r = true := fun r => by
    rw [pythonPool_eq, Table.mem_select]
  have hlength : (pythonPool cfg s query scope needle).length =
      (s.rows cfg).count (eligible cfg query scope needle) := by
    rw [pythonPool_eq]
    exact List.countP_eq_length_filter.symm
  refine ⟨pythonTop cfg s query scope needle, searchInPython_run,
    topOf_python.nodup (nodup_rowsOf.filter _), fun r hr => (hmem r).mp (topOf_python.subset r hr),
    topOf_python.sorted, hlength ▸ topOf_python.length,
    fun r hr heligible hout => topOf_python.best ((hmem r).mpr ⟨hr, heligible⟩) hout⟩

end Memgw.Pgvector
