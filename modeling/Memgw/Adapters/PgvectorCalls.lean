-- SUMMARY: What each call of the self-hosted adapter does to its rows, and which rows its answers come from.
import Memgw.Adapters.Pgvector
import Memgw.Library.TopK
import Mathlib.Data.String.Basic

/-!
# The calls of the pgvector adapter

A row keeps its id and its scope for as long as it lives; only its content changes.
A new row has an id that no row had before. `Evolves` says so of every call, and
says which rows the call can touch at all. The other lemmas say what the answers
are made of.
-/

namespace Memgw.Pgvector

variable {env : Env} {cfg : Config} {s s' : State}

/-! ## Tables -/

@[simp] theorem tick_tables {n : Nat} : (s.tick n).tables = s.tables := rfl
@[simp] theorem tick_rows {n : Nat} : (s.tick n).rows cfg = s.rows cfg := rfl
@[simp] theorem tick_ticks {n : Nat} : (s.tick n).ticks = s.ticks + n := rfl
@[simp] theorem setRows_ticks {t : Rows} : (s.setRows cfg t).ticks = s.ticks := rfl

@[simp] theorem setRows_rows {t : Rows} : (s.setRows cfg t).rows cfg = t := by
  simp [State.setRows, State.rows]

theorem setRows_tables {t : Rows} {table : String} :
    (s.setRows cfg t).tables table = if table = cfg.table then t else s.tables table := by
  simp [State.setRows, Function.update_apply]

theorem eq_of_nativeId {t : Rows} {a b : Row} (ha : a ∈ t) (hb : b ∈ t)
    (h : a.nativeId = b.nativeId) : a = b :=
  Table.eq_of_key Row.nativeId (List.mem_singleton_self _) ha hb h

/-- Deleting one after the other is deleting what any of the conditions selects. -/
theorem deleteAll_eq {ps : List (Row → Bool)} {t : Rows} :
    deleteAll ps t = (t.count fun r => ps.any (· r), t.deleteWhere fun r => ps.any (· r)) := by
  induction ps generalizing t with
  | nil => simp [deleteAll, Table.count, Table.deleteWhere]
  | cons p ps ih =>
    simp only [deleteAll, ih, Table.count_add_deleteWhere, Table.deleteWhere_deleteWhere,
      List.any_cons]

theorem mem_deleteAll {ps : List (Row → Bool)} {t : Rows} {r : Row} :
    r ∈ (deleteAll ps t).2 ↔ r ∈ t ∧ ∀ p ∈ ps, p r = false := by
  simp [deleteAll_eq]

/-! ## How rows evolve -/

/-- Two states of one memory: all but its content and its time of change agree. -/
structure Row.Same (a b : Row) : Prop where
  nativeId : a.nativeId = b.nativeId
  tenant : a.tenant = b.tenant
  subject : a.subject = b.subject
  agent : a.agent = b.agent
  session : a.session = b.session
  labels : a.labels = b.labels

theorem Row.Same.refl (r : Row) : r.Same r := ⟨rfl, rfl, rfl, rfl, rfl, rfl⟩

theorem Row.Same.symm {a b : Row} (h : a.Same b) : b.Same a :=
  ⟨h.nativeId.symm, h.tenant.symm, h.subject.symm, h.agent.symm, h.session.symm, h.labels.symm⟩

theorem Row.Same.trans {a b c : Row} (h : a.Same b) (h' : b.Same c) : a.Same c :=
  ⟨h.nativeId.trans h'.nativeId, h.tenant.trans h'.tenant, h.subject.trans h'.subject,
    h.agent.trans h'.agent, h.session.trans h'.session, h.labels.trans h'.labels⟩

theorem Row.same_rewritten {r : Row} {content : String} {embedding : List Score} {now : Time} :
    r.Same (r.rewritten content embedding now) := ⟨rfl, rfl, rfl, rfl, rfl, rfl⟩

/-- A row written under a scope while the readings went from `k` to `k'`. -/
structure Row.Fresh (env : Env) (scope : Scope) (k k' : Nat) (r : Row) : Prop where
  tenant : r.tenant = scope.tenant
  subject : r.subject = scope.subject
  agent : r.agent = scope.agent
  session : r.session = scope.session
  labels : r.labels = scope.labels
  minted : ∃ i, k ≤ i ∧ i < k' ∧ r.nativeId = env.newId "pv" i

/-- The rows that a call can add, change or remove. -/
def touches : AdapterOp → Row → Prop
  | .ingest _ scope, r | .upsert _ scope, r => r.tenant = scope.tenant
  | .update nativeId _, r | .delete nativeId, r => r.nativeId = nativeId
  | .deleteScope scope, r => selects scope r = true
  | .search .., _ | .listScope .., _ | .get _, _ | .health, _ => False

/-- The scope under which a call writes new rows. -/
def writesUnder : AdapterOp → Option Scope
  | .ingest _ scope | .upsert _ scope => some scope
  | _ => none

structure Evolves (env : Env) (cfg : Config) (op : AdapterOp) (s s' : State) : Prop where
  ticks : s.ticks ≤ s'.ticks
  origin : ∀ table, ∀ r ∈ s'.tables table, (∃ r₀ ∈ s.tables table, r₀.Same r) ∨
    table = cfg.table ∧
      ∃ scope, writesUnder op = some scope ∧ r.Fresh env scope s.ticks s'.ticks
  untouched : ∀ table r, ¬ touches op r → (r ∈ s'.tables table ↔ r ∈ s.tables table)

/-- No table has changed. Some readings may have been taken. -/
structure Unchanged (s s' : State) : Prop where
  tables : s'.tables = s.tables
  ticks : s.ticks ≤ s'.ticks

theorem Unchanged.refl (s : State) : Unchanged s s := ⟨rfl, le_rfl⟩

theorem Unchanged.tick {n : Nat} : Unchanged s (s.tick n) := ⟨rfl, Nat.le_add_right ..⟩

theorem Unchanged.trans {s₁ : State} (h : Unchanged s s₁) (h' : Unchanged s₁ s') : Unchanged s s' :=
  ⟨h'.tables.trans h.tables, h.ticks.trans h'.ticks⟩

theorem Unchanged.evolves {op : AdapterOp} (h : Unchanged s s') : Evolves env cfg op s s' where
  ticks := h.ticks
  origin table r hr := .inl ⟨r, h.tables ▸ hr, .refl r⟩
  untouched table r _ := by rw [h.tables]

/-! ## Writing -/

/-- The table with some new rows in it. -/
structure Added (env : Env) (cfg : Config) (scope : Scope) (s s' : State) (fresh : List Row) :
    Prop where
  ticks : s.ticks ≤ s'.ticks
  elsewhere : ∀ table, table ≠ cfg.table → s'.tables table = s.tables table
  rows : ∀ r, r ∈ s'.rows cfg ↔ r ∈ s.rows cfg ∨ r ∈ fresh
  fresh : ∀ r ∈ fresh, r.Fresh env scope s.ticks s'.ticks

theorem newRows_fresh {k : Nat} {facts : List String} {vectors : List (List Score)} {scope : Scope}
    {r : Row} (hr : r ∈ newRows env k facts vectors scope) :
    r.Fresh env scope k (k + facts.length) := by
  obtain ⟨i, hi, rfl⟩ := List.mem_mapIdx.mp hr
  refine ⟨rfl, rfl, rfl, rfl, rfl, k + i, by omega, ?_, rfl⟩
  have : (facts.zip vectors).length = min facts.length vectors.length := List.length_zip
  omega

theorem Row.Fresh.mono {scope : Scope} {k k' l l' : Nat} {r : Row} (h : r.Fresh env scope k k')
    (hk : l ≤ k) (hk' : k' ≤ l') : r.Fresh env scope l l' := by
  obtain ⟨i, hki, hik, hid⟩ := h.minted
  exact ⟨h.tenant, h.subject, h.agent, h.session, h.labels, i, hk.trans hki,
    lt_of_lt_of_le hik hk', hid⟩

/-- An insertion goes in as a whole, or fails and changes nothing. -/
theorem wp_insert {rows : List Row} {Q : Except Exc Unit → State → Prop}
    (hok : ∀ t, (∀ r, r ∈ t ↔ r ∈ s.rows cfg ∨ r ∈ rows) → Q (.ok ()) (s.setRows cfg t))
    (herr : ∀ e, Q (.error e) s) : (act (.insert rows)).wp (handle cfg) Q s := by
  refine wp_act.mpr ?_
  cases rows with
  | nil => exact herr _
  | cons r rows =>
    simp only [handle]
    cases hinsert : (s.rows cfg).insert (r :: rows) with
    | none => exact herr _
    | some t => exact hok t (fun r' => Table.mem_insert hinsert)

theorem upsert_spec {facts : List String} {scope : Scope} :
    (upsert env facts scope).wp (handle cfg) (fun r s' => match r with
      | .ok memories => ∃ fresh, Added env cfg scope s s' fresh ∧
          memories = fresh.map (toMemory none)
      | .error _ => Unchanged s s') s := by
  simp only [upsert, Prog.bind_eq, Prog.wp_bind, Prog.pure_eq]
  refine wp_act.mpr ?_
  simp only [handle]
  cases cfg.embed s.ticks facts with
  | error e => exact .tick
  | ok vectors =>
    simp only
    refine wp_act.mpr ?_
    simp only [handle, tick_ticks]
    split
    · exact Unchanged.tick.trans .tick
    · split
      · exact Unchanged.tick.trans .tick
      · rw [Prog.wp_bind]
        refine wp_insert (fun t ht => Prog.wp_ret.mpr ?_) (fun e => Unchanged.tick.trans .tick)
        refine ⟨newRows env (s.ticks + 1) facts vectors scope, ⟨?_, ?_, ?_, ?_⟩, rfl⟩
        · simp only [setRows_ticks, tick_ticks]
          omega
        · intro table hne
          simp [setRows_tables, hne]
        · simpa using ht
        · intro r hr
          exact (newRows_fresh hr).mono (by omega) (by simp)

theorem ingest_spec {episode : Episode} {scope : Scope} :
    (ingest env cfg episode scope).wp (handle cfg) (fun r s' => match r with
      | .ok memories => ∃ fresh, Added env cfg scope s s' fresh ∧
          memories = fresh.map (toMemory none)
      | .error _ => Unchanged s s') s := by
  unfold ingest
  cases cfg.extractor with
  | none => exact .refl s
  | some extractor =>
    simp only [Prog.bind_eq, Prog.wp_bind, Prog.pure_eq]
    refine wp_act.mpr ?_
    simp only [handle]
    cases extractor s.ticks episode with
    | error e => exact .tick
    | ok facts =>
      simp only
      split
      · exact Prog.wp_ret.mpr ⟨[], ⟨by simp, fun _ _ => rfl, by simp, by simp⟩, rfl⟩
      · refine Prog.wp_mono (fun r s' hr => ?_) upsert_spec
        cases r with
        | error e => exact Unchanged.tick.trans hr
        | ok memories =>
          obtain ⟨fresh, hadded, hmem⟩ := hr
          have hticks := hadded.ticks
          simp only [tick_ticks] at hticks
          refine ⟨fresh, ⟨by omega, hadded.elsewhere, hadded.rows, fun r hr => ?_⟩, hmem⟩
          exact (hadded.fresh r hr).mono (by simp) le_rfl

theorem get_run {nativeId : String} :
    (get nativeId).run (handle cfg) s =
      (.ok (((s.rows cfg).find? (·.nativeId == nativeId)).map (toMemory none)), s) := by
  have hhead : ((s.rows cfg).select (·.nativeId == nativeId)).head? =
      (s.rows cfg).find? (·.nativeId == nativeId) := List.head?_filter
  simp only [get, act, Prog.perform, Prog.bind_eq, Prog.bind, Prog.run, handle, Prog.pure_eq,
    Prog.ret_bind, hhead]

/-- What a rewrite of one id leaves. -/
structure Rewrote (cfg : Config) (nativeId content : String) (s s' : State) : Prop where
  ticks : s.ticks ≤ s'.ticks
  elsewhere : ∀ table, table ≠ cfg.table → s'.tables table = s.tables table
  rows : ∀ r ∈ s'.rows cfg, ∃ r₀ ∈ s.rows cfg, r₀.Same r ∧ (r.nativeId ≠ nativeId → r = r₀) ∧
    (r.nativeId = nativeId → r.content = content)
  kept : ∀ r ∈ s.rows cfg, r.nativeId ≠ nativeId → r ∈ s'.rows cfg

theorem rewrote {nativeId content : String} {embedding : List Score} {now : Time} {s₁ : State}
    (hticks : s.ticks ≤ s₁.ticks) (htables : s₁.tables = s.tables) :
    Rewrote cfg nativeId content s
      (s₁.setRows cfg (rewriteIn nativeId content embedding now (s.rows cfg))) where
  ticks := hticks
  elsewhere table hne := by simp [setRows_tables, hne, htables]
  rows r hr := by
    rw [setRows_rows] at hr
    obtain ⟨r₀, h₀, rfl⟩ := Table.mem_updateWhere.mp hr
    refine ⟨r₀, h₀, ?_⟩
    by_cases hid : r₀.nativeId = nativeId
    · rw [if_pos (beq_iff_eq.mpr hid)]
      exact ⟨Row.same_rewritten, fun hne => absurd hid hne, fun _ => rfl⟩
    · rw [if_neg (fun h => hid (beq_iff_eq.mp h))]
      exact ⟨.refl _, fun _ => rfl, fun h => absurd h hid⟩
  kept r hr hne := by
    rw [setRows_rows]
    exact Table.mem_updateWhere_of_not hr (by simpa using hne)

theorem update_spec {nativeId content : String} :
    (update env nativeId content).wp (handle cfg) (fun r s' => match r with
      | .ok m => Rewrote cfg nativeId content s s' ∧
          ∃ row ∈ s'.rows cfg, row.nativeId = nativeId ∧ m = toMemory none row
      | .error _ => Unchanged s s' ∨ Rewrote cfg nativeId content s s') s := by
  simp only [update, Prog.bind_eq, Prog.wp_bind, Prog.pure_eq]
  refine wp_act.mpr ?_
  simp only [handle]
  cases cfg.embed s.ticks [content] with
  | error e => exact .inl .tick
  | ok vectors =>
    match vectors with
    | [] => exact .inl .tick
    | _ :: _ :: _ => exact .inl .tick
    | [vector] =>
      simp only [Prog.wp_bind]
      refine wp_act.mpr ?_
      simp only [handle, tick_ticks]
      refine wp_act.mpr ?_
      have hrewrote : Rewrote cfg nativeId content s (handle cfg (.rewrite nativeId content vector
          (env.now (s.ticks + 1))) ((s.tick 1).tick 1)).2 :=
        rewrote (by simp only [tick_ticks]; omega) rfl
      generalize handle cfg (.rewrite nativeId content vector (env.now (s.ticks + 1)))
        ((s.tick 1).tick 1) = result at hrewrote
      obtain ⟨answer, s₁⟩ := result
      cases answer with
      | error e => exact .inr hrewrote
      | ok count =>
        simp only
        split
        · exact .inr hrewrote
        · rw [Prog.wp_bind]
          refine Prog.wp_of_run get_run ?_
          cases hfind : (s₁.rows cfg).find? (·.nativeId == nativeId) with
          | none => exact .inr hrewrote
          | some row =>
            obtain ⟨hrow, hid⟩ := Table.find?_some hfind
            exact ⟨hrewrote, row, hrow, by simpa using hid, rfl⟩

/-! ## Reading -/

theorem selects_of_no_labels {scope : Scope} (h : scope.labels.isEmpty = true) :
    selects scope = conditions scope := by
  funext r
  simp [selects, h]

instance : IsTrans Row newestFirst where
  trans a b c hab hbc := by
    simp only [newestFirst] at *
    rcases hab with hab | ⟨hab, hab'⟩ <;> rcases hbc with hbc | ⟨hbc, hbc'⟩
    · exact .inl (hbc.trans hab)
    · exact .inl (hbc ▸ hab)
    · exact .inl (hab ▸ hbc)
    · exact .inr ⟨hab.trans hbc, hab'.trans hbc'⟩

instance : Std.Total newestFirst where
  total a b := by
    simp only [newestFirst]
    rcases lt_trichotomy a.createdAt b.createdAt with h | h | h
    · exact .inr (.inl h)
    · exact (le_total a.nativeId b.nativeId).imp (fun hn => .inr ⟨h, hn⟩)
        (fun hn => .inr ⟨h.symm, hn⟩)
    · exact .inl (.inl h)

/-- The rows that the scope selects, in the order that is asked for. -/
def rowsOf (cfg : Config) (s : State) (scope : Scope) (orderByRecent : Bool) : List Row :=
  let rows := (s.rows cfg).select (selects scope)
  if orderByRecent then rows.insertionSort newestFirst else rows

theorem rowsInScope_run {scope : Scope} {orderByRecent : Bool} {limit : Option Nat} :
    (rowsInScope scope orderByRecent limit).run (handle cfg) s =
      (.ok (cut limit (rowsOf cfg s scope orderByRecent)), s) := by
  have hfilter : (if orderByRecent
      then ((s.rows cfg).select (conditions scope)).insertionSort newestFirst
      else (s.rows cfg).select (conditions scope)).filter (fun r => r.labels.agree scope.labels) =
        rowsOf cfg s scope orderByRecent := by
    have hselect : ((s.rows cfg).select (conditions scope)).filter
        (fun r => r.labels.agree scope.labels) = (s.rows cfg).select (selects scope) := by
      rw [Table.select, List.filter_filter]
      refine List.filter_congr (fun r _ => ?_)
      rw [selects, Bool.and_comm]
    cases orderByRecent with
    | true =>
      simp only [rowsOf, if_true]
      rw [List.filter_insertionSort, hselect]
    | false => exact hselect
  simp only [rowsInScope, act, Prog.perform, Prog.bind_eq, Prog.bind, Prog.run, handle,
    Prog.pure_eq]
  split
  · rename_i hempty
    simp only [rowsOf, selects_of_no_labels hempty]
    rfl
  · rw [← hfilter]
    rfl

/-- The memory is what a row of the table says, and the scope selects the row. -/
def FromRow (cfg : Config) (scope : Scope) (s : State) (m : ProviderMemory) : Prop :=
  ∃ row ∈ s.rows cfg, selects scope row = true ∧ m.nativeId = row.nativeId ∧ m.content = row.content

theorem mem_rowsOf {scope : Scope} {orderByRecent : Bool} {r : Row} :
    r ∈ rowsOf cfg s scope orderByRecent ↔ r ∈ s.rows cfg ∧ selects scope r = true := by
  cases orderByRecent <;> simp [rowsOf]

theorem listScope_run {scope : Scope} {limit : Nat} :
    (listScope scope limit).run (handle cfg) s =
      (.ok (((rowsOf cfg s scope true).take limit).map (toMemory none)), s) := by
  simp only [listScope, Prog.bind_eq, Prog.run_bind, rowsInScope_run]
  rfl

theorem listScope_spec {scope : Scope} {limit : Nat} :
    (listScope scope limit).wp (handle cfg) (fun r s' => s' = s ∧
      ∀ memories, r = .ok memories → ∀ m ∈ memories, FromRow cfg scope s m) s := by
  refine Prog.wp_of_run listScope_run ⟨rfl, fun memories h m hm => ?_⟩
  obtain rfl := Except.ok.inj h
  obtain ⟨row, hrow, rfl⟩ := List.mem_map.mp hm
  obtain ⟨hmem, hsel⟩ := mem_rowsOf.mp (List.mem_of_mem_take hrow)
  exact ⟨row, hmem, hsel, rfl, rfl⟩

/-- The rows that the database ranks: those in scope that it has as similar enough. -/
def sqlPool (cfg : Config) (s : State) (query : SearchQuery) (scope : Scope)
    (needle : List Score) : List Row :=
  (s.rows cfg).select fun r => conditions scope r && query.minScore.all fun least =>
    atLeastInSql least (similarity (cfg.distance r.embedding needle))

def sqlTop (cfg : Config) (s : State) (query : SearchQuery) (scope : Scope)
    (needle : List Score) : List Row :=
  ((sqlPool cfg s query scope needle).insertionSort fun a b =>
    nearestFirst (cfg.distance a.embedding needle) (cfg.distance b.embedding needle)).take
      query.limit

theorem searchInSql_run {query : SearchQuery} {scope : Scope} {needle : List Score} :
    (searchInSql cfg query scope needle).run (handle cfg) s =
      (.ok ((sqlTop cfg s query scope needle).map fun r =>
        toMemory (some (similarity (cfg.distance r.embedding needle))) r), s) := rfl

theorem searchInSql_spec {query : SearchQuery} {scope : Scope} {needle : List Score}
    (hlabels : scope.labels.isEmpty = true) :
    (searchInSql cfg query scope needle).wp (handle cfg) (fun r s' => s' = s ∧
      ∀ memories, r = .ok memories → ∀ m ∈ memories, FromRow cfg scope s m) s := by
  refine Prog.wp_of_run searchInSql_run ⟨rfl, fun memories h m hm => ?_⟩
  obtain rfl := Except.ok.inj h
  obtain ⟨row, hrow, rfl⟩ := List.mem_map.mp hm
  have hpool : row ∈ sqlPool cfg s query scope needle :=
    (List.mem_insertionSort _).mp (List.mem_of_mem_take hrow)
  obtain ⟨hmem, hcond⟩ := Table.mem_select.mp hpool
  refine ⟨row, hmem, ?_, rfl, rfl⟩
  rw [selects_of_no_labels hlabels]
  exact (Bool.and_eq_true_iff.mp hcond).1

/-- The rows that a search by cosine ranks: those in scope that score enough. -/
def pythonPool (cfg : Config) (s : State) (query : SearchQuery) (scope : Scope)
    (needle : List Score) : List Row :=
  (rowsOf cfg s scope false).filter fun r =>
    scoresEnough query.minScore (cosine cfg.sqrt needle r.embedding)

def pythonTop (cfg : Config) (s : State) (query : SearchQuery) (scope : Scope)
    (needle : List Score) : List Row :=
  ((pythonPool cfg s query scope needle).insertionSort fun a b =>
    cosine cfg.sqrt needle b.embedding ≤ cosine cfg.sqrt needle a.embedding).take query.limit

theorem searchInPython_run {query : SearchQuery} {scope : Scope} {needle : List Score} :
    (searchInPython cfg query scope needle).run (handle cfg) s =
      (.ok ((pythonTop cfg s query scope needle).map fun r =>
        toMemory (some (.number (cosine cfg.sqrt needle r.embedding))) r), s) := by
  -- the pairs that the code sorts are the rows, each with its own score
  have hpairs : (((rowsOf cfg s scope false).map fun r =>
      (cosine cfg.sqrt needle r.embedding, r)).filter fun sr =>
        scoresEnough query.minScore sr.1).insertionSort (fun a b => b.1 ≤ a.1) =
      ((pythonPool cfg s query scope needle).insertionSort fun a b =>
        cosine cfg.sqrt needle b.embedding ≤ cosine cfg.sqrt needle a.embedding).map
          fun r => (cosine cfg.sqrt needle r.embedding, r) := by
    rw [List.filter_map, List.map_insertionSort _ (s := fun a b : Score × Row => b.1 ≤ a.1)]
    · rfl
    · exact fun a _ b _ => Iff.rfl
  simp only [searchInPython, Prog.bind_eq, Prog.run_bind, rowsInScope_run, cut, hpairs,
    Prog.pure_eq, Prog.run, ← List.map_take, List.map_map]
  rfl

theorem searchInPython_spec {query : SearchQuery} {scope : Scope} {needle : List Score} :
    (searchInPython cfg query scope needle).wp (handle cfg) (fun r s' => s' = s ∧
      ∀ memories, r = .ok memories → ∀ m ∈ memories, FromRow cfg scope s m) s := by
  refine Prog.wp_of_run searchInPython_run ⟨rfl, fun memories h m hm => ?_⟩
  obtain rfl := Except.ok.inj h
  obtain ⟨row, hrow, rfl⟩ := List.mem_map.mp hm
  have hpool : row ∈ pythonPool cfg s query scope needle :=
    (List.mem_insertionSort _).mp (List.mem_of_mem_take hrow)
  obtain ⟨hmem, hsel⟩ := mem_rowsOf.mp (List.mem_of_mem_filter hpool)
  exact ⟨row, hmem, hsel, rfl, rfl⟩

theorem search_spec {query : SearchQuery} {scope : Scope} :
    (search cfg query scope).wp (handle cfg) (fun r s' =>
      Unchanged s s' ∧ ∀ memories, r = .ok memories → ∀ m ∈ memories, FromRow cfg scope s m) s := by
  unfold search
  split
  · exact ⟨.refl s, fun _ h => by cases h⟩
  · simp only [Prog.bind_eq, Prog.wp_bind]
    refine wp_act.mpr ?_
    simp only [handle]
    cases cfg.embed s.ticks [query.query] with
    | error e => exact ⟨.tick, fun _ h => by cases h⟩
    | ok vectors =>
      match vectors with
      | [] => exact ⟨.tick, fun _ h => by cases h⟩
      | _ :: _ :: _ => exact ⟨.tick, fun _ h => by cases h⟩
      | [needle] =>
        simp only
        split
        · rename_i hsql
          have hlabels : scope.labels.isEmpty = true := (Bool.and_eq_true_iff.mp hsql).2
          refine Prog.wp_mono (fun r s' hr => ?_) (searchInSql_spec hlabels)
          exact ⟨hr.1 ▸ .tick, hr.2⟩
        · refine Prog.wp_mono (fun r s' hr => ?_) searchInPython_spec
          exact ⟨hr.1 ▸ .tick, hr.2⟩

/-! ## Deleting -/

/-- What a deletion of the rows that satisfy a condition leaves. -/
structure Deleted (cfg : Config) (p : Row → Bool) (s s' : State) : Prop where
  ticks : s'.ticks = s.ticks
  elsewhere : ∀ table, table ≠ cfg.table → s'.tables table = s.tables table
  rows : ∀ r, r ∈ s'.rows cfg ↔ r ∈ s.rows cfg ∧ p r = false

theorem delete_spec {nativeId : String} :
    (delete nativeId).wp (handle cfg) (fun _ s' => Deleted cfg (·.nativeId == nativeId) s s') s := by
  simp only [delete, Prog.bind_eq, Prog.wp_bind]
  refine wp_act.mpr (Prog.wp_ret.mpr ⟨rfl, fun table hne => ?_, fun r => ?_⟩)
  · exact (setRows_tables.trans (if_neg hne))
  · simp only [handle, setRows_rows, mem_deleteAll]
    simp

theorem setRows_self : s.setRows cfg (s.rows cfg) = s := by
  simp [State.setRows, State.rows]

/-- Both paths remove exactly the rows that the scope selects, labels included. -/
theorem deleteScope_run {scope : Scope} :
    (deleteScope scope).run (handle cfg) s =
      (.ok ((s.rows cfg).count (selects scope)),
        s.setRows cfg ((s.rows cfg).deleteWhere (selects scope))) := by
  have hdelete : ∀ ps : List (Row → Bool), (∀ r ∈ s.rows cfg, ps.any (· r) = selects scope r) →
      handle cfg (.delete ps) s = (.ok ((s.rows cfg).count (selects scope)),
        s.setRows cfg ((s.rows cfg).deleteWhere (selects scope))) := by
    intro ps hps
    simp only [handle, deleteAll_eq, Table.count_congr hps, Table.deleteWhere_congr hps]
  have hids : ∀ r ∈ s.rows cfg, r.nativeId ∈ (rowsOf cfg s scope false).map Row.nativeId ↔
      selects scope r = true := by
    intro r hr
    constructor
    · intro hid
      obtain ⟨r', hr', heq⟩ := List.mem_map.mp hid
      obtain ⟨hmem, hsel⟩ := mem_rowsOf.mp hr'
      rwa [← eq_of_nativeId hmem hr heq]
    · exact fun hsel => List.mem_map_of_mem (mem_rowsOf.mpr ⟨hr, hsel⟩)
  unfold deleteScope
  split
  · rename_i hempty
    refine (Prog.run_perform _ _ _).trans (hdelete _ fun r _ => ?_)
    simp [selects_of_no_labels hempty]
  · simp only [Prog.bind_eq, Prog.run_bind, rowsInScope_run, cut, Prog.pure_eq]
    have hcount : (rowsOf cfg s scope false).length = (s.rows cfg).count (selects scope) :=
      (List.countP_eq_length_filter).symm
    split
    · rename_i hnone
      have hfalse : ∀ r ∈ s.rows cfg, selects scope r = false := by
        intro r hr
        rw [Bool.eq_false_iff, Ne, ← hids r hr, hnone]
        exact List.not_mem_nil
      rw [Table.deleteWhere_none hfalse, setRows_self, ← hcount, List.map_eq_nil_iff.mp hnone]
      rfl
    · have hchunks : ∀ r ∈ s.rows cfg, ((chunks ((rowsOf cfg s scope false).map
          Row.nativeId)).map fun chunk r => chunk.contains r.nativeId).any (· r) =
            selects scope r := by
        intro r hr
        rw [Bool.eq_iff_iff, ← hids r hr, ← mem_chunks]
        simp
      rw [Prog.run_bind, act, Prog.run_perform, hdelete _ hchunks, List.length_map, hcount]
      rfl

theorem deleteScope_spec {scope : Scope} :
    (deleteScope scope).wp (handle cfg) (fun r s' => Deleted cfg (selects scope) s s' ∧
      ∃ n, r = .ok n) s := by
  refine Prog.wp_of_run deleteScope_run ⟨⟨rfl, fun table hne => ?_, fun r => ?_⟩, _, rfl⟩
  · exact setRows_tables.trans (if_neg hne)
  · rw [setRows_rows, Table.mem_deleteWhere]

/-! ## Every call -/

theorem Added.evolves {scope : Scope} {fresh : List Row} {op : AdapterOp}
    (h : Added env cfg scope s s' fresh) (hop : writesUnder op = some scope)
    (htouches : ∀ r, r.tenant = scope.tenant → touches op r) : Evolves env cfg op s s' where
  ticks := h.ticks
  origin table r hr := by
    by_cases htable : table = cfg.table
    · subst htable
      rcases (h.rows r).mp hr with hr | hr
      · exact .inl ⟨r, hr, .refl r⟩
      · exact .inr ⟨rfl, scope, hop, h.fresh r hr⟩
    · exact .inl ⟨r, h.elsewhere table htable ▸ hr, .refl r⟩
  untouched table r hr := by
    by_cases htable : table = cfg.table
    · subst htable
      refine (h.rows r).trans (or_iff_left fun hfresh => hr (htouches r ?_))
      exact (h.fresh r hfresh).tenant
    · rw [h.elsewhere table htable]

theorem Rewrote.evolves {nativeId content : String} (h : Rewrote cfg nativeId content s s') :
    Evolves env cfg (.update nativeId content) s s' where
  ticks := h.ticks
  origin table r hr := by
    by_cases htable : table = cfg.table
    · subst htable
      obtain ⟨r₀, h₀, hsame, -⟩ := h.rows r hr
      exact .inl ⟨r₀, h₀, hsame⟩
    · exact .inl ⟨r, h.elsewhere table htable ▸ hr, .refl r⟩
  untouched table r hr := by
    by_cases htable : table = cfg.table
    · subst htable
      constructor
      · intro hmem
        obtain ⟨r₀, h₀, -, hkept, -⟩ := h.rows r hmem
        exact hkept hr ▸ h₀
      · exact fun hmem => h.kept r hmem hr
    · rw [h.elsewhere table htable]

theorem Deleted.evolves {p : Row → Bool} {op : AdapterOp} (h : Deleted cfg p s s')
    (hop : ∀ r, p r = true → touches op r) : Evolves env cfg op s s' where
  ticks := h.ticks.ge
  origin table r hr := by
    by_cases htable : table = cfg.table
    · subst htable
      exact .inl ⟨r, ((h.rows r).mp hr).1, .refl r⟩
    · exact .inl ⟨r, h.elsewhere table htable ▸ hr, .refl r⟩
  untouched table r hr := by
    by_cases htable : table = cfg.table
    · subst htable
      refine (h.rows r).trans (and_iff_left ?_)
      rw [Bool.eq_false_iff]
      exact fun hp => hr (hop r hp)
    · rw [h.elsewhere table htable]

theorem call_evolves {op : AdapterOp} {r : Except Exc op.Ans}
    (h : (adapter env cfg).call op s = (r, s')) : Evolves env cfg op s s' := by
  suffices hwp : (program env cfg op).wp (handle cfg) (fun _ s' => Evolves env cfg op s s') s by
    have hs : ((program env cfg op).run (handle cfg) s).2 = s' := congrArg Prod.snd h
    exact hs ▸ hwp
  cases op with
  | ingest episode scope =>
    refine Prog.wp_mono (fun r s' hr => ?_) ingest_spec
    cases r with
    | ok memories =>
      obtain ⟨fresh, hadded, -⟩ := hr
      exact hadded.evolves rfl fun _ h => h
    | error e => exact hr.evolves
  | upsert facts scope =>
    refine Prog.wp_mono (fun r s' hr => ?_) upsert_spec
    cases r with
    | ok memories =>
      obtain ⟨fresh, hadded, -⟩ := hr
      exact hadded.evolves rfl fun _ h => h
    | error e => exact hr.evolves
  | update nativeId content =>
    refine Prog.wp_mono (fun r s' hr => ?_) update_spec
    cases r with
    | ok m => exact hr.1.evolves
    | error e => exact hr.elim Unchanged.evolves Rewrote.evolves
  | search query scope =>
    exact Prog.wp_mono (fun r s' hr => hr.1.evolves) search_spec
  | listScope scope limit =>
    refine Prog.wp_mono (fun r s' hr => ?_) listScope_spec
    rw [hr.1]
    exact (Unchanged.refl s).evolves
  | get nativeId => exact Prog.wp_of_run get_run (Unchanged.refl s).evolves
  | delete nativeId =>
    refine Prog.wp_mono (fun r s' hr => hr.evolves (fun r hid => ?_)) delete_spec
    exact beq_iff_eq.mp hid
  | deleteScope scope =>
    exact Prog.wp_mono (fun r s' hr => hr.1.evolves fun r hsel => hsel) deleteScope_spec
  | health => exact (Unchanged.refl s).evolves

/-! ## Answers -/

theorem call_ingest {episode : Episode} {scope : Scope} {memories : List ProviderMemory}
    (h : (adapter env cfg).call (.ingest episode scope) s = (.ok memories, s')) :
    ∃ fresh, Added env cfg scope s s' fresh ∧ memories = fresh.map (toMemory none) :=
  Prog.of_wp ingest_spec h

theorem call_upsert {facts : List String} {scope : Scope} {memories : List ProviderMemory}
    (h : (adapter env cfg).call (.upsert facts scope) s = (.ok memories, s')) :
    ∃ fresh, Added env cfg scope s s' fresh ∧ memories = fresh.map (toMemory none) :=
  Prog.of_wp upsert_spec h

theorem call_update {nativeId content : String} {m : ProviderMemory}
    (h : (adapter env cfg).call (.update nativeId content) s = (.ok m, s')) :
    Rewrote cfg nativeId content s s' ∧
      ∃ row ∈ s'.rows cfg, row.nativeId = nativeId ∧ m = toMemory none row :=
  Prog.of_wp update_spec h

theorem call_search {query : SearchQuery} {scope : Scope} {memories : List ProviderMemory}
    (h : (adapter env cfg).call (.search query scope) s = (.ok memories, s')) :
    Unchanged s s' ∧ ∀ m ∈ memories, FromRow cfg scope s m := by
  obtain ⟨hsame, hfrom⟩ := Prog.of_wp search_spec h
  exact ⟨hsame, hfrom memories rfl⟩

theorem call_listScope {scope : Scope} {limit : Nat} {memories : List ProviderMemory}
    (h : (adapter env cfg).call (.listScope scope limit) s = (.ok memories, s')) :
    Unchanged s s' ∧ ∀ m ∈ memories, FromRow cfg scope s m := by
  obtain ⟨hsame, hfrom⟩ := Prog.of_wp listScope_spec h
  exact ⟨hsame ▸ .refl s', hfrom memories rfl⟩

theorem call_get {nativeId : String} :
    (adapter env cfg).call (.get nativeId) s =
      (.ok (((s.rows cfg).find? (·.nativeId == nativeId)).map (toMemory none)), s) :=
  get_run

theorem call_deleteScope {scope : Scope} {r : Except Exc Nat}
    (h : (adapter env cfg).call (.deleteScope scope) s = (r, s')) :
    Deleted cfg (selects scope) s s' :=
  (Prog.of_wp deleteScope_spec h).1

/-- A row of one state that a memory of a later one, with the same tables, comes from. -/
theorem FromRow.unchanged {scope : Scope} {m : ProviderMemory} (h : FromRow cfg scope s m)
    (hs : Unchanged s s') : FromRow cfg scope s' m := by
  obtain ⟨row, hrow, hsel, hid, hcontent⟩ := h
  refine ⟨row, ?_, hsel, hid, hcontent⟩
  rw [State.rows, hs.tables]
  exact hrow

/-! ## Calls that may fail -/

theorem adapter_eq_over : adapter env cfg = adapterOver env cfg (handle cfg) := rfl

/-- A call of the database that failed has changed no table. -/
theorem Faulty.raised {h : Handler Action.Ans Exc State} (hfaulty : Faulty cfg h) {op : Action}
    {e : Exc} (herror : (h op s).1 = .error e) : (h op s).2.tables = s.tables := by
  rcases hfaulty op s with hsame | ⟨e', hfail⟩
  · rw [hsame] at herror ⊢
    cases op with
    | embed | extract => rfl
    | draw | rewrite | select | delete => cases herror
    | insert rows =>
      cases rows with
      | nil => rfl
      | cons r rows =>
        simp only [handle] at herror ⊢
        split
        · rfl
        · rename_i t ht
          simp [ht] at herror
  · rw [hfail]

/-- A call that reads, and may fail besides, changes no table. -/
theorem Faulty.reads {h : Handler Action.Ans Exc State} (hfaulty : Faulty cfg h) {op : Action}
    (hreads : (handle cfg op s).2.tables = s.tables) : (h op s).2.tables = s.tables := by
  rcases hfaulty op s with hsame | ⟨e, hfail⟩
  · rw [hsame]
    exact hreads
  · rw [hfail]

theorem newRows_nodup {k : Nat} {facts : List String} {vectors : List (List Score)}
    {scope : Scope} : (((newRows env k facts vectors scope).map (toMemory none)).map
      ProviderMemory.nativeId).Nodup := by
  refine List.pairwise_iff_getElem.mpr fun i j hi hj hij heq => ?_
  have hid : env.newId "pv" (k + i) = env.newId "pv" (k + j) := by
    simpa [newRows, toMemory] using heq
  have := env.newId_injective "pv" hid
  omega

/-- One transaction stores all facts of an upsert: whatever call fails, no table has
    changed. -/
theorem upsert_all_or_none {h : Handler Action.Ans Exc State} (hfaulty : Faulty cfg h)
    {facts : List String} {scope : Scope} :
    (upsert env facts scope).wp h (fun r s' => match r with
      | .ok memories => (memories.map ProviderMemory.nativeId).Nodup
      | .error _ => s'.tables = s.tables) s := by
  simp only [upsert, act, Prog.bind_eq, Prog.wp_bind, Prog.pure_eq]
  refine Prog.wp_perform.mpr ?_
  have hembed : (h (.embed facts) s).2.tables = s.tables := hfaulty.reads rfl
  generalize h (.embed facts) s = embedded at hembed
  obtain ⟨r, s₁⟩ := embedded
  cases r with
  | error e => exact hembed
  | ok vectors =>
    refine Prog.wp_perform.mpr ?_
    have hdraw : (h (.draw facts.length) s₁).2.tables = s.tables := (hfaulty.reads rfl).trans hembed
    generalize h (.draw facts.length) s₁ = drawn at hdraw
    obtain ⟨r, s₂⟩ := drawn
    cases r with
    | error e => exact hdraw
    | ok k =>
      simp only
      split
      · exact hdraw
      · split
        · exact hdraw
        · rw [Prog.wp_bind]
          refine Prog.wp_perform.mpr ?_
          cases hinsert : (h (.insert (newRows env k facts vectors scope)) s₂).1 with
          | error e => exact (hfaulty.raised hinsert).trans hdraw
          | ok u => exact newRows_nodup

/-! ## What is written, and what a failure leaves -/

theorem delete_run {nativeId : String} :
    (delete nativeId).run (handle cfg) s =
      (.ok (decide (0 < (s.rows cfg).count (·.nativeId == nativeId))),
        s.setRows cfg ((s.rows cfg).deleteWhere (·.nativeId == nativeId))) := by
  simp only [delete, act, Prog.perform, Prog.bind_eq, Prog.bind, Prog.run, handle, Prog.pure_eq,
    deleteAll, Nat.add_zero]

theorem newRows_contents {k : Nat} {facts : List String} {vectors : List (List Score)}
    {scope : Scope} (hlength : facts.length = vectors.length) :
    (newRows env k facts vectors scope).map Row.content = facts := by
  refine List.ext_getElem (by simp [newRows, hlength]) fun i hi hi' => ?_
  simp [newRows]

/-- An upsert stores the facts, in their order, each in a row of its own. -/
theorem upsert_contents {facts : List String} {scope : Scope} :
    (upsert env facts scope).wp (handle cfg) (fun r _ => ∀ memories, r = .ok memories →
      memories.map ProviderMemory.content = facts) s := by
  simp only [upsert, Prog.bind_eq, Prog.wp_bind, Prog.pure_eq]
  refine wp_act.mpr ?_
  simp only [handle]
  cases cfg.embed s.ticks facts with
  | error e => exact fun _ h => by cases h
  | ok vectors =>
    simp only
    refine wp_act.mpr ?_
    simp only [handle]
    split
    · exact fun _ h => by cases h
    · split
      · exact fun _ h => by cases h
      · rw [Prog.wp_bind]
        refine wp_insert (fun t _ => Prog.wp_ret.mpr fun memories h => ?_) (fun e _ h => by cases h)
        obtain rfl := Except.ok.inj h
        rw [List.map_map]
        exact newRows_contents (by omega)

/-- An update that goes through rewrites one row; one that fails rewrites none. -/
theorem update_exact {nativeId content : String} :
    (update env nativeId content).wp (handle cfg) (fun r s' => match r with
      | .ok m => ∃ (s₁ : State) (embedding : List Score) (now : Time), s₁.tables = s.tables ∧
          s' = s₁.setRows cfg (rewriteIn nativeId content embedding now (s.rows cfg)) ∧
          ∃ row ∈ s.rows cfg, row.nativeId = nativeId ∧
            m = toMemory none (row.rewritten content embedding now)
      | .error _ => s'.tables = s.tables) s := by
  simp only [update, Prog.bind_eq, Prog.wp_bind, Prog.pure_eq]
  refine wp_act.mpr ?_
  simp only [handle]
  cases cfg.embed s.ticks [content] with
  | error e => rfl
  | ok vectors =>
    match vectors with
    | [] => rfl
    | _ :: _ :: _ => rfl
    | [vector] =>
      simp only [Prog.wp_bind]
      refine wp_act.mpr ?_
      simp only [handle, tick_ticks]
      refine wp_act.mpr ?_
      simp only [handle, tick_rows]
      split
      · rename_i hnone
        have hnone : ∀ r ∈ s.rows cfg, (r.nativeId == nativeId) = false := by
          have h := List.countP_eq_zero.mp hnone
          exact fun r hr => by simpa using h r hr
        have hsame : rewriteIn nativeId content vector (env.now (s.ticks + 1)) (s.rows cfg) =
            s.rows cfg := Table.updateWhere_none hnone
        have hkept : ((s.tick 1).tick 1).setRows cfg (s.rows cfg) = (s.tick 1).tick 1 :=
          setRows_self
        rw [hsame, hkept]
        rfl
      · rename_i hsome
        obtain ⟨row, hrow, hid⟩ := List.countP_pos_iff.mp (Nat.pos_of_ne_zero hsome)
        have hid : row.nativeId = nativeId := beq_iff_eq.mp hid
        rw [Prog.wp_bind]
        refine Prog.wp_of_run get_run ?_
        have hmem : row.rewritten content vector (env.now (s.ticks + 1)) ∈
            rewriteIn nativeId content vector (env.now (s.ticks + 1)) (s.rows cfg) :=
          Table.mem_updateWhere.mpr ⟨row, hrow, by simp [hid]⟩
        have hfind : (rewriteIn nativeId content vector (env.now (s.ticks + 1)) (s.rows cfg)).find?
            (·.nativeId == nativeId) =
              some (row.rewritten content vector (env.now (s.ticks + 1))) := by
          refine Table.find?_eq_some Row.nativeId (List.mem_singleton_self _) ?_ hmem (by simpa)
          intro a b ha hb
          exact (beq_iff_eq.mp ha).trans (beq_iff_eq.mp hb).symm
        simp only [setRows_rows, hfind, Option.map_some]
        exact ⟨(s.tick 1).tick 1, vector, _, rfl, rfl, row, hrow, hid, rfl⟩

/-- The hits of a search are rows in scope, each under its own score. -/
theorem search_hits {query : SearchQuery} {scope : Scope} :
    (search cfg query scope).wp (handle cfg) (fun r _ => ∀ memories, r = .ok memories →
      ∀ m ∈ memories, ∃ row ∈ s.rows cfg, selects scope row = true ∧
        ∃ score, m = toMemory (some score) row) s := by
  unfold search
  split
  · exact fun _ h => by cases h
  · simp only [Prog.bind_eq, Prog.wp_bind]
    refine wp_act.mpr ?_
    simp only [handle]
    cases cfg.embed s.ticks [query.query] with
    | error e => exact fun _ h => by cases h
    | ok vectors =>
      match vectors with
      | [] => exact fun _ h => by cases h
      | _ :: _ :: _ => exact fun _ h => by cases h
      | [needle] =>
        simp only
        split
        · rename_i hsql
          have hlabels : scope.labels.isEmpty = true := (Bool.and_eq_true_iff.mp hsql).2
          refine Prog.wp_of_run searchInSql_run fun memories h m hm => ?_
          obtain rfl := Except.ok.inj h
          obtain ⟨row, hrow, rfl⟩ := List.mem_map.mp hm
          obtain ⟨hmem, hcond⟩ := Table.mem_select.mp
            ((List.mem_insertionSort _).mp (List.mem_of_mem_take hrow))
          refine ⟨row, hmem, ?_, _, rfl⟩
          rw [selects_of_no_labels hlabels]
          exact (Bool.and_eq_true_iff.mp hcond).1
        · refine Prog.wp_of_run searchInPython_run fun memories h m hm => ?_
          obtain rfl := Except.ok.inj h
          obtain ⟨row, hrow, rfl⟩ := List.mem_map.mp hm
          obtain ⟨hmem, hsel⟩ := mem_rowsOf.mp (List.mem_of_mem_filter
            ((List.mem_insertionSort _).mp (List.mem_of_mem_take hrow)))
          exact ⟨row, hmem, hsel, _, rfl⟩

/-- A call that failed has changed no table. -/
theorem call_error {op : AdapterOp} {e : Exc}
    (h : (adapter env cfg).call op s = (.error e, s')) : s'.tables = s.tables := by
  cases op with
  | ingest episode scope => exact (Prog.of_wp ingest_spec h).tables
  | upsert facts scope => exact (Prog.of_wp upsert_spec h).tables
  | update nativeId content => exact Prog.of_wp update_exact h
  | search query scope => exact (Prog.of_wp search_spec h).1.tables
  | listScope scope limit => cases listScope_run.symm.trans h
  | get nativeId => cases get_run.symm.trans h
  | delete nativeId => cases delete_run.symm.trans h
  | deleteScope scope => cases deleteScope_run.symm.trans h
  | health => cases h

/-- What an upsert answers with are rows of its own, one for each fact. -/
theorem call_upsert_rows {facts : List String} {scope : Scope} {memories : List ProviderMemory}
    (h : (adapter env cfg).call (.upsert facts scope) s = (.ok memories, s')) :
    ∃ fresh, Added env cfg scope s s' fresh ∧ memories = fresh.map (toMemory none) ∧
      (fresh.map Row.nativeId).Nodup ∧ fresh.map Row.content = facts := by
  obtain ⟨fresh, hadded, rfl⟩ := call_upsert h
  have hnodup : ((fresh.map (toMemory none)).map ProviderMemory.nativeId).Nodup :=
    Prog.of_wp (upsert_all_or_none fun _ _ => .inl rfl) h
  have hcontents : (fresh.map (toMemory none)).map ProviderMemory.content = facts :=
    Prog.of_wp upsert_contents h _ rfl
  rw [List.map_map] at hnodup hcontents
  exact ⟨fresh, hadded, rfl, hnodup, hcontents⟩

theorem call_ingest_rows {episode : Episode} {scope : Scope} {memories : List ProviderMemory}
    (h : (adapter env cfg).call (.ingest episode scope) s = (.ok memories, s')) :
    ∃ fresh, Added env cfg scope s s' fresh ∧ memories = fresh.map (toMemory none) ∧
      (fresh.map Row.nativeId).Nodup := by
  have hwp : (ingest env cfg episode scope).wp (handle cfg) (fun r _ => ∀ memories,
      r = .ok memories → (memories.map ProviderMemory.nativeId).Nodup) s := by
    unfold ingest
    cases cfg.extractor with
    | none => exact fun _ h => by cases h
    | some extractor =>
      simp only [Prog.bind_eq, Prog.wp_bind, Prog.pure_eq]
      refine wp_act.mpr ?_
      simp only [handle]
      cases extractor s.ticks episode with
      | error e => exact fun _ h => by cases h
      | ok facts =>
        simp only
        split
        · rintro memories h
          obtain rfl := Except.ok.inj h
          exact List.nodup_nil
        · refine Prog.wp_mono (fun r s' hr memories h => ?_)
            (upsert_all_or_none fun _ _ => .inl rfl)
          subst h
          exact hr
  obtain ⟨fresh, hadded, rfl⟩ := call_ingest h
  have hnodup := Prog.of_wp hwp h _ rfl
  rw [List.map_map] at hnodup
  exact ⟨fresh, hadded, rfl, hnodup⟩

end Memgw.Pgvector
