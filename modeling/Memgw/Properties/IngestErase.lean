-- SUMMARY: When an ingest and an overlapping erasure leave provider, index and journal in agreement.
import Memgw.Gateway.Traces
import Memgw.Properties.SelfHosted

/-!
# An ingest overlapping the erasure of its scope

Both verbs go through the three stores in the same order, and share no transaction:
first the provider, then the index, then the journal. In each of them the one that
comes last decides what is left. The three outcomes agree when the erasure is last
everywhere, or the ingest is; the index has the exception of a row that was live
before under a scope that the erasure does not reach.
-/

namespace Memgw

variable {σ : Type} {env : Env}

/-! ## What an adapter does with scopes -/

/-- Whatever is written under `scope`, the erasure of `wide` is about: `wide` has no
    labels, and leaves open what it does not share with `scope`. -/
structure Scope.Covers (wide scope : Scope) : Prop where
  subject : wide.subject = scope.subject
  agent : dimMatches wide.agent scope.agent = true
  session : dimMatches wide.session scope.session = true
  labels : wide.labels.isEmpty = true

/-- An ingest stores the memories it answers with, and the erasure of a scope that
    covers theirs removes them. -/
structure Adapter.Erases (a : Adapter σ) (holds : σ → String → Prop) : Prop where
  ingest_holds : ∀ (episode : Episode) (scope : Scope) s memories s',
    a.call (.ingest episode scope) s = (.ok memories, s') → ∀ m ∈ memories, holds s' m.nativeId
  deleteScope_gone : ∀ (episode : Episode) (scope : Scope) (t : String) s memories s',
    a.call (.ingest episode (scope.under t)) s = (.ok memories, s') →
      ∀ (wide : Scope) removed s'', wide.Covers scope →
        a.call (.deleteScope (wide.under t)) s' = (.ok removed, s'') →
          ∀ m ∈ memories, ¬ holds s'' m.nativeId

namespace Pgvector

/-- The table has the memory. -/
def State.Holds (cfg : Config) (s : State) (native : String) : Prop :=
  ∃ row ∈ s.rows cfg, row.nativeId = native

theorem adapter_erases {cfg : Config} : (adapter env cfg).Erases (State.Holds cfg) where
  ingest_holds episode scope s memories s' hcall m hm := by
    obtain ⟨fresh, hadded, rfl⟩ := call_ingest hcall
    obtain ⟨row, hrow, rfl⟩ := List.mem_map.mp hm
    exact ⟨row, (hadded.rows row).mpr (.inr hrow), rfl⟩
  deleteScope_gone episode scope t s memories s' hcall wide removed s'' hcovers hdelete m hm := by
    obtain ⟨fresh, hadded, rfl⟩ := call_ingest hcall
    obtain ⟨row, hrow, rfl⟩ := List.mem_map.mp hm
    rintro ⟨row', hrow', hid⟩
    obtain ⟨hmem, hspared⟩ := ((call_deleteScope hdelete).rows row').mp hrow'
    -- the row under the id is the fresh one, which the wide scope selects
    obtain rfl := eq_of_nativeId hmem ((hadded.rows row).mpr (.inr hrow)) hid
    have hfits : (scope.mention t "").Fits row' := (hadded.fresh row' hrow).fits
    have hsel := (hfits.selects_iff rfl hcovers.subject.symm hcovers.agent hcovers.session).mpr
      (Labels.agree_of_isEmpty hcovers.labels)
    cases hspared.symm.trans hsel

end Pgvector

/-! ## What is left -/

/-- The index has a live row for the native id. -/
def Catalog.Indexes (c : Catalog) (t provider native : String) : Prop :=
  ∃ r ∈ c.memoryIndex, r.nativeKey = [t, provider, native] ∧ r.live = true

def Catalog.Journals (c : Catalog) (episodeId : String) : Prop :=
  ∃ j ∈ c.episodeJournal, j.episodeId = episodeId

/-- The memories of an ingest, their index rows and its journal row are all there. -/
def AllPresent (holds : σ → String → Prop) (t provider : String) (memories : List ProviderMemory)
    (episodeId : String) (w : World σ) : Prop :=
  (∀ m ∈ memories, holds w.store m.nativeId ∧ w.catalog.Indexes t provider m.nativeId) ∧
    w.catalog.Journals episodeId

def NonePresent (holds : σ → String → Prop) (t provider : String) (memories : List ProviderMemory)
    (episodeId : String) (w : World σ) : Prop :=
  (∀ m ∈ memories, ¬ holds w.store m.nativeId ∧ ¬ w.catalog.Indexes t provider m.nativeId) ∧
    ¬ w.catalog.Journals episodeId

/-- The index has a live row for the native id where the erasure does not reach. -/
def Catalog.OutOfReach (c : Catalog) (t : String) (wide : Scope) (provider native : String) : Prop :=
  ∃ r ∈ c.memoryIndex, r.nativeKey = [t, provider, native] ∧ r.live = true ∧
    r.inScope t wide provider = false

/-! ## The overlap -/

inductive IngestErase where
  | ingester
  | eraser
  deriving DecidableEq

def ingestAndErase (core : MemoryCore σ) (t : String) (episode : Episode) (scope wide : Scope)
    (asserted asserted' : Option String) : IngestErase → CoreProg σ Reply
  | .ingester => core.exec (.ingest t episode scope asserted)
  | .eraser => core.exec (.deleteScope t wide asserted')

/-- Of the two steps of a kind, the erasure made the first. -/
def ErasedFirst (P : CoreStep σ → Bool) (es : List (Event (@Op.Ans σ) Exc IngestErase)) : Prop :=
  order P es = [.eraser, .ingester]

section

variable {es : List (Event (@Op.Ans σ) Exc IngestErase)} {w : World σ}

/-- Each of the two made one step of a kind. -/
theorem erasedFirst_or {P : CoreStep σ → Bool} {x y : CoreStep σ}
    (hx : (own .ingester es).filter P = [x]) (hy : (own .eraser es).filter P = [y]) :
    (ErasedFirst P es ∧ es.filter (fun e => P e.step) = [⟨.eraser, y⟩, ⟨.ingester, x⟩]) ∨
      ¬ ErasedFirst P es ∧ es.filter (fun e => P e.step) = [⟨.ingester, x⟩, ⟨.eraser, y⟩] := by
  have hwho : ∀ e ∈ es, e.who = .ingester ∨ e.who = .eraser := by
    intro e _
    cases e.who <;> simp
  rcases filter_eq_pair (by simp) hwho hx hy with hpair | hpair
  · exact .inr ⟨by simp [ErasedFirst, order, hpair], hpair⟩
  · exact .inl ⟨by simp [ErasedFirst, order, hpair], hpair⟩

variable {t provider : String} {scope wide : Scope} {memories : List ProviderMemory}

theorem holds_after_iff {holds : σ → String → Prop} {a : Adapter σ} (ha : a.Erases holds)
    (hcovers : wide.Covers scope) (hes : Faithful (handle env) es w) {episode : Episode}
    {removed : Nat}
    (hx : (own .ingester es).filter changesStore =
      [⟨.adapter provider a (.ingest episode (scope.under t)), .ok memories⟩])
    (hy : (own .eraser es).filter changesStore =
      [⟨.adapter provider a (.deleteScope (wide.under t)), .ok removed⟩])
    {m : ProviderMemory} (hm : m ∈ memories) :
    holds (replay (handle env) es w).store m.nativeId ↔ ErasedFirst changesStore es := by
  have hframe : ∀ e ∈ es, changesStore e.step = false → ∀ w : World σ,
      e.step.2 = (handle env e.step.1 w).1 → (handle env e.step.1 w).2.store = w.store :=
    fun e _ hch w _ => store_kept hch
  rcases erasedFirst_or hx hy with ⟨hfirst, hpair⟩ | ⟨hfirst, hpair⟩
  · obtain ⟨w₁, w₂, -, -, -, hans, hfinal⟩ := replay_pair (f := World.store) hes hframe hpair
    rw [hfinal]
    exact iff_of_true (ha.ingest_holds episode _ w₂.store memories _ (Prod.ext hans.symm rfl) m hm)
      hfirst
  · obtain ⟨w₁, w₂, -, hans₁, hbetween, hans₂, hfinal⟩ :=
      replay_pair (f := World.store) hes hframe hpair
    rw [hfinal]
    have hbetween : w₂.store = (a.call (.ingest episode (scope.under t)) w₁.store).2 := hbetween
    have hdelete : a.call (.deleteScope (wide.under t)) w₂.store =
        (.ok removed, (a.call (.deleteScope (wide.under t)) w₂.store).2) := Prod.ext hans₂.symm rfl
    exact iff_of_false (ha.deleteScope_gone episode scope t w₁.store memories w₂.store
      (Prod.ext hans₁.symm hbetween.symm) wide removed _ hcovers hdelete m hm) hfirst

theorem indexes_after_iff (hcovers : wide.Covers scope) (hes : Faithful (handle env) es w)
    {rows : List CatalogRow} {marked : Nat}
    (hx : (own .ingester es).filter changesIndex =
      [⟨.catalog (.mapAttempt t provider (hitItems memories) scope true), .ok rows⟩])
    (hy : (own .eraser es).filter changesIndex =
      [⟨.catalog (.markScopeDeleted t wide provider), .ok marked⟩])
    {m : ProviderMemory} (hm : m ∈ memories) :
    (replay (handle env) es w).catalog.Indexes t provider m.nativeId ↔
      ErasedFirst changesIndex es ∨ w.catalog.OutOfReach t wide provider m.nativeId := by
  have hframe : ∀ e ∈ es, changesIndex e.step = false → ∀ w : World σ,
      e.step.2 = (handle env e.step.1 w).1 →
        (handle env e.step.1 w).2.catalog.memoryIndex = w.catalog.memoryIndex :=
    fun e _ hch w hans => memoryIndex_kept hch hans
  have hn : m.nativeId ∈ (hitItems memories).map Prod.fst := by
    simpa [hitItems] using ⟨m, hm, rfl⟩
  rcases erasedFirst_or hx hy with ⟨hfirst, hpair⟩ | ⟨hfirst, hpair⟩
  · obtain ⟨w₁, w₂, -, -, -, hans, hfinal⟩ :=
      replay_pair (f := fun w => w.catalog.memoryIndex) hes hframe hpair
    obtain ⟨r, hr, hkey, hlive, -⟩ := (mapAttempt_ok (Prod.ext hans.symm rfl)).written hn
    exact iff_of_true ⟨r, hfinal ▸ hr, hkey, hlive⟩ (.inl hfirst)
  · obtain ⟨w₁, w₂, hstart, hans, hbetween, -, hfinal⟩ :=
      replay_pair (f := fun w => w.catalog.memoryIndex) hes hframe hpair
    have hmap := mapAttempt_ok (Prod.ext hans.symm rfl)
    obtain ⟨r, hr, hkey, hlive, hold⟩ := hmap.written hn
    have hmem : ∀ r', r' ∈ (replay (handle env) es w).catalog.memoryIndex ↔
        ∃ r₀ ∈ (mapAttempt env t provider (hitItems memories) scope true w₁.catalog).2.memoryIndex,
          r' = if r₀.inScope t wide provider then r₀.deleted (env.now w₂.catalog.ticks) else r₀ := by
      intro r'
      have hbetween : w₂.catalog.memoryIndex =
        (mapAttempt env t provider (hitItems memories) scope true w₁.catalog).2.memoryIndex := hbetween
      rw [hfinal, ← hbetween]
      exact mem_bury
    rw [or_iff_right hfirst]
    constructor
    · rintro ⟨r', hr', hkey', hlive'⟩
      obtain ⟨r₀, h₀, rfl⟩ := (hmem r').mp hr'
      cases hin : r₀.inScope t wide provider with
      | true => simp [hin] at hlive'
      | false =>
        simp only [hin, if_neg Bool.false_ne_true] at hkey'
        obtain rfl : r₀ = r :=
          Table.eq_of_key IndexRow.nativeKey (by simp [indexKeys]) h₀ hr (hkey'.trans hkey.symm)
        rcases hold with hold | ⟨hsubject, hagent, hsession⟩
        · exact ⟨r₀, hstart ▸ hold, hkey, hlive, hin⟩
        · -- a row under the scope of the write is within reach
          obtain ⟨ht, hp, -⟩ :
              r₀.tenantId = t ∧ r₀.provider = provider ∧ r₀.nativeId = m.nativeId := by
            simpa [IndexRow.nativeKey] using hkey
          have hreach : r₀.inScope t wide provider = true := by
            refine IndexRow.inScope_iff.mpr
              ⟨ht, hp, hsubject.trans hcovers.subject.symm, hlive, ?_, ?_⟩
            · exact hagent ▸ hcovers.agent
            · exact hsession ▸ hcovers.session
          cases hin.symm.trans hreach
    · rintro ⟨r₀, h₀, hkey₀, hlive₀, hout⟩
      obtain ⟨r₁, h₁, -, -, -, -, hsame⟩ := hmap.survives (hstart.symm ▸ h₀)
      obtain rfl := hsame hlive₀
      exact ⟨r₁, (hmem r₁).mpr ⟨r₁, h₁, by simp [hout]⟩, hkey₀, hlive₀⟩

theorem journals_after_iff (hcovers : wide.Covers scope) (hes : Faithful (handle env) es w)
    {episode : Episode} {ingested : List (String × List String)} {id : String} {erased : Nat}
    (hx : (own .ingester es).filter changesJournal =
      [⟨.catalog (.journal t scope episode ingested), .ok id⟩])
    (hy : (own .eraser es).filter changesJournal =
      [⟨.catalog (.deleteJournal t wide), .ok erased⟩]) :
    (replay (handle env) es w).catalog.Journals id ↔ ErasedFirst changesJournal es := by
  have hframe : ∀ e ∈ es, changesJournal e.step = false → ∀ w : World σ,
      e.step.2 = (handle env e.step.1 w).1 →
        (handle env e.step.1 w).2.catalog.episodeJournal = w.catalog.episodeJournal :=
    fun e _ hch w hans => episodeJournal_kept hch hans
  rcases erasedFirst_or hx hy with ⟨hfirst, hpair⟩ | ⟨hfirst, hpair⟩
  · obtain ⟨w₁, w₂, -, -, -, hans, hfinal⟩ :=
      replay_pair (f := fun w => w.catalog.episodeJournal) hes hframe hpair
    have hrow := ((mem_journal hans.symm).2 _).mpr (.inr rfl)
    exact iff_of_true ⟨_, hfinal ▸ hrow, rfl⟩ hfirst
  · obtain ⟨w₁, w₂, -, hans, hbetween, -, hfinal⟩ :=
      replay_pair (f := fun w => w.catalog.episodeJournal) hes hframe hpair
    refine iff_of_false ?_ hfirst
    rintro ⟨j, hj, hid⟩
    rw [hfinal] at hj
    obtain ⟨hmem, hout⟩ := mem_deleteJournal.mp hj
    rw [hbetween] at hmem
    -- the row under the id is the one that was journalled, which the erasure selects
    have hrow := ((mem_journal hans.symm).2 _).mpr (.inr rfl)
    obtain rfl := Table.eq_of_key (fun j : JournalRow => [j.episodeId]) (by simp [journalKeys]) hmem
      hrow (congrArg (fun id => [id]) hid)
    exact Bool.false_ne_true (hout.symm.trans (JournalRow.inScope_iff.mpr
      ⟨rfl, hcovers.subject.symm, hcovers.agent, hcovers.session⟩))

end

/-- What one of a program's steps of a kind is, when it made only one. -/
theorem mem_filter_own {ι : Type} [DecidableEq ι] {P : CoreStep σ → Bool} {i : ι}
    {x st : CoreStep σ} {es : List (Event (@Op.Ans σ) Exc ι)} (hown : (own i es).filter P = [x])
    (hst : ⟨i, st⟩ ∈ es) (hP : P st = true) : st = x :=
  List.mem_singleton.mp (hown ▸ List.mem_filter.mpr ⟨mem_own.mpr hst, hP⟩)

/-- What an ingest that returned has changed: the store once, the index once for a page
    that is not empty, and the journal where it journalled. -/
theorem ingest_changes {core : MemoryCore σ} {t : String} {episode : Episode} {scope : Scope}
    {asserted : Option String} {steps : List (CoreStep σ)} {reply : Reply}
    (h : (core.exec (.ingest t episode scope asserted)).Ends steps (.ok reply)) :
    ∃ name a memories rows journals, JournalSteps core t scope episode name memories journals ∧
      steps.filter changesStore =
        [⟨.adapter name a (.ingest episode (scope.under t)), .ok memories⟩] ∧
      (memories ≠ [] → steps.filter changesIndex =
        [⟨.catalog (.mapAttempt t name (hitItems memories) scope true), .ok rows⟩]) ∧
      steps.filter changesJournal = journals.filter changesJournal := by
  obtain ⟨bound, name, a, memories, rows, page, binds, journals, -, -, hpage, hbinds, hjournals, -,
    hsteps⟩ := ingest_traces _ _ h
  refine ⟨name, a, memories, rows, journals, hjournals, ?_, fun hkeeps => ?_, ?_⟩
  · have hpage := hpage.filter (P := changesStore) fun _ => rfl
    have hbinds := hbinds.filter (P := changesStore) (fun _ => rfl) fun _ => rfl
    have hjournals := hjournals.filter (P := changesStore) fun _ => rfl
    rw [← filter_dataSteps fun _ h => (changes_nothing h).2.2, hsteps]
    simp [List.filter_cons, changesStore, hpage, hbinds, hjournals]
  · have hpage := hpage.filter (P := changesIndex) fun _ => rfl
    have hbinds := hbinds.filter (P := changesIndex) (fun r => by cases r <;> rfl)
      fun r => by cases r <;> rfl
    have hjournals := hjournals.filter (P := changesIndex) fun r => by cases r <;> rfl
    rw [← filter_dataSteps fun _ h => (changes_nothing h).1, hsteps]
    simp [List.filter_cons, changesIndex, CatalogOp.writesIndex, hpage, hbinds, hjournals, hkeeps]
  · have hpage := hpage.filter (P := changesJournal) fun _ => rfl
    have hbinds := hbinds.filter (P := changesJournal) (fun r => by cases r <;> rfl)
      fun r => by cases r <;> rfl
    rw [← filter_dataSteps fun _ h => (changes_nothing h).2.1, hsteps]
    simp [changesJournal, CatalogOp.writesJournal, hpage, hbinds]

/-- An episode that was journalled was journalled once. -/
theorem JournalSteps.journalled {core : MemoryCore σ} {t : String} {episode : Episode}
    {scope : Scope} {name episodeId : String} {memories : List ProviderMemory}
    {journals : List (CoreStep σ)} (h : JournalSteps core t scope episode name memories journals)
    (hmem : ⟨.catalog (.journal t scope episode (ingestedTo name memories)), .ok episodeId⟩ ∈
      journals) : journals.filter changesJournal =
        [⟨.catalog (.journal t scope episode (ingestedTo name memories)), .ok episodeId⟩] := by
  unfold JournalSteps at h
  split at h
  · obtain ⟨id, rfl⟩ := h
    rw [List.mem_singleton.mp hmem]
    rfl
  · simp [h] at hmem

/-- What an erasure that returned has changed: the store, the index and the journal once each. -/
theorem deleteScope_changes {core : MemoryCore σ} {t : String} {scope : Scope}
    {asserted : Option String} {steps : List (CoreStep σ)} {reply : Reply}
    (h : (core.exec (.deleteScope t scope asserted)).Ends steps (.ok reply)) :
    ∃ name a removed marked erased,
      steps.filter changesStore =
        [⟨.adapter name a (.deleteScope (scope.under t)), .ok removed⟩] ∧
      steps.filter changesIndex = [⟨.catalog (.markScopeDeleted t scope name), .ok marked⟩] ∧
      steps.filter changesJournal = [⟨.catalog (.deleteJournal t scope), .ok erased⟩] := by
  obtain ⟨bound, name, a, removed, marked, erased, -, -, hsteps⟩ := deleteScope_traces _ _ h
  refine ⟨name, a, removed, marked, erased, ?_, ?_, ?_⟩
  · rw [← filter_dataSteps fun _ h => (changes_nothing h).2.2, hsteps]
    rfl
  · rw [← filter_dataSteps fun _ h => (changes_nothing h).1, hsteps]
    rfl
  · rw [← filter_dataSteps fun _ h => (changes_nothing h).2.1, hsteps]
    rfl

/-- All of an ingest is left, or none of it, exactly when the erasure made the first of
    their two steps in every store, or in none. In the index a memory that was live out
    of the erasure's reach counts as if the erasure had been first. -/
theorem ingest_erase_agree_iff (env : Env) (core : MemoryCore σ) (t : String) (episode : Episode)
    (scope wide : Scope) (asserted asserted' : Option String) (hcovers : wide.Covers scope)
    (w w' : World σ) (es : List (Event (@Op.Ans σ) Exc IngestErase))
    (pool' : IngestErase → CoreProg σ Reply) (written erased : Reply)
    (hrun : Exec (handle env) (ingestAndErase core t episode scope wide asserted asserted') w es pool'
      w')
    (hwritten : pool' .ingester = .ret written) (herased : pool' .eraser = .ret erased)
    (provider : String) (a : Adapter σ) (holds : σ → String → Prop) (ha : a.Erases holds)
    (memories : List ProviderMemory) (removed : Nat) (episodeId : String)
    (hstored : ⟨.ingester, ⟨.adapter provider a (.ingest episode (scope.under t)), .ok memories⟩⟩ ∈ es)
    (hkeeps : memories ≠ [])
    (hjournalled : ⟨.ingester, ⟨.catalog (.journal t scope episode (ingestedTo provider memories)),
      .ok episodeId⟩⟩ ∈ es)
    (hremoved : ⟨.eraser, ⟨.adapter provider a (.deleteScope (wide.under t)), .ok removed⟩⟩ ∈ es) :
    (AllPresent holds t provider memories episodeId w' ∨
        NonePresent holds t provider memories episodeId w') ↔
      (ErasedFirst changesStore es ∧ ErasedFirst changesJournal es ∧ ∀ m ∈ memories,
        ErasedFirst changesIndex es ∨ w.catalog.OutOfReach t wide provider m.nativeId) ∨
      (¬ ErasedFirst changesStore es ∧ ¬ ErasedFirst changesJournal es ∧ ∀ m ∈ memories,
        ¬ (ErasedFirst changesIndex es ∨ w.catalog.OutOfReach t wide provider m.nativeId)) := by
  have hes := hrun.faithful
  obtain rfl := hrun.replay
  -- one step of each kind from each verb
  obtain ⟨name, a₁, memories₁, rows, journals, hjournals, hstoreI, hindexI, hjournalI⟩ :=
    ingest_changes (hrun.returned hwritten)
  obtain ⟨name', a₂, removed₂, marked, erased₂, hstoreE, hindexE, hjournalE⟩ :=
    deleteScope_changes (hrun.returned herased)
  cases mem_filter_own hstoreI hstored rfl
  cases mem_filter_own hstoreE hremoved rfl
  have hindexI := hindexI hkeeps
  have hmem : ⟨.catalog (.journal t scope episode (ingestedTo provider memories)),
      .ok episodeId⟩ ∈ journals :=
    (List.mem_filter.mp (hjournalI ▸ List.mem_filter.mpr ⟨mem_own.mpr hjournalled, rfl⟩)).1
  have hjournalI := hjournalI.trans (hjournals.journalled hmem)
  have hholds (m) (hm : m ∈ memories) := holds_after_iff ha hcovers hes hstoreI hstoreE hm
  have hindexes (m) (hm : m ∈ memories) := indexes_after_iff hcovers hes hindexI hindexE hm
  have hjournal := journals_after_iff hcovers hes hjournalI hjournalE
  obtain ⟨m₀, hm₀⟩ := List.exists_mem_of_ne_nil _ hkeeps
  constructor
  · rintro (⟨hall, hj⟩ | ⟨hnone, hj⟩)
    · exact .inl ⟨(hholds m₀ hm₀).mp (hall m₀ hm₀).1, hjournal.mp hj,
        fun m hm => (hindexes m hm).mp (hall m hm).2⟩
    · exact .inr ⟨mt (hholds m₀ hm₀).mpr (hnone m₀ hm₀).1, mt hjournal.mpr hj,
        fun m hm => mt (hindexes m hm).mpr (hnone m hm).2⟩
  · rintro (⟨hstore, hj, hindex⟩ | ⟨hstore, hj, hindex⟩)
    · exact .inl ⟨fun m hm => ⟨(hholds m hm).mpr hstore, (hindexes m hm).mpr (hindex m hm)⟩,
        hjournal.mpr hj⟩
    · exact .inr ⟨fun m hm => ⟨mt (hholds m hm).mp hstore, mt (hindexes m hm).mp (hindex m hm)⟩,
        mt hjournal.mp hj⟩

/-! ## A transcript that outlives its erasure -/

def ingestErased (sched : List IngestErase) :
    List (Event (@Op.Ans Pgvector.State) Exc IngestErase) ×
      (IngestErase → CoreProg Pgvector.State Reply) × World Pgvector.State :=
  play (handle .counting) sched
    (ingestAndErase plainGateway "a" teaEpisode userScope userScope none none)
    { catalog := {}, store := {} }

/-- The erasure runs between the ingest's binding and its journal. -/
def eraseBeforeJournal : List IngestErase :=
  .replicate 4 .ingester ++ .replicate 5 .eraser ++ .replicate 2 .ingester

/-- The one memory of the ingest. -/
def teaMemory : ProviderMemory where
  nativeId := "pvII"
  content := "tea"
  createdAt := some 2
  updatedAt := some 2
  raw := [("adapter", .str "pgvector")]

/-- What the ingest has left of its memory and of its transcript. -/
def TeaAgrees (episodeId : String) (w : World Pgvector.State) : Prop :=
  AllPresent (Pgvector.State.Holds (.plain "memories")) "a" "pg" [teaMemory] episodeId w ∨
    NonePresent (Pgvector.State.Holds (.plain "memories")) "a" "pg" [teaMemory] episodeId w

theorem transcript_outlives_erasure :
    ∃ es pool' w' written erased, Exec (handle .counting)
      (ingestAndErase plainGateway "a" teaEpisode userScope userScope none none)
        { catalog := {}, store := {} } es pool' w' ∧
      pool' .ingester = .ret written ∧ pool' .eraser = .ret erased ∧
      ⟨.ingester, ⟨.catalog (.journal "a" userScope teaEpisode (ingestedTo "pg" [teaMemory])),
        .ok "epIII"⟩⟩ ∈ es ∧ ¬ TeaAgrees "epIII" w' := by
  refine ⟨_, _, _, _, _, play_exec eraseBeforeJournal _ _, rfl, rfl,
    List.mem_of_getElem? (i := 9) rfl, ?_⟩
  rintro (⟨hall, -⟩ | ⟨-, hnone⟩)
  · have hgone : ((ingestErased eraseBeforeJournal).2.2.store.tables "memories").rows = [] := by
      decide
    obtain ⟨⟨row, hrow, -⟩, -⟩ := hall teaMemory (List.mem_singleton_self _)
    have hrow : row ∈ ((ingestErased eraseBeforeJournal).2.2.store.tables "memories").rows := hrow
    rw [hgone] at hrow
    cases hrow
  · have hleft : ∃ j ∈ (ingestErased eraseBeforeJournal).2.2.catalog.episodeJournal.rows,
        j.episodeId = "epIII" := by decide
    exact hnone hleft

/-- The erasure comes after the ingest. -/
def eraseAfterwards : List IngestErase := .replicate 7 .ingester ++ .replicate 6 .eraser

theorem erased_afterwards_agrees : TeaAgrees "epII" (ingestErased eraseAfterwards).2.2 := by
  have hlate : ¬ ErasedFirst changesStore (ingestErased eraseAfterwards).1 ∧
      ¬ ErasedFirst changesJournal (ingestErased eraseAfterwards).1 ∧
      ¬ ErasedFirst changesIndex (ingestErased eraseAfterwards).1 := by
    unfold ErasedFirst
    decide
  have hjournalled : ⟨.ingester, ⟨.catalog (.journal "a" userScope teaEpisode
      (ingestedTo "pg" [teaMemory])), .ok "epII"⟩⟩ ∈ (ingestErased eraseAfterwards).1 :=
    List.mem_of_getElem? (i := 4) rfl
  have hremoved : ⟨.eraser, ⟨.adapter "pg" (Pgvector.adapter .counting (.plain "memories"))
      (.deleteScope (userScope.under "a")), .ok 1⟩⟩ ∈ (ingestErased eraseAfterwards).1 :=
    List.mem_of_getElem? (i := 7) rfl
  refine (ingest_erase_agree_iff .counting plainGateway "a" teaEpisode userScope userScope none none
    ⟨rfl, rfl, rfl, rfl⟩ { catalog := {}, store := {} } _ _ _ _ _ (play_exec eraseAfterwards _ _) rfl
    rfl "pg" _ _ Pgvector.adapter_erases [teaMemory] 1 "epII" (List.mem_of_getElem? (i := 1) rfl)
    (by simp) hjournalled hremoved).mpr (.inr ⟨hlate.1, hlate.2.1, fun m _ => ?_⟩)
  rintro (h | ⟨r, hr, -⟩)
  · exact hlate.2.2 h
  · exact Table.not_mem_empty hr

end Memgw
