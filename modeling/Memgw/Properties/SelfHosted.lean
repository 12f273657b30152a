-- SUMMARY: The invariant of runs over the self-hosted adapter: what the catalog mentions fits the rows of the tables.
import Memgw.Adapters.PgvectorCalls
import Memgw.Gateway.Runs

/-!
# Runs over the self-hosted adapter

The calls that take a native id filter on nothing else, so what keeps them within a
tenant is where the id came from. The catalog mentions an id, in its index or in
its journal, together with a tenant and a scope; the invariant is that any row with
that id belongs to them. It rests on ids being new: a row that appears later never
has an id that the catalog already mentions.
-/

namespace Memgw

open Pgvector

variable {env : Env} {w : World State} {s' : State}

/-! ## Mentions -/

/-- A native id that the catalog holds under a tenant and a scope. -/
structure Mention where
  tenant : String
  subject : Subject
  agent : Option Dim
  session : Option Dim
  nativeId : String

def IndexRow.mention (r : IndexRow) : Mention where
  tenant := r.tenantId
  subject := r.subject
  agent := r.agent
  session := r.session
  nativeId := r.nativeId

def JournalRow.mention (j : JournalRow) (nativeId : String) : Mention where
  tenant := j.tenantId
  subject := j.subject
  agent := j.agent
  session := j.session
  nativeId := nativeId

inductive Catalog.Mentions (c : Catalog) : Mention → Prop where
  | index {r : IndexRow} (hr : r ∈ c.memoryIndex) : Mentions c r.mention
  | journal {j : JournalRow} {provider : String} {natives : List String} {n : String}
      (hj : j ∈ c.episodeJournal) (hto : (provider, natives) ∈ j.ingestedTo) (hn : n ∈ natives) :
      Mentions c (j.mention n)

/-- A native id under the tenant and the scope of a call. -/
def Scope.mention (scope : Scope) (tenant nativeId : String) : Mention where
  tenant := tenant
  subject := scope.subject
  agent := scope.agent
  session := scope.session
  nativeId := nativeId

/-- The row may stand behind the mention: it has what the mention sets. -/
structure Mention.Fits (m : Mention) (row : Row) : Prop where
  tenant : m.tenant ≠ "" → row.tenant = some m.tenant
  subject : row.subject = m.subject
  agent : dimMatches m.agent row.agent = true
  session : dimMatches m.session row.session = true

theorem Mention.Fits.same {m : Mention} {a b : Row} (h : m.Fits a) (hab : a.Same b) : m.Fits b where
  tenant hne := hab.tenant ▸ h.tenant hne
  subject := hab.subject ▸ h.subject
  agent := hab.agent ▸ h.agent
  session := hab.session ▸ h.session

theorem dimMatches_refl {d : Option Dim} : dimMatches d d = true := by
  cases d <;> simp

/-- A row that a scope selects fits whatever is mentioned under that scope. -/
theorem Pgvector.fits_of_selects {scope : Scope} {t n : String} {row : Row}
    (h : selects (scope.under t) row = true) : (scope.mention t n).Fits row := by
  obtain ⟨hcond, -⟩ := Bool.and_eq_true_iff.mp h
  obtain ⟨hsubject, htenant, hagent, hsession⟩ := conditions_iff.mp hcond
  exact ⟨fun ht => htenant t (scope.under_tenant? ht), hsubject, hagent, hsession⟩

theorem Pgvector.Row.Fresh.fits {scope : Scope} {t n : String} {row : Row} {k k' : Nat}
    (h : row.Fresh env (scope.under t) k k') : (scope.mention t n).Fits row where
  tenant _ := h.tenant
  subject := h.subject
  agent := h.agent ▸ dimMatches_refl
  session := h.session ▸ dimMatches_refl

theorem dimMatches_trans {asked stored stored' : Option Dim} (h : dimMatches asked stored = true)
    (h' : dimMatches stored stored' = true) : dimMatches asked stored' = true := by
  cases asked with
  | none => rfl
  | some d =>
    obtain rfl := dimMatches_some.mp h
    exact h'

/-- But for its labels, a row that fits a mention is selected by every scope that
    selects the mention. -/
theorem Mention.Fits.selects_iff {m : Mention} {row : Row} {scope : Scope} {t : String}
    (h : m.Fits row) (ht : m.tenant = t) (hsubject : m.subject = scope.subject)
    (hagent : dimMatches scope.agent m.agent = true)
    (hsession : dimMatches scope.session m.session = true) :
    selects (scope.under t) row = true ↔ row.labels.agree scope.labels = true := by
  have hcond : conditions (scope.under t) row = true := by
    refine conditions_iff.mpr ⟨h.subject.trans hsubject, fun tenant htenant => ?_,
      dimMatches_trans hagent h.agent, dimMatches_trans hsession h.session⟩
    obtain ⟨heq, hne⟩ := Option.filter_eq_some_iff.mp htenant
    obtain rfl := (Option.some.inj heq).symm.trans ht.symm
    exact h.tenant (by simpa using hne)
  rw [selects, hcond, Bool.true_and]
  rfl

/-! ## The invariant -/

/-- The id is one of the first that the tables' supply has yielded. -/
def MintedBelow (env : Env) (k : Nat) (nativeId : String) : Prop :=
  ∃ i < k, nativeId = env.newId "pv" i

structure SelfHosted (env : Env) (w : World State) : Prop where
  minted : ∀ table, ∀ row ∈ w.store.tables table, MintedBelow env w.store.ticks row.nativeId
  /-- An id stands for one memory, in one of the tables. -/
  one : ∀ table, ∀ row ∈ w.store.tables table, ∀ table', ∀ row' ∈ w.store.tables table',
    row.nativeId = row'.nativeId → table = table' ∧ row.Same row'
  mention_minted : ∀ m, w.catalog.Mentions m → MintedBelow env w.store.ticks m.nativeId
  mention_fits : ∀ m, w.catalog.Mentions m → ∀ table, ∀ row ∈ w.store.tables table,
    row.nativeId = m.nativeId → m.Fits row

theorem SelfHosted.empty : SelfHosted env { catalog := {}, store := {} } where
  minted _ _ hrow := absurd hrow Table.not_mem_empty
  one _ _ hrow := absurd hrow Table.not_mem_empty
  mention_minted m hm := by
    cases hm with
    | index hr => exact absurd hr Table.not_mem_empty
    | journal hj _ _ => exact absurd hj Table.not_mem_empty
  mention_fits m hm := by
    cases hm with
    | index hr => exact absurd hr Table.not_mem_empty
    | journal hj _ _ => exact absurd hj Table.not_mem_empty

theorem MintedBelow.mono {k k' : Nat} {n : String} (h : MintedBelow env k n) (hk : k ≤ k') :
    MintedBelow env k' n := by
  obtain ⟨i, hi, hn⟩ := h
  exact ⟨i, hi.trans_le hk, hn⟩

/-- A fresh id is none of those that were yielded before. -/
theorem Pgvector.Row.Fresh.not_minted {scope : Scope} {k k' : Nat} {row : Row}
    (h : row.Fresh env scope k k') : ¬ MintedBelow env k row.nativeId := by
  rintro ⟨i, hi, hn⟩
  obtain ⟨i', hki', -, hn'⟩ := h.minted
  have : i = i' := env.newId_injective "pv" (hn.symm.trans hn')
  omega

/-- The tables evolve under one call, and what the catalog newly mentions is behind
    some row that it fits. -/
theorem SelfHosted.step {cfg : Config} {op : AdapterOp} {c' : Catalog} (h : SelfHosted env w)
    (hev : Evolves env cfg op w.store s')
    (hcat : ∀ m, c'.Mentions m → w.catalog.Mentions m ∨
      ∃ table, ∃ row ∈ s'.tables table, row.nativeId = m.nativeId ∧ m.Fits row) :
    SelfHosted env { catalog := c', store := s' } := by
  have hminted : ∀ table, ∀ row ∈ s'.tables table, MintedBelow env s'.ticks row.nativeId := by
    intro table row hrow
    rcases hev.origin table row hrow with ⟨row₀, h₀, hsame⟩ | ⟨-, scope, -, hfresh⟩
    · exact hsame.nativeId ▸ (h.minted table row₀ h₀).mono hev.ticks
    · obtain ⟨i, -, hi, hn⟩ := hfresh.minted
      exact ⟨i, hi, hn⟩
  have hone : ∀ table, ∀ row ∈ s'.tables table, ∀ table', ∀ row' ∈ s'.tables table',
      row.nativeId = row'.nativeId → table = table' ∧ row.Same row' := by
    intro table row hrow table' row' hrow' hid
    rcases hev.origin table row hrow with ⟨row₀, h₀, hsame⟩ | ⟨htable, scope, hop, hfresh⟩ <;>
      rcases hev.origin table' row' hrow' with ⟨row₁, h₁, hsame'⟩ | ⟨htable', scope', hop', hfresh'⟩
    · have hid₀ := (hsame.nativeId.trans hid).trans hsame'.nativeId.symm
      obtain ⟨htable, hsame₀⟩ := h.one table row₀ h₀ table' row₁ h₁ hid₀
      exact ⟨htable, (hsame.symm.trans hsame₀).trans hsame'⟩
    · refine absurd ?_ hfresh'.not_minted
      exact hid ▸ hsame.nativeId ▸ h.minted table row₀ h₀
    · refine absurd ?_ hfresh.not_minted
      exact hid ▸ hsame'.nativeId ▸ h.minted table' row₁ h₁
    · obtain rfl := Option.some.inj (hop.symm.trans hop')
      exact ⟨htable.trans htable'.symm, hid, hfresh.tenant.trans hfresh'.tenant.symm,
        hfresh.subject.trans hfresh'.subject.symm, hfresh.agent.trans hfresh'.agent.symm,
        hfresh.session.trans hfresh'.session.symm, hfresh.labels.trans hfresh'.labels.symm⟩
  refine ⟨hminted, hone, fun m hm => ?_, fun m hm table row hrow hid => ?_⟩
  · rcases hcat m hm with hold | ⟨table, row, hrow, hid, -⟩
    · exact (h.mention_minted m hold).mono hev.ticks
    · exact hid ▸ hminted table row hrow
  · rcases hcat m hm with hold | ⟨table', row', hrow', hid', hfits⟩
    · -- an id that was mentioned before is no fresh one
      rcases hev.origin table row hrow with ⟨row₀, h₀, hsame⟩ | ⟨-, scope, -, hfresh⟩
      · exact (h.mention_fits m hold table row₀ h₀ (hsame.nativeId.trans hid)).same hsame
      · exact absurd (hid ▸ h.mention_minted m hold) hfresh.not_minted
    · exact hfits.same (hone table' row' hrow' table row hrow (hid'.trans hid.symm)).2

/-! ## What the transactions newly mention -/

theorem Catalog.Mentions.still {c c' : Catalog} (h : c.Still c') {m : Mention} (hm : c'.Mentions m) :
    c.Mentions m := by
  cases hm with
  | index hr => exact .index (h.index ▸ hr)
  | journal hj hto hn => exact .journal (h.journal ▸ hj) hto hn

theorem Catalog.Mentions.mapped {c c' : Catalog} {tenant provider : String}
    {items : List (String × String)} {scope : Scope} {revive : Bool} {rows : List CatalogRow}
    (h : Mapped env tenant provider items scope revive c rows c') {m : Mention} (hm : c'.Mentions m) :
    c.Mentions m ∨ ∃ n ∈ items.map Prod.fst, m = scope.mention tenant n := by
  cases hm with
  | journal hj hto hn => exact .inl (.journal (h.journal ▸ hj) hto hn)
  | @index r hr =>
    obtain ⟨now, fresh, hindex, hfresh⟩ := h.index
    rcases (hindex r).mp hr with ⟨r₀, h₀, rfl⟩ | hr
    · split
      · rename_i hb
        simp only [IndexRow.buried, Bool.and_eq_true, IndexRow.doomed_iff] at hb
        obtain ⟨-, ⟨rfl, -, hn⟩, -⟩ := hb
        exact .inr ⟨r₀.nativeId, hn, rfl⟩
      · exact .inl (.index h₀)
    · have hf := hfresh r hr
      obtain ⟨item, hitem, hn, -⟩ := hf.item
      refine .inr ⟨item.1, List.mem_map_of_mem hitem, ?_⟩
      simp [IndexRow.mention, Scope.mention, hf.named_tenant, hf.subject, hf.agent, hf.session, hn]

theorem Catalog.Mentions.bury {c : Catalog} {p : IndexRow → Bool} {m : Mention}
    (hm : (bury env p c).Mentions m) : c.Mentions m := by
  cases hm with
  | journal hj hto hn => exact .journal hj hto hn
  | @index r hr =>
    obtain ⟨r₀, h₀, rfl⟩ := mem_bury.mp hr
    have hsame : (if p r₀ then r₀.deleted (env.now c.ticks) else r₀).mention = r₀.mention := by
      split <;> rfl
    exact hsame ▸ .index h₀

theorem Catalog.Mentions.deleteJournal {c : Catalog} {tenant : String} {scope : Scope} {m : Mention}
    (hm : (deleteJournal tenant scope c).2.Mentions m) : c.Mentions m := by
  cases hm with
  | index hr => exact .index hr
  | journal hj hto hn => exact .journal (mem_deleteJournal.mp hj).1 hto hn

theorem Catalog.Mentions.of_eq {c c' : Catalog} (hindex : c'.memoryIndex = c.memoryIndex)
    (hjournal : c'.episodeJournal = c.episodeJournal) {m : Mention} (hm : c'.Mentions m) :
    c.Mentions m := by
  cases hm with
  | index hr => exact .index (hindex ▸ hr)
  | journal hj hto hn => exact .journal (hjournal ▸ hj) hto hn

theorem Catalog.Mentions.journalled {c : Catalog} {tenant name : String} {scope : Scope}
    {payload : Episode} {memories : List ProviderMemory} {m : Mention}
    (hm : (Memgw.journal env tenant scope payload (ingestedTo name memories) c).2.Mentions m) :
    c.Mentions m ∨ ∃ memory ∈ memories, m = scope.mention tenant memory.nativeId := by
  cases hx : (Memgw.journal env tenant scope payload (ingestedTo name memories) c).1 with
  | error e => exact .inl (hm.of_eq journal_memoryIndex (journal_error hx))
  | ok id =>
    cases hm with
    | index hr => exact .inl (.index (journal_memoryIndex ▸ hr))
    | journal hj hto hn =>
      rcases ((mem_journal hx).2 _).mp hj with hj | rfl
      · exact .inl (.journal hj hto hn)
      · obtain ⟨-, rfl⟩ := Prod.mk.inj (List.mem_singleton.mp hto)
        obtain ⟨memory, hmemory, rfl⟩ := List.mem_map.mp hn
        exact .inr ⟨memory, hmemory, rfl⟩

/-! ## Along a run -/

/-- Every provider of the gateway is a self-hosted adapter. -/
def MemoryCore.OverPgvector (env : Env) (core : MemoryCore State) : Prop :=
  ∀ name a, core.adapter name = .ok a → ∃ cfg, a = Pgvector.adapter env cfg

/-- Behind the id there is a row that fits it under the scope. -/
def Pgvector.State.Backs (s : State) (t : String) (scope : Scope) (n : String) : Prop :=
  ∃ table, ∃ row ∈ s.tables table, row.nativeId = n ∧ (scope.mention t n).Fits row

theorem Pgvector.Added.backs {cfg : Config} {s : State} {t : String} {scope : Scope}
    {fresh : List Row} (h : Added env cfg (scope.under t) s s' fresh) {memory : ProviderMemory}
    (hm : memory ∈ fresh.map (toMemory none)) : s'.Backs t scope memory.nativeId := by
  obtain ⟨row, hrow, rfl⟩ := List.mem_map.mp hm
  exact ⟨cfg.table, row, (h.rows row).mpr (.inr hrow), rfl, (h.fresh row hrow).fits⟩

theorem Pgvector.FromRow.backs {cfg : Config} {s : State} {t : String} {scope : Scope}
    {memory : ProviderMemory} (h : FromRow cfg (scope.under t) s memory) :
    s.Backs t scope memory.nativeId := by
  obtain ⟨row, hrow, hsel, hid, -⟩ := h
  exact ⟨cfg.table, row, hrow, hid.symm, fits_of_selects hsel⟩

/-- What a page makes the catalog mention is behind some row, when its ids are. -/
theorem mapped_backed {c c' : Catalog} {t provider : String} {scope : Scope} {revive : Bool}
    {items : List (String × String)} {rows : List CatalogRow}
    (hmap : Mapped env t provider items scope revive c rows c')
    (hbacks : ∀ n ∈ items.map Prod.fst, s'.Backs t scope n) {m : Mention} (hm : c'.Mentions m) :
    c.Mentions m ∨ ∃ table, ∃ row ∈ s'.tables table, row.nativeId = m.nativeId ∧ m.Fits row := by
  refine (hm.mapped hmap).imp id ?_
  rintro ⟨n, hn, rfl⟩
  exact hbacks n hn

theorem hitItems_backed {t : String} {scope : Scope} {memories : List ProviderMemory}
    (h : ∀ memory ∈ memories, s'.Backs t scope memory.nativeId) :
    ∀ n ∈ (hitItems memories).map Prod.fst, s'.Backs t scope n := by
  intro n hn
  have hn : n ∈ memories.map ProviderMemory.nativeId := by simpa [hitItems] using hn
  obtain ⟨memory, hmemory, rfl⟩ := List.mem_map.mp hn
  exact h memory hmemory

/-- A rewritten row is behind the index row whose id was rewritten. -/
theorem SelfHosted.update_backed (h : SelfHosted env w) {cfg : Config} {content : String}
    {r : IndexRow} (hr : r ∈ w.catalog.memoryIndex) {memory : ProviderMemory}
    (hcall : (Pgvector.adapter env cfg).call (.update r.nativeId content) w.store =
      (.ok memory, s')) :
    memory.nativeId = r.nativeId ∧ s'.Backs r.tenantId r.toRow.scope memory.nativeId := by
  obtain ⟨hrewrote, row, hrow, hid, rfl⟩ := call_update hcall
  obtain ⟨row₀, h₀, hsame, -⟩ := hrewrote.rows row hrow
  have hfits := h.mention_fits _ (.index hr) cfg.table row₀ h₀ (hsame.nativeId.trans hid)
  refine ⟨hid, cfg.table, row, hrow, rfl, ?_⟩
  have hmention : r.toRow.scope.mention r.tenantId row.nativeId = r.mention := by
    rw [hid]
    rfl
  exact hmention ▸ hfits.same hsame

theorem MemoryCore.Did.selfHosted {core : MemoryCore State} {call : Call} {w' : World State}
    {r : Except Exc Reply} (hdid : core.Did env call w r w') (hcore : core.OverPgvector env)
    (h : SelfHosted env w) : SelfHosted env w' := by
  cases hdid with
  | refused => exact h
  | failed hask hcall hs =>
    obtain ⟨cfg, rfl⟩ := hcore _ _ hask.configured
    rcases hs with rfl | rfl
    · exact h.step (call_evolves hcall) fun _ => .inl
    · exact h.step (call_evolves hcall) fun _ => .inl
  | failedOpen hask hcall hopen =>
    obtain ⟨cfg, rfl⟩ := hcore _ _ hask.configured
    exact h.step (call_evolves hcall) fun _ => .inl
  | unsettled hask hcall hc =>
    obtain ⟨cfg, rfl⟩ := hcore _ _ hask.configured
    exact h.step (call_evolves hcall) fun _ hm => .inl (hm.still hc)
  | @ingested t episode scope _ _ name _ memories s₁ rows c₁ c₂ _ hask hcall hmap hjournal hr =>
    obtain ⟨cfg, rfl⟩ := hcore _ _ hask.configured
    obtain ⟨fresh, hadded, rfl⟩ := call_ingest hcall
    have hbacks : ∀ memory ∈ fresh.map (toMemory none), s₁.Backs t scope memory.nativeId :=
      fun _ => hadded.backs
    refine h.step (call_evolves hcall) fun m hm => ?_
    -- the journal mentions the same ids under the same scope as the index
    have hm : c₁.Mentions m ∨ ∃ memory ∈ fresh.map (toMemory none),
        m = scope.mention t memory.nativeId := by
      subst hjournal
      split at hm
      · refine hm.journalled.imp (fun hm => ?_) id
        exact hm.of_eq insertBinding_memoryIndex insertBinding_episodeJournal
      · exact .inl (hm.of_eq insertBinding_memoryIndex insertBinding_episodeJournal)
    rcases hm with hm | ⟨memory, hmemory, rfl⟩
    · exact mapped_backed hmap (hitItems_backed hbacks) hm
    · exact .inr (hbacks memory hmemory)
  | upserted hask hcall hmap =>
    obtain ⟨cfg, rfl⟩ := hcore _ _ hask.configured
    obtain ⟨fresh, hadded, rfl⟩ := call_upsert hcall
    refine h.step (call_evolves hcall) fun m hm => ?_
    have hm := hm.of_eq insertBinding_memoryIndex insertBinding_episodeJournal
    exact mapped_backed hmap (hitItems_backed fun _ => hadded.backs) hm
  | updated hrow hask hcall hmap hreply =>
    obtain ⟨cfg, rfl⟩ := hcore _ _ hask.configured
    obtain ⟨r, hr, -, rfl, -, rfl⟩ := resolveGatewayId_some hrow
    obtain ⟨hid, hbacks⟩ := h.update_backed hr hcall
    refine h.step (call_evolves hcall) fun m hm => mapped_backed hmap (fun n hn => ?_) hm
    obtain rfl : n = _ := by simpa using hn
    exact hbacks
  | searched hask hcall hmap hresults =>
    obtain ⟨cfg, rfl⟩ := hcore _ _ hask.configured
    obtain ⟨hsame, hfrom⟩ := call_search hcall
    refine h.step (call_evolves hcall) fun m hm => mapped_backed hmap (hitItems_backed ?_) hm
    exact fun memory hmemory => ((hfrom memory hmemory).unchanged hsame).backs
  | listed hask hcall hmap =>
    obtain ⟨cfg, rfl⟩ := hcore _ _ hask.configured
    obtain ⟨hsame, hfrom⟩ := call_listScope hcall
    refine h.step (call_evolves hcall) fun m hm => mapped_backed hmap (hitItems_backed ?_) hm
    exact fun memory hmemory => ((hfrom memory hmemory).unchanged hsame).backs
  | got hrow hask hcall =>
    obtain ⟨cfg, rfl⟩ := hcore _ _ hask.configured
    exact h.step (call_evolves hcall) fun _ => .inl
  | deleted hrow hask hcall =>
    obtain ⟨cfg, rfl⟩ := hcore _ _ hask.configured
    exact h.step (call_evolves hcall) fun _ hm => .inl hm.bury
  | erased hask hcall =>
    obtain ⟨cfg, rfl⟩ := hcore _ _ hask.configured
    exact h.step (call_evolves hcall) fun _ hm => .inl hm.deleteJournal.bury
  | @rebound t subject provider =>
    have hold : ∀ m, (replaceBinding env t subject provider (getBinding t subject w.catalog)
        w.catalog).2.Mentions m → w.catalog.Mentions m :=
      fun m hm => hm.of_eq replaceBinding_memoryIndex replaceBinding_episodeJournal
    exact ⟨h.minted, h.one, fun m hm => h.mention_minted m (hold m hm),
      fun m hm => h.mention_fits m (hold m hm)⟩

/-- The invariant holds in every world that a run over self-hosted adapters reaches. -/
theorem serve_selfHosted {qs : List (Request State)} (hqs : ∀ q ∈ qs, q.1.OverPgvector env) :
    SelfHosted env (serve env qs { catalog := {}, store := {} }) :=
  serve_invariant (I := SelfHosted env) (fun q hq _ _ _ hdid h => hdid.selfHosted (hqs q hq) h)
    .empty

/-! ## A gateway to try runs on -/

/-- Its embedder tells no texts apart, and its extractor keeps every episode as it is. -/
def Pgvector.Config.plain (table : String) : Config where
  table := table
  embed _ texts := .ok (texts.map fun _ => [1])
  extractor := some fun _ episode => .ok [episode.asText]
  sqrt := id
  distance _ _ := .number 0

/-- A journalling gateway with one self-hosted provider. -/
def plainGateway : MemoryCore State where
  providers := [("pg", Pgvector.adapter .counting (.plain "memories"))]
  defaultProvider := some "pg"
  journalEnabled := true

theorem plainGateway_overPgvector : plainGateway.OverPgvector .counting := by
  intro name a h
  simp only [MemoryCore.adapter, plainGateway] at h
  split at h
  · rename_i hlookup
    obtain rfl := Except.ok.inj h
    by_cases hname : name = "pg"
    · subst hname
      exact ⟨_, (Option.some.inj hlookup).symm⟩
    · have : List.lookup name [("pg", Pgvector.adapter .counting (.plain "memories"))] = none := by
        simp [List.lookup_cons, beq_eq_false_iff_ne.mpr hname]
      cases this.symm.trans hlookup
  · cases h

def userScope : Scope := { subject := ⟨"u_1", u_1_mustBeReal⟩ }

def teaEpisode : Episode where
  text := some "tea"
  exactlyOneSource := by decide
  messagesNonempty := Episode.noMessages
  textNotBlank := by decide

end Memgw
