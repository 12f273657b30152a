-- SUMMARY: Tenants stay apart in any overlap of verbs on the self-hosted store.
import Memgw.Properties.TenantIsolation
import Memgw.Properties.Rebinding
import Memgw.Library.Interference

/-!
# Isolation among overlapping verbs

Between the steps of a verb other verbs run, and what it found out may be out of date
when it acts on it: the memory behind an id may be gone by then. It is never another
memory, since ids are yielded once. So what a verb knows of an id, namely for whom and
under which scope it was yielded, stays true whatever the others do, and the verbs are
reasoned about one at a time.
-/

namespace Memgw

open Pgvector

variable {env : Env} {t : String} {s s' : State}

/-! ## What is known of an id -/

/-- The id has been yielded, and whatever row has it is one that fits. -/
structure Mention.Known (env : Env) (m : Mention) (s : State) : Prop where
  minted : MintedBelow env s.ticks m.nativeId
  fits : ∀ table, ∀ row ∈ s.tables table, row.nativeId = m.nativeId → m.Fits row

theorem Mention.Known.evolves {cfg : Config} {op : AdapterOp} {m : Mention} (h : m.Known env s)
    (hev : Evolves env cfg op s s') : m.Known env s' where
  minted := h.minted.mono hev.ticks
  fits table row hrow hid := by
    rcases hev.origin table row hrow with ⟨row₀, h₀, hsame⟩ | ⟨-, scope, -, hfresh⟩
    · exact (h.fits table row₀ h₀ (hsame.nativeId.trans hid)).same hsame
    · exact absurd (hid ▸ h.minted) hfresh.not_minted

theorem SelfHosted.known {w : World State} (h : SelfHosted env w) {m : Mention}
    (hm : w.catalog.Mentions m) : m.Known env w.store :=
  ⟨h.mention_minted m hm, h.mention_fits m hm⟩

/-- A row shows what its id is for. -/
theorem SelfHosted.known_backed {w : World State} (h : SelfHosted env w) {scope : Scope} {n : String}
    (hbacks : w.store.Backs t scope n) : (scope.mention t n).Known env w.store := by
  obtain ⟨table, row, hrow, hid, hfits⟩ := hbacks
  refine ⟨?_, fun table' row' hrow' hid' => ?_⟩
  · have := h.minted table row hrow
    rwa [hid] at this
  · exact hfits.same (h.one table row hrow table' row' hrow' (hid.trans hid'.symm)).2

/-- The catalog may come to mention whatever is known. -/
theorem SelfHosted.remembers {w : World State} (h : SelfHosted env w) {c' : Catalog}
    (hcat : ∀ m, c'.Mentions m → w.catalog.Mentions m ∨ m.Known env w.store) :
    SelfHosted env { w with catalog := c' } := by
  have hknown : ∀ m, c'.Mentions m → m.Known env w.store := fun m hm => (hcat m hm).elim h.known id
  exact ⟨h.minted, h.one, fun m hm => (hknown m hm).minted, fun m hm => (hknown m hm).fits⟩

/-! ## What a transaction is about -/

/-- What the catalog may mention after it. -/
def CatalogOp.mentions : CatalogOp → List Mention
  | .mapAttempt t _ items scope _ => items.map fun item => scope.mention t item.1
  | .journal t scope _ ingestedTo => ingestedTo.flatMap fun part => part.2.map (scope.mention t)
  | _ => []

theorem CatalogOp.othersKept {c : Catalog} : ∀ op : CatalogOp,
    c.OthersKept op.tenant (op.exec env c).2
  | .mapAttempt t p items scope revive => by
    simp only [CatalogOp.exec]
    cases hmap : Memgw.mapAttempt env t p items scope revive c with
    | mk r c' =>
      cases r with
      | ok rows => exact .mapped (mapAttempt_ok hmap)
      | error e => exact .still (mapAttempt_error hmap).1
  | .markDeleted t g => .bury fun r hr => (IndexRow.issued_iff.mp hr).2.1
  | .markScopeDeleted t scope p => .bury fun r hr => (IndexRow.inScope_iff.mp hr).1
  | .insertBinding t subject p => .insertBinding
  | .replaceBinding t subject p previous => .replaceBinding
  | .journal t scope payload ingestedTo => .journalled
  | .deleteJournal t scope => .deleteJournal
  | .resolveGatewayId .. | .liveCount .. | .getBinding .. => .refl _

theorem CatalogOp.mentions_exec {c : Catalog} {m : Mention} (op : CatalogOp)
    (hm : (op.exec env c).2.Mentions m) : c.Mentions m ∨ m ∈ op.mentions := by
  cases op with
  | mapAttempt t p items scope revive =>
    simp only [CatalogOp.exec] at hm
    cases hmap : Memgw.mapAttempt env t p items scope revive c with
    | mk r c' =>
      rw [hmap] at hm
      cases r with
      | ok rows =>
        refine (hm.mapped (mapAttempt_ok hmap)).imp_right ?_
        rintro ⟨n, hn, rfl⟩
        obtain ⟨item, hitem, rfl⟩ := List.mem_map.mp hn
        exact List.mem_map_of_mem hitem
      | error e => exact .inl (hm.still (mapAttempt_error hmap).1)
  | markDeleted | markScopeDeleted => exact .inl hm.bury
  | insertBinding => exact .inl (hm.of_eq insertBinding_memoryIndex insertBinding_episodeJournal)
  | replaceBinding => exact .inl (hm.of_eq replaceBinding_memoryIndex replaceBinding_episodeJournal)
  | deleteJournal => exact .inl hm.deleteJournal
  | resolveGatewayId | liveCount | getBinding => exact .inl hm
  | journal t scope payload ingestedTo =>
    simp only [CatalogOp.exec] at hm
    cases hx : (Memgw.journal env t scope payload ingestedTo c).1 with
    | error e => exact .inl (hm.of_eq journal_memoryIndex (journal_error hx))
    | ok id =>
      cases hm with
      | index hr => exact .inl (.index (journal_memoryIndex ▸ hr))
      | journal hj hto hn =>
        rcases ((mem_journal hx).2 _).mp hj with hj | rfl
        · exact .inl (.journal hj hto hn)
        · exact .inr (List.mem_flatMap.mpr ⟨_, hto, List.mem_map.mpr ⟨_, hn, rfl⟩⟩)

/-! ## What a call is aimed at -/

/-- The call is aimed at a scope of the tenant, or at an id that is known to be its. -/
def AdapterOp.AimedAt (t : String) (ms : List Mention) : AdapterOp → Prop
  | .ingest _ scope | .upsert _ scope | .search _ scope | .listScope scope _
  | .deleteScope scope => ∃ bare : Scope, scope = bare.under t
  | .update n _ | .get n | .delete n => ∃ m ∈ ms, m.tenant = t ∧ m.nativeId = n
  | .health => True

/-- No row of another tenant comes or goes under a call that is aimed at a tenant. -/
theorem Pgvector.Evolves.othersKept {cfg : Config} {op : AdapterOp} {ms : List Mention}
    (hev : Evolves env cfg op s s') (haim : op.AimedAt t ms) (ht : t ≠ "")
    (hknown : ∀ m ∈ ms, m.Known env s) {table : String} {row : Row} (hrow : row.tenant ≠ some t) :
    row ∈ s'.tables table ↔ row ∈ s.tables table := by
  have hid : ∀ n, (∃ m ∈ ms, m.tenant = t ∧ m.nativeId = n) → row.nativeId = n →
      (row ∈ s'.tables table ↔ row ∈ s.tables table) := by
    rintro n ⟨m, hm, rfl, rfl⟩ hn
    have hold : row ∉ s.tables table := fun hmem =>
      hrow (((hknown m hm).fits table row hmem hn).tenant ht)
    have hnew : row ∉ s'.tables table := fun hmem =>
      hrow ((((hknown m hm).evolves hev).fits table row hmem hn).tenant ht)
    exact iff_of_false hnew hold
  by_cases htouch : touches op row
  · cases op with
    | ingest | upsert =>
      obtain ⟨bare, rfl⟩ := haim
      exact absurd htouch hrow
    | deleteScope =>
      obtain ⟨bare, rfl⟩ := haim
      obtain ⟨-, htenant, -⟩ := conditions_iff.mp (Bool.and_eq_true_iff.mp htouch).1
      exact absurd (htenant _ (bare.under_tenant? ht)) hrow
    | update | delete => exact hid _ haim htouch
    | search | listScope | get | health => exact htouch.elim
  · exact hev.untouched table row htouch

/-- The memories in an answer. -/
def AdapterOp.memories : (op : AdapterOp) → op.Ans → List ProviderMemory
  | .ingest .., memories | .upsert .., memories | .search .., memories
  | .listScope .., memories => memories
  | .update .., memory => [memory]
  | .get .., memory => memory.toList
  | .delete .., _ | .deleteScope .., _ | .health, _ => []

/-- The scope that the call is about. -/
def AdapterOp.scope? : AdapterOp → Option Scope
  | .ingest _ scope | .upsert _ scope | .search _ scope | .listScope scope _
  | .deleteScope scope => some scope
  | .update .. | .get .. | .delete .. | .health => none

/-- A row of the tenant has this id and this content. -/
def Pgvector.State.Has (s : State) (t n content : String) : Prop :=
  ∃ table, ∃ row ∈ s.tables table, row.nativeId = n ∧ row.content = content ∧ row.tenant = some t

/-- A call that is aimed at a tenant hands out what rows of the tenant say. -/
theorem AdapterOp.AimedAt.has {cfg : Config} {op : AdapterOp} {ans : op.Ans} {ms : List Mention}
    (haim : op.AimedAt t ms) (ht : t ≠ "") (hknown : ∀ m ∈ ms, m.Known env s)
    (hcall : (Pgvector.adapter env cfg).call op s = (.ok ans, s')) :
    ∀ memory ∈ op.memories ans, s'.Has t memory.nativeId memory.content := by
  have hown : ∀ n, (∃ m ∈ ms, m.tenant = t ∧ m.nativeId = n) → ∀ table, ∀ row ∈ s'.tables table,
      row.nativeId = n → row.tenant = some t := by
    rintro n ⟨m, hm, rfl, rfl⟩ table row hrow hid
    exact (((hknown m hm).evolves (call_evolves hcall)).fits table row hrow hid).tenant ht
  have hrows : ∀ memory : ProviderMemory, (∃ row ∈ s'.rows cfg, row.nativeId = memory.nativeId ∧
      row.content = memory.content ∧ row.tenant = some t) →
        s'.Has t memory.nativeId memory.content :=
    fun _ h => ⟨cfg.table, h⟩
  cases op with
  | ingest =>
    obtain ⟨bare, rfl⟩ := haim
    obtain ⟨fresh, hadded, rfl⟩ := call_ingest hcall
    exact fun memory hm => hrows _ (hadded.owned hm)
  | upsert =>
    obtain ⟨bare, rfl⟩ := haim
    obtain ⟨fresh, hadded, rfl⟩ := call_upsert hcall
    exact fun memory hm => hrows _ (hadded.owned hm)
  | search =>
    obtain ⟨bare, rfl⟩ := haim
    obtain ⟨hsame, hfrom⟩ := call_search hcall
    exact fun memory hm => hrows _ (((hfrom memory hm).unchanged hsame).owned ht)
  | listScope =>
    obtain ⟨bare, rfl⟩ := haim
    obtain ⟨hsame, hfrom⟩ := call_listScope hcall
    exact fun memory hm => hrows _ (((hfrom memory hm).unchanged hsame).owned ht)
  | update =>
    obtain ⟨-, row, hrow, hid, rfl⟩ := call_update hcall
    intro memory hm
    obtain rfl := List.mem_singleton.mp hm
    exact hrows _ ⟨row, hrow, rfl, rfl, hown _ haim cfg.table row hrow hid⟩
  | get =>
    obtain ⟨hfound, rfl⟩ := Prod.mk.inj (call_get.symm.trans hcall)
    intro memory hm
    have hfound := (Except.ok.inj hfound).trans (Option.mem_toList.mp hm)
    obtain ⟨row, hfind, rfl⟩ := Option.map_eq_some_iff.mp hfound
    obtain ⟨hrow, hid⟩ := Table.find?_some hfind
    exact hrows _ ⟨row, hrow, rfl, rfl, hown _ haim cfg.table row hrow (beq_iff_eq.mp hid)⟩
  | delete | deleteScope | health => exact fun memory hm => absurd hm List.not_mem_nil

/-- What a call about a scope of the tenant hands out is known for that scope. -/
theorem AdapterOp.memories_known {cfg : Config} {op : AdapterOp} {ans : op.Ans} {bare : Scope}
    {c : Catalog} (hscope : op.scope? = some (bare.under t))
    (hhosted : SelfHosted env { catalog := c, store := s' })
    (hcall : (Pgvector.adapter env cfg).call op s = (.ok ans, s')) :
    ∀ memory ∈ op.memories ans, (bare.mention t memory.nativeId).Known env s' := by
  suffices h : ∀ memory ∈ op.memories ans, s'.Backs t bare memory.nativeId from
    fun memory hm => hhosted.known_backed (h memory hm)
  cases op with
  | ingest =>
    obtain rfl := Option.some.inj hscope
    obtain ⟨fresh, hadded, rfl⟩ := call_ingest hcall
    exact fun memory hm => hadded.backs hm
  | upsert =>
    obtain rfl := Option.some.inj hscope
    obtain ⟨fresh, hadded, rfl⟩ := call_upsert hcall
    exact fun memory hm => hadded.backs hm
  | search =>
    obtain rfl := Option.some.inj hscope
    obtain ⟨hsame, hfrom⟩ := call_search hcall
    exact fun memory hm => ((hfrom memory hm).unchanged hsame).backs
  | listScope =>
    obtain rfl := Option.some.inj hscope
    obtain ⟨hsame, hfrom⟩ := call_listScope hcall
    exact fun memory hm => ((hfrom memory hm).unchanged hsame).backs
  | update | get => cases hscope
  | delete | deleteScope | health => exact fun memory hm => absurd hm List.not_mem_nil

/-! ## Among others -/

/-- An action, and the world that it met. -/
abbrev Met : Type := Op State × World State

/-- The world that it left. -/
def Met.left (env : Env) (e : Met) : World State := (handle env e.1 e.2).2

/-- A world, and the actions on the data that led to it. -/
abbrev Watched : Type := World State × List Met

def watch (env : Env) : Handler (@Op.Ans State) Exc Watched := logged (handle env) Op.isData

/-- An action for the tenant, on ids that are known. -/
def Op.Minds (env : Env) (t : String) (ms : List Mention) : Op State → Prop
  | .catalog op => op.tenant = t ∧ ∀ m ∈ op.mentions, m ∈ ms
  | .adapter _ a op => (∃ cfg, a = Pgvector.adapter env cfg) ∧ op.AimedAt t ms
  | .note .. | .emit .. => True

/-- It happened for the tenant, and the ids were known by then. -/
structure Met.For (env : Env) (t : String) (e : Met) : Prop where
  hosted : SelfHosted env e.2
  minds : ∃ ms, e.1.Minds env t ms ∧ ∀ m ∈ ms, m.Known env e.2.store

/-- What a verb relies on whatever the others do. -/
structure Onward (env : Env) (x y : Watched) : Prop where
  hosted : SelfHosted env x.1 → SelfHosted env y.1
  known : ∀ m : Mention, m.Known env x.1.store → m.Known env y.1.store
  log : ∀ e ∈ x.2, e ∈ y.2

/-- What a verb for the tenant keeps to. -/
structure KeepsTo (env : Env) (t : String) (x y : Watched) : Prop where
  onward : Onward env x y
  catalog : x.1.catalog.OthersKept t y.1.catalog
  rows : ∀ table, ∀ row : Row, row.tenant ≠ some t →
    (row ∈ y.1.store.tables table ↔ row ∈ x.1.store.tables table)
  log : y.2 = x.2 ∨ ∃ e, y.2 = e :: x.2 ∧ e.For env t

/-- What a verb has made sure of: some ids are known, and some memories were there. -/
structure Assured (env : Env) (t : String) (ms : List Mention) (memories : List ProviderMemory)
    (x : Watched) : Prop where
  hosted : SelfHosted env x.1
  known : ∀ m ∈ ms, m.Known env x.1.store
  quoted : ∀ memory ∈ memories, ∃ e ∈ x.2,
    (Met.left env e).store.Has t memory.nativeId memory.content

section

variable {x y z : Watched} {ms : List Mention} {memories : List ProviderMemory}

theorem Onward.refl (x : Watched) : Onward env x x := ⟨id, fun _ => id, fun _ => id⟩

theorem Onward.trans (h : Onward env x y) (h' : Onward env y z) : Onward env x z :=
  ⟨h'.hosted ∘ h.hosted, fun m => h'.known m ∘ h.known m, fun w => h'.log w ∘ h.log w⟩

theorem KeepsTo.refl (x : Watched) : KeepsTo env t x x :=
  ⟨.refl x, .refl _, fun _ _ _ => Iff.rfl, .inl rfl⟩

theorem Assured.onward (h : Assured env t ms memories x) (hxy : Onward env x y) :
    Assured env t ms memories y where
  hosted := hxy.hosted h.hosted
  known m hm := hxy.known m (h.known m hm)
  quoted memory hm := by
    obtain ⟨e, he, hhas⟩ := h.quoted memory hm
    exact ⟨e, hxy.log e he, hhas⟩

/-- An action that minds its tenant leaves the others alone. -/
theorem Op.Minds.keepsTo {op : Op State} (h : op.Minds env t ms) (ht : t ≠ "")
    (hx : Assured env t ms memories x) : KeepsTo env t x (watch env op x).2 := by
  have hfor : Met.For env t (op, x.1) := ⟨hx.hosted, ms, h, hx.known⟩
  cases op with
  | note | emit => exact .refl x
  | catalog op =>
    obtain ⟨rfl, hms⟩ := h
    refine ⟨⟨fun hhosted => hhosted.remembers fun m hm => ?_, fun _ => id,
      fun _ => List.mem_cons_of_mem _⟩, op.othersKept, fun _ _ _ => Iff.rfl, .inr ⟨_, rfl, hfor⟩⟩
    exact (op.mentions_exec hm).imp_right fun hm => hx.known m (hms m hm)
  | adapter name a op =>
    obtain ⟨⟨cfg, rfl⟩, haim⟩ := h
    have hev : Evolves env cfg op x.1.store ((Pgvector.adapter env cfg).call op x.1.store).2 :=
      call_evolves rfl
    exact ⟨⟨fun hhosted => hhosted.step hev fun _ => .inl, fun m hm => hm.evolves hev,
      fun _ => List.mem_cons_of_mem _⟩, .refl _,
      fun table row hrow => hev.othersKept haim ht hx.known hrow, .inr ⟨_, rfl, hfor⟩⟩

variable {α β : Type}

/-- The program runs among verbs that keep to their tenants, and keeps to its own. -/
@[reducible] def Amid (env : Env) (t : String) (p : CoreProg State α)
    (Q : Except Exc α → Watched → Prop) (x : Watched) : Prop :=
  p.Under (watch env) (Onward env) (KeepsTo env t) Q x

variable {p : CoreProg State α} {f : α → CoreProg State β} {Q : Except Exc α → Watched → Prop}
  {P : Except Exc β → Watched → Prop}

theorem amid_within (hp : p.Within (Op.Minds env t ms)) (ht : t ≠ "")
    (hx : Assured env t ms memories x) :
    Amid env t p (fun _ y => Assured env t ms memories y) x :=
  hp.under (fun _ _ => Assured.onward) (fun _ _ => KeepsTo.onward)
    (fun _ _ hop hy => hop.keepsTo ht hy) hx

theorem amid_bind (hp : p.Within (Op.Minds env t ms)) (ht : t ≠ "")
    (hx : Assured env t ms memories x) (herr : ∀ e y, P (.error e) y)
    (hok : ∀ a y, Assured env t ms memories y → Amid env t (f a) P y) :
    Amid env t (p.bind f) P x :=
  Prog.under_bind_of (amid_within hp ht hx) hok fun e y _ => herr e y

/-- A check that passes lets the program go on where it is. -/
theorem amid_check {r : Except GatewayError α} (herr : ∀ e y, P (.error e) y)
    (hok : ∀ a, r = .ok a → Amid env t (f a) P x) : Amid env t ((check r).bind f) P x := by
  cases r with
  | ok a => exact hok a rfl
  | error e => exact herr _ x

theorem amid_refuseIf {b : Bool} {e : GatewayError} {f : Unit → CoreProg State β}
    (herr : ∀ e y, P (.error e) y) (hok : Amid env t (f ()) P x) :
    Amid env t ((refuseIf b e).bind f) P x := by
  cases b with
  | false => exact hok
  | true => exact herr _ x

/-- What an observer does besides reaches no data. -/
theorem amid_observe {verb : String} {subject : Option String}
    (hQ : ∀ r y z, Q r y → Onward env y z → Q r z) (hp : Amid env t p Q x) :
    Amid env t (observe verb t subject p) Q x := by
  have hgo : ∀ extra, Amid env t (observe.go verb t subject extra p) Q x := by
    induction p generalizing x with
    | ret a => exact fun extra y hy => ⟨.refl y, hQ _ _ _ hp hy⟩
    | raise e =>
      intro extra
      simp only [observe.go]
      split
      · exact fun y hy => ⟨.refl y, hQ _ _ _ hp hy⟩
      · exact hp
    | act op k ih =>
      intro extra
      cases op with
      | note key value => exact ih (.ok ()) (hp x (.refl x)).2 _
      | catalog | adapter | emit => exact fun y hy => ⟨(hp y hy).1, ih _ (hp y hy).2 _⟩
  exact hgo _

/-! ## Calls -/

/-- An adapter's answer, and what can be said of it from then on. -/
structure Answered (env : Env) (t : String) (ms : List Mention) (cfg : Config) (op : AdapterOp)
    (ans : op.Ans) (y : Watched) : Prop where
  assured : Assured env t ms (op.memories ans) y
  call : ∃ s, (Pgvector.adapter env cfg).call op s = (.ok ans, y.1.store)

/-- The memories of an answer about a scope may be mapped under that scope. -/
theorem Answered.mapped {cfg : Config} {op : AdapterOp} {ans : op.Ans} {bare : Scope}
    (h : Answered env t ms cfg op ans y) (hscope : op.scope? = some (bare.under t)) :
    Assured env t ((op.memories ans).map fun memory => bare.mention t memory.nativeId)
      (op.memories ans) y where
  hosted := h.assured.hosted
  known := by
    obtain ⟨s, hcall⟩ := h.call
    have hknown := AdapterOp.memories_known (c := y.1.catalog) hscope h.assured.hosted hcall
    intro m hm
    obtain ⟨memory, hmemory, rfl⟩ := List.mem_map.mp hm
    exact hknown memory hmemory
  quoted := h.assured.quoted

theorem amid_callAdapter {cfg : Config} {name : String} {op : AdapterOp}
    {Q : Except Exc op.Ans → Watched → Prop} (haim : op.AimedAt t ms) (ht : t ≠ "")
    (hx : Assured env t ms [] x) (herr : ∀ e y, Assured env t ms [] y → Q (.error e) y)
    (hok : ∀ ans y, Answered env t ms cfg op ans y → Q (.ok ans) y) :
    Amid env t (callAdapter name (Pgvector.adapter env cfg) op) Q x := by
  refine Prog.under_perform.mpr fun y hxy => ?_
  have hy := hx.onward hxy
  have hminds : Op.Minds env t ms (.adapter name (Pgvector.adapter env cfg) op) :=
    ⟨⟨cfg, rfl⟩, haim⟩
  have hkeeps := hminds.keepsTo ht hy
  refine ⟨hkeeps, ?_⟩
  have hz := hy.onward hkeeps.onward
  cases hcall : (Pgvector.adapter env cfg).call op y.1.store with
  | mk r s' =>
    have hans : (watch env (.adapter name (Pgvector.adapter env cfg) op) y).1 = r :=
      congrArg Prod.fst hcall
    have hstore : (watch env (.adapter name (Pgvector.adapter env cfg) op) y).2.1.store = s' :=
      congrArg Prod.snd hcall
    rw [hans]
    cases r with
    | error e => exact herr e _ hz
    | ok ans =>
      refine hok ans _ ⟨⟨hz.hosted, hz.known, fun memory hm => ?_⟩, y.1.store, ?_⟩
      · refine ⟨_, List.mem_cons_self .., ?_⟩
        have hhas := haim.has ht hy.known hcall memory hm
        exact hstore ▸ hhas
      · rw [hcall, hstore]

theorem within_failure {A : Op State → Prop} {name : String} {a : Adapter State} {exc : Exc}
    (hA : A (.adapter name a .health)) : (failure name a exc).Within A := by
  apply Prog.within_bind
  · apply Prog.within_tryCatch
    · exact Prog.within_bind (Prog.within_perform hA) fun _ => trivial
    · intro e
      split <;> trivial
  · exact fun down => trivial

theorem amid_raiseFailure {cfg : Config} {name : String} {exc : Exc} (ht : t ≠ "")
    (hx : Assured env t ms memories x) (herr : ∀ e y, Q (.error e) y) :
    Amid env t (raiseFailure name (Pgvector.adapter env cfg) exc) Q x := by
  have hwithin : (failure name (Pgvector.adapter env cfg) exc).Within (Op.Minds env t ms) :=
    within_failure ⟨⟨cfg, rfl⟩, trivial⟩
  exact amid_bind hwithin ht hx herr fun e y _ => herr _ y

theorem amid_call {cfg : Config} {name : String} {op : AdapterOp} {f : op.Ans → CoreProg State β}
    (haim : op.AimedAt t ms) (ht : t ≠ "") (hx : Assured env t ms [] x)
    (herr : ∀ e y, P (.error e) y)
    (hok : ∀ ans y, Answered env t ms cfg op ans y → Amid env t (f ans) P y) :
    Amid env t ((call name (Pgvector.adapter env cfg) op).bind f) P x := by
  refine Prog.under_bind.mpr (Prog.under_tryCatch.mpr ?_)
  refine amid_callAdapter haim ht hx (fun e y hy => ?_) hok
  cases e with
  | gateway e => exact herr _ y
  | cancelled => exact herr _ y
  | integrity text => exact amid_raiseFailure ht hy herr
  | other kind text => exact amid_raiseFailure ht hy herr

/-! ## The steps of the verbs -/

variable {core : MemoryCore State} {scope : Scope} {name : String}

theorem amid_prepare {asserted : Option String}
    {f : MemoryCore.Prepared State → CoreProg State β} (hcore : core.OverPgvector env) (ht : t ≠ "")
    (hx : Assured env t ms memories x) (herr : ∀ e y, P (.error e) y)
    (hok : ∀ name cfg y, Assured env t ms memories y →
      Amid env t (f { name := name, adapter := Pgvector.adapter env cfg, bound := scope.under t })
        P y) :
    Amid env t ((core.prepare t scope asserted).bind f) P x := by
  rw [MemoryCore.prepare, Prog.bind_eq, Prog.bind_assoc]
  have hwithin : (resolveProvider t scope.subject core.defaultProvider asserted :
      CoreProg State String).Within (Op.Minds env t ms) :=
    Prog.within_bind (Prog.within_perform ⟨rfl, fun m hm => absurd hm List.not_mem_nil⟩)
      fun _ => Prog.within_ofExcept
  refine amid_bind hwithin ht hx herr fun name y hy => ?_
  rw [Prog.bind_eq, Prog.bind_assoc]
  refine amid_check herr fun a ha => ?_
  obtain ⟨cfg, rfl⟩ := hcore name a ha
  rw [Prog.bind_eq, Prog.bind_assoc]
  exact amid_check herr fun _ _ => hok name cfg y hy

/-- The id of a live row of the tenant is known for its scope. -/
theorem amid_issuedRow {gatewayId : String} {f : CatalogRow → CoreProg State β} (ht : t ≠ "")
    (hx : Assured env t [] [] x) (herr : ∀ e y, P (.error e) y)
    (hok : ∀ row y, Assured env t [row.scope.mention t row.nativeId] [] y →
      Amid env t (f row) P y) :
    Amid env t ((issuedRow t gatewayId).bind f) P x := by
  rw [issuedRow, Prog.bind_eq, Prog.bind_assoc]
  refine Prog.under_bind.mpr (Prog.under_perform.mpr fun y hxy => ?_)
  have hy := hx.onward hxy
  have hminds : Op.Minds env t [] (.catalog (.resolveGatewayId t gatewayId)) :=
    ⟨rfl, fun m hm => absurd hm List.not_mem_nil⟩
  refine ⟨hminds.keepsTo ht hy, ?_⟩
  refine amid_check herr fun row hrow => ?_
  split at hrow
  · cases hrow
  · rename_i hresolved
    obtain rfl := Except.ok.inj hrow
    obtain ⟨r, hr, -, rfl, -, rfl⟩ := resolveGatewayId_some hresolved
    refine hok _ _ ⟨hy.hosted, fun m hm => ?_, fun m hm => absurd hm List.not_mem_nil⟩
    obtain rfl := List.mem_singleton.mp hm
    exact hy.hosted.known (.index hr)

/-- The records of a page say what its memories say. -/
theorem amid_records {items : List (String × String)} {scopeOf : CatalogRow → Scope}
    {revive : Bool} {f : List MemoryRecord → CoreProg State β} (ht : t ≠ "")
    (hx : Assured env t ms memories x)
    (hitems : ∀ item ∈ items, scope.mention t item.1 ∈ ms) (herr : ∀ e y, P (.error e) y)
    (hok : ∀ records y, Assured env t ms memories y →
      (∀ record ∈ records, ∃ memory ∈ memories, record.nativeId = memory.nativeId ∧
        record.content = memory.content) → Amid env t (f records) P y) :
    Amid env t (((mapPage t name items scope revive).bind fun rows =>
      .ret (toRecords name memories scopeOf rows)).bind f) P x := by
  rw [Prog.bind_assoc]
  have hwithin : (mapPage t name items scope revive : CoreProg State _).Within
      (Op.Minds env t ms) := by
    refine within_mapPage ⟨rfl, fun m hm => ?_⟩
    obtain ⟨item, hitem, rfl⟩ := List.mem_map.mp hm
    exact hitems item hitem
  refine amid_bind hwithin ht hx herr fun rows y hy => hok _ y hy fun record hrecord => ?_
  obtain ⟨memory, hmemory, row, -, -, rfl⟩ := mem_toRecords hrecord
  exact ⟨memory, hmemory, rfl, rfl⟩

end

end Memgw
