-- SUMMARY: What a write leaves in the index: its scope and its hash, unless the native id had a live row with others.
import Memgw.Properties.Reads
import Mathlib.Data.List.Nodup

/-!
# What a write records

One routine maps the native ids of a write and of a read. On the write path it gives
a new id a row under the scope of the write, and rewrites a row that the gateway had
deleted. A row that is live it passes over, as it does for a read, so the scope and
the content hash of an earlier write stay in the index, although the record that the
caller gets names the scope of this one.
-/

namespace Memgw

variable {σ : Type} {env : Env} {c c' : Catalog} {tenant provider : String} {scope : Scope}
  {items : List (String × String)} {rows : List CatalogRow}

/-! ## Rows -/

/-- The item has a live row, which says what was written. -/
def Recorded (env : Env) (tenant provider : String) (scope : Scope) (item : String × String)
    (c : Catalog) : Prop :=
  ∃ r : IndexRow, r.LiveFor tenant provider item.1 c ∧ r.Carries scope ∧
    r.contentHash = env.hash item.2

/-- If the item has a live row, it says already what will be written. -/
def Unchanging (env : Env) (tenant provider : String) (scope : Scope) (item : String × String)
    (c : Catalog) : Prop :=
  ∀ r : IndexRow, r.LiveFor tenant provider item.1 c →
    r.Carries scope ∧ r.contentHash = env.hash item.2

theorem IndexRow.LiveFor.eq {native : String} {r r' : IndexRow}
    (h : r.LiveFor tenant provider native c) (h' : r'.LiveFor tenant provider native c) :
    r = r' :=
  eq_of_nativeKey h.1 h'.1 (h.2.1.trans h'.2.1.symm) (h.2.2.1.trans h'.2.2.1.symm)
    (h.2.2.2.1.trans h'.2.2.2.1.symm)

/-- A live row stays as it is. -/
theorem IndexRow.LiveFor.mapped {native : String} {revive : Bool} {scope : Scope} {r : IndexRow}
    {t p : String} (h : r.LiveFor tenant provider native c)
    (hmap : Mapped env t p items scope revive c rows c') : r.LiveFor tenant provider native c' := by
  obtain ⟨hr, ht, hp, hn, hlive⟩ := h
  obtain ⟨r', hr', -, -, -, -, hsame⟩ := hmap.survives hr
  obtain rfl := hsame hlive
  exact ⟨hr', ht, hp, hn, hlive⟩

/-- A write records an item exactly if no live row was in its way. -/
theorem Mapped.recorded_iff (h : Mapped env tenant provider items scope true c rows c')
    (hnodup : (items.map Prod.fst).Nodup) {item : String × String} (hitem : item ∈ items) :
    Recorded env tenant provider scope item c' ↔ Unchanging env tenant provider scope item c := by
  constructor
  · rintro ⟨r, hlive, hcarries, hhash⟩ r₀ h₀
    obtain rfl := hlive.eq (h₀.mapped h)
    exact ⟨hcarries, hhash⟩
  · intro hsame
    obtain ⟨r, hlive, hold | ⟨hcarries, content, hmem, hhash⟩⟩ :=
      h.live_row (List.mem_map_of_mem hitem)
    · exact ⟨r, hlive, hsame r hold⟩
    · -- the ids are distinct, so the content is that of the item
      have hone : (item.1, content) = item :=
        List.inj_on_of_nodup_map hnodup hmem hitem rfl
      exact ⟨r, hlive, hcarries, hhash.trans (congrArg (fun i => env.hash i.2) hone)⟩

/-! ## The verbs that write -/

/-- What a verb records, once its adapter has answered: the provider, the items, and
    the scope that it records them under. -/
inductive MemoryCore.Writes (core : MemoryCore σ) (w : World σ) :
    Call → String → List (String × String) → Scope → Prop where
  | ingest {t : String} {episode : Episode} {scope : Scope} {asserted : Option String}
      {name : String} {a : Adapter σ} {memories : List ProviderMemory}
      (hask : core.Asks w.catalog (.ingest t episode scope asserted) name a
        (.ingest episode (scope.under t)))
      (hans : (a.call (.ingest episode (scope.under t)) w.store).1 = .ok memories) :
      Writes core w (.ingest t episode scope asserted) name (hitItems memories) scope
  | upsert {t : String} {facts : List String} {scope : Scope} {asserted : Option String}
      {name : String} {a : Adapter σ} {memories : List ProviderMemory}
      (hask : core.Asks w.catalog (.upsert t facts scope asserted) name a
        (.upsert facts (scope.under t)))
      (hans : (a.call (.upsert facts (scope.under t)) w.store).1 = .ok memories) :
      Writes core w (.upsert t facts scope asserted) name (hitItems memories) scope
  | update {t gatewayId content : String} {row : CatalogRow} {a : Adapter σ}
      {memory : ProviderMemory} (hrow : resolveGatewayId t gatewayId w.catalog = some row)
      (hask : core.Asks w.catalog (.update t gatewayId content) row.provider a
        (.update row.nativeId content))
      (hans : (a.call (.update row.nativeId content) w.store).1 = .ok memory) :
      Writes core w (.update t gatewayId content) row.provider [(memory.nativeId, content)]
        row.scope

/-- The row of the reply's record, which a following get answers with. -/
def MemoryRecord.RowIn (record : MemoryRecord) (tenant : String) (c : Catalog) (r : IndexRow) :
    Prop :=
  r ∈ c.memoryIndex ∧ r.gatewayId = record.id ∧ r.tenantId = tenant ∧ r.live = true

/-- The records of a mapped write are for live rows, each an earlier one or one under
    the scope of the write. -/
theorem Mapped.written_record {memories : List ProviderMemory}
    (h : Mapped env tenant provider (hitItems memories) scope true c rows c')
    {record : MemoryRecord} (hrecord : record ∈ toRecords provider memories (fun _ => scope) rows) :
    (record.scope.subject = scope.subject ∧ record.scope.agent = scope.agent ∧
      record.scope.session = scope.session) ∧
    ∃ r, record.RowIn tenant c' r ∧ (r ∈ c.memoryIndex ∨ r.Carries scope) := by
  obtain ⟨memory, -, row, hrow, -, rfl⟩ := mem_toRecords hrecord
  obtain ⟨r, hr, ht, hp, hn, hlive, rfl⟩ := h.mem_rows.mp hrow
  refine ⟨⟨rfl, rfl, rfl⟩, r, ⟨hr, rfl, ht, hlive⟩, ?_⟩
  obtain ⟨r', hlive', hwas⟩ := h.live_row hn
  obtain rfl : r = r' := IndexRow.LiveFor.eq ⟨hr, ht, hp, rfl, hlive⟩ hlive'
  exact hwas.imp (fun h => h.1) (fun h => h.1)

/-- A verb that returned has mapped what it records, and each record that it hands out
    is for a live row of the new index. -/
theorem MemoryCore.Did.wrote {core : MemoryCore σ} {call : Call} {reply : Reply} {w w' : World σ}
    (h : core.Did env call w (.ok reply) w') (hwrite : call.isWrite = true) :
    ∃ provider items scope rows c₁, core.Writes w call provider items scope ∧
      Mapped env call.tenant provider items scope true w.catalog rows c₁ ∧
      w'.catalog.memoryIndex = c₁.memoryIndex ∧ ∀ record ∈ reply.records,
        (record.scope.subject = scope.subject ∧ record.scope.agent = scope.agent ∧
          record.scope.session = scope.session) ∧
        ∃ r, record.RowIn call.tenant c₁ r ∧ (r ∈ w.catalog.memoryIndex ∨ r.Carries scope) := by
  cases h with
  | ingested hask hcall hmap hjournal hr =>
    obtain ⟨rfl, -⟩ := hr _ rfl
    subst hjournal
    refine ⟨_, _, _, _, _, .ingest hask (congrArg Prod.fst hcall), hmap, ?_,
      fun record hrecord => hmap.written_record hrecord⟩
    split <;> simp
  | upserted hask hcall hmap =>
    exact ⟨_, _, _, _, _, .upsert hask (congrArg Prod.fst hcall), hmap, by simp,
      fun record hrecord => hmap.written_record hrecord⟩
  | updated hrow hask hcall hmap hreply =>
    obtain rfl := hreply _ rfl
    refine ⟨_, _, _, _, _, .update hrow hask (congrArg Prod.fst hcall), hmap, rfl, ?_⟩
    intro record hrecord
    obtain rfl := List.mem_singleton.mp hrecord
    -- the row that was asked for is live, and stays as it is
    obtain ⟨r, hr, hid, ht, hlive, rfl⟩ := resolveGatewayId_some hrow
    obtain ⟨r', hr', -, -, -, -, hsame⟩ := hmap.survives hr
    obtain rfl := hsame hlive
    exact ⟨⟨rfl, rfl, rfl⟩, r', ⟨hr', rfl, ht, hlive⟩, .inl hr⟩
  | searched | listed | failedOpen | got | deleted | erased | rebound => cases hwrite

/-- A get of a record answers with the scope of its row. -/
theorem get_scope {core : MemoryCore σ} {t : String} {record record' : MemoryRecord}
    {w w' : World σ} {r : IndexRow} (hrow : record.RowIn t w.catalog r)
    (hget : (core.exec (.get t record.id)).run (handle env) w = (.ok (.memory record'), w')) :
    r.Carries record'.scope := by
  have hdid := Prog.of_wp (exec_did core (.get t record.id)) hget
  cases hdid with
  | got hresolve hask hcall =>
    obtain ⟨r', hr', hid, ht, hlive, rfl⟩ := resolveGatewayId_some hresolve
    obtain rfl := eq_of_gatewayId hrow.1 hr' (hrow.2.1.trans hid.symm)
    exact ⟨rfl, rfl, rfl⟩

/-- Every item that `record_many` has returned for has a live row with the scope and the
    hash of the write, exactly if it had no live row that says otherwise; so it is for
    the verbs that record through it; and a record that they hand out has the subject,
    agent and session of a following get, exactly if a row that was live under its id
    before had them already. -/
theorem writes_recorded_iff (env : Env) :
    (∀ (w w' : World σ) tenant provider items scope rows, (items.map Prod.fst).Nodup →
      (recordMany tenant provider items scope).run (handle env) w = (.ok rows, w') →
      ∀ item ∈ items, (Recorded env tenant provider scope item w'.catalog ↔
        Unchanging env tenant provider scope item w.catalog)) ∧
    ∀ (core : MemoryCore σ) call reply w w', call.isWrite = true →
      (core.exec call).run (handle env) w = (.ok reply, w') →
      (∃ provider items scope, core.Writes w call provider items scope ∧
        ((items.map Prod.fst).Nodup → ∀ item ∈ items,
          (Recorded env call.tenant provider scope item w'.catalog ↔
            Unchanging env call.tenant provider scope item w.catalog))) ∧
      ∀ record ∈ reply.records, ∀ (core' : MemoryCore σ) record' w'',
        (core'.exec (.get call.tenant record.id)).run (handle env) w' =
          (.ok (.memory record'), w'') →
        ((record'.scope.subject = record.scope.subject ∧
            record'.scope.agent = record.scope.agent ∧
            record'.scope.session = record.scope.session) ↔
          ∀ r ∈ w.catalog.memoryIndex, r.gatewayId = record.id → r.live = true →
            r.Carries record.scope) := by
  constructor
  · intro w w' tenant provider items scope rows hnodup hrun item hitem
    have hmap := (Prog.of_wp mapPage_spec hrun).2
    exact hmap.recorded_iff hnodup hitem
  intro core call reply w w' hwrite hrun
  obtain ⟨provider, items, scope, rows, c₁, hwrites, hmap, hindex, hrecords⟩ :=
    (Prog.of_wp (exec_did core call) hrun).wrote hwrite
  refine ⟨⟨provider, items, scope, hwrites, fun hnodup item hitem => ?_⟩, ?_⟩
  · rw [← hmap.recorded_iff hnodup hitem]
    unfold Recorded IndexRow.LiveFor
    rw [hindex]
  · intro record hrecord core' record' w'' hget
    obtain ⟨⟨hs, ha, hse⟩, r, hrow, hwas⟩ := hrecords record hrecord
    obtain ⟨hs', ha', hse'⟩ := get_scope ⟨hindex ▸ hrow.1, hrow.2⟩ hget
    rw [← hs', ← ha', ← hse']
    constructor
    · intro hcarries r₀ h₀ hid hlive
      obtain ⟨r', hr', -, -, -, -, hsame⟩ := hmap.survives h₀
      obtain rfl := hsame hlive
      obtain rfl := eq_of_gatewayId hr' hrow.1 (hid.trans hrow.2.1.symm)
      exact hcarries
    · intro hall
      rcases hwas with hold | hcarries
      · exact hall r hold hrow.2.1 hrow.2.2.2
      · exact ⟨hcarries.1.trans hs.symm, hcarries.2.1.trans ha.symm, hcarries.2.2.trans hse.symm⟩

/-- One native id, written in the given session. -/
def writeIn (session : Dim) (content : String) : CoreProg Unit (List CatalogRow) :=
  recordMany "t" "p" [("n", content)] { subject := ⟨"u", u_mustBeReal⟩, session := some session }

/-- The index after a write in the session `s1`. -/
def writtenOnce : World Unit :=
  ((writeIn ⟨"s1", by decide⟩ "likes tea").run (handle .counting) { catalog := {}, store := () }).2

/-- The index after the memory has been deleted as well. -/
def deletedOnce : World Unit :=
  { catalog := (markDeleted .counting "t" "mg" writtenOnce.catalog).2, store := () }

/-- Once the memory has been deleted, a write in another session is recorded. -/
theorem deleted_memory_recorded :
    Recorded .counting "t" "p" { subject := ⟨"u", by decide⟩, session := some ⟨"s2", by decide⟩ }
      ("n", "likes rye") ((writeIn ⟨"s2", by decide⟩ "likes rye").run (handle .counting)
        deletedOnce).2.catalog := by
  refine ((writes_recorded_iff .counting).1 deletedOnce _ _ _ _ _ _ (by simp) rfl _
    (List.mem_singleton_self _)).mpr ?_
  intro r hlive
  have hgone : (deletedOnce.catalog.memoryIndex.rows.all fun r => !r.live) = true := by decide
  have := List.all_eq_true.mp hgone r hlive.1
  simp [hlive.2.2.2.2] at this

/-- A provider that deduplicates answers a write in the session `s2` with a native id
    that it gave in the session `s1`. -/
theorem known_memory_not_recorded : ¬ ∀ (w w' : World Unit) tenant provider items scope rows,
    (items.map Prod.fst).Nodup →
      (recordMany tenant provider items scope).run (handle .counting) w = (.ok rows, w') →
        ∀ item ∈ items, Recorded .counting tenant provider scope item w'.catalog := by
  intro hrecorded
  obtain ⟨r, hlive, ⟨-, -, hsession⟩, -⟩ := hrecorded writtenOnce _ "t" "p" [("n", "likes rye")]
    { subject := ⟨"u", by decide⟩, session := some ⟨"s2", by decide⟩ } _ (by simp) rfl _
    (List.mem_singleton_self _)
  have hstale : (((writeIn ⟨"s2", by decide⟩ "likes rye").run (handle .counting)
      writtenOnce).2.catalog.memoryIndex.rows.all
    fun r => r.session != some ⟨"s2", by decide⟩) = true := by decide
  have := List.all_eq_true.mp hstale r hlive.1
  simp [hsession] at this

end Memgw
