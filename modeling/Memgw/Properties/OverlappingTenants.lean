-- SUMMARY: Every verb keeps to its tenant among others, and so tenants are isolated in every overlap of verbs.
import Memgw.Properties.OverlapIsolation

/-!
# Overlapping tenants

Each verb is walked once, with what it has made sure of so far. Before its call it knows
at most the id that its row has; after the call it knows the ids of the memories that it
was handed, and maps and journals no others.
-/

namespace Memgw

open Pgvector

variable {env : Env} {t : String} {x y : Watched} {α : Type}

/-! ## What a verb hands out -/

/-- Each of the records says what a row of the tenant said in some world on the way. -/
def Discreet (env : Env) (t : String) (records : List MemoryRecord) (y : Watched) : Prop :=
  ∀ record ∈ records, ∃ e ∈ y.2, (Met.left env e).store.Has t record.nativeId record.content

/-- When the verb returns, the records that it hands out are discreet. -/
@[reducible] def HandsOut (env : Env) (t : String) (records : α → List MemoryRecord) :
    Except Exc α → Watched → Prop :=
  fun r y => ∀ a, r = .ok a → Discreet env t (records a) y

theorem Discreet.onward {records : List MemoryRecord} (h : Discreet env t records x)
    (hxy : Onward env x y) : Discreet env t records y := by
  intro record hrecord
  obtain ⟨w, hw, hhas⟩ := h record hrecord
  exact ⟨w, hxy.log w hw, hhas⟩

theorem Assured.discreet {ms : List Mention} {memories : List ProviderMemory}
    {records : List MemoryRecord} (h : Assured env t ms memories y)
    (hrecords : ∀ record ∈ records, ∃ memory ∈ memories, record.nativeId = memory.nativeId ∧
      record.content = memory.content) : Discreet env t records y := by
  intro record hrecord
  obtain ⟨memory, hmemory, hid, hcontent⟩ := hrecords record hrecord
  obtain ⟨w, hw, hhas⟩ := h.quoted memory hmemory
  exact ⟨w, hw, by rwa [hid, hcontent]⟩

theorem handsOut_error {records : α → List MemoryRecord} (e : Exc) (y : Watched) :
    HandsOut env t records (.error e) y := fun _ h => by cases h

theorem handsOut_ok {records : α → List MemoryRecord} {a : α} (h : Discreet env t (records a) y) :
    HandsOut env t records (.ok a) y := by
  rintro _ ⟨⟩
  exact h

/-- A verb is observed, and what it returns becomes a reply. -/
theorem amid_verb {verb : String} {subject : Option String} {body : CoreProg State α} {g : α → Reply}
    (h : Amid env t body (HandsOut env t fun a => (g a).records) x) :
    Amid env t ((observe verb t subject body).bind fun a => .ret (g a))
      (HandsOut env t Reply.records) x := by
  refine Prog.under_bind_of (P := HandsOut env t fun a => (g a).records) (amid_observe ?_ h) ?_ ?_
  · exact fun r y z hr hyz a ha => (hr a ha).onward hyz
  · exact fun a y hr => handsOut_ok (hr a rfl)
  · exact fun e y _ => handsOut_error e y

theorem amid_note {key : String} {value : Value} {f : Unit → CoreProg State α}
    {Q : Except Exc α → Watched → Prop} {ms : List Mention} {memories : List ProviderMemory}
    (ht : t ≠ "") (hx : Assured env t ms memories x) (herr : ∀ e y, Q (.error e) y)
    (hok : ∀ y, Assured env t ms memories y → Amid env t (f ()) Q y) :
    Amid env t ((note key value).bind f) Q x :=
  amid_bind (Prog.within_perform trivial) ht hx herr fun _ => hok

theorem mentions_nothing {op : CatalogOp} (h : op.mentions = []) (ht : op.tenant = t)
    {ms : List Mention} : Op.Minds env t ms (.catalog op) :=
  ⟨ht, fun m hm => by rw [h] at hm; cases hm⟩

/-! ## The verbs -/

section

variable {core : MemoryCore State} {scope : Scope} {asserted : Option String}

theorem hitItems_mentioned {memories : List ProviderMemory} :
    ∀ item ∈ hitItems memories,
      scope.mention t item.1 ∈ memories.map fun memory => scope.mention t memory.nativeId := by
  intro item hitem
  obtain ⟨memory, hmemory, rfl⟩ := List.mem_map.mp hitem
  exact List.mem_map_of_mem hmemory

/-- What follows the call of a write: its page is mapped, and its subject bound. -/
theorem amid_written {name : String} {op : AdapterOp} {cfg : Config} {ans : op.Ans}
    {rest : List MemoryRecord → CoreProg State α} {Q : Except Exc α → Watched → Prop}
    (hy : Answered env t [] cfg op ans y) (hscope : op.scope? = some (scope.under t)) (ht : t ≠ "")
    (herr : ∀ e z, Q (.error e) z)
    (hok : ∀ records z, Assured env t
        ((op.memories ans).map fun memory => scope.mention t memory.nativeId) (op.memories ans) z →
      (∀ record ∈ records, ∃ memory ∈ op.memories ans, record.nativeId = memory.nativeId ∧
        record.content = memory.content) → Amid env t (rest records) Q z) :
    Amid env t ((writtenRecords t name (op.memories ans) scope).bind fun records =>
      (bind t scope.subject name).bind fun _ => rest records) Q y := by
  rw [writtenRecords_eq]
  refine amid_records ht (hy.mapped hscope) hitItems_mentioned herr fun records z hz hrecords => ?_
  refine amid_bind ?_ ht hz herr fun _ z' hz' => hok records z' hz' hrecords
  exact within_bind_subject (mentions_nothing rfl rfl) (mentions_nothing rfl rfl)

theorem ingest_amid {episode : Episode} (hcore : core.OverPgvector env) (ht : t ≠ "")
    (hx : Assured env t [] [] x) :
    Amid env t (core.exec (.ingest t episode scope asserted)) (HandsOut env t Reply.records) x := by
  refine amid_verb (amid_prepare hcore ht hx handsOut_error fun name cfg y hy => ?_)
  refine amid_note ht hy handsOut_error fun y hy => amid_refuseIf handsOut_error ?_
  refine amid_call ⟨scope, rfl⟩ ht hy handsOut_error fun memories y hy => ?_
  refine amid_written hy rfl ht handsOut_error fun records y hy hrecords => ?_
  have hjournal : (runIf core.journalEnabled do
      let _ ← transact (.journal t scope episode [(name, memories.map ProviderMemory.nativeId)])
      return ()).Within (Op.Minds env t
        (memories.map fun memory => scope.mention t memory.nativeId)) := by
    unfold runIf
    split
    · refine Prog.within_bind (Prog.within_perform ⟨rfl, fun m hm => ?_⟩) fun _ => trivial
      simpa [CatalogOp.mentions] using hm
    · trivial
  refine amid_bind hjournal ht hy handsOut_error fun _ y hy => ?_
  exact amid_note ht hy handsOut_error fun y hy => handsOut_ok (hy.discreet hrecords)

theorem upsert_amid {facts : List String} (hcore : core.OverPgvector env) (ht : t ≠ "")
    (hx : Assured env t [] [] x) :
    Amid env t (core.exec (.upsert t facts scope asserted)) (HandsOut env t Reply.records) x := by
  rw [MemoryCore.exec, MemoryCore.upsert, Prog.bind_eq, Prog.bind_eq, Prog.bind_assoc]
  refine amid_refuseIf handsOut_error ?_
  refine amid_verb (amid_prepare hcore ht hx handsOut_error fun name cfg y hy => ?_)
  refine amid_note ht hy handsOut_error fun y hy => amid_refuseIf handsOut_error ?_
  refine amid_call ⟨scope, rfl⟩ ht hy handsOut_error fun memories y hy => ?_
  refine amid_written hy rfl ht handsOut_error fun records y hy hrecords => ?_
  exact amid_note ht hy handsOut_error fun y hy => handsOut_ok (hy.discreet hrecords)

theorem update_amid {gatewayId content : String} (hcore : core.OverPgvector env) (ht : t ≠ "")
    (hx : Assured env t [] [] x) :
    Amid env t (core.exec (.update t gatewayId content)) (HandsOut env t Reply.records) x := by
  refine amid_verb (amid_issuedRow ht hx handsOut_error fun row y hy => ?_)
  refine amid_note ht hy handsOut_error fun y hy => amid_note ht hy handsOut_error fun y hy => ?_
  refine amid_check handsOut_error fun a ha => amid_refuseIf handsOut_error ?_
  obtain ⟨cfg, rfl⟩ := hcore _ _ ha
  have haim : (AdapterOp.update row.nativeId content).AimedAt t
      [row.scope.mention t row.nativeId] := ⟨_, List.mem_singleton_self _, rfl, rfl⟩
  refine amid_call haim ht hy handsOut_error fun memory y hy => ?_
  -- the answer is about the id that was asked for
  have hid : memory.nativeId = row.nativeId := by
    obtain ⟨s, hcall⟩ := hy.call
    obtain ⟨-, stored, -, hid, rfl⟩ := call_update hcall
    exact hid
  have hrecord : (record t row.provider memory.nativeId row.scope content : CoreProg _ _).Within
      (Op.Minds env t [row.scope.mention t row.nativeId]) := by
    refine Prog.within_bind (within_mapPage ⟨rfl, fun m hm => ?_⟩) fun rows => ?_
    · simpa [CatalogOp.mentions, hid] using hm
    · split <;> trivial
  refine amid_bind hrecord ht hy.assured handsOut_error fun _ y hy => ?_
  refine handsOut_ok (hy.discreet fun record hrecord => ?_)
  obtain rfl := List.mem_singleton.mp hrecord
  exact ⟨memory, List.mem_singleton_self _, rfl, rfl⟩

/-- A search that failed hands nothing out, whether it opens or not. -/
theorem amid_searchFailed {query : SearchQuery} {name : String} {cfg : Config} {e : Exc}
    {ms : List Mention} (ht : t ≠ "") (hy : Assured env t ms [] y) :
    Amid env t (MemoryCore.searchFailed query name (Pgvector.adapter env cfg) e)
      (HandsOut env t fun result => (Reply.found result).records) y := by
  have houtage : ∀ e, Amid env t (MemoryCore.outage query name (Pgvector.adapter env cfg) e)
      (HandsOut env t fun result => (Reply.found result).records) y := by
    intro e
    unfold MemoryCore.outage
    split
    · refine amid_note ht hy handsOut_error fun y hy => amid_note ht hy handsOut_error fun y hy => ?_
      exact handsOut_ok fun record hrecord => by cases hrecord
    · exact amid_raiseFailure ht hy handsOut_error
  cases e with
  | gateway e =>
    simp only [MemoryCore.searchFailed]
    split
    · exact handsOut_error _ y
    · exact houtage _
  | cancelled => exact handsOut_error _ y
  | integrity text => exact houtage _
  | other kind text => exact houtage _

theorem search_amid {query : SearchQuery} (hcore : core.OverPgvector env) (ht : t ≠ "")
    (hx : Assured env t [] [] x) :
    Amid env t (core.exec (.search t query scope asserted)) (HandsOut env t Reply.records) x := by
  refine amid_verb (amid_prepare hcore ht hx handsOut_error fun name cfg y hy => ?_)
  refine amid_note ht hy handsOut_error fun y hy => amid_note ht hy handsOut_error fun y hy => ?_
  refine amid_check handsOut_error fun _ _ => amid_check handsOut_error fun decision _ => ?_
  refine Prog.under_bind.mpr (Prog.under_attempt.mpr ?_)
  refine amid_callAdapter ⟨scope, rfl⟩ ht hy (fun e y hy => ?_) fun memories y hy => ?_
  · exact amid_searchFailed ht hy
  · dsimp only
    rw [mapHits_eq]
    refine amid_records ht (hy.mapped rfl) hitItems_mentioned handsOut_error
      fun records y hy hrecords => ?_
    exact amid_note ht hy handsOut_error fun y hy => handsOut_ok (hy.discreet hrecords)

theorem listScope_amid {limit : Nat} (hcore : core.OverPgvector env) (ht : t ≠ "")
    (hx : Assured env t [] [] x) :
    Amid env t (core.exec (.listScope t scope limit asserted)) (HandsOut env t Reply.records) x := by
  refine amid_verb (amid_prepare hcore ht hx handsOut_error fun name cfg y hy => ?_)
  refine amid_note ht hy handsOut_error fun y hy => amid_refuseIf handsOut_error ?_
  refine amid_call ⟨scope, rfl⟩ ht hy handsOut_error fun memories y hy => ?_
  rw [mapHits_eq]
  refine amid_records ht (hy.mapped rfl) hitItems_mentioned handsOut_error
    fun records y hy hrecords => ?_
  exact amid_note ht hy handsOut_error fun y hy => handsOut_ok (hy.discreet hrecords)

theorem get_amid {gatewayId : String} (hcore : core.OverPgvector env) (ht : t ≠ "")
    (hx : Assured env t [] [] x) :
    Amid env t (core.exec (.get t gatewayId)) (HandsOut env t Reply.records) x := by
  refine amid_verb (amid_issuedRow ht hx handsOut_error fun row y hy => ?_)
  refine amid_note ht hy handsOut_error fun y hy => amid_note ht hy handsOut_error fun y hy => ?_
  refine amid_check handsOut_error fun a ha => ?_
  obtain ⟨cfg, rfl⟩ := hcore _ _ ha
  have haim : (AdapterOp.get row.nativeId).AimedAt t [row.scope.mention t row.nativeId] :=
    ⟨_, List.mem_singleton_self _, rfl, rfl⟩
  refine amid_call haim ht hy handsOut_error fun memory y hy => ?_
  cases memory with
  | none => exact handsOut_error _ y
  | some memory =>
    refine handsOut_ok (hy.assured.discreet fun record hrecord => ?_)
    obtain rfl := List.mem_singleton.mp hrecord
    exact ⟨memory, List.mem_singleton_self _, rfl, rfl⟩

theorem delete_amid {gatewayId : String} (hcore : core.OverPgvector env) (ht : t ≠ "")
    (hx : Assured env t [] [] x) :
    Amid env t (core.exec (.delete t gatewayId)) (HandsOut env t Reply.records) x := by
  refine amid_verb (amid_issuedRow ht hx handsOut_error fun row y hy => ?_)
  refine amid_note ht hy handsOut_error fun y hy => amid_note ht hy handsOut_error fun y hy => ?_
  refine amid_check handsOut_error fun a ha => amid_check handsOut_error fun _ _ => ?_
  obtain ⟨cfg, rfl⟩ := hcore _ _ ha
  have haim : (AdapterOp.delete row.nativeId).AimedAt t [row.scope.mention t row.nativeId] :=
    ⟨_, List.mem_singleton_self _, rfl, rfl⟩
  refine amid_call haim ht hy handsOut_error fun b y hy => ?_
  refine amid_bind (Prog.within_perform (mentions_nothing rfl rfl)) ht hy.assured handsOut_error
    fun _ y hy => handsOut_ok fun record hrecord => ?_
  cases hrecord

theorem deleteScope_amid (hcore : core.OverPgvector env) (ht : t ≠ "")
    (hx : Assured env t [] [] x) :
    Amid env t (core.exec (.deleteScope t scope asserted)) (HandsOut env t Reply.records) x := by
  refine amid_verb (amid_prepare hcore ht hx handsOut_error fun name cfg y hy => ?_)
  refine amid_note ht hy handsOut_error fun y hy => amid_check handsOut_error fun _ _ => ?_
  refine amid_call ⟨scope, rfl⟩ ht hy handsOut_error fun removed y hy => ?_
  refine amid_bind (Prog.within_perform (mentions_nothing rfl rfl)) ht hy.assured handsOut_error
    fun _ y hy => ?_
  refine amid_bind (Prog.within_perform (mentions_nothing rfl rfl)) ht hy handsOut_error
    fun erased y hy => ?_
  refine amid_note ht hy handsOut_error fun y hy => amid_note ht hy handsOut_error fun y hy => ?_
  exact handsOut_ok fun record hrecord => by cases hrecord

theorem rebind_amid {subject provider : String} {strategy : RebindStrategy} (ht : t ≠ "")
    (hx : Assured env t [] [] x) :
    Amid env t (core.exec (.rebind t subject provider strategy)) (HandsOut env t Reply.records) x := by
  refine amid_verb (amid_note ht hx handsOut_error fun y hy => amid_refuseIf handsOut_error ?_)
  refine amid_check handsOut_error fun a ha => ?_
  have hwithin : (rebindSubject t subject provider : CoreProg State _).Within
      (Op.Minds env t []) := by
    refine Prog.within_bind (Prog.within_perform (mentions_nothing rfl rfl)) fun previous => ?_
    refine Prog.within_bind ?_ fun n =>
      Prog.within_bind (Prog.within_perform (mentions_nothing rfl rfl)) fun _ => trivial
    unfold rebindSubject.strandedAt
    split
    · split
      · exact Prog.within_perform (mentions_nothing rfl rfl)
      · trivial
    · trivial
  refine amid_bind hwithin ht hy handsOut_error fun result y hy => ?_
  exact amid_note ht hy handsOut_error fun y hy => handsOut_ok fun record hrecord => by cases hrecord

/-- Whatever verb runs among others, it keeps to its tenant, and hands out only what its
    tenant's rows say. -/
theorem exec_amid (hcore : core.OverPgvector env) (call : Call) (ht : call.tenant ≠ "")
    (hx : SelfHosted env x.1) :
    Amid env call.tenant (core.exec call) (HandsOut env call.tenant Reply.records) x := by
  have hx : Assured env call.tenant [] [] x :=
    ⟨hx, fun m hm => absurd hm List.not_mem_nil, fun m hm => absurd hm List.not_mem_nil⟩
  cases call with
  | ingest => exact ingest_amid hcore ht hx
  | upsert => exact upsert_amid hcore ht hx
  | update => exact update_amid hcore ht hx
  | search => exact search_amid hcore ht hx
  | listScope => exact listScope_amid hcore ht hx
  | get => exact get_amid hcore ht hx
  | delete => exact delete_amid hcore ht hx
  | deleteScope => exact deleteScope_amid hcore ht hx
  | rebind => exact rebind_amid ht hx

end

/-! ## Pools -/

/-- Nothing has been written. -/
def nothingStored : World State := { catalog := {}, store := {} }

section

variable {ι : Type} {T : ι → String → Prop} {pool pool' : ι → CoreProg State α}
  {Q : ι → Except Exc α → Watched → Prop} {es : List (Event (@Op.Ans State) Exc ι)} {w' : World State}

/-- Each of the programs acts for a tenant that it may act for, whatever the others do. -/
def Confined (env : Env) (T : ι → String → Prop) (Q : ι → Except Exc α → Watched → Prop)
    (pool : ι → CoreProg State α) : Prop :=
  ∀ i, (pool i).Under (watch env) (Onward env) (fun x y => ∃ t, T i t ∧ KeepsTo env t x y) (Q i)
    (nothingStored, [])

theorem Amid.confined {p : CoreProg State α} {i : ι} {Q : Except Exc α → Watched → Prop}
    (hp : Amid env t p Q x) (ht : T i t) :
    p.Under (watch env) (Onward env) (fun x y => ∃ t, T i t ∧ KeepsTo env t x y) Q x :=
  Prog.Under.guarantees hp fun _ _ h => ⟨t, ht, h⟩

theorem Confined.onward (i j : ι) (_ : j ≠ i) (x y : Watched) (h : ∃ t, T j t ∧ KeepsTo env t x y) :
    Onward env x y := by
  obtain ⟨t, -, hkeeps⟩ := h
  exact hkeeps.onward

theorem Confined.trans (_ : ι) (x y z : Watched) (h : Onward env x y) (h' : Onward env y z) :
    Onward env x z := h.trans h'

/-- A discreet record says what a row of the tenant said at some moment. -/
theorem Discreet.quotes {records : List MemoryRecord} {y : Watched} (h : Discreet env t records y)
    (hlog : ∀ m ∈ y.2, ∃ es₁ e es₂, es = es₁ ++ e :: es₂ ∧
      m = (e.step.1, replay (handle env) es₁ nothingStored)) :
    ∀ record ∈ records, ∃ es₁ es₂, es = es₁ ++ es₂ ∧
      (replay (handle env) es₁ nothingStored).store.Has t record.nativeId record.content := by
  intro record hrecord
  obtain ⟨m, hm, hhas⟩ := h record hrecord
  obtain ⟨es₁, e, es₂, rfl, rfl⟩ := hlog m hm
  refine ⟨es₁ ++ [e], es₂, by simp, ?_⟩
  rw [replay_append]
  exact hhas

variable [DecidableEq ι]

/-- Each step of an overlap is one for a tenant that its program may act for. -/
theorem Confined.kept (hpool : Confined env T Q pool) {es₁ es₂ : List (Event (@Op.Ans State) Exc ι)}
    {e : Event (@Op.Ans State) Exc ι}
    (hrun : Exec (handle env) pool nothingStored (es₁ ++ e :: es₂) pool' w') :
    let before := replay (handle env) es₁ nothingStored
    let after := replay (handle env) (es₁ ++ [e]) nothingStored
    ∃ t, T e.who t ∧ before.catalog.OthersKept t after.catalog ∧
      (∀ table, ∀ row : Row, row.tenant ≠ some t →
        (row ∈ after.store.tables table ↔ row ∈ before.store.tables table)) ∧
      (e.step.1.isData = true → Met.For env t (e.step.1, before)) := by
  obtain ⟨log, hrun', -⟩ := exec_logged hrun Op.isData []
  obtain ⟨t, ht, hkeeps⟩ := exec_guaranteed hrun' (fun _ => .refl) Confined.trans Confined.onward hpool
  have hcatalog := hkeeps.catalog
  have hrows := hkeeps.rows
  have hlog := hkeeps.log
  rw [replay_logged, replay_logged] at hcatalog hrows
  refine ⟨t, ht, hcatalog, hrows, fun hdata => ?_⟩
  rw [log_snoc, if_pos hdata] at hlog
  rcases hlog with hlog | ⟨entry, hlog, hfor⟩
  · exact absurd hlog (List.cons_ne_self _ _)
  · obtain rfl := (List.cons.inj hlog).1
    exact hfor

/-- What a program has made sure of when it returns refers to what happened on the way. -/
theorem Confined.ended (hpool : Confined env T Q pool)
    (hrun : Exec (handle env) pool nothingStored es pool' w') {i : ι} {a : α}
    (hends : pool' i = .ret a) :
    ∃ y : Watched, Q i (.ok a) y ∧ ∀ m ∈ y.2, ∃ es₁ e es₂, es = es₁ ++ e :: es₂ ∧
      m = (e.step.1, replay (handle env) es₁ nothingStored) := by
  obtain ⟨log, hrun', hlog⟩ := exec_logged hrun Op.isData []
  obtain ⟨y, hy, hended⟩ := hrun'.under (fun _ => .refl) Confined.trans Confined.onward hpool i
  rw [hends] at hended
  refine ⟨y, hended, fun m hm => ?_⟩
  rcases hlog m (hy.log m hm) with hnil | hmet
  · cases hnil
  · exact hmet

/-! ## Every overlap -/

omit [DecidableEq ι] in
theorem overlapping_confined {gateway : ι → MemoryCore State} {call : ι → Call}
    (hcores : ∀ i, (gateway i).OverPgvector env) (htenants : ∀ i, (call i).tenant ≠ "") :
    Confined env (fun i t => (call i).tenant = t)
      (fun i => HandsOut env (call i).tenant Reply.records) (overlapping gateway call) :=
  fun i => Amid.confined (exec_amid (hcores i) (call i) (htenants i) .empty) rfl

/-- Any number of verbs of any tenants may overlap in any order, and stop anywhere. Each
    step of a verb leaves the rows and the catalog of every other tenant as they are, and
    a verb that has returned hands out nothing but what a row of its own tenant said at
    some moment of the overlap. -/
theorem overlapping_tenants_isolated (env : Env) (gateway : ι → MemoryCore State)
    (call : ι → Call) (hcores : ∀ i, (gateway i).OverPgvector env)
    (htenants : ∀ i, (call i).tenant ≠ "") (es : List (Event (@Op.Ans State) Exc ι))
    (pool' : ι → CoreProg State Reply) (w' : World State)
    (hrun : Exec (handle env) (overlapping gateway call) nothingStored es pool' w') :
    (∀ es₁ e es₂, es = es₁ ++ e :: es₂ →
      let before := replay (handle env) es₁ nothingStored
      let after := replay (handle env) (es₁ ++ [e]) nothingStored
      before.catalog.OthersKept (call e.who).tenant after.catalog ∧
        ∀ table, ∀ row : Row, row.tenant ≠ some (call e.who).tenant →
          (row ∈ after.store.tables table ↔ row ∈ before.store.tables table)) ∧
    ∀ i reply, pool' i = .ret reply → ∀ record ∈ reply.records,
      ∃ es₁ es₂, es = es₁ ++ es₂ ∧ (replay (handle env) es₁ nothingStored).store.Has
        (call i).tenant record.nativeId record.content := by
  have hpool := overlapping_confined hcores htenants
  refine ⟨fun es₁ e es₂ hes => ?_, fun i reply hreply => ?_⟩
  · subst hes
    obtain ⟨_, rfl, hcatalog, hrows, -⟩ := hpool.kept hrun
    exact ⟨hcatalog, hrows⟩
  · obtain ⟨y, hhands, hlog⟩ := hpool.ended hrun hreply
    exact (hhands reply rfl).quotes hlog

end

/-- Two tenants write of a user of the same name. -/
def crowd : TwoCalls → Call
  | .first => .upsert "a" ["tea"] userScope none
  | .second => .upsert "b" ["coffee"] userScope none

/-- They take turns. -/
def playCrowd : List (Event (@Op.Ans State) Exc TwoCalls) × (TwoCalls → CoreProg State Reply) ×
    World State :=
  play (handle .counting) ((List.replicate 5 [.first, .second]).flatten)
    (overlapping (fun _ => plainGateway) crowd) nothingStored

theorem crowd_is_isolated :
    ∃ es₁ es₂, playCrowd.1 = es₁ ++ es₂ ∧
      (replay (handle .counting) es₁ nothingStored).store.Has "a" "pvI" "tea" := by
  have htenants : ∀ i, (crowd i).tenant ≠ "" := by
    intro i
    cases i <;> decide
  have hrun := play_exec (h := handle .counting) ((List.replicate 5 [.first, .second]).flatten)
    (overlapping (fun _ => plainGateway) crowd) nothingStored
  have hisolated := overlapping_tenants_isolated .counting (fun _ => plainGateway) crowd
    (fun _ => plainGateway_overPgvector) htenants _ _ _ hrun
  exact hisolated.2 .first _ rfl _ (List.mem_singleton_self _)

end Memgw
