-- SUMMARY: When a verb in proxy mode makes the call and returns the result that it has in embedded mode.
import Memgw.Server.Client
import Memgw.Gateway.Calls

/-!
# Two modes

In proxy mode the arguments of a verb travel to the gateway and its result travels
back. Most of them arrive as they are. The exceptions are values that JSON does not
have, a limit that the schema refuses, and keyword arguments of a search that embedded
mode ignores and the gateway reads as assertions.
-/

namespace Memgw

variable {σ S : Type} {wire : Wire} {tenant : String}

/-! ## The way back -/

/-- What the client makes of the response to an answer. -/
def ClientCall.receive (wire : Wire) (c : ClientCall) (out : Out) : Except Exc ClientReply :=
  payloadOf wire (out.response wire) >>= c.reply wire

section

variable {c : ClientCall} {out : Out} {r : ClientReply}

theorem receive_of_content {fields : Fields} (hne : out ≠ .deleted)
    (h : out.content wire = some (.json fields)) :
    c.receive wire out = c.reply wire (some fields) := by
  have hresponse : out.response wire = { status := 200, content := .json fields } := by
    rw [Out.response, h]
    simp [hne]
  rw [ClientCall.receive, hresponse]
  rfl

/-- An answer that cannot be written is lost. -/
theorem receive_of_none (h : out.content wire = none) : c.receive wire out ≠ .ok r := by
  have hresponse : out.response wire = internalServerError := by rw [Out.response, h]
  rw [ClientCall.receive, hresponse]
  exact fun h => by cases h

theorem validationError_bind_iff {α : Type} {x : Option α} {a : α} {f : α → ClientReply}
    (hf : Function.Injective f) :
    (validationError x >>= fun a => .ok (f a)) = (.ok (f a) : Except Exc ClientReply) ↔
      x = some a := by
  cases x with
  | none => exact ⟨fun h => (by cases h), fun h => (by cases h)⟩
  | some b =>
    show (Except.ok (f b) : Except Exc ClientReply) = _ ↔ _
    rw [Except.ok.injEq, hf.eq_iff, Option.some.injEq]

/-- What an answer holds arrives as it was sent exactly when it can be written, and what
    was written is read as it was. -/
theorem receive_iff {α : Type} (dump : Option Fields) (read : Fields → Option α)
    {f : α → ClientReply} {a : α} {P : Prop} (hf : Function.Injective f) (hne : out ≠ .deleted)
    (hcontent : out.content wire = dump.map .json)
    (hreply : ∀ fields, dump = some fields →
      c.reply wire (some fields) = validationError (read fields) >>= fun a => .ok (f a))
    (hread : ∀ fields, dump = some fields → read fields = some a → P)
    (hdump : P → ∃ fields, dump = some fields ∧ read fields = some a) :
    c.receive wire out = .ok (f a) ↔ P := by
  have hreceived : ∀ fields, dump = some fields →
      (c.receive wire out = .ok (f a) ↔ read fields = some a) := by
    intro fields hfields
    rw [receive_of_content hne (by rw [hcontent, hfields]; rfl), hreply fields hfields]
    exact validationError_bind_iff hf
  constructor
  · intro h
    cases hfields : dump with
    | none => exact absurd h (receive_of_none (by rw [hcontent, hfields]; rfl))
    | some fields => exact hread fields hfields ((hreceived fields hfields).mp h)
  · intro h
    obtain ⟨fields, hfields, hsame⟩ := hdump h
    exact (hreceived fields hfields).mpr hsame

/-- Records arrive as they were sent exactly when all of them are plain. -/
theorem receive_records_iff {records : List MemoryRecord} {provider : String}
    (hne : out ≠ .deleted)
    (hcontent : out.content wire = (dumpRecords wire records).map fun results =>
      .json [("results", results), ("provider", .str provider)])
    (hreply : ∀ payload, c.reply wire payload = readRecords wire payload) :
    c.receive wire out = .ok (.records records) ↔ ∀ record ∈ records, record.Plain := by
  refine receive_iff ((dumpRecords wire records).map fun results =>
      [("results", results), ("provider", .str provider)])
    (fun fields => (fields.lookup "results").bind (listOf (MemoryRecord.read wire)))
    (fun _ _ => ClientReply.records.inj) hne (by rw [hcontent, Option.map_map]; rfl) ?_ ?_ ?_
  · intro fields hfields
    obtain ⟨results, -, rfl⟩ := Option.map_eq_some_iff.mp hfields
    rw [hreply]
    rfl
  · intro fields hfields hread
    obtain ⟨results, hresults, rfl⟩ := Option.map_eq_some_iff.mp hfields
    exact plain_of_read_records hresults hread
  · intro h
    obtain ⟨results, hresults, hread⟩ := read_dumpRecords wire h
    exact ⟨[("results", results), ("provider", .str provider)], by rw [hresults]; rfl, hread⟩

theorem receive_memory_iff {record : MemoryRecord}
    (hreply : ∀ payload, c.reply wire payload = readRecord wire payload) :
    c.receive wire (.memory record) = .ok (.memory record) ↔ record.Plain :=
  receive_iff (record.dump wire) (fun fields => MemoryRecord.read wire (.obj fields))
    (fun _ _ => ClientReply.memory.inj) (by simp) rfl (fun _ _ => hreply _)
    (fun _ => MemoryRecord.plain_of_read) (MemoryRecord.read_dump wire)

theorem receive_found_iff {scope : Scope} {query : String} {kwargs : Kwargs}
    {result : SearchResult} :
    (ClientCall.search scope query kwargs).receive wire (.found result) = .ok (.found result) ↔
      ∀ record ∈ result.results, record.Plain :=
  receive_iff (result.dump wire) (SearchResult.read wire) (fun _ _ => ClientReply.found.inj)
    (by simp) rfl (fun _ _ => rfl) (fun _ => SearchResult.plain_of_read)
    (SearchResult.read_dump wire)

end

/-! ## The way there -/

/-- The same call, with what the caller asserts about the provider. -/
def Call.asserting (asserted : Option String) : Call → Call
  | .ingest t episode scope _ => .ingest t episode scope asserted
  | .upsert t facts scope _ => .upsert t facts scope asserted
  | .search t query scope _ => .search t query scope asserted
  | .listScope t scope limit _ => .listScope t scope limit asserted
  | .deleteScope t scope _ => .deleteScope t scope asserted
  | call => call

/-- In proxy mode the server makes the call that embedded mode makes, whatever its caller
    asserts about the provider. -/
def SameCall (wire : Wire) (tenant : String) (c : ClientCall) : Prop :=
  ∃ request call asserted, c.request wire = .ok request ∧ c.call wire tenant = .ok call ∧
    request.call wire tenant = some (.ok (call.asserting asserted))

/-- The provider that a verb of the client asserts: a keyword of a search can do that. -/
def ClientCall.asserted : ClientCall → Option String
  | .search _ _ kwargs => (optional kwargs.val "provider" Value.str?).getD none
  | _ => none

/-- The arguments can be sent, and the gateway takes them. -/
def ClientCall.Sendable (tenant : String) : ClientCall → Prop
  | .ingest _ _ _ metadata => IsJson metadata
  | .listScope _ limit => 1 ≤ limit
  | .search _ _ kwargs => IsJson kwargs.val ∧
    (∃ asserted, optional kwargs.val "tenant" Value.str? = some asserted ∧
      assertNoWiderTenant tenant asserted = .ok ()) ∧
    ∃ provider, optional kwargs.val "provider" Value.str? = some provider
  | .upsert .. | .get _ | .update .. | .delete _ | .deleteScope _ => True

theorem scoped_read {scope : Scope} {rest : Fields} :
    Scoped.read (("scope", .obj scope.dump) :: rest) = (do
      let provider ← optional rest "provider" Value.str?
      let tenant ← optional rest "tenant" Value.str?
      return { scope := scope, provider := provider, tenant := tenant }) := by
  simp [Scoped.read, required, optional, withDefault, List.lookup_cons]

theorem jsonDumps_map {f : Fields → HttpRequest} {fields : Fields} (h : IsJson fields) :
    f <$> jsonDumps fields = .ok (f fields) := by
  rw [jsonDumps_ok h]
  rfl

theorem isJson_of_dumped {f : Fields → HttpRequest} {fields : Fields} {request : HttpRequest}
    (h : f <$> jsonDumps fields = .ok request) : IsJson fields ∧ f fields = request := by
  by_cases hjson : IsJson fields
  · rw [jsonDumps_map hjson] at h
    exact ⟨hjson, Except.ok.inj h⟩
  · obtain ⟨text, htext⟩ := jsonDumps_error hjson
    rw [htext] at h
    cases h

/-- Messages are read as they were written. -/
theorem nullable_messages {messages : Option (List Message)} :
    nullable (listOf (Message.read wire))
      (orNull (fun messages => .list (.ofList (messages.map (.obj <| ·.dump wire)))) messages) =
        some messages :=
  nullable_orNull (fun _ h => by cases h) fun _ _ => listOf_map fun _ _ => Message.read_dump _

theorem messages_foreign {messages : Option (List Message)} :
    (orNull (fun messages => .list (.ofList (messages.map (.obj <| ·.dump wire))))
      messages).foreign = none := by
  refine orNull_foreign fun messages => foreign_list.mpr fun value hvalue => ?_
  obtain ⟨message, -, rfl⟩ := List.mem_map.mp hvalue
  exact message.dump_isJson

/-- An ingest whose metadata can be sent is the same episode at the server. -/
theorem ingest_call {scope : Scope} {messages : List Message} {text : Option String}
    {metadata : Fields} {episode : Episode}
    (hepisode : Episode.validate (normalised messages) text metadata = some episode)
    (hjson : IsJson metadata) :
    ∃ request, (ClientCall.ingest scope messages text metadata).request wire = .ok request ∧
      request.call wire tenant = some (.ok (.ingest tenant episode scope none)) := by
  have htext : (orNull Value.str text).foreign = none := orNull_foreign fun _ => rfl
  refine ⟨_, jsonDumps_map ?_, congrArg some (Routes.ingest_ok_iff.mpr ?_)⟩
  · simp [scope.dump_isJson, messages_foreign, htext, hjson]
  · refine ⟨⟨⟨scope, none, none⟩, normalised messages, text, metadata⟩, episode, ?_, rfl, hepisode,
      rfl⟩
    simp [IngestIn.read, scoped_read, optional, withDefault, List.lookup_cons, nullable_messages]

theorem upsert_call {scope : Scope} {facts : List String} (hne : facts ≠ []) :
    ∃ request, (ClientCall.upsert scope facts).request wire = .ok request ∧
      request.call wire tenant = some (.ok (.upsert tenant facts scope none)) := by
  have hread : listOf Value.str? (.strs facts) = some facts := listOf_map fun _ _ => rfl
  have hfacts : (Value.strs facts).foreign = none := by
    refine foreign_list.mpr fun value hvalue => ?_
    obtain ⟨fact, -, rfl⟩ := List.mem_map.mp hvalue
    rfl
  refine ⟨_, jsonDumps_map ?_, congrArg some (Routes.upsert_ok_iff.mpr ?_)⟩
  · simp [scope.dump_isJson, hfacts]
  · refine ⟨⟨⟨scope, none, none⟩, facts, hne⟩, ?_, rfl, rfl⟩
    simp [UpsertIn.read, scoped_read, required, optional, withDefault, List.lookup_cons, hread, hne]

theorem deleteScope_call {scope : Scope} :
    ∃ request, (ClientCall.deleteScope scope).request wire = .ok request ∧
      request.call wire tenant = some (.ok (.deleteScope tenant scope none)) := by
  refine ⟨_, jsonDumps_map ?_, congrArg some (Routes.deleteScope_ok_iff.mpr ?_)⟩
  · simp [scope.dump_isJson]
  · refine ⟨⟨scope, none, none⟩, ?_, rfl, rfl⟩
    simp [scoped_read, optional, withDefault]

/-- The schema of a listing refuses a limit below one. -/
theorem listScope_call (wire : Wire) (tenant : String) (scope : Scope) (limit : Nat) :
    ∃ request, (ClientCall.listScope scope limit).request wire = .ok request ∧
      ∀ call, request.call wire tenant = some (.ok call) ↔
        1 ≤ limit ∧ .listScope tenant scope limit none = call := by
  have hread : ListIn.read wire [("scope", .obj scope.dump), ("limit", .int limit)] =
      if h : 1 ≤ limit then some ⟨⟨scope, none, none⟩, limit, h⟩ else none := by
    by_cases hlimit : 1 ≤ limit <;>
      simp [ListIn.read, scoped_read, optional, withDefault, List.lookup_cons, Wire.limit, hlimit]
  refine ⟨_, jsonDumps_map ?_, fun call => ?_⟩
  · simp [scope.dump_isJson, Value.foreign]
  · rw [HttpRequest.call, Option.some.injEq, Routes.listScope_ok_iff, hread]
    by_cases hlimit : 1 ≤ limit
    · simp [hlimit, assertNoWiderTenant]
    · simp [hlimit]

/-- What a search in embedded mode validates is what the server validates, where the
    keywords can be sent. -/
theorem search_read {scope : Scope} {query : String} {kwargs : Fields} :
    SearchIn.read wire (("scope", .obj scope.dump) :: ("query", .str query) :: kwargs) = (do
      let provider ← optional kwargs "provider" Value.str?
      let tenant ← optional kwargs "tenant" Value.str?
      let query ← SearchQuery.read wire (("query", .str query) :: kwargs)
      return { scope := scope, provider := provider, tenant := tenant, query := query }) := by
  have hskip : SearchQuery.read wire (("scope", .obj scope.dump) :: ("query", .str query) :: kwargs) =
      SearchQuery.read wire (("query", .str query) :: kwargs) := by
    simp [SearchQuery.read, required, optional, withDefault, List.lookup_cons]
  have hscoped : Scoped.read (("scope", .obj scope.dump) :: ("query", .str query) :: kwargs) = (do
      let provider ← optional kwargs "provider" Value.str?
      let tenant ← optional kwargs "tenant" Value.str?
      return { scope := scope, provider := provider, tenant := tenant }) := by
    rw [scoped_read]
    simp [optional, withDefault, List.lookup_cons]
  rw [SearchIn.read, hscoped, hskip]
  cases optional kwargs "provider" Value.str? with
  | none => rfl
  | some provider => cases optional kwargs "tenant" Value.str? <;> rfl

theorem search_call {scope : Scope} {query : String} {kwargs : Kwargs} {q : SearchQuery}
    {call : Call}
    (hquery : SearchQuery.read wire (("query", .str query) :: kwargs.val) = some q) :
    (HttpRequest.search (("scope", .obj scope.dump) :: ("query", .str query) :: kwargs.val)).call
        wire tenant = some (.ok call) ↔
      ∃ provider asserted, optional kwargs.val "provider" Value.str? = some provider ∧
        optional kwargs.val "tenant" Value.str? = some asserted ∧
        assertNoWiderTenant tenant asserted = .ok () ∧ .search tenant q scope provider = call := by
  rw [HttpRequest.call, Option.some.injEq, Routes.search_ok_iff, search_read, hquery]
  constructor
  · rintro ⟨body, hbody, htenant, hcall⟩
    simp only [Option.bind_eq_bind, Option.bind_eq_some_iff, Option.pure_def,
      Option.some.injEq] at hbody
    obtain ⟨provider, hprovider, asserted, hasserted, q', rfl, rfl⟩ := hbody
    exact ⟨provider, asserted, hprovider, hasserted, htenant, hcall⟩
  · rintro ⟨provider, asserted, hprovider, hasserted, htenant, hcall⟩
    exact ⟨⟨⟨scope, provider, asserted⟩, q⟩, by rw [hprovider, hasserted]; rfl, htenant, hcall⟩

/-- A request that makes the core serve a call has arguments that can be sent. -/
theorem sendable_of_sent {c : ClientCall} {request : HttpRequest} {call call' : Call}
    (hcall : c.call wire tenant = .ok call) (hrequest : c.request wire = .ok request)
    (hserved : request.call wire tenant = some (.ok call')) : c.Sendable tenant := by
  cases c with
  | ingest scope messages text metadata =>
    have hjson := (isJson_of_dumped hrequest).1
    simp only [isJson_cons] at hjson
    exact foreign_obj.mp hjson.2.2.2.1
  | listScope scope limit =>
    obtain ⟨request', hrequest', hlimit⟩ := listScope_call wire tenant scope limit
    obtain rfl := Except.ok.inj (hrequest.symm.trans hrequest')
    exact ((hlimit call').mp hserved).1
  | search scope query kwargs =>
    obtain ⟨q, hq, -⟩ := bind_ok_iff.mp hcall
    obtain ⟨hjson, rfl⟩ := isJson_of_dumped hrequest
    obtain ⟨provider, asserted, hprovider, hasserted, htenant, -⟩ :=
      (search_call (validationError_ok_iff.mp hq)).mp hserved
    exact ⟨(isJson_cons.mp (isJson_cons.mp hjson).2).2, ⟨asserted, hasserted, htenant⟩,
      provider, hprovider⟩
  | upsert | get | update | delete | deleteScope => trivial

/-- Arguments that can be sent make the core serve the call of embedded mode. -/
theorem sent {c : ClientCall} {call : Call} (hcall : c.call wire tenant = .ok call)
    (hids : ∀ id, call.names = some id → wire.segment id = some id)
    (hfacts : ∀ t scope asserted, call ≠ .upsert t [] scope asserted)
    (hsend : c.Sendable tenant) :
    ∃ request, c.request wire = .ok request ∧
      request.call wire tenant = some (.ok (call.asserting c.asserted)) := by
  cases c with
  | ingest scope messages text metadata =>
    obtain ⟨episode, hepisode, hcall⟩ := bind_ok_iff.mp hcall
    obtain rfl := Except.ok.inj hcall
    exact ingest_call (validationError_ok_iff.mp hepisode) hsend
  | upsert scope facts =>
    obtain rfl := Except.ok.inj hcall
    exact upsert_call fun hnil => hfacts tenant scope none (by rw [hnil])
  | listScope scope limit =>
    obtain rfl := Except.ok.inj hcall
    obtain ⟨request, hrequest, hlimit⟩ := listScope_call wire tenant scope limit
    exact ⟨request, hrequest, (hlimit _).mpr ⟨hsend, rfl⟩⟩
  | search scope query kwargs =>
    obtain ⟨q, hq, hcall⟩ := bind_ok_iff.mp hcall
    obtain rfl := Except.ok.inj hcall
    obtain ⟨hjson, ⟨asserted, hasserted, htenant⟩, provider, hprovider⟩ := hsend
    refine ⟨_, jsonDumps_map ?_, (search_call (validationError_ok_iff.mp hq)).mpr
      ⟨provider, asserted, hprovider, hasserted, htenant, ?_⟩⟩
    · simp [scope.dump_isJson, hjson, Value.foreign]
    · simp [ClientCall.asserted, hprovider, Call.asserting]
  | get id =>
    obtain rfl := Except.ok.inj hcall
    exact ⟨_, rfl, by simp [HttpRequest.call, hids id rfl, Call.asserting]⟩
  | delete id =>
    obtain rfl := Except.ok.inj hcall
    exact ⟨_, rfl, by simp [HttpRequest.call, hids id rfl, Call.asserting]⟩
  | update id content =>
    obtain rfl := Except.ok.inj hcall
    refine ⟨_, jsonDumps_map ?_, ?_⟩
    · simp [Value.foreign]
    · have hroute : Routes.updateMemory wire tenant id [("content", .str content)] =
          .ok (.update tenant id content) :=
        Routes.updateMemory_ok_iff.mpr ⟨⟨content, none⟩, by
          simp [UpdateIn.read, required, optional, withDefault, List.lookup_cons], rfl, rfl⟩
      simp [HttpRequest.call, hids id rfl, hroute, Call.asserting]
  | deleteScope scope =>
    obtain rfl := Except.ok.inj hcall
    exact deleteScope_call

/-! ## Runs -/

variable {env : Env} {core : MemoryCore σ} {w w' : World σ}

theorem run_ret_ok {α β : Type} {p : CoreProg σ α} {f : α → β} {b : β}
    (h : (p >>= fun a => pure (f a)).run (handle env) w = (.ok b, w')) :
    ∃ a, p.run (handle env) w = (.ok a, w') ∧ f a = b := by
  rw [Prog.bind_eq, Prog.run_bind] at h
  split at h
  · rename_i a w₁ hp
    cases h
    exact ⟨a, hp, rfl⟩
  · cases h

/-- What the gateway makes of a reply of its core, and what the client makes of that. -/
theorem returned_iff {c : ClientCall} {call : Call} {reply : Reply} {asserted : Option String}
    (hcall : c.call wire tenant = .ok call)
    (hexec : (core.exec (call.asserting asserted)).run (handle env) w = (.ok reply, w')) :
    ∃ out, (core.out (call.asserting asserted) reply).run (handle env) w' = (.ok out, w') ∧
      (c.receive wire out = .ok reply.returned ↔ ∀ record ∈ reply.records, record.Plain) := by
  cases c with
  | ingest =>
    obtain ⟨episode, -, hcall⟩ := bind_ok_iff.mp hcall
    obtain rfl := Except.ok.inj hcall
    obtain ⟨result, -, rfl⟩ := run_ret_ok hexec
    exact ⟨.wrote result, rfl, receive_records_iff (by simp) rfl fun _ => rfl⟩
  | upsert =>
    obtain rfl := Except.ok.inj hcall
    obtain ⟨result, -, rfl⟩ := run_ret_ok hexec
    exact ⟨.wrote result, rfl, receive_records_iff (by simp) rfl fun _ => rfl⟩
  | listScope =>
    obtain rfl := Except.ok.inj hcall
    obtain ⟨records, -, rfl⟩ := run_ret_ok hexec
    exact ⟨.listed _, rfl, receive_records_iff (by simp) rfl fun _ => rfl⟩
  | search =>
    obtain ⟨q, -, hcall⟩ := bind_ok_iff.mp hcall
    obtain rfl := Except.ok.inj hcall
    obtain ⟨result, -, rfl⟩ := run_ret_ok hexec
    exact ⟨.found result, rfl, receive_found_iff⟩
  | get | update =>
    obtain rfl := Except.ok.inj hcall
    obtain ⟨record, -, rfl⟩ := run_ret_ok hexec
    refine ⟨.memory record, rfl, (receive_memory_iff fun _ => rfl).trans ?_⟩
    exact List.forall_mem_singleton.symm
  | delete =>
    obtain rfl := Except.ok.inj hcall
    obtain ⟨-, -, rfl⟩ := run_ret_ok hexec
    exact ⟨.deleted, rfl, iff_of_true rfl (List.forall_mem_nil _)⟩
  | deleteScope =>
    obtain rfl := Except.ok.inj hcall
    obtain ⟨removed, -, rfl⟩ := run_ret_ok hexec
    exact ⟨.erased _, rfl, iff_of_true rfl (List.forall_mem_nil _)⟩

/-- The client has no verb that rebinds. -/
theorem ClientCall.call_ne_rebind {c : ClientCall} {call : Call} {asserted : Option String}
    {t subject provider : String} {strategy : RebindStrategy}
    (hcall : c.call wire tenant = .ok call) :
    call.asserting asserted ≠ .rebind t subject provider strategy := by
  cases c with
  | ingest | search =>
    obtain ⟨_, -, hcall⟩ := bind_ok_iff.mp hcall
    obtain rfl := Except.ok.inj hcall
    exact fun h => by cases h
  | upsert | listScope | get | update | delete | deleteScope =>
    obtain rfl := Except.ok.inj hcall
    exact fun h => by cases h

/-- A verb of the client that returned has asked an adapter. -/
theorem asks_of_returned {c : ClientCall} {call : Call} {reply : Reply} {asserted : Option String}
    (hcall : c.call wire tenant = .ok call)
    (hexec : (core.exec (call.asserting asserted)).run (handle env) w = (.ok reply, w')) :
    ∃ name a op, core.Asks w.catalog (call.asserting asserted) name a op := by
  have hdid : core.Did env (call.asserting asserted) w (.ok reply) w' :=
    Prog.of_wp (exec_did core _) hexec
  generalize hserved : call.asserting asserted = served at hdid ⊢
  cases hdid with
  | failedOpen hask | ingested hask | upserted hask | searched hask | listed hask | erased hask =>
    exact ⟨_, _, _, hask⟩
  | updated _ hask | got _ hask | deleted _ hask => exact ⟨_, _, _, hask⟩
  | rebound => exact absurd hserved (ClientCall.call_ne_rebind hcall)

theorem resolveProvider_run {subject : String} {default asserted : Option String} :
    (resolveProvider tenant subject default asserted).run (handle env) w =
      (check (chooseProvider subject (getBinding tenant subject w.catalog) default asserted)).run
        (handle env) w := rfl

/-- What a search does depends on the asserted provider only through the provider that is
    chosen. -/
theorem search_asserting {query : SearchQuery} {scope : Scope} {asserted asserted' : Option String}
    (h : chooseProvider scope.subject (getBinding tenant scope.subject w.catalog)
        core.defaultProvider asserted =
      chooseProvider scope.subject (getBinding tenant scope.subject w.catalog)
        core.defaultProvider asserted') :
    (core.exec (.search tenant query scope asserted)).run (handle env) w =
      (core.exec (.search tenant query scope asserted')).run (handle env) w := by
  simp only [MemoryCore.exec, MemoryCore.search, MemoryCore.prepare, Prog.bind_eq, Prog.run_bind,
    run_observe, resolveProvider_run, h]

theorem chooseProvider_status {subject : String} {bound default asserted : Option String}
    {e : GatewayError} (h : chooseProvider subject bound default asserted = .error e) :
    400 ≤ e.status := by
  unfold chooseProvider at h
  split at h
  · cases h
    exact Nat.le_refl 400
  · split at h
    · cases h
    · split at h
      · cases h
        exact Nat.le_of_ble_eq_true rfl
      · cases h

/-- A provider that is chosen in spite of an assertion is chosen without it. -/
theorem chooseProvider_unasserted {subject name : String} {bound default asserted : Option String}
    (h : chooseProvider subject bound default asserted = .ok name) :
    chooseProvider subject bound default none = .ok name := by
  unfold chooseProvider at h ⊢
  split at h
  · cases h
  · split at h
    · exact h
    · split at h
      · cases h
      · exact h

/-- A search that asserts another provider than the resolved one fails in proxy mode. -/
theorem proxy_refused {c : ClientCall} {request : HttpRequest} {query : SearchQuery}
    {scope : Scope} {asserted : Option String} {e : GatewayError} {r : ClientReply}
    (hrequest : c.request wire = .ok request)
    (hserved : request.call wire tenant = some (.ok (.search tenant query scope asserted)))
    (h : chooseProvider scope.subject (getBinding tenant scope.subject w.catalog)
      core.defaultProvider asserted = .error e) :
    ((proxy core wire tenant c).run (handle env) w).1 ≠ .ok r := by
  have hexec : (core.exec (.search tenant query scope asserted)).run (handle env) w =
      (.error (.gateway e), w) := by
    simp only [MemoryCore.exec, MemoryCore.search, MemoryCore.prepare, Prog.bind_eq,
      Prog.run_bind, run_observe, resolveProvider_run, h]
    rfl
  have hfailure : ∃ e', payloadOf wire (gatewayErrorResponse e) = .error e' := by
    unfold gatewayErrorResponse
    split
    · exact ⟨_, if_pos (chooseProvider_status h)⟩
    · exact ⟨_, rfl⟩
  obtain ⟨e', hfailure⟩ := hfailure
  rw [proxy_of_response hrequest (app_of_error hserved hexec), hfailure]
  exact fun h => by cases h

/-- The arguments can be sent, and a provider that they assert is the one that is
    resolved. -/
def ClientCall.Portable (core : MemoryCore σ) (tenant : String) (catalog : Catalog)
    (c : ClientCall) : Prop :=
  c.Sendable tenant ∧ ∀ scope query kwargs, c = .search scope query kwargs →
    ∃ name, chooseProvider scope.subject (getBinding tenant scope.subject catalog)
      core.defaultProvider c.asserted = .ok name

/-- Every gateway id of the catalog was made by `new_id`. -/
def Catalog.Issued (c : Catalog) : Prop :=
  ∀ r ∈ c.memoryIndex, ∃ ms rand, r.gatewayId = ulid "mg" ms rand

/-- So it is in the catalogs that a gateway reaches when its supply is `new_id`. -/
theorem Catalog.Minted.issued {c : Catalog} (h : c.Minted env)
    (hsupply : ∀ k, ∃ ms rand, env.newId "mg" k = ulid "mg" ms rand) : c.Issued := by
  intro r hr
  obtain ⟨k, -, hid⟩ := h r hr
  rw [hid]
  exact hsupply k

theorem segment_ulid {ms rand : Nat} :
    wire.segment (ulid "mg" ms rand) = some (ulid "mg" ms rand) :=
  wire.segment_word _ (by simp [ulid]) fun _ => ulid_word

def ClientReply.handed : ClientReply → List MemoryRecord
  | .records held => held
  | .found result => result.results
  | .memory record => [record]
  | .none | .count _ => []

/-- Everything in the result is something that JSON has. -/
def ClientReply.Plain (r : ClientReply) : Prop := ∀ record ∈ r.handed, record.Plain

instance (r : ClientReply) : Decidable r.Plain :=
  inferInstanceAs (Decidable (∀ record ∈ r.handed, record.Plain))

theorem returned_handed {reply : Reply} : reply.returned.handed = reply.records := by
  cases reply <;> rfl

theorem asserting_none {c : ClientCall} {call : Call} (hcall : c.call wire tenant = .ok call) :
    call.asserting none = call := by
  cases c with
  | ingest | search =>
    obtain ⟨_, -, hcall⟩ := bind_ok_iff.mp hcall
    obtain rfl := Except.ok.inj hcall
    rfl
  | upsert | listScope | get | update | delete | deleteScope =>
    obtain rfl := Except.ok.inj hcall
    rfl

/-- Asserting the provider that is resolved changes nothing. -/
theorem exec_asserting {c : ClientCall} {call : Call} (hcall : c.call wire tenant = .ok call)
    (hportable : c.Portable core tenant w.catalog) :
    (core.exec (call.asserting c.asserted)).run (handle env) w =
      (core.exec call).run (handle env) w := by
  cases c with
  | search scope query kwargs =>
    obtain ⟨q, -, hcall⟩ := bind_ok_iff.mp hcall
    obtain rfl := Except.ok.inj hcall
    obtain ⟨name, hname⟩ := hportable.2 scope query kwargs rfl
    exact search_asserting (hname.trans (chooseProvider_unasserted hname).symm)
  | ingest | upsert | listScope | get | update | delete | deleteScope =>
    show (core.exec (call.asserting none)).run (handle env) w = _
    rw [asserting_none hcall]

/-- A verb in embedded mode that returned has made its call, and returned its reply. -/
theorem embedded_ok {c : ClientCall} {r : ClientReply}
    (h : (embedded core wire tenant c).run (handle env) w = (.ok r, w')) :
    ∃ call reply, c.call wire tenant = .ok call ∧
      (core.exec call).run (handle env) w = (.ok reply, w') ∧ reply.returned = r := by
  cases hcall : c.call wire tenant with
  | error e =>
    rw [embedded, hcall] at h
    cases h
  | ok call =>
    rw [embedded, hcall] at h
    obtain ⟨reply, hexec, hreply⟩ := run_ret_ok h
    exact ⟨call, reply, rfl, hexec, hreply⟩

def recalledScope : Scope := { subject := ⟨"u_1", u_1_mustBeReal⟩ }

/-- A gateway whose provider can answer for a point in time. -/
def recallingGateway : MemoryCore Unit where
  providers := [("zep",
    { Adapter.serving [{ nativeId := "n", content := "tea", score := some (.number 1) }] id with
      capabilities :=
        { (Adapter.serving (σ := Unit) [] id).capabilities with
          searchModes := [.semantic, .temporal] } })]
  defaultProvider := some "zep"

def recallingWorld : World Unit := { catalog := {}, store := () }

/-- `search(scope, "tea", limit=3)` -/
def plainSearch : ClientCall :=
  .search recalledScope "tea" ⟨[("limit", .int 3)], by decide⟩

/-- `search(scope, "tea", as_of=datetime(...))` -/
def searchAsOf : ClientCall :=
  .search recalledScope "tea" ⟨[("as_of", .time 0)], by decide⟩

end Memgw
