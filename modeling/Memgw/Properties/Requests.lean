-- SUMMARY: Every request keeps to the tenant of its credential, and so tenants are isolated in every overlap of requests.
import Memgw.Server.App
import Memgw.Properties.Credentials
import Memgw.Properties.TenantViews

/-!
# Requests

What is known of overlapping verbs holds for overlapping requests: a route makes its
calls for the tenant of the credential, whatever its path and its body say, and
nothing can be read in a response that the calls did not hand out.
-/

namespace Memgw

open Pgvector

variable {env : Env} {wire : Wire} {t : String} {x y : Watched} {α : Type}

/-! ## What can be read in a response -/

def Value.records (wire : Wire) : Value → List MemoryRecord
  | .list values => values.toList.filterMap (MemoryRecord.read wire)
  | _ => []

/-- The records that can be read in a response. -/
def Response.records (wire : Wire) (response : Response) : List MemoryRecord :=
  match response.content with
  | .json fields => ((fields.lookup "results").map (Value.records wire)).getD [] ++
    (MemoryRecord.read wire (.obj fields)).toList
  | .empty | .text _ => []

/-- The records that a route returns. -/
def Out.records : Out → List MemoryRecord
  | .wrote out => out.results
  | .found out => out.results
  | .listed out => out.results
  | .memory record => [record]
  | .deleted | .erased _ | .rebound _ => []

theorem read_without_id {fields : Fields} (h : fields.lookup "id" = none) :
    MemoryRecord.read wire (.obj fields) = none := by
  simp only [MemoryRecord.read, Value.fields?_obj, required, h, Option.bind_eq_bind,
    Option.bind_some, Option.bind_none]

/-- An object that is neither a record nor a page has no records. -/
theorem records_eq_nil {status : Nat} {fields : Fields} (hresults : fields.lookup "results" = none)
    (hid : fields.lookup "id" = none) :
    Response.records wire { status := status, content := .json fields } = [] := by
  simp [Response.records, hresults, read_without_id hid]

/-- A record is read with the id and the content with which it was written. -/
theorem read_of_dump {record record' : MemoryRecord} {body : Fields}
    (hdump : record.dump wire = some body)
    (hread : MemoryRecord.read wire (.obj body) = some record') :
    record'.nativeId = record.nativeId ∧ record'.content = record.content := by
  simp only [MemoryRecord.dump, Option.bind_eq_bind, Option.bind_eq_some_iff, Option.pure_def,
    Option.some.injEq] at hdump
  obtain ⟨score, -, raw, -, rfl⟩ := hdump
  rw [MemoryRecord.read_body, Option.map_eq_some_iff] at hread
  obtain ⟨score', -, rfl⟩ := hread
  exact ⟨rfl, rfl⟩

theorem mem_records_of_dump {records : List MemoryRecord} {value : Value}
    (hdump : dumpRecords wire records = some value) :
    ∀ record' ∈ value.records wire, ∃ record ∈ records,
      record'.nativeId = record.nativeId ∧ record'.content = record.content := by
  obtain ⟨bodies, hbodies, rfl⟩ := Option.map_eq_some_iff.mp hdump
  intro record' hrecord'
  rw [Value.records, Values.toList_ofList] at hrecord'
  obtain ⟨value, hvalue, hread⟩ := List.mem_filterMap.mp hrecord'
  obtain ⟨body, hbody, rfl⟩ := List.mem_map.mp hvalue
  obtain ⟨record, hrecord, hdump⟩ := exists_of_mem_mapM hbodies hbody
  exact ⟨record, hrecord, read_of_dump hdump hread⟩

/-- A page has the records that it was made from. -/
theorem mem_records_of_page {records : List MemoryRecord} {status : Nat} {value : Value}
    {fields : Fields} (hdump : dumpRecords wire records = some value)
    (hid : fields.lookup "id" = none) :
    ∀ record' ∈ Response.records wire
        { status := status, content := .json (("results", value) :: fields) },
      ∃ record ∈ records, record'.nativeId = record.nativeId ∧
        record'.content = record.content := by
  intro record' hrecord'
  have hnone : MemoryRecord.read wire (.obj (("results", value) :: fields)) = none :=
    read_without_id (by simpa [List.lookup_cons] using hid)
  simp only [Response.records, hnone, List.lookup_cons_self, Option.map_some, Option.getD_some,
    Option.toList_none, List.append_nil] at hrecord'
  exact mem_records_of_dump hdump record' hrecord'

theorem mem_records_of_record {record record' : MemoryRecord} {status : Nat} {body : Fields}
    (hdump : record.dump wire = some body)
    (hrecord' : record' ∈ Response.records wire { status := status, content := .json body }) :
    record'.nativeId = record.nativeId ∧ record'.content = record.content := by
  have hresults : body.lookup "results" = none := by
    simp only [MemoryRecord.dump, Option.bind_eq_bind, Option.bind_eq_some_iff, Option.pure_def,
      Option.some.injEq] at hdump
    obtain ⟨score, -, raw, -, rfl⟩ := hdump
    simp [MemoryRecord.body, List.lookup_cons]
  simp only [Response.records, hresults, Option.map_none, Option.getD_none, List.nil_append,
    Option.mem_toList] at hrecord'
  exact read_of_dump hdump hrecord'

theorem mem_records_response {out : Out} :
    ∀ record' ∈ (out.response wire).records wire, ∃ record ∈ out.records,
      record'.nativeId = record.nativeId ∧ record'.content = record.content := by
  intro record' hrecord'
  unfold Out.response at hrecord'
  cases hcontent : out.content wire with
  | none =>
    rw [hcontent] at hrecord'
    cases hrecord'
  | some content =>
    rw [hcontent] at hrecord'
    cases out with
    | wrote out | listed out =>
      obtain ⟨value, hdump, rfl⟩ := Option.map_eq_some_iff.mp hcontent
      exact mem_records_of_page hdump (by simp [List.lookup_cons]) record' hrecord'
    | found out =>
      obtain ⟨fields, hfields, rfl⟩ := Option.map_eq_some_iff.mp hcontent
      simp only [SearchResult.dump, Option.bind_eq_bind, Option.bind_eq_some_iff, Option.pure_def,
        Option.some.injEq] at hfields
      obtain ⟨value, hdump, rfl⟩ := hfields
      exact mem_records_of_page hdump (by simp [List.lookup_cons]) record' hrecord'
    | memory record =>
      obtain ⟨body, hdump, rfl⟩ := Option.map_eq_some_iff.mp hcontent
      exact ⟨record, List.mem_singleton_self _, mem_records_of_record hdump hrecord'⟩
    | deleted =>
      obtain rfl := Option.some.inj hcontent
      cases hrecord'
    | erased out | rebound out =>
      obtain rfl := Option.some.inj hcontent
      rw [records_eq_nil (by simp [List.lookup_cons]) (by simp [List.lookup_cons])] at hrecord'
      cases hrecord'

/-! ## Routes -/

section

variable {core : MemoryCore State} {p : CoreProg State α} {f : α → CoreProg State Response}

/-- The records that can be read in the response to a request are discreet. -/
@[reducible] def Answers (env : Env) (wire : Wire) (t : String) :
    Except Exc Response → Watched → Prop :=
  HandsOut env t (Response.records wire)

theorem Discreet.weaken {records records' : List MemoryRecord} (h : Discreet env t records x)
    (hrecords : ∀ record' ∈ records', ∃ record ∈ records, record'.nativeId = record.nativeId ∧
      record'.content = record.content) : Discreet env t records' x := by
  intro record' hrecord'
  obtain ⟨record, hrecord, hid, hcontent⟩ := hrecords record' hrecord'
  rw [hid, hcontent]
  exact h record hrecord

theorem amid_reached {Q : Except Exc α → Watched → Prop} (hp : Amid env t p Q x) :
    Amid env t p (fun r y => Q r y ∧ Onward env x y) x :=
  Prog.Under.reached hp .refl (fun _ _ _ => .trans) fun _ _ h => h.onward

/-- An action on no ids. -/
theorem amid_bare {β : Type} {f : α → CoreProg State β} {Q : Except Exc β → Watched → Prop}
    (hp : p.Within (Op.Minds env t [])) (ht : t ≠ "") (hx : SelfHosted env x.1)
    (herr : ∀ e y, Q (.error e) y) (hok : ∀ a y, Onward env x y → Amid env t (f a) Q y) :
    Amid env t (p.bind f) Q x := by
  have hx : Assured env t [] [] x :=
    ⟨hx, fun m hm => absurd hm List.not_mem_nil, fun m hm => absurd hm List.not_mem_nil⟩
  exact Prog.under_bind_of (amid_reached (amid_within hp ht hx)) (fun a y hy => hok a y hy.2)
    fun e y _ => herr e y

theorem answers_nil {response : Response} (h : response.records wire = []) :
    Answers env wire t (.ok response) x := by
  refine handsOut_ok fun record hrecord => ?_
  rw [h] at hrecord
  cases hrecord

theorem records_gatewayErrorResponse {e : GatewayError} :
    (gatewayErrorResponse e).records wire = [] := by
  unfold gatewayErrorResponse jsonDumps
  split
  · rename_i body hbody
    split at hbody
    · obtain rfl := Except.ok.inj hbody
      exact records_eq_nil (by simp [GatewayError.toBody, List.lookup_cons])
        (by simp [GatewayError.toBody, List.lookup_cons])
    · cases hbody
  · rfl

/-- An error becomes a response without records. -/
theorem amid_handled {p : CoreProg State Response} (hp : Amid env t p (Answers env wire t) x) :
    Amid env t (p.tryCatch exceptionHandler) (Answers env wire t) x := by
  refine Prog.under_tryCatch.mpr (hp.mono fun r y hr => ?_)
  cases r with
  | ok response => exact hr
  | error e =>
    cases e with
    | gateway e => exact answers_nil records_gatewayErrorResponse
    | cancelled => exact handsOut_error _ y
    | integrity text | other kind text => exact answers_nil rfl

/-- A lookup of a binding hands nothing out. -/
theorem amid_out {call : Call} {reply : Reply} (hcall : call.tenant = t) (ht : t ≠ "")
    (hx : SelfHosted env x.1) (hreply : Discreet env t reply.records x) :
    Amid env t (core.out call reply) (HandsOut env t Out.records) x := by
  have hlookup : ∀ scope : Scope, (core.namedProvider t scope).Within (Op.Minds env t []) :=
    fun scope => Prog.within_bind
      (Prog.within_perform ⟨rfl, fun m hm => absurd hm List.not_mem_nil⟩) fun _ => trivial
  unfold MemoryCore.out
  split
  · obtain rfl := hcall
    exact amid_bare (hlookup _) ht hx handsOut_error fun provider y hy =>
      handsOut_ok (hreply.onward hy)
  · obtain rfl := hcall
    exact amid_bare (hlookup _) ht hx handsOut_error fun provider y hy =>
      handsOut_ok fun record hrecord => by cases hrecord
  all_goals first
    | exact handsOut_ok hreply
    | exact handsOut_ok fun record hrecord => by cases hrecord

theorem HttpRequest.call_tenant {request : HttpRequest} {call : Call}
    (h : request.call wire t = some (.ok call)) : call.tenant = t := by
  cases request with
  | ingest body =>
    obtain ⟨_, _, _, _, _, rfl⟩ := Routes.ingest_ok_iff.mp (Option.some.inj h)
    rfl
  | upsert body =>
    obtain ⟨_, _, _, rfl⟩ := Routes.upsert_ok_iff.mp (Option.some.inj h)
    rfl
  | listScope body =>
    obtain ⟨_, _, _, rfl⟩ := Routes.listScope_ok_iff.mp (Option.some.inj h)
    rfl
  | search body =>
    obtain ⟨_, _, _, rfl⟩ := Routes.search_ok_iff.mp (Option.some.inj h)
    rfl
  | deleteScope body =>
    obtain ⟨_, _, _, rfl⟩ := Routes.deleteScope_ok_iff.mp (Option.some.inj h)
    rfl
  | getMemory id | deleteMemory id =>
    obtain ⟨_, _, hcall⟩ := Option.map_eq_some_iff.mp h
    obtain rfl := Except.ok.inj hcall
    rfl
  | updateMemory id body =>
    obtain ⟨_, _, hcall⟩ := Option.map_eq_some_iff.mp h
    obtain ⟨_, _, _, rfl⟩ := Routes.updateMemory_ok_iff.mp hcall
    rfl

theorem app_amid {request : HttpRequest} (hcore : core.OverPgvector env) (ht : t ≠ "")
    (hx : SelfHosted env x.1) : Amid env t (app core wire t request) (Answers env wire t) x := by
  unfold app
  split
  · exact answers_nil (records_eq_nil (by simp) (by simp))
  · rename_i call hcall
    refine amid_handled (amid_check handsOut_error fun call hok => ?_)
    subst hok
    obtain rfl := HttpRequest.call_tenant hcall
    have hroute : Amid env call.tenant (core.route call) (HandsOut env call.tenant Out.records) x := by
      refine Prog.under_bind_of (amid_reached (exec_amid hcore call ht hx)) (fun reply y hy => ?_)
        fun e y _ => handsOut_error e y
      exact amid_out rfl ht (hy.2.hosted hx) (hy.1 reply rfl)
    refine Prog.under_bind_of hroute (fun out y hy => ?_) fun e y _ => handsOut_error e y
    exact handsOut_ok ((hy out rfl).weaken mem_records_response)

theorem getBindingRoute_amid {subject : String} (ht : t ≠ "") (hx : SelfHosted env x.1) :
    Amid env t (getBindingRoute t subject) (Answers env wire t) x :=
  amid_bare (Prog.within_perform ⟨rfl, fun m hm => absurd hm List.not_mem_nil⟩) ht hx
    handsOut_error fun provider y _ =>
      answers_nil (records_eq_nil (by simp [List.lookup_cons]) (by simp [List.lookup_cons]))

theorem rebindRoute_amid {subject : String} {body : Fields} (hcore : core.OverPgvector env)
    (ht : t ≠ "") (hx : SelfHosted env x.1) :
    Amid env t (rebindRoute core wire t subject body) (Answers env wire t) x := by
  refine amid_check handsOut_error fun call hcall => ?_
  have htenant : call.tenant = t := by
    simp only [Routes.rebind, bind_ok_iff] at hcall
    obtain ⟨_, _, _, _, hcall⟩ := hcall
    obtain rfl := Except.ok.inj hcall
    rfl
  obtain rfl := htenant
  refine Prog.under_bind_of (exec_amid hcore call ht hx) (fun reply y _ => ?_)
    fun e y _ => handsOut_error e y
  cases reply with
  | rebound result =>
    exact answers_nil (records_eq_nil (by simp [RebindResult.dump, List.lookup_cons])
      (by simp [RebindResult.dump, List.lookup_cons]))
  | wrote | found | listed | memory | deleted | erased => exact answers_nil rfl

/-- The health of a configured provider is asked for on behalf of nobody. -/
theorem within_statuses {providers : List (String × Adapter State)}
    (h : ∀ provider ∈ providers, ∃ cfg, provider.2 = Pgvector.adapter env cfg) :
    (MemoryCore.statuses providers).Within (Op.Minds env t []) := by
  induction providers with
  | nil => trivial
  | cons provider providers ih =>
    obtain ⟨cfg, hcfg⟩ := h provider (List.mem_cons_self ..)
    refine Prog.within_bind (Prog.within_bind (Prog.within_tryCatch ?_ fun e => ?_) fun _ =>
      trivial) fun status => Prog.within_bind (ih fun provider hprovider =>
        h provider (List.mem_cons_of_mem _ hprovider)) fun _ => trivial
    · exact Prog.within_bind (Prog.within_perform ⟨⟨cfg, hcfg⟩, trivial⟩) fun _ => trivial
    · split <;> trivial

theorem configured_overPgvector (hcore : core.OverPgvector env) :
    ∀ provider ∈ core.configured, ∃ cfg, provider.2 = Pgvector.adapter env cfg := by
  intro provider hprovider
  obtain ⟨name, -, hname⟩ := List.mem_filterMap.mp hprovider
  obtain ⟨a, ha, rfl⟩ := Option.map_eq_some_iff.mp hname
  exact hcore name a (by rw [MemoryCore.adapter, ha])

/-- Whatever a credential of the tenant requests, it is confined to the tenant. -/
theorem handler_amid {request : GatewayRequest} (hcore : core.OverPgvector env) (ht : t ≠ "")
    (hx : SelfHosted env x.1) :
    Amid env t (request.handler core wire t) (Answers env wire t) x := by
  have hnotFound : Answers env wire t (.ok notFound) x :=
    answers_nil (records_eq_nil (by simp) (by simp))
  cases request with
  | memory request => exact app_amid hcore ht hx
  | getBinding subject =>
    simp only [GatewayRequest.handler]
    split
    · exact amid_handled (getBindingRoute_amid ht hx)
    · exact hnotFound
  | rebind subject body =>
    simp only [GatewayRequest.handler]
    split
    · exact amid_handled (rebindRoute_amid hcore ht hx)
    · exact hnotFound
  | providers =>
    exact amid_handled (amid_bare (within_statuses (configured_overPgvector hcore)) ht hx
      handsOut_error fun statuses y _ => answers_nil rfl)
  | capabilities provider =>
    refine amid_handled (amid_check handsOut_error fun caps _ => answers_nil ?_)
    exact records_eq_nil (by simp [Capabilities.dump, List.lookup_cons])
      (by simp [Capabilities.dump, List.lookup_cons])
  | healthz => exact answers_nil (records_eq_nil (by simp [List.lookup_cons]) (by simp [List.lookup_cons]))

end

/-! ## Credentials -/

theorem createApp_of_ok {core : MemoryCore State} {digest : Digest} {auth : ApiKeyAuth}
    {header : Option String} {request : GatewayRequest} {who : Principal}
    (hrouted : request.Routed wire) (hopen : request.isOpen = false)
    (hwho : auth.authenticate digest header = .ok who) :
    createApp core wire digest auth header request = request.handler core wire who.tenantId := by
  rw [createApp, if_neg (not_not.mpr hrouted), hopen, hwho]
  rfl

/-- The header has a credential of the tenant. -/
def ApiKeyAuth.Names (digest : Digest) (auth : ApiKeyAuth) (header : Option String) (t : String) :
    Prop :=
  ∃ who, auth.authenticate digest header = .ok who ∧ who.tenantId = t

instance {digest : Digest} {auth : ApiKeyAuth} {header : Option String} {t : String} :
    Decidable (auth.Names digest header t) :=
  decidable_of_iff ((auth.authenticate digest header).toOption.map Principal.tenantId = some t) <| by
    unfold ApiKeyAuth.Names
    cases auth.authenticate digest header <;> simp [Except.toOption]

section

variable {digest : Digest} {auth : ApiKeyAuth} {header : Option String} {raw u : String}

theorem ApiKeyAuth.Names.same (h : auth.Names digest header t) (h' : auth.Names digest header u) :
    t = u := by
  obtain ⟨who, hwho, rfl⟩ := h
  obtain ⟨who', hwho', rfl⟩ := h'
  rw [Except.ok.inj (hwho.symm.trans hwho')]

/-- No credential names the empty tenant. -/
theorem ApiKeyAuth.Names.ne_empty
    (h : (ApiKeyAuth.new digest (apiKeys raw)).Names digest header t) : t ≠ "" := by
  obtain ⟨who, hwho, rfl⟩ := h
  cases header with
  | none => cases hwho
  | some header =>
    obtain ⟨-, -, howner, -⟩ := authenticate_ok_iff.mp hwho
    rw [ApiKeyAuth.owner, scan_eq_lookup (ApiKeyAuth.nodup _), ApiKeyAuth.new, lookup_dictOf,
      Option.map_eq_some_iff] at howner
    obtain ⟨kv, hfind, hkv⟩ := howner
    have hmem := List.mem_reverse.mp (List.mem_of_find?_eq_some hfind)
    exact tenants_ne_empty (List.mem_map.mpr ⟨kv, hmem, hkv⟩)

end

/-! ## Every overlap -/

section

variable {ι : Type}

/-- What the requests make the gateway do. -/
def requests (gateway : ι → MemoryCore State) (wire : Wire) (digest : Digest) (auth : ApiKeyAuth)
    (header : ι → Option String) (request : ι → GatewayRequest) (i : ι) : CoreProg State Response :=
  createApp (gateway i) wire digest auth (header i) (request i)

theorem requests_confined (wire : Wire) {gateway : ι → MemoryCore State} (digest : Digest)
    (raw : String) (header : ι → Option String) (request : ι → GatewayRequest)
    (hcores : ∀ i, (gateway i).OverPgvector env) :
    let auth := ApiKeyAuth.new digest (apiKeys raw)
    Confined env (fun i => auth.Names digest (header i))
      (fun i r y => ∀ response, r = .ok response → ∀ record ∈ response.records wire,
        ∃ t, auth.Names digest (header i) t ∧ Discreet env t [record] y)
      (requests gateway wire digest auth header request) := by
  intro auth i
  have hnone : ∀ response : Response, response.records wire = [] →
      ∀ answer, (.ok response : Except Exc Response) = .ok answer →
        ∀ record ∈ answer.records wire, ∃ t, auth.Names digest (header i) t ∧
          Discreet env t [record] (nothingStored, []) := by
    rintro response hresponse _ ⟨⟩ record hrecord
    rw [hresponse] at hrecord
    cases hrecord
  unfold requests createApp
  split
  · exact hnone _ (records_eq_nil (by simp) (by simp))
  · split
    · exact hnone _ (records_eq_nil (by simp [List.lookup_cons]) (by simp [List.lookup_cons]))
    · split
      · exact hnone _ records_gatewayErrorResponse
      · rename_i who hwho
        have hnames : auth.Names digest (header i) who.tenantId := ⟨who, hwho, rfl⟩
        refine Prog.Under.mono (Amid.confined (handler_amid (hcores i) hnames.ne_empty .empty)
          hnames) fun r y hr response hresponse record hrecord => ⟨_, hnames, ?_⟩
        intro record' hrecord'
        obtain rfl := List.mem_singleton.mp hrecord'
        exact hr response hresponse record' hrecord

variable [DecidableEq ι]

/-- Any number of requests, with any headers and any bodies, may overlap in any order,
    and stop anywhere. Each step of a request has a credential behind it, and leaves the
    rows and the catalog of every tenant but the one of the credential as they are. What
    can be read in a response is what a row of that tenant said at some moment. -/
theorem requests_isolated (env : Env) (wire : Wire) (gateway : ι → MemoryCore State)
    (digest : Digest) (raw : String) (header : ι → Option String) (request : ι → GatewayRequest)
    (hcores : ∀ i, (gateway i).OverPgvector env) (es : List (Event (@Op.Ans State) Exc ι))
    (pool' : ι → CoreProg State Response) (w' : World State)
    (hrun : Exec (handle env) (requests gateway wire digest (ApiKeyAuth.new digest (apiKeys raw))
      header request) nothingStored es pool' w') :
    let auth := ApiKeyAuth.new digest (apiKeys raw)
    (∀ es₁ e es₂, es = es₁ ++ e :: es₂ →
      let before := replay (handle env) es₁ nothingStored
      let after := replay (handle env) (es₁ ++ [e]) nothingStored
      ∃ t, auth.Names digest (header e.who) t ∧ before.catalog.OthersKept t after.catalog ∧
        ∀ table, ∀ row : Row, row.tenant ≠ some t →
          (row ∈ after.store.tables table ↔ row ∈ before.store.tables table)) ∧
    ∀ i response, pool' i = .ret response → ∀ record ∈ response.records wire,
      ∃ t, auth.Names digest (header i) t ∧ ∃ es₁ es₂, es = es₁ ++ es₂ ∧
        (replay (handle env) es₁ nothingStored).store.Has t record.nativeId record.content := by
  have hpool := requests_confined wire digest raw header request hcores
  refine ⟨fun es₁ e es₂ hes => ?_, fun i response hresponse record hrecord => ?_⟩
  · subst hes
    obtain ⟨t, ht, hcatalog, hrows, -⟩ := hpool.kept hrun
    exact ⟨t, ht, hcatalog, hrows⟩
  · obtain ⟨y, hanswers, hlog⟩ := hpool.ended hrun hresponse
    obtain ⟨t, ht, hdiscreet⟩ := hanswers response rfl record hrecord
    exact ⟨t, ht, hdiscreet.quotes hlog record (List.mem_singleton_self _)⟩

/-- The requests of one tenant do what they do, and get the responses that they get, as
    if nobody else had sent any. -/
theorem requests_leave_no_trace (env : Env) (wire : Wire) (gateway : ι → MemoryCore State)
    (digest : Digest) (raw : String) (header : ι → Option String) (request : ι → GatewayRequest)
    (hcores : ∀ i, (gateway i).OverPgvector env) (es : List (Event (@Op.Ans State) Exc ι))
    (pool' : ι → CoreProg State Response) (w' : World State)
    (hrun : Exec (handle env) (requests gateway wire digest (ApiKeyAuth.new digest (apiKeys raw))
      header request) nothingStored es pool' w') (t : String) :
    let auth := ApiKeyAuth.new digest (apiKeys raw)
    ∃ part, (∀ i, auth.Names digest (header i) t → part i = pool' i) ∧
      Alongside (handle env) World.Later (requests gateway wire digest auth header request)
        nothingStored (es.filter fun e => auth.Names digest (header e.who) t) part (w'.only t) :=
  (requests_confined wire digest raw header request hcores).leaves_no_trace (fun _ _ _ h h' => h.same h')
    (fun _ _ h => h.ne_empty) hrun t

end

/-- Two tenants send the same request, which asserts nothing. -/
def twoRequests (_ : TwoCalls) : GatewayRequest :=
  .memory (.upsert [("facts", .strs ["tea"]), ("scope", .obj userScope.dump)])

def twoHeaders : TwoCalls → Option String
  | .first => some "Bearer alpha"
  | .second => some "Bearer beta"

def twoKeys : ApiKeyAuth := ApiKeyAuth.new twoDigests (apiKeys "alpha:a,beta:b")

/-- They take turns. -/
def playRequests : List (Event (@Op.Ans State) Exc TwoCalls) ×
    (TwoCalls → CoreProg State Response) × World State :=
  play (handle .counting) ((List.replicate 5 [.first, .second]).flatten)
    (requests (fun _ => plainGateway) .strict twoDigests twoKeys twoHeaders twoRequests)
    nothingStored

theorem twoKeys_alpha :
    twoKeys.authenticate twoDigests (some "Bearer alpha") =
      .ok { tenantId := "a", keyId := "8ed3f6ad685b" } := by
  decide +kernel

theorem twoKeys_beta :
    twoKeys.authenticate twoDigests (some "Bearer beta") =
      .ok { tenantId := "b", keyId := "f44e64e75f39" } := by
  decide +kernel

theorem playRequests_pool :
    requests (fun _ => plainGateway) .strict twoDigests twoKeys twoHeaders twoRequests =
      fun i => app plainGateway .strict (crowd i).tenant
        (.upsert [("facts", .strs ["tea"]), ("scope", .obj userScope.dump)]) := by
  funext i
  cases i with
  | first => exact createApp_of_ok (by decide) rfl twoKeys_alpha
  | second => exact createApp_of_ok (by decide) rfl twoKeys_beta

theorem playRequests_first :
    ∃ response, playRequests.2.1 .first = .ret response ∧ ∃ record ∈ response.records .strict,
      record.nativeId = "pvI" ∧ record.content = "tea" := by
  unfold playRequests
  rw [playRequests_pool]
  exact ⟨_, rfl, _, List.mem_singleton_self _, rfl, rfl⟩

theorem playRequests_exec :
    Exec (handle .counting)
      (requests (fun _ => plainGateway) .strict twoDigests twoKeys twoHeaders twoRequests)
      nothingStored playRequests.1 playRequests.2.1 playRequests.2.2 :=
  play_exec _ _ _

theorem requests_are_isolated :
    ∃ es₁ es₂, playRequests.1 = es₁ ++ es₂ ∧
      (replay (handle .counting) es₁ nothingStored).store.Has "a" "pvI" "tea" := by
  have hisolated := requests_isolated .counting .strict (fun _ => plainGateway) twoDigests
    "alpha:a,beta:b" twoHeaders twoRequests (fun _ => plainGateway_overPgvector) _ _ _
    playRequests_exec
  obtain ⟨response, hresponse, record, hrecord, hid, hcontent⟩ := playRequests_first
  obtain ⟨t, ⟨who, hwho, rfl⟩, hhas⟩ := hisolated.2 .first response hresponse record hrecord
  obtain rfl := Except.ok.inj (twoKeys_alpha.symm.trans hwho)
  rw [hid, hcontent] at hhas
  exact hhas

theorem requests_have_left_no_trace :
    ∃ part, (∀ i, twoKeys.Names twoDigests (twoHeaders i) "a" → part i = playRequests.2.1 i) ∧
      Alongside (handle .counting) World.Later
        (requests (fun _ => plainGateway) .strict twoDigests twoKeys twoHeaders twoRequests)
        nothingStored (playRequests.1.filter fun e =>
          twoKeys.Names twoDigests (twoHeaders e.who) "a") part (playRequests.2.2.only "a") :=
  requests_leave_no_trace .counting .strict (fun _ => plainGateway) twoDigests
    "alpha:a,beta:b" twoHeaders twoRequests (fun _ => plainGateway_overPgvector) _ _ _
    playRequests_exec "a"

end Memgw
