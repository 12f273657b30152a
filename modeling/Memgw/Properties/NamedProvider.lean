-- SUMMARY: When the response to a listing or an erasure names the provider that served it, whatever other requests do meanwhile.
import Memgw.Server.Routes
import Memgw.Gateway.Traces

/-!
# The provider that a response names

The verb looks up where its subject is bound and calls that provider. When it has
returned, the route looks the binding up again and names what it finds. Between the
two lookups other requests may bind the subject or move it, and then the response
names a provider that the request never went to.
-/

namespace Memgw

variable {σ ι : Type} {env : Env} {core : MemoryCore σ} {t : String}

/-! ## What a route does -/

/-- The provider of a subject with this binding, if there is one. -/
def MemoryCore.resolved (core : MemoryCore σ) (bound : Option String) : Option String :=
  (bound.filter (· != "")).or core.defaultProvider

/-- The data call of a listing or an erasure. -/
def AdapterOp.ofScope : AdapterOp → Bool
  | .listScope .. | .deleteScope .. => true
  | _ => false

/-- A lookup of a binding. -/
def isLookup : CoreStep σ → Bool
  | ⟨.catalog (.getBinding ..), _⟩ => true
  | _ => false

/-- A transaction that is no lookup of a binding: what a verb does once it was answered. -/
def Op.bookkeeps : Op σ → Bool
  | .catalog (.getBinding ..) => false
  | .catalog _ => true
  | .adapter .. | .note .. | .emit .. => false

/-- The data steps of a route that listed or erased: it looks the binding up, calls the
    provider that it resolves, keeps its books, and looks the binding up again. -/
def Serves (core : MemoryCore σ) (t : String) (scope : Scope) (named : String)
    (steps : List (CoreStep σ)) : Prop :=
  ∃ bound name a op ans rest looked, core.resolved bound = some name ∧
    AdapterOp.ofScope op = true ∧ named = core.named looked ∧
    (∀ st ∈ rest, Op.bookkeeps st.1 = true) ∧
    steps = ⟨.catalog (.getBinding t scope.subject), .ok bound⟩ ::
      ⟨.adapter name a op, .ok ans⟩ ::
        (rest ++ [⟨.catalog (.getBinding t scope.subject), .ok looked⟩])

theorem chooseProvider_resolved {subject name : String} {bound asserted : Option String}
    (h : chooseProvider subject bound core.defaultProvider asserted = .ok name) :
    core.resolved bound = some name := by
  unfold chooseProvider at h
  unfold MemoryCore.resolved
  split at h
  · cases h
  · rename_i resolved hresolved
    rw [hresolved]
    split at h
    · exact congrArg some (Except.ok.inj h)
    · split at h
      · cases h
      · exact congrArg some (Except.ok.inj h)

/-- The provider that a route names is the one that the second lookup resolves. -/
theorem named_eq_iff {bound looked : Option String} {name : String}
    (h : core.resolved bound = some name) :
    core.named looked = name ↔ core.resolved looked = core.resolved bound := by
  show (core.resolved looked).getD "" = name ↔ _
  rw [h]
  cases hlooked : core.resolved looked with
  | some name' => simp
  | none =>
    -- then there is no default, and what was bound is not the empty text
    have hdefault : core.defaultProvider = none := (Option.or_eq_none_iff.mp hlooked).2
    have hne : name ≠ "" := by
      rintro rfl
      rw [MemoryCore.resolved, hdefault, Option.or_none] at h
      simp at h
    simpa using Ne.symm hne

theorem traces_within {α : Type} {p : CoreProg σ α} {A : Op σ → Prop} (hp : p.Within A)
    {Φ : List (CoreStep σ) → α → Prop} (h : ∀ steps a, (∀ st ∈ steps, A st.1) → Φ steps a) :
    Traces p Φ := by
  intro steps a hends
  exact h _ a fun st hst => hends.within hp st (List.mem_filter.mp hst).1

theorem traces_namedProvider {scope : Scope} {Φ : List (CoreStep σ) → String → Prop}
    (h : ∀ looked, Φ [⟨.catalog (.getBinding t scope.subject), .ok looked⟩] (core.named looked)) :
    Traces (core.namedProvider t scope) Φ :=
  traces_bind (traces_transact fun looked => traces_ret (h looked))

theorem listScope_route {scope : Scope} {limit : Nat} {asserted : Option String} :
    Traces (core.route (.listScope t scope limit asserted)) fun steps out =>
      ∃ results named, out = .listed { results := results, provider := named } ∧
        Serves core t scope named steps := by
  refine traces_bind (traces_bind (traces_observe ?_))
  refine traces_bind (traces_prepare fun bound name a hname _ => ?_)
  refine traces_bind (traces_note (traces_bind (traces_refuseIf ?_)))
  refine traces_bind (traces_call fun memories => ?_)
  have hhits : (mapHits t name memories scope : CoreProg σ _).Within fun op => op.bookkeeps = true :=
    within_mapHits fun _ => rfl
  refine traces_bind (traces_within hhits fun rest results hrest => ?_)
  refine traces_bind (traces_note (traces_ret (traces_ret ?_)))
  refine traces_bind (traces_namedProvider fun looked => traces_ret ⟨results, _, rfl, ?_⟩)
  exact ⟨bound, name, a, _, memories, rest, looked, chooseProvider_resolved hname, rfl, rfl, hrest,
    by simp⟩

theorem deleteScope_route {scope : Scope} {asserted : Option String} :
    Traces (core.route (.deleteScope t scope asserted)) fun steps out =>
      ∃ deleted named, out = .erased { deleted := deleted, provider := named } ∧
        Serves core t scope named steps := by
  refine traces_bind (traces_bind (traces_observe ?_))
  refine traces_bind (traces_prepare fun bound name a hname _ => ?_)
  refine traces_bind (traces_note (traces_bind (traces_check fun _ _ => ?_)))
  refine traces_bind (traces_call fun removed => traces_bind (traces_transact fun marked => ?_))
  refine traces_bind (traces_transact fun erased => ?_)
  refine traces_bind (traces_note (traces_bind (traces_note (traces_ret (traces_ret ?_)))))
  refine traces_bind (traces_namedProvider fun looked => traces_ret ⟨removed, _, rfl, ?_⟩)
  refine ⟨bound, name, a, _, removed, [⟨.catalog (.markScopeDeleted t scope name), .ok marked⟩,
    ⟨.catalog (.deleteJournal t scope), .ok erased⟩], looked, chooseProvider_resolved hname, rfl,
    rfl, ?_, by simp⟩
  simp [Op.bookkeeps]

/-! ## What others do meanwhile -/

/-- What a step makes of the binding of a subject. -/
def rebinds (t s : String) (bound : Option String) : CoreStep σ → Option String
  | ⟨.catalog (.insertBinding t' s' provider), .ok _⟩
  | ⟨.catalog (.replaceBinding t' s' provider _), .ok _⟩ =>
    if t' = t ∧ s' = s then some provider else bound
  | _ => bound

theorem getBinding_step {s : String} {st : CoreStep σ} {w : World σ}
    (hans : st.2 = (handle env st.1 w).1) :
    getBinding t s (handle env st.1 w).2.catalog = rebinds t s (getBinding t s w.catalog) st := by
  obtain ⟨op, r⟩ := st
  cases op with
  | adapter | note | emit => rfl
  | catalog op =>
    cases hwrites : op.writesBinding with
    | false =>
      have hkept : getBinding t s (op.exec env w.catalog).2 = getBinding t s w.catalog :=
        getBinding_congr (CatalogOp.exec_scopeBinding hwrites)
      refine hkept.trans ?_
      cases op <;> first | rfl | cases hwrites
    | true =>
      cases op with
      | insertBinding t' s' provider =>
        have hans : r = (insertBinding env t' s' provider w.catalog).1 := hans
        cases r with
        | ok u =>
          show getBinding t s (insertBinding env t' s' provider w.catalog).2 =
            if t' = t ∧ s' = s then some provider else getBinding t s w.catalog
          rw [getBinding_insertBinding]
          split
          · rename_i hon
            obtain ⟨rfl, rfl⟩ := hon
            rw [insertBinding_ok_iff.mp hans.symm]
            rfl
          · rfl
        | error e => exact getBinding_congr (insertBinding_error hans.symm).1
      | replaceBinding t' s' provider previous =>
        obtain rfl : r = .ok () := Eq.trans hans replaceBinding_ok
        exact getBinding_replaceBinding
      | _ => cases hwrites

/-- What the steps of a history make of the binding of a subject. -/
def reboundBy (t s : String) (bound : Option String) (es : List (Event (@Op.Ans σ) Exc ι)) :
    Option String :=
  es.foldl (fun bound e => rebinds t s bound e.step) bound

theorem getBinding_replay {s : String} {es : List (Event (@Op.Ans σ) Exc ι)} {w : World σ}
    (hes : Faithful (handle env) es w) :
    getBinding t s (replay (handle env) es w).catalog =
      reboundBy t s (getBinding t s w.catalog) es := by
  induction es generalizing w with
  | nil => rfl
  | cons e es ih =>
    rw [replay_cons, ih hes.2, getBinding_step hes.1]
    rfl

/-! ## The two lookups of a request -/

variable [DecidableEq ι]

/-- The request looks a binding up. -/
def looksUp (i : ι) (e : Event (@Op.Ans σ) Exc ι) : Bool := e.who = i && isLookup e.step

/-- What happened before the first lookup of a request. -/
def beforeLookup (i : ι) (es : List (Event (@Op.Ans σ) Exc ι)) :
    List (Event (@Op.Ans σ) Exc ι) :=
  es.takeWhile fun e => !looksUp i e

/-- What happened between its first lookup and its second one. -/
def betweenLookups (i : ι) (es : List (Event (@Op.Ans σ) Exc ι)) :
    List (Event (@Op.Ans σ) Exc ι) :=
  (es.dropWhile fun e => !looksUp i e).tail.takeWhile fun e => !looksUp i e

/-- Whatever bound or moved the subject between the two lookups of the request has left it
    with the provider that the first one resolves. -/
def Undisturbed (env : Env) (core : MemoryCore σ) (t s : String) (i : ι) (w : World σ)
    (es : List (Event (@Op.Ans σ) Exc ι)) : Prop :=
  let bound := getBinding t s (replay (handle env) (beforeLookup i es) w).catalog
  core.resolved (reboundBy t s bound (betweenLookups i es)) = core.resolved bound

/-- The adapter of the provider answered the request's listing or erasure. -/
def ServedBy (i : ι) (es : List (Event (@Op.Ans σ) Exc ι)) (provider : String) : Prop :=
  ∃ a op ans, AdapterOp.ofScope op = true ∧ ⟨i, ⟨.adapter provider a op, .ok ans⟩⟩ ∈ es

/-- The `provider` field of the response to a listing or an erasure. -/
def Out.provider? : Out → Option String
  | .listed out => some out.provider
  | .erased out => some out.provider
  | _ => none

theorem beforeLookup_split {i : ι} {x : Event (@Op.Ans σ) Exc ι}
    {before after : List (Event (@Op.Ans σ) Exc ι)} (hbefore : ∀ e ∈ before, looksUp i e = false)
    (hx : looksUp i x = true) : beforeLookup i (before ++ x :: after) = before :=
  takeWhile_split hbefore hx

theorem betweenLookups_split {i : ι} {x y : Event (@Op.Ans σ) Exc ι}
    {before mid after : List (Event (@Op.Ans σ) Exc ι)}
    (hbefore : ∀ e ∈ before, looksUp i e = false) (hx : looksUp i x = true)
    (hmid : ∀ e ∈ mid, looksUp i e = false) (hy : looksUp i y = true) :
    betweenLookups i (before ++ x :: (mid ++ y :: after)) = mid :=
  between_split hbefore hx hmid hy

theorem isData_of_isLookup {st : CoreStep σ} (h : isLookup st = true) : st.1.isData = true := by
  obtain ⟨op, r⟩ := st
  cases op with
  | catalog op => rfl
  | adapter | note | emit => cases h

/-- Bookkeeping is neither a lookup nor a call of an adapter. -/
theorem isLookup_of_bookkeeps {st : CoreStep σ} (h : Op.bookkeeps st.1 = true) :
    isLookup st = false := by
  obtain ⟨op, r⟩ := st
  cases op with
  | catalog op => cases op <;> first | rfl | cases h
  | adapter | note | emit => rfl

/-- A request names the provider that served it exactly when nothing between its two
    lookups gave the subject to another one. -/
theorem names_served_iff {scope : Scope} {named : String} {i : ι}
    {es : List (Event (@Op.Ans σ) Exc ι)} {w : World σ} (hes : Faithful (handle env) es w)
    (hserves : Serves core t scope named (dataSteps (own i es))) :
    ServedBy i es named ↔ Undisturbed env core t scope.subject i w es := by
  obtain ⟨bound, name, a, op, ans, rest, looked, hresolved, hop, rfl, hrest, hsteps⟩ := hserves
  -- the request served by the provider `name`, and by no other
  have hserved : ServedBy i es (core.named looked) ↔ core.named looked = name := by
    constructor
    · rintro ⟨a', op', ans', -, hmem⟩
      have hmem : (⟨.adapter (core.named looked) a' op', .ok ans'⟩ : CoreStep σ) ∈
          dataSteps (own i es) := List.mem_filter.mpr ⟨mem_own.mpr hmem, rfl⟩
      rw [hsteps] at hmem
      simp only [List.mem_cons, List.mem_append, List.not_mem_nil, or_false] at hmem
      rcases hmem with hmem | hmem | hmem | hmem
      · cases hmem
      · cases hmem
        rfl
      · cases hrest _ hmem
      · cases hmem
    · rintro rfl
      refine ⟨a, op, ans, hop, mem_own.mp ?_⟩
      have hmem : (⟨.adapter (core.named looked) a op, .ok ans⟩ : CoreStep σ) ∈
          dataSteps (own i es) := by rw [hsteps]; simp
      exact (List.mem_filter.mp hmem).1
  -- where its lookups stand in the history
  have hfirst : (own i es).filter (fun st => st.1.isData) =
      [] ++ ⟨.catalog (.getBinding t scope.subject), .ok bound⟩ :: (⟨.adapter name a op, .ok ans⟩ ::
        (rest ++ [⟨.catalog (.getBinding t scope.subject), .ok looked⟩])) := hsteps
  obtain ⟨before, later, rfl, hbefore, hlater⟩ := own_split hfirst
  have hsecond : (own i later).filter (fun st => st.1.isData) =
      (⟨.adapter name a op, .ok ans⟩ :: rest) ++
        ⟨.catalog (.getBinding t scope.subject), .ok looked⟩ :: [] := hlater
  obtain ⟨between, after, rfl, hbetween, -⟩ := own_split hsecond
  have hquiet : ∀ st ∈ (⟨.adapter name a op, .ok ans⟩ :: rest : List (CoreStep σ)),
      isLookup st = false :=
    List.forall_mem_cons.mpr ⟨rfl, fun st hst => isLookup_of_bookkeeps (hrest st hst)⟩
  have hbefore : ∀ e ∈ before, looksUp i e = false :=
    quiet_of_own (fun _ => isData_of_isLookup) hbefore (by simp)
  have hbetween : ∀ e ∈ between, looksUp i e = false :=
    quiet_of_own (fun _ => isData_of_isLookup) hbetween hquiet
  -- what they found
  simp only [faithful_append, Faithful] at hes
  obtain ⟨-, hbound, hmid, hlooked, -⟩ := hes
  obtain rfl : bound = getBinding t scope.subject (replay (handle env) before w).catalog :=
    Except.ok.inj hbound
  obtain rfl : looked = getBinding t scope.subject (replay (handle env) between
      (replay (handle env) before w)).catalog := Except.ok.inj hlooked
  have hmid : Faithful (handle env) between (replay (handle env) before w) := hmid
  have hlooks : ∀ bound, looksUp i (⟨i, ⟨.catalog (.getBinding t scope.subject), .ok bound⟩⟩ :
      Event (@Op.Ans σ) Exc ι) = true := fun bound => by simp [looksUp, isLookup]
  rw [hserved, named_eq_iff hresolved, Undisturbed, beforeLookup_split hbefore (hlooks _),
    betweenLookups_split hbefore (hlooks _) hbetween (hlooks _), getBinding_replay hmid]

/-- However requests overlap, the response to a listing or an erasure names the provider
    that served it exactly when nothing gave the subject to another provider between the
    two lookups of the request. -/
theorem response_names_served_iff (env : Env) (gateway : ι → MemoryCore σ) (call : ι → Call)
    (w w' : World σ) (es : List (Event (@Op.Ans σ) Exc ι)) (pool' : ι → CoreProg σ Out)
    (hrun : Exec (handle env) (fun i => (gateway i).route (call i)) w es pool' w') (i : ι)
    (t : String) (scope : Scope) (asserted : Option String) (out : Out)
    (hcall : call i = .deleteScope t scope asserted ∨
      ∃ limit, call i = .listScope t scope limit asserted)
    (hret : pool' i = .ret out) :
    (∃ provider, out.provider? = some provider ∧ ServedBy i es provider) ↔
      Undisturbed env (gateway i) t scope.subject i w es := by
  have hends := hrun.returned hret
  have hserves : ∃ named, out.provider? = some named ∧
      Serves (gateway i) t scope named (dataSteps (own i es)) := by
    rcases hcall with hcall | ⟨limit, hcall⟩
    · rw [hcall] at hends
      obtain ⟨deleted, named, rfl, hserves⟩ := deleteScope_route _ _ hends
      exact ⟨named, rfl, hserves⟩
    · rw [hcall] at hends
      obtain ⟨results, named, rfl, hserves⟩ := listScope_route _ _ hends
      exact ⟨named, rfl, hserves⟩
  obtain ⟨named, hnamed, hserves⟩ := hserves
  rw [← names_served_iff hrun.faithful hserves, hnamed]
  simp

/-! ## An erasure and a rebind -/

inductive TwoRequests where
  | erasure
  | move
  deriving DecidableEq

def twoProviders : MemoryCore Unit where
  providers := [("mem0", .serving [{ nativeId := "n", content := "tea" }] id),
    ("zep", .serving [] id)]
  defaultProvider := some "mem0"

def erasedScope : Scope := { subject := ⟨"u_1", u_1_mustBeReal⟩ }

def eraseAndMove (target : String) : TwoRequests → Call
  | .erasure => .deleteScope "a" erasedScope none
  | .move => .rebind "a" "u_1" target .freshStart

/-- The subject is moved once the erasure has looked up where it is. -/
def moveMeanwhile : List TwoRequests :=
  .erasure :: (.replicate 4 .move ++ .replicate 5 .erasure)

def playMove (target : String) :
    List (Event (@Op.Ans Unit) Exc TwoRequests) × (TwoRequests → CoreProg Unit Out) × World Unit :=
  play (handle .counting) moveMeanwhile
    (fun i => twoProviders.route (eraseAndMove target i)) { catalog := {}, store := () }

/-- The memories were erased at one provider, and the response names the other. -/
theorem erasure_names_other :
    ∃ es pool' w', Exec (handle .counting)
        (fun i => twoProviders.route (eraseAndMove "zep" i)) { catalog := {}, store := () }
        es pool' w' ∧
      pool' .erasure = .ret (.erased { deleted := 1, provider := "zep" }) ∧
      ServedBy .erasure es "mem0" ∧ ¬ ServedBy .erasure es "zep" := by
  have hrun := play_exec (h := handle .counting) moveMeanwhile
    (fun i => twoProviders.route (eraseAndMove "zep" i)) { catalog := {}, store := () }
  refine ⟨_, _, _, hrun, rfl, ?_, ?_⟩
  · exact ⟨_, _, _, rfl, .tail _ (.tail _ (.tail _ (.tail _ (.head _))))⟩
  · obtain ⟨deleted, named, hout, hserves⟩ :=
      deleteScope_route _ _ (hrun.returned (i := .erasure) rfl)
    obtain rfl : "zep" = named := congrArg DeleteScopeOut.provider (Out.erased.inj hout)
    rw [names_served_iff hrun.faithful hserves]
    intro hstays
    have hsame : some "zep" = some "mem0" := hstays
    exact absurd hsame (by decide)

theorem erasure_names_served :
    ∃ provider, (Out.erased { deleted := 1, provider := "mem0" }).provider? = some provider ∧
      ServedBy .erasure (playMove "mem0").1 provider :=
  (response_names_served_iff .counting (fun _ => twoProviders) (eraseAndMove "mem0")
    { catalog := {}, store := () } _ _ _ (play_exec moveMeanwhile _ _) .erasure "a" erasedScope
    none (.erased { deleted := 1, provider := "mem0" }) (.inl rfl) rfl).mpr rfl

end Memgw
