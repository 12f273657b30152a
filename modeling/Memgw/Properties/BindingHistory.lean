-- SUMMARY: The binding of a subject is what the writes and rebinds of its history make of it, and verbs follow it.
import Memgw.Gateway.Calls

/-!
# The binding and its history

The first write that succeeds binds a subject to the provider that served it, and only
a rebind moves it. So the binding can be computed from the calls of a run and their
outcomes, whatever the default provider was at each of them. A verb that resolves a
provider follows the binding, unless a provider has the empty text for its name.
-/

namespace Memgw

variable {σ : Type} {env : Env}

/-! ## Histories -/

/-- The calls of a run, and how each of them ended. -/
def outcomes (env : Env) : List (Request σ) → World σ → List (Call × Except Exc Reply)
  | [], _ => []
  | q :: qs, w => (q.2, q.answer env w) :: outcomes env qs (q.after env w)

/-- The binding of a subject after one more verb. A write that succeeded binds the
    subject if it was not bound, to the provider that served it; a rebind that
    succeeded binds it anew. -/
def boundAfter (t s : String) (bound : Option String) : Call × Except Exc Reply → Option String
  | (.ingest t' _ scope _, .ok (.wrote result)) | (.upsert t' _ scope _, .ok (.wrote result)) =>
    if t' = t ∧ scope.subject = s then bound.or (some result.provider) else bound
  | (.rebind t' s' provider _, .ok _) => if t' = t ∧ s' = s then some provider else bound
  | _ => bound

/-- The binding of a subject after the verbs of a history. -/
def boundBy (t s : String) (history : List (Call × Except Exc Reply)) : Option String :=
  history.foldl (boundAfter t s) none

/-- No provider has the empty text for its name. The names come from the settings,
    which know the providers, or from a client, which has no gateway without one. -/
def MemoryCore.Named (core : MemoryCore σ) : Prop := core.providers.lookup "" = none

/-! ## One verb -/

/-- What a verb that returned makes of the binding of any subject. -/
theorem MemoryCore.Did.bound {core : MemoryCore σ} {call : Call} {w w' : World σ} {reply : Reply}
    (h : core.Did env call w (.ok reply) w') (t s : String) :
    getBinding t s w'.catalog = boundAfter t s (getBinding t s w.catalog) (call, .ok reply) := by
  cases h with
  | failedOpen | got | deleted | erased => rfl
  | searched _ _ hmap => exact getBinding_congr hmap.binding
  | listed _ _ hmap => exact getBinding_congr hmap.binding
  | updated _ _ _ hmap => exact getBinding_congr hmap.binding
  | upserted _ _ hmap =>
    rw [getBinding_insertBinding, getBinding_congr hmap.binding]
    rfl
  | @ingested t' _ scope _ _ name _ _ _ _ c₁ c₂ _ _ _ hmap hjournal hr =>
    obtain ⟨rfl, -⟩ := hr _ rfl
    have hbinding : getBinding t s c₂ =
        getBinding t s (insertBinding env t' scope.subject name c₁).2 := by
      subst hjournal
      split
      · exact getBinding_congr journal_scopeBinding
      · rfl
    rw [hbinding, getBinding_insertBinding, getBinding_congr hmap.binding]
    rfl
  | rebound =>
    rw [getBinding_replaceBinding]
    rfl

/-- An ingest that raised has not bound the subject: only the journal could have
    stopped it afterwards, and the journal takes every episode. -/
theorem ingest_error {core : MemoryCore σ} {t : String} {episode : Episode} {scope : Scope}
    {asserted : Option String} {w : World σ} (hw : w.catalog.Numbered env) :
    (core.exec (.ingest t episode scope asserted)).wp (handle env)
      (fun r w' => ∀ e, r = .error e → w'.catalog.scopeBinding = w.catalog.scopeBinding) w := by
  simp only [MemoryCore.exec, MemoryCore.ingest, Prog.bind_eq, Prog.wp_bind, wp_observe, wp_note,
    Prog.pure_eq, Prog.wp_ret]
  refine wp_prepare (fun name a hp => ?_) (fun _ _ _ => rfl)
  refine wp_refuseIf (fun hcap => ?_) (fun _ _ _ => rfl)
  refine wp_call (fun memories s₁ hcall => ?_) (fun _ _ _ _ _ _ _ _ => rfl)
  refine wp_writtenRecords (fun rows c₁ hmap => ?_) (fun _ c' hc _ _ => hc.binding)
  refine wp_bind_subject (fun p => ?_)
  cases hj : core.journalEnabled with
  | false => exact fun e h => by cases h
  | true =>
    have hnumbered : (insertBinding env t scope.subject name c₁).2.Numbered env :=
      (hw.mono (fun j hj => hmap.journal ▸ hj) hmap.ticks).mono (fun j hj => by simpa using hj)
        (by simp)
    obtain ⟨id, hid⟩ : ∃ id, (journal env t scope episode
        [(name, memories.map ProviderMemory.nativeId)]
        (insertBinding env t scope.subject name c₁).2).1 = .ok id := journal_succeeds hnumbered
    simp only [runIf, if_true, Prog.wp_bind]
    rw [wp_transact]
    simp only [CatalogOp.exec, hid]
    exact fun e h => by cases h

/-- A verb that raised has bound nothing. -/
theorem Request.error_keeps_binding {q : Request σ} {w : World σ} {e : Exc}
    (hw : w.catalog.Numbered env) (h : q.answer env w = .error e) :
    (q.after env w).catalog.scopeBinding = w.catalog.scopeBinding := by
  obtain ⟨core, call⟩ := q
  have hdid := h ▸ Request.did env (core, call) w
  cases call with
  | ingest t episode scope asserted => exact ingest_error hw e h
  | update =>
    generalize Request.after env (core, _) w = w' at hdid
    cases hdid with
    | refused | failed => rfl
    | unsettled _ _ hc => exact hc.binding
    | updated _ _ _ hmap => exact hmap.binding
  | upsert | search | listScope | get | delete | deleteScope | rebind =>
    generalize Request.after env (core, _) w = w' at hdid
    cases hdid with
    | refused | failed => rfl
    | unsettled _ _ hc => exact hc.binding

theorem Request.bound {q : Request σ} {w : World σ} (hw : w.catalog.Numbered env) (t s : String) :
    getBinding t s (q.after env w).catalog =
      boundAfter t s (getBinding t s w.catalog) (q.2, q.answer env w) := by
  cases hanswer : q.answer env w with
  | ok reply => exact (hanswer ▸ q.did env w).bound t s
  | error e =>
    rw [getBinding_congr (q.error_keeps_binding hw hanswer)]
    cases q.2 <;> rfl

/-! ## Runs -/

theorem serve_bound {history : List (Request σ)} {w : World σ} (hw : w.catalog.Numbered env)
    (t s : String) : getBinding t s (serve env history w).catalog =
      (outcomes env history w).foldl (boundAfter t s) (getBinding t s w.catalog) := by
  induction history generalizing w with
  | nil => rfl
  | cons q qs ih =>
    have hstep := q.bound hw t s
    rw [outcomes, List.foldl_cons, ← hstep]
    exact ih ((q.did env w).numbered hw)

/-! ## Where verbs go -/

theorem MemoryCore.Named.adapter {core : MemoryCore σ} (h : core.Named) {name : String}
    {a : Adapter σ} (ha : core.adapter name = .ok a) : name ≠ "" := by
  rintro rfl
  have hnone : core.providers.lookup "" = none := h
  simp [MemoryCore.adapter, hnone] at ha

/-- The provider that a write names in its reply is the one that it went to. -/
theorem Request.served {q : Request σ} {w : World σ} {result : WriteResult}
    (h : q.answer env w = .ok (.wrote result)) :
    ∃ a op ans, q.asked env w = [⟨.adapter result.provider a op, .ok ans⟩] ∧
      q.1.adapter result.provider = .ok a := by
  have hdid := h ▸ q.did env w
  have hconducts := h ▸ q.conducts env w
  obtain ⟨core, call⟩ := q
  generalize Request.asked env (core, call) w = steps at hconducts
  generalize Request.after env (core, call) w = w' at hdid hconducts
  -- the call that was answered is the one that the verb made
  have hasked : ∀ {name : String} {a : Adapter σ} {op : AdapterOp} {ans : op.Ans} {s₁ : σ},
      core.Asks w.catalog call name a op → a.call op w.store = (.ok ans, s₁) →
      ∃ a op ans, steps = [⟨.adapter name a op, .ok ans⟩] ∧ core.adapter name = .ok a := by
    intro name a op ans s₁ hask hcall
    cases hconducts with
    | failed hask' hcall' =>
      obtain ⟨rfl, rfl, rfl⟩ := hask.unique hask'
      cases (congrArg Prod.fst hcall).symm.trans hcall'
    | answered hask' hcall' =>
      obtain ⟨rfl, rfl, rfl⟩ := hask.unique hask'
      exact ⟨_, _, _, rfl, hask.configured⟩
  cases hdid with
  | upserted hask hcall => exact hasked hask hcall
  | ingested hask hcall _ _ hr =>
    obtain ⟨hreply, -⟩ := hr _ rfl
    obtain rfl : result = _ := Reply.wrote.inj hreply
    exact hasked hask hcall
  | updated _ _ _ _ hr => cases hr _ rfl

/-- A rebind that returned had a configured provider for its target. -/
theorem rebind_configured {core : MemoryCore σ} {t subject provider : String}
    {strategy : RebindStrategy} {w : World σ} {reply : Reply}
    (h : Request.answer env (core, .rebind t subject provider strategy) w = .ok reply) :
    ∃ a, core.adapter provider = .ok a := by
  have hconducts := h ▸ Request.conducts env (core, .rebind t subject provider strategy) w
  generalize Request.asked env (core, _) w = steps at hconducts
  generalize Request.after env (core, _) w = w' at hconducts
  cases hconducts with
  | failed hask => cases hask
  | answered hask => cases hask
  | rebound hcall _ ha =>
    cases hcall
    exact ⟨_, ha⟩

/-- No subject is bound to the empty text. -/
def BoundNamed (w : World σ) : Prop := ∀ t s, getBinding t s w.catalog ≠ some ""

theorem Request.bound_named {q : Request σ} {w : World σ} (hnamed : q.1.Named)
    (hnumbered : w.catalog.Numbered env) (hw : BoundNamed w) : BoundNamed (q.after env w) := by
  intro t s hbound
  rw [q.bound hnumbered] at hbound
  have hwrote : ∀ result, q.answer env w = .ok (.wrote result) →
      (getBinding t s w.catalog).or (some result.provider) ≠ some "" := by
    intro result hanswer hor
    obtain ⟨a, -, -, -, ha⟩ := q.served hanswer
    cases hold : getBinding t s w.catalog with
    | none =>
      rw [hold, Option.none_or] at hor
      exact hnamed.adapter ha (Option.some.inj hor)
    | some b =>
      rw [hold, Option.some_or] at hor
      exact hw t s (hold.trans hor)
  unfold boundAfter at hbound
  split at hbound
  · rename_i heq
    obtain ⟨-, hanswer⟩ := Prod.mk.inj heq
    split at hbound
    · exact hwrote _ hanswer hbound
    · exact hw t s hbound
  · rename_i heq
    obtain ⟨-, hanswer⟩ := Prod.mk.inj heq
    split at hbound
    · exact hwrote _ hanswer hbound
    · exact hw t s hbound
  · rename_i t' s' provider strategy reply heq
    obtain ⟨hcall, hanswer⟩ := Prod.mk.inj heq
    split at hbound
    · cases Option.some.inj hbound
      obtain ⟨core, call⟩ := q
      subst hcall
      obtain ⟨a, ha⟩ := rebind_configured hanswer
      exact hnamed.adapter ha rfl
    · exact hw t s hbound
  · exact hw t s hbound

theorem serve_bound_named {history : List (Request σ)} (hnamed : ∀ q ∈ history, q.1.Named)
    {w : World σ} (hnumbered : w.catalog.Numbered env) (hw : BoundNamed w) :
    BoundNamed (serve env history w) := by
  induction history generalizing w with
  | nil => exact hw
  | cons q qs ih =>
    exact ih (fun q' hq' => hnamed q' (List.mem_cons_of_mem q hq'))
      ((q.did env w).numbered hnumbered)
      (q.bound_named (hnamed q (List.mem_cons_self ..)) hnumbered hw)

/-- Whatever a verb with a scope asks, it asks where its subject is bound. -/
theorem Request.follows_binding {q : Request σ} {w : World σ} {scope : Scope}
    {asserted : Option String} {p : String} (hscope : q.2.scoped = some (scope, asserted))
    (hbound : getBinding q.2.tenant scope.subject w.catalog = some p) (hp : p ≠ "") :
    ∀ st ∈ q.asked env w, ∃ a op, st.1 = .adapter p a op := by
  have hconducts := q.conducts env w
  generalize q.asked env w = steps at hconducts
  generalize q.answer env w = r at hconducts
  generalize q.after env w = w' at hconducts
  have hname : ∀ {name : String} {a : Adapter σ} {op : AdapterOp},
      q.1.Asks w.catalog q.2 name a op → name = p := by
    intro name a op hask
    have hchosen := (hask.prepared hscope).chosen
    rw [hbound] at hchosen
    exact chooseProvider_bound hp hchosen
  intro st hst
  cases hconducts with
  | refused | rebound => cases hst
  | failed hask _ hhealth =>
    obtain rfl := hname hask
    rcases List.mem_cons.mp hst with rfl | hst
    · exact ⟨_, _, rfl⟩
    · rcases hhealth with ⟨rfl, -⟩ | ⟨rfl, -⟩
      · cases hst
      · obtain rfl := List.mem_singleton.mp hst
        exact ⟨_, _, rfl⟩
  | answered hask =>
    obtain rfl := hname hask
    obtain rfl := List.mem_singleton.mp hst
    exact ⟨_, _, rfl⟩

/-- A gateway with two providers and a default that may change. -/
def roamingGateway (default : String) : MemoryCore Unit where
  providers := [("mem0", .serving [{ nativeId := "n", content := "tea" }] id),
    ("zep", .serving [] id)]
  defaultProvider := some default

def roamingScope : Scope := { subject := ⟨"u_1", u_1_mustBeReal⟩ }

def roamingStart : World Unit := { catalog := {}, store := () }

/-- The subject is written, then looked up with another default, and then moved. -/
def roamingHistory : List (Request Unit) :=
  [(roamingGateway "mem0", .upsert "a" ["tea"] roamingScope none),
    (roamingGateway "zep", .search "a" { query := "tea", limitPos := SearchQuery.defaultLimitPos }
      roamingScope none),
    (roamingGateway "zep", .rebind "a" "u_1" "zep" .freshStart)]

def roamingSearch : Request Unit :=
  (roamingGateway "mem0", .search "a" { query := "tea", limitPos := SearchQuery.defaultLimitPos }
    roamingScope none)

end Memgw
