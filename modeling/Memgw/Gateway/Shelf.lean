-- SUMMARY: What a gateway is for: a shelf of memories under the ids that the gateway has given out.
import Memgw.Gateway.Verbs
import Memgw.Library.Simulation

/-!
# The shelf

A caller knows nothing of rows, native ids and providers' tables. What it has is an id
for each memory that it was shown, and what it expects is a shelf: an id holds the memory
that was written under it until the memory is deleted, and never holds another one.

The shelf keeps what an erasure under labels leaves behind. Such a memory is out of
reach, since the catalog counts it as deleted, but its provider still has it, still
counts it when it is erased, and still lets it take up room on a page.
-/

namespace Memgw

/-- A memory of a tenant at a provider, under the scope that it was written with. -/
structure Entry where
  tenant : String
  provider : String
  scope : Scope
  memory : ProviderMemory

namespace Entry

/-- The memory as it is handed out. The catalog keeps no labels. -/
def record (gatewayId : String) (e : Entry) : MemoryRecord :=
  toRecord gatewayId e.provider e.memory { e.scope with labels := {} }

/-- The scope has the memory in it, labels apart. -/
def within (tenant provider : String) (scope : Scope) (e : Entry) : Bool :=
  e.tenant == tenant && e.provider == provider && e.scope.subject == scope.subject &&
    dimMatches scope.agent e.scope.agent && dimMatches scope.session e.scope.session

def agrees (scope : Scope) (e : Entry) : Bool := e.scope.labels.agree scope.labels

/-- The order of a listing: the newer memory first, and then by native id. -/
def Before (a b : Entry) : Prop :=
  ∃ x y, a.memory.createdAt = some x ∧ b.memory.createdAt = some y ∧
    (y < x ∨ x = y ∧ a.memory.nativeId ≤ b.memory.nativeId)

/-- Two states of one memory. -/
structure Same (a b : Entry) : Prop where
  tenant : a.tenant = b.tenant
  provider : a.provider = b.provider
  scope : a.scope = b.scope
  nativeId : a.memory.nativeId = b.memory.nativeId
  createdAt : a.memory.createdAt = b.memory.createdAt

theorem Same.refl (e : Entry) : e.Same e := ⟨rfl, rfl, rfl, rfl, rfl⟩

theorem Same.trans {a b c : Entry} (h : a.Same b) (h' : b.Same c) : a.Same c :=
  ⟨h.tenant.trans h'.tenant, h.provider.trans h'.provider, h.scope.trans h'.scope,
    h.nativeId.trans h'.nativeId, h.createdAt.trans h'.createdAt⟩

theorem Same.within {a b : Entry} (h : a.Same b) {tenant provider : String} {scope : Scope} :
    a.within tenant provider scope = b.within tenant provider scope := by
  simp only [Entry.within, h.tenant, h.provider, h.scope]

end Entry

/-- What an id stands for. -/
inductive Slot where
  /-- The id was never given out. -/
  | unused
  | kept (entry : Entry)
  /-- Deleted, though its provider still has it. -/
  | hidden (entry : Entry)
  | gone

/-- By gateway id. -/
abbrev Shelf : Type := String → Slot

namespace Slot

/-- What the provider has. -/
def stored : Slot → Option Entry
  | .kept e | .hidden e => some e
  | .unused | .gone => none

/-- What a caller may see. -/
def shown (gatewayId : String) : Slot → Option MemoryRecord
  | .kept e => some (e.record gatewayId)
  | _ => none

/-- A provider erases what agrees with the labels, and the catalog all that is within. -/
def erase (tenant provider : String) (scope : Scope) : Slot → Slot
  | .kept e =>
    if e.within tenant provider scope then if e.agrees scope then .gone else .hidden e
    else .kept e
  | .hidden e => if e.within tenant provider scope && e.agrees scope then .gone else .hidden e
  | .unused => .unused
  | .gone => .gone

end Slot

namespace Shelf

def empty : Shelf := fun _ => .unused

def put (gatewayId : String) (slot : Slot) (S : Shelf) : Shelf := Function.update S gatewayId slot

def erase (tenant provider : String) (scope : Scope) (S : Shelf) : Shelf := fun g =>
  (S g).erase tenant provider scope

/-- New memories on the shelf: each under an id of its own that was never given out, for
    the tenant and under the scope of the call. -/
structure Gains (S : Shelf) (tenant provider : String) (scope : Scope) (new : List (String × Entry))
    (S' : Shelf) : Prop where
  unused : ∀ ge ∈ new, S ge.1 = .unused
  nodup : (new.map Prod.fst).Nodup
  entry : ∀ ge ∈ new, ge.2.tenant = tenant ∧ ge.2.provider = provider ∧
    ge.2.scope = scope.withoutTenant
  placed : ∀ ge ∈ new, S' ge.1 = .kept ge.2
  others : ∀ g, g ∉ new.map Prod.fst → S' g = S g

/-- What a write answers. -/
def written (provider : String) (scope : Scope) (new : List (String × Entry)) : Reply :=
  .wrote
    { results := new.map fun ge => toRecord ge.1 provider ge.2.memory scope
      provider := provider }

/-- All that a provider has in a scope, each memory once. -/
structure Holding (S : Shelf) (tenant provider : String) (scope : Scope)
    (page : List (String × Entry)) : Prop where
  mem : ∀ g e, (g, e) ∈ page ↔
    (S g).stored = some e ∧ e.within tenant provider scope = true ∧ e.agrees scope = true
  nodup : (page.map Prod.fst).Nodup

/-- How a shelf serves a call, with at most `most` memories on a page. A call that is
    refused leaves it alone. -/
inductive Serves (most : Nat) : Spec Call (Except Exc Reply) Shelf where
  | refused {call : Call} {S : Shelf} {e : Exc} : Serves most call S (.error e) S
  | ingested {t name : String} {episode : Episode} {scope : Scope} {asserted : Option String}
      {S S' : Shelf} {new : List (String × Entry)} (h : S.Gains t name scope new S') :
      Serves most (.ingest t episode scope asserted) S (.ok (written name scope new)) S'
  | upserted {t name : String} {facts : List String} {scope : Scope} {asserted : Option String}
      {S S' : Shelf} {new : List (String × Entry)} (h : S.Gains t name scope new S')
      (hfacts : new.map (fun ge => ge.2.memory.content) = facts) :
      Serves most (.upsert t facts scope asserted) S (.ok (written name scope new)) S'
  | updated {t g content : String} {S : Shelf} {e e' : Entry} (hkept : S g = .kept e)
      (ht : e.tenant = t) (hsame : e.Same e') (hcontent : e'.memory.content = content) :
      Serves most (.update t g content) S (.ok (.memory (e'.record g))) (S.put g (.kept e'))
  | found {t : String} {query : SearchQuery} {scope : Scope} {asserted : Option String}
      {S : Shelf} {result : SearchResult} (name : String)
      (hkept : ∀ record ∈ result.results, ∃ e, S record.id = .kept e ∧
        e.within t name scope = true ∧ e.agrees scope = true ∧
          record = { e.record record.id with score := record.score }) :
      Serves most (.search t query scope asserted) S (.ok (.found result)) S
  | listed {t name : String} {scope : Scope} {limit : Nat} {asserted : Option String}
      {S : Shelf} {page : List (String × Entry)} (hpage : S.Holding t name scope page)
      (hsorted : page.Pairwise fun a b => a.2.Before b.2) :
      Serves most (.listScope t scope limit asserted) S
        (.ok (.listed ((page.take (min limit most)).filterMap fun ge => (S ge.1).shown ge.1))) S
  | got {t g : String} {S : Shelf} {e : Entry} (hkept : S g = .kept e) (ht : e.tenant = t) :
      Serves most (.get t g) S (.ok (.memory (e.record g))) S
  | deleted {t g : String} {S : Shelf} {e : Entry} (hkept : S g = .kept e) (ht : e.tenant = t) :
      Serves most (.delete t g) S (.ok .deleted) (S.put g .gone)
  | erased {t name : String} {scope : Scope} {asserted : Option String} {S : Shelf}
      {page : List (String × Entry)} (hpage : S.Holding t name scope page) :
      Serves most (.deleteScope t scope asserted) S (.ok (.erased page.length)) (S.erase t name scope)
  | rebound {t subject provider : String} {strategy : RebindStrategy} {S : Shelf}
      {result : RebindResult} :
      Serves most (.rebind t subject provider strategy) S (.ok (.rebound result)) S

end Shelf

/-! ## Ids for good -/

/-- What an id stands for, now and at some later time. It is given to one memory, which
    may go out of reach, and then be gone. -/
inductive Slot.Ages : Slot → Slot → Prop where
  | given {s : Slot} : Ages .unused s
  | changed {e e' : Entry} (h : e.Same e') : Ages (.kept e) (.kept e')
  | buried {e e' : Entry} (h : e.Same e') : Ages (.kept e) (.hidden e')
  | hidden {e : Entry} : Ages (.hidden e) (.hidden e)
  | gone {s : Slot} : Ages s .gone

theorem Slot.Ages.refl : ∀ s : Slot, s.Ages s
  | .unused => .given
  | .kept e => .changed (.refl e)
  | .hidden _ => .hidden
  | .gone => .gone

theorem Slot.Ages.trans {a b c : Slot} (h : a.Ages b) (h' : b.Ages c) : a.Ages c := by
  cases h with
  | given => exact .given
  | gone =>
    cases h'
    exact .gone
  | hidden => exact h'
  | buried hsame =>
    cases h' with
    | hidden => exact .buried hsame
    | gone => exact .gone
  | changed hsame =>
    cases h' with
    | changed hsame' => exact .changed (hsame.trans hsame')
    | buried hsame' => exact .buried (hsame.trans hsame')
    | gone => exact .gone

theorem Slot.ages_erase {t p : String} {scope : Scope} : ∀ s : Slot, s.Ages (s.erase t p scope)
  | .unused => .given
  | .gone => .gone
  | .kept e => by
    simp only [Slot.erase]
    split
    · split
      · exact .gone
      · exact .buried (.refl e)
    · exact .changed (.refl e)
  | .hidden e => by
    simp only [Slot.erase]
    split
    · exact .gone
    · exact .hidden

/-! ## What is shown -/

/-- The record hands the memory out to its tenant. A write names its labels too. -/
structure Entry.HandsOut (e : Entry) (tenant : String) (record : MemoryRecord) : Prop where
  tenant : e.tenant = tenant
  provider : record.provider = e.provider
  nativeId : record.nativeId = e.memory.nativeId
  createdAt : record.createdAt = e.memory.createdAt
  scope : { record.scope with labels := {} } = { e.scope.withoutTenant with labels := {} }
  content : record.content = e.memory.content

theorem Entry.handsOut_record {e : Entry} {g : String} : e.HandsOut e.tenant (e.record g) :=
  ⟨rfl, rfl, rfl, rfl, rfl, rfl⟩

namespace Shelf

variable {most : Nat}

/-- What is handed out is on the shelf, under the id that it is handed out with. -/
theorem Serves.shown {call : Call} {S S' : Shelf} {reply : Reply}
    (h : Serves most call S (.ok reply) S') {record : MemoryRecord} (hrecord : record ∈ reply.records) :
    ∃ e, S' record.id = .kept e ∧ e.HandsOut call.tenant record := by
  have hwritten : ∀ {t p : String} {scope : Scope} {new : List (String × Entry)},
      S.Gains t p scope new S' → record ∈ (written p scope new).records →
        ∃ e, S' record.id = .kept e ∧ e.HandsOut t record := by
    intro t p scope new hnew hrecord
    obtain ⟨⟨g, e⟩, hge, rfl⟩ := List.mem_map.mp hrecord
    obtain ⟨ht, hp, hscope⟩ := hnew.entry _ hge
    exact ⟨e, hnew.placed _ hge, ht, hp.symm, rfl, rfl, by rw [hscope]; rfl, rfl⟩
  cases h with
  | ingested h => exact hwritten h hrecord
  | upserted h => exact hwritten h hrecord
  | @updated t g content _ e e' hkept ht hsame hcontent =>
    obtain rfl := List.mem_singleton.mp hrecord
    refine ⟨e', Function.update_self .., ?_⟩
    rw [Call.tenant, ← ht, hsame.tenant]
    exact Entry.handsOut_record
  | found name hkept =>
    obtain ⟨e, hkept, hwithin, -, heq⟩ := hkept record hrecord
    simp only [Entry.within, Bool.and_eq_true, beq_iff_eq] at hwithin
    refine ⟨e, hkept, hwithin.1.1.1.1, ?_, ?_, ?_, ?_, ?_⟩ <;> rw [heq] <;> rfl
  | @listed t name scope limit _ _ page hpage hsorted =>
    obtain ⟨⟨g, e⟩, hge, hshown⟩ := List.mem_filterMap.mp hrecord
    obtain ⟨hstored, hwithin, -⟩ := (hpage.mem g e).mp (List.mem_of_mem_take hge)
    simp only [Entry.within, Bool.and_eq_true, beq_iff_eq] at hwithin
    cases hslot : S g with
    | unused | hidden | gone => simp [hslot, Slot.shown] at hshown
    | kept e' =>
      simp only [hslot, Slot.shown, Slot.stored, Option.some.injEq] at hshown hstored
      subst hshown hstored
      exact ⟨_, hslot, hwithin.1.1.1.1 ▸ Entry.handsOut_record⟩
  | got hkept ht =>
    obtain rfl := List.mem_singleton.mp hrecord
    exact ⟨_, hkept, ht ▸ Entry.handsOut_record⟩
  | deleted | erased | rebound => cases hrecord

theorem ages_put {S : Shelf} {g : String} {slot : Slot} (h : (S g).Ages slot) (g' : String) :
    (S g').Ages (S.put g slot g') := by
  by_cases hg : g' = g
  · subst hg
    rw [put, Function.update_self]
    exact h
  · rw [put, Function.update_of_ne hg]
    exact .refl _

theorem Gains.ages {S S' : Shelf} {t p : String} {scope : Scope} {new : List (String × Entry)}
    (h : S.Gains t p scope new S') (g : String) : (S g).Ages (S' g) := by
  by_cases hg : g ∈ new.map Prod.fst
  · obtain ⟨ge, hge, rfl⟩ := List.mem_map.mp hg
    rw [h.unused ge hge]
    exact .given
  · rw [h.others g hg]
    exact .refl _

theorem Serves.ages {call : Call} {S S' : Shelf} {r : Except Exc Reply}
    (h : Serves most call S r S') (g : String) : (S g).Ages (S' g) := by
  cases h with
  | refused | found | listed | got | rebound => exact .refl _
  | ingested h => exact h.ages g
  | upserted h => exact h.ages g
  | updated hkept ht hsame => exact ages_put (hkept ▸ .changed hsame) g
  | deleted => exact ages_put .gone g
  | erased => exact (S g).ages_erase

/-- However long a shelf is used, an id that was given to a memory stands for no other. -/
theorem runs_age {S S' : Shelf} {calls : List (Call × Except Exc Reply)}
    (h : Spec.Runs (Serves most) S calls S') (g : String) : (S g).Ages (S' g) :=
  h.relates (R := fun S S' => (S g).Ages (S' g)) (fun _ => .refl _) (fun _ _ _ => .trans)
    fun _ _ _ _ _ hserves => hserves.ages g

end Shelf

/-! ## What is kept stays -/

/-- The calls that may take a memory of the tenant off the shelf, which it was put on under
    the scope `kept`. -/
def Call.Removes (tenant gatewayId : String) (kept : Scope) : Call → Prop
  | .delete t g => t = tenant ∧ g = gatewayId
  | .deleteScope t scope _ =>
    t = tenant ∧ scope.subject = kept.subject ∧ dimMatches scope.agent kept.agent = true ∧
      dimMatches scope.session kept.session = true
  | _ => False

theorem Entry.HandsOut.removes {e : Entry} {tenant g : String} {record : MemoryRecord}
    (h : e.HandsOut tenant record) {call : Call} (hcall : call.Removes e.tenant g e.scope) :
    call.Removes tenant g record.scope := by
  obtain ⟨hsubject, hagent, hsession⟩ : record.scope.subject = e.scope.subject ∧
      record.scope.agent = e.scope.agent ∧ record.scope.session = e.scope.session := by
    have hscope := h.scope
    simp only [Scope.withoutTenant, Scope.mk.injEq] at hscope
    exact ⟨hscope.1, hscope.2.1, hscope.2.2.1⟩
  cases call <;> simp only [Call.Removes, h.tenant, hsubject, hagent, hsession] at hcall ⊢ <;>
    exact hcall

/-- The content that the last of some calls has left, when it was `content` before. -/
def lastContent (tenant gatewayId : String) :
    List (Call × Except Exc Reply) → String → String
  | [], content => content
  | (.update t g content', .ok _) :: calls, content =>
    lastContent tenant gatewayId calls (if t = tenant ∧ g = gatewayId then content' else content)
  | _ :: calls, content => lastContent tenant gatewayId calls content

namespace Shelf

variable {most : Nat}

theorem Serves.keeps {call : Call} {S S' : Shelf} {r : Except Exc Reply}
    (h : Serves most call S r S') {g : String} {e : Entry} (hkept : S g = .kept e)
    (hstays : ∀ reply, r = .ok reply → ¬ call.Removes e.tenant g e.scope) :
    ∃ e', S' g = .kept e' ∧ e.Same e' ∧
      e'.memory.content = lastContent e.tenant g [(call, r)] e.memory.content := by
  have hold : ∃ e', S g = .kept e' ∧ e.Same e' ∧ e'.memory.content = e.memory.content :=
    ⟨e, hkept, .refl e, rfl⟩
  have hgains : ∀ {t p : String} {scope : Scope} {new : List (String × Entry)},
      S.Gains t p scope new S' → S' g = S g := by
    intro t p scope new hnew
    refine hnew.others g fun hg => ?_
    obtain ⟨ge, hge, rfl⟩ := List.mem_map.mp hg
    cases (hnew.unused ge hge).symm.trans hkept
  cases h with
  | refused =>
    obtain ⟨e', h₁, h₂, h₃⟩ := hold
    exact ⟨e', h₁, h₂, h₃.trans (by cases call <;> rfl)⟩
  | found | listed | got | rebound => exact hold
  | ingested h =>
    rw [hgains h]
    exact hold
  | upserted h =>
    rw [hgains h]
    exact hold
  | @updated t g' content _ e₀ e' hkept' ht hsame hcontent =>
    by_cases hg : g = g'
    · subst hg
      obtain rfl : e = e₀ := Slot.kept.inj (hkept.symm.trans hkept')
      refine ⟨e', Function.update_self .., hsame, ?_⟩
      simp [lastContent, ht, hcontent]
    · refine ⟨e, (Function.update_of_ne hg ..).trans hkept, .refl e, ?_⟩
      simp [lastContent, Ne.symm hg]
  | @deleted t g' _ e₀ hkept' ht =>
    have hg : g ≠ g' := by
      rintro rfl
      obtain rfl : e = e₀ := Slot.kept.inj (hkept.symm.trans hkept')
      exact hstays _ rfl ⟨ht.symm, rfl⟩
    exact ⟨e, (Function.update_of_ne hg ..).trans hkept, .refl e, rfl⟩
  | @erased t name scope =>
    refine ⟨e, ?_, .refl e, rfl⟩
    have hout : e.within t name scope = false := by
      rw [Bool.eq_false_iff]
      intro hin
      simp only [Entry.within, Bool.and_eq_true, beq_iff_eq] at hin
      obtain ⟨⟨⟨⟨ht, -⟩, hsubject⟩, hagent⟩, hsession⟩ := hin
      exact hstays _ rfl ⟨ht.symm, hsubject.symm, hagent, hsession⟩
    simp [erase, hkept, Slot.erase, hout]

theorem lastContent_append {t g content : String} {calls calls' : List (Call × Except Exc Reply)} :
    lastContent t g (calls ++ calls') content =
      lastContent t g calls' (lastContent t g calls content) := by
  induction calls generalizing content with
  | nil => rfl
  | cons qa calls ih =>
    obtain ⟨call, r⟩ := qa
    cases r with
    | error e => cases call <;> exact ih
    | ok reply => cases call <;> exact ih

/-- A memory stays on the shelf until a call removes it, with what was written last. A
    call that is refused neither removes nor writes. -/
theorem runs_keep {S S' : Shelf} {calls : List (Call × Except Exc Reply)}
    (h : Spec.Runs (Serves most) S calls S') {g : String} {e : Entry} (hkept : S g = .kept e)
    (hstays : ∀ qa ∈ calls, ∀ reply, qa.2 = .ok reply → ¬ qa.1.Removes e.tenant g e.scope) :
    ∃ e', S' g = .kept e' ∧ e.Same e' ∧
      e'.memory.content = lastContent e.tenant g calls e.memory.content := by
  induction h generalizing e with
  | nil => exact ⟨e, hkept, .refl e, rfl⟩
  | @cons S S₁ S' call r calls hserves _ ih =>
    obtain ⟨hcall, hcalls⟩ := List.forall_mem_cons.mp hstays
    obtain ⟨e₁, hkept₁, hsame₁, hcontent₁⟩ := hserves.keeps hkept hcall
    obtain ⟨e₂, hkept₂, hsame₂, hcontent₂⟩ := ih hkept₁ (hsame₁.tenant ▸ hsame₁.scope ▸ hcalls)
    refine ⟨e₂, hkept₂, hsame₁.trans hsame₂, ?_⟩
    rw [hcontent₂, hcontent₁, ← hsame₁.tenant, ← lastContent_append]
    rfl

end Shelf

end Memgw
