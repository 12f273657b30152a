-- SUMMARY: When losing insert races reaches the caller: exactly when enough other calls can each take a new id away.
import Memgw.Gateway.Statements

/-!
# Insert races

An attempt that loses its race starts over, and its next lookup finds what the winner
wrote. It can lose again only to a call that takes another id away, one that was not
on the winner's page. So a call of which fewer ids can be taken that way than it has
attempts is always answered, and the others are not: their rivals only need to commit
one after the other, each between a lookup and the insertion that follows it.
-/

namespace Memgw.Statements

variable {env : Env} {ι : Type} {calls : ι → Page} {c : Catalog}

/-! ## What is taken -/

/-- The native id of a page has a row, whether live or deleted. -/
def Taken (c : Catalog) (q : Page) (n : String) : Prop :=
  (indexed c.memoryIndex q.tenant q.provider n).isSome

/-- Two pages that name native ids of the same tenant at the same provider. -/
def Page.Beside (q q' : Page) : Prop := q'.tenant = q.tenant ∧ q'.provider = q.provider

/-- `k` other calls can each take from the page of call `i` an id that has no row yet
    and is not among the given ones or on the page of an earlier of them. -/
def Overtaken (calls : ι → Page) (c : Catalog) (i : ι) : List String → Nat → Prop
  | _, 0 => True
  | gone, k + 1 => ∃ j, j ≠ i ∧ (calls i).Beside (calls j) ∧
      (∃ n ∈ (calls i).natives, n ∈ (calls j).natives ∧ n ∉ gone ∧ ¬ Taken c (calls i) n) ∧
        Overtaken calls c i (gone ++ (calls j).natives) k

theorem taken_iff {q : Page} {n : String} : Taken c q n ↔ ∃ r ∈ c.memoryIndex,
    r.tenantId = q.tenant ∧ r.provider = q.provider ∧ r.nativeId = n := by
  unfold Taken
  constructor
  · intro h
    obtain ⟨r, hr⟩ := Option.isSome_iff_exists.mp h
    exact ⟨r, indexed_some hr⟩
  · rintro ⟨r, hr, ht, hp, rfl⟩
    rw [← ht, ← hp, indexed_of_mem hr]
    rfl

theorem Taken.keeps {c' : Catalog} {q : Page} {n : String} (h : Taken c q n) (hk : Keeps c c') :
    Taken c' q n := by
  obtain ⟨r, hr, ht, hp, hn⟩ := taken_iff.mp h
  obtain ⟨r', hr', -, ht', hp', hn'⟩ := hk r.toRow (stored_toRow hr)
  exact taken_iff.mpr ⟨r', hr', ht'.trans ht, hp'.trans hp, hn'.trans hn⟩

theorem Taken.beside {q q' : Page} {n : String} (h : Taken c q n) (hq : q.Beside q') :
    Taken c q' n := by
  unfold Taken at *
  rwa [hq.1, hq.2]

/-! ## What the others do -/

/-- Each id of call `i` that has got a row since `c₀` got it from another call, which
    has rows for all of its page. -/
def Explained (calls : ι → Page) (c₀ : Catalog) (i : ι) (c : Catalog) : Prop :=
  ∀ n ∈ (calls i).natives, Taken c (calls i) n → Taken c₀ (calls i) n ∨
    ∃ j, j ≠ i ∧ (calls i).Beside (calls j) ∧ n ∈ (calls j).natives ∧
      ∀ m ∈ (calls j).natives, Taken c (calls j) m

/-- What call `i` relies on the others for. -/
structure Rely (env : Env) (calls : ι → Page) (c₀ : Catalog) (i : ι) (c c' : Catalog) : Prop where
  keeps : Keeps c c'
  minted : c.Minted env → c'.Minted env
  explained : Explained calls c₀ i c → Explained calls c₀ i c'

/-- What call `j` keeps to: all that any other call relies on. -/
def Guarantee (env : Env) (calls : ι → Page) (c₀ : Catalog) (j : ι) (c c' : Catalog) : Prop :=
  ∀ i, i ≠ j → Rely env calls c₀ i c c'

variable {c₀ c' : Catalog} {i j : ι}

theorem Rely.refl (i : ι) (c : Catalog) : Rely env calls c₀ i c c := ⟨.refl c, id, id⟩

theorem Rely.trans {c'' : Catalog} (h : Rely env calls c₀ i c c')
    (h' : Rely env calls c₀ i c' c'') : Rely env calls c₀ i c c'' :=
  ⟨h.keeps.trans h'.keeps, h'.minted ∘ h.minted, h'.explained ∘ h.explained⟩

theorem Explained.back (h : Explained calls c₀ i c) (hkeeps : Keeps c c') (hback : Keeps c' c) :
    Explained calls c₀ i c' := by
  intro n hn hc'
  refine (h n hn (hc'.keeps hback)).imp_right ?_
  rintro ⟨j, hji, hbeside, hnj, hall⟩
  exact ⟨j, hji, hbeside, hnj, fun m hm => (hall m hm).keeps hkeeps⟩

theorem Rely.still (h : c.Still c') : Rely env calls c₀ i c c' := by
  have hkeeps : Keeps c c' := keeps_subset fun r hr => h.index ▸ hr
  have hback : Keeps c' c := keeps_subset fun r hr => h.index ▸ hr
  exact ⟨hkeeps, fun hm => hm.still h, fun he => he.back hkeeps hback⟩

/-- A statement that adds no row is nothing to the others. -/
theorem guarantee_exec {st : Statement} (h : st.inserts = false) :
    Guarantee env calls c₀ j c (st.exec env c).2 := by
  intro i _
  refine ⟨keeps_exec st, minted_exec st, fun he => he.back (keeps_exec st) ?_⟩
  exact fun row hrow => (stored_exec h).mp hrow

/-- An insertion that goes through completes the page of the call. -/
theorem guarantee_insert {missing : List (String × String)}
    (hmissing : ∀ item ∈ missing, item ∈ (calls j).items)
    (hcover : ∀ n ∈ (calls j).natives, n ∈ missing.map Prod.fst ∨ Taken c (calls j) n) :
    Guarantee env calls c₀ j c
      (Memgw.insertMissing env (calls j).tenant (calls j).provider missing (calls j).scope c).2 := by
  intro i hij
  cases hins : Memgw.insertMissing env (calls j).tenant (calls j).provider missing
      (calls j).scope c with
  | mk r c' =>
    cases r with
    | error e => exact .still (insertMissing_error hins).1
    | ok fresh =>
      obtain ⟨hindex, -⟩ := insertMissing_ok hins
      have hkeeps : Keeps c c' :=
        keeps_subset fun r hr => (Table.mem_insert hindex).mpr (.inl hr)
      have hall : ∀ n ∈ (calls j).natives, Taken c' (calls j) n := by
        intro n hn
        rcases hcover n hn with hn | hn
        · obtain ⟨item, hitem, rfl⟩ := List.mem_map.mp hn
          obtain ⟨r, hr, hid⟩ := exists_freshRow hitem
          obtain ⟨ht, hp, -⟩ := mem_freshRows hr
          exact taken_iff.mpr ⟨r, (Table.mem_insert hindex).mpr (.inr hr), ht, hp, hid⟩
        · exact hn.keeps hkeeps
      have hminted (h : c.Minted env) : c'.Minted env := by
        have := minted_exec (.insert (calls j).tenant (calls j).provider missing (calls j).scope) h
        rwa [Statement.exec, hins] at this
      refine ⟨hkeeps, hminted, fun he n hn htaken => ?_⟩
      obtain ⟨r, hr, ht, hp, hid⟩ := taken_iff.mp htaken
      rcases (Table.mem_insert hindex).mp hr with hr | hr
      · refine (he n hn (taken_iff.mpr ⟨r, hr, ht, hp, hid⟩)).imp_right ?_
        rintro ⟨k, hki, hbeside, hnk, hall⟩
        exact ⟨k, hki, hbeside, hnk, fun m hm => (hall m hm).keeps hkeeps⟩
      · obtain ⟨ht', hp', -, -, -, -, ⟨item, hitem, hid', -⟩, -⟩ := mem_freshRows hr
        refine .inr ⟨j, Ne.symm hij, ⟨ht'.symm.trans ht, hp'.symm.trans hp⟩, ?_, hall⟩
        rw [← hid, hid']
        exact List.mem_map_of_mem (hmissing item hitem)

/-! ## What a call does -/

section

variable {α β : Type}

/-- Call `i` as it runs among the others. -/
def Among (env : Env) (calls : ι → Page) (c₀ : Catalog) (i : ι) (p : IndexProg α)
    (Q : Except Exc α → Catalog → Prop) (c : Catalog) : Prop :=
  p.Under (Statement.exec env) (Rely env calls c₀ i) (Guarantee env calls c₀ i) Q c

/-- The program returns, whatever the others do. -/
def Returns (env : Env) (calls : ι → Page) (c₀ : Catalog) (i : ι) (p : IndexProg α) : Prop :=
  ∀ c, Among env calls c₀ i p (fun r _ => ∃ a, r = .ok a) c

theorem returns_ret {a : α} : Returns env calls c₀ i (.ret a) := fun _ => ⟨a, rfl⟩

theorem returns_execute {st : Statement} (h : st.inserts = false) :
    Returns env calls c₀ i (execute st) := by
  intro c
  refine under_execute.mpr fun c' _ => ⟨guarantee_exec h, ?_⟩
  cases st with
  | insert => cases h
  | lookup | clock | revive | markDeleted | markScopeDeleted => exact ⟨_, rfl⟩

theorem returns_bind {p : IndexProg α} {f : α → IndexProg β} (hp : Returns env calls c₀ i p)
    (hf : ∀ a, Returns env calls c₀ i (f a)) : Returns env calls c₀ i (p.bind f) := by
  intro c
  refine Prog.under_bind_of (hp c) (fun a c' _ => hf a c') ?_
  rintro e c' ⟨a, ⟨⟩⟩

end

theorem findByNative_returns {tenant provider : String} {cs : List (List String)} {found : Known} :
    Returns env calls c₀ i (findByNative tenant provider cs found) := by
  induction cs generalizing found with
  | nil => exact returns_ret
  | cons chunk cs ih => exact returns_bind (returns_execute rfl) fun rows => ih

theorem reviveEach_returns {tenant provider : String} {scope : Scope}
    {contents : String → Option String} {now : Time} {natives : List String} :
    Returns env calls c₀ i (reviveEach tenant provider scope contents now natives) := by
  induction natives with
  | nil => exact returns_ret
  | cons native natives ih => exact returns_bind (returns_execute rfl) fun _ => ih

/-- Once nothing is missing any more, nothing can go wrong. -/
theorem takeBack_returns {q : Page} {known : Known} :
    Returns env calls c₀ i (q.takeBack known) := by
  unfold Page.takeBack reviveDoomed
  dsimp only
  split
  · split
    · exact returns_ret
    · refine returns_bind (returns_execute rfl) fun now => returns_bind reviveEach_returns fun _ => ?_
      exact returns_bind findByNative_returns fun found => returns_ret
  · exact returns_ret

theorem record_isSome {found : Known} {rows : List IndexRow} {n : String} :
    (found.record rows n).isSome ↔ (found n).isSome ∨ ∃ r ∈ rows, r.nativeId = n := by
  induction rows generalizing found with
  | nil => simp [Known.record]
  | cons r rows ih =>
    have hset : ((found.set r.nativeId r.sighting).record rows n).isSome ↔
        (found.set r.nativeId r.sighting n).isSome ∨ ∃ r ∈ rows, r.nativeId = n := ih
    refine hset.trans ?_
    rw [Known.set_apply]
    by_cases hn : n = r.nativeId
    · simp [hn]
    · simp [hn, Ne.symm hn]

/-- A lookup changes nothing. It finds the ids that were taken when it began, and what
    it finds is taken when it ends. -/
theorem findByNative_among {cs : List (List String)} {found : Known} :
    Among env calls c₀ i (findByNative (calls i).tenant (calls i).provider cs found)
      (fun r c' => ∃ known, r = .ok known ∧ Rely env calls c₀ i c c' ∧
        (∀ n, (found n).isSome ∨ (∃ chunk ∈ cs, n ∈ chunk) ∧ Taken c (calls i) n →
          (known n).isSome) ∧
        ∀ n, (known n).isSome → (found n).isSome ∨ Taken c' (calls i) n) c := by
  induction cs generalizing found c with
  | nil =>
    refine ⟨found, rfl, .refl i c, fun n hn => ?_, fun n hn => .inl hn⟩
    simpa using hn
  | cons chunk cs ih =>
    refine Prog.under_bind.mpr (under_execute.mpr fun c₁ h₁ => ⟨guarantee_exec rfl, ?_⟩)
    generalize hrows : chunkRows c₁.memoryIndex (calls i).tenant (calls i).provider chunk = rows
    have hfound : ∀ n, (found.record rows n).isSome ↔
        (found n).isSome ∨ n ∈ chunk ∧ Taken c₁ (calls i) n := by
      intro n
      rw [record_isSome, taken_iff, ← hrows]
      refine or_congr_right ⟨?_, ?_⟩
      · rintro ⟨r, hr, rfl⟩
        obtain ⟨hmem, hp⟩ := Table.mem_select.mp hr
        obtain ⟨⟨ht, hp⟩, hn⟩ : (r.tenantId = (calls i).tenant ∧
            r.provider = (calls i).provider) ∧ r.nativeId ∈ chunk := by simpa using hp
        exact ⟨hn, r, hmem, ht, hp, rfl⟩
      · rintro ⟨hn, r, hmem, ht, hp, rfl⟩
        exact ⟨r, Table.mem_select.mpr ⟨hmem, by simp [ht, hp, hn]⟩, rfl⟩
    have hrest : Among env calls c₀ i
        (findByNative (calls i).tenant (calls i).provider cs (found.record rows)) _ c₁ := ih
    simp only [Statement.exec, hrows]
    refine hrest.mono ?_
    rintro r c₂ ⟨known, rfl, h₂, hsees, htaken⟩
    refine ⟨known, rfl, h₁.trans h₂, fun n hn => hsees n ?_, fun n hn => ?_⟩
    · rw [hfound]
      rcases hn with hn | ⟨⟨chunk', hchunk, hn⟩, ht⟩
      · exact .inl (.inl hn)
      · have ht₁ := ht.keeps h₁.keeps
        rcases List.mem_cons.mp hchunk with rfl | hchunk
        · exact .inl (.inr ⟨hn, ht₁⟩)
        · exact .inr ⟨⟨chunk', hchunk, hn⟩, ht₁⟩
    · rcases htaken n hn with hn | hn
      · exact ((hfound n).mp hn).imp_right fun h => h.2.keeps h₂.keeps
      · exact .inr hn

/-- An insertion fails only for an id that has got a row. -/
theorem insertMissing_lost {tenant provider : String} {missing : List (String × String)}
    {scope : Scope} {e : Exc} (hminted : c.Minted env) (hnodup : (missing.map Prod.fst).Nodup)
    (h : Memgw.insertMissing env tenant provider missing scope c = (.error e, c')) :
    ∃ item ∈ missing, (indexed c.memoryIndex tenant provider item.1).isSome := by
  by_contra hnone
  have hnew : ∀ item ∈ missing, indexed c.memoryIndex tenant provider item.1 = none := by
    intro item hitem
    by_contra hsome
    exact hnone ⟨item, hitem, Option.isSome_iff_ne_none.mpr hsome⟩
  have hsome : (c.memoryIndex.insert
      (freshRows env tenant provider missing scope c.ticks)).isSome :=
    (insert_freshRows_iff hminted.unspent hnew).mpr hnodup
  obtain ⟨index, hindex⟩ := Option.isSome_iff_exists.mp hsome
  simp [Memgw.insertMissing, hindex] at h

/-- An attempt returns, or it lost an id to another call that has completed its page. -/
theorem attempt_among (hnodup : (calls i).natives.Nodup) (hminted : c.Minted env) :
    Among env calls c₀ i (calls i).attempt (fun r c' => (∃ rows, r = .ok rows) ∨
      ∃ text, r = .error (.integrity text) ∧ Rely env calls c₀ i c c' ∧
        ∃ n ∈ (calls i).natives, ¬ Taken c (calls i) n ∧ Taken c' (calls i) n) c := by
  have hrest : ∀ known, Returns env calls c₀ i
      (((calls i).takeBack known).bind fun known => .ret (known.rows (calls i).natives)) :=
    fun known => returns_bind takeBack_returns fun known => returns_ret
  refine Prog.under_bind.mpr (findByNative_among.mono ?_)
  rintro r c₁ ⟨known, rfl, h₁, hsees, htaken⟩
  refine Prog.under_bind.mpr ?_
  unfold insertMissing
  split
  · exact (hrest known c₁).mono fun r c' hr => .inl hr
  · refine Prog.under_bind.mpr (under_execute.mpr fun c₂ h₂ => ?_)
    generalize hmissing : ((calls i).items.filter fun item => (known item.1).isNone) = missing
    have hmem : ∀ item, item ∈ missing ↔ item ∈ (calls i).items ∧ known item.1 = none := by
      intro item
      rw [← hmissing, List.mem_filter, Option.isNone_iff_eq_none]
    constructor
    · refine guarantee_insert (fun item hitem => ((hmem item).mp hitem).1) fun n hn => ?_
      obtain ⟨item, hitem, rfl⟩ := List.mem_map.mp hn
      cases hknown : known item.1 with
      | none => exact .inl (List.mem_map_of_mem ((hmem item).mpr ⟨hitem, hknown⟩))
      | some sighting =>
        have htaken := (htaken item.1 (by simp [hknown])).resolve_left (by simp)
        exact .inr (htaken.keeps h₂.keeps)
    · rw [Statement.exec]
      cases hins : Memgw.insertMissing env (calls i).tenant (calls i).provider missing
          (calls i).scope c₂ with
      | mk r c₃ =>
        cases r with
        | ok fresh => exact (hrest _ c₃).mono fun r c' hr => .inl hr
        | error e =>
          obtain ⟨hstill, text, rfl⟩ := insertMissing_error hins
          have hsub : missing.Sublist (calls i).items := hmissing ▸ List.filter_sublist
          obtain ⟨item, hitem, hsome⟩ := insertMissing_lost (h₂.minted (h₁.minted hminted))
            (hnodup.sublist (hsub.map Prod.fst)) hins
          obtain ⟨hitem, hnone⟩ := (hmem item).mp hitem
          have hn : item.1 ∈ (calls i).natives := List.mem_map_of_mem hitem
          refine .inr ⟨text, rfl, (h₁.trans h₂).trans (.still hstill), item.1, hn, ?_, ?_⟩
          · intro htaken
            have := hsees item.1 (.inr ⟨mem_chunks.mpr hn, htaken⟩)
            simp [hnone] at this
          · exact Taken.keeps hsome (keeps_subset fun r hr => hstill.index ▸ hr)

/-- With `k` attempts left, a call returns unless `k` others can overtake it. -/
theorem attempts_among {k : Nat} {gone : List String} (hnodup : (calls i).natives.Nodup)
    (hminted : c.Minted env) (hexplained : Explained calls c₀ i c) (hkeeps : Keeps c₀ c)
    (hgone : ∀ n ∈ (calls i).natives, n ∈ gone → Taken c (calls i) n) :
    Among env calls c₀ i ((calls i).attempts k)
      (fun r _ => (∃ rows, r = .ok rows) ∨ Overtaken calls c₀ i gone k) c := by
  induction k generalizing c gone with
  | zero => exact .inr trivial
  | succ k ih =>
    refine Prog.under_tryCatch.mpr ((attempt_among hnodup hminted).mono ?_)
    rintro r c' (⟨rows, rfl⟩ | ⟨text, rfl, hrely, n, hn, hnew, htaken⟩)
    · exact .inl ⟨rows, rfl⟩
    · have hexplained := hrely.explained hexplained
      obtain ⟨j, hji, hbeside, hnj, hall⟩ := (hexplained n hn htaken).resolve_left
        fun h => hnew (h.keeps hkeeps)
      have hovertaken : Overtaken calls c₀ i (gone ++ (calls j).natives) k →
          Overtaken calls c₀ i gone (k + 1) := fun h =>
        ⟨j, hji, hbeside, ⟨n, hn, hnj, fun h => hnew (hgone n hn h),
          fun h => hnew (h.keeps hkeeps)⟩, h⟩
      simp only [retry]
      split
      · rename_i hk
        subst hk
        exact .inr (hovertaken trivial)
      · have hgone : ∀ m ∈ (calls i).natives, m ∈ gone ++ (calls j).natives →
            Taken c' (calls i) m := by
          intro m hm hmem
          rcases List.mem_append.mp hmem with h | h
          · exact (hgone m hm h).keeps hrely.keeps
          · exact (hall m h).beside ⟨hbeside.1.symm, hbeside.2.symm⟩
        exact (ih (hrely.minted hminted) hexplained (hkeeps.trans hrely.keeps) hgone).mono
          fun r _ h => h.imp_right hovertaken

/-- Whatever way a call has come to its end, it has returned or can be overtaken. -/
theorem map_among (hnodup : (calls i).natives.Nodup) (hminted : c.Minted env) :
    Among env calls c i (calls i).map
      (fun r _ => (∃ rows, r = .ok rows) ∨ Overtaken calls c i [] retries) c := by
  unfold Page.map
  split
  · exact .inl ⟨[], rfl⟩
  · exact attempts_among hnodup hminted (fun n _ htaken => .inl htaken) (.refl c)
      fun n _ hn => nomatch hn

/-! ## The race that is lost -/

/-- Alone, a page of distinct ids is mapped. -/
theorem map_run {q : Page} (hitems : q.items ≠ []) (hnodup : q.natives.Nodup)
    (hminted : c.Minted env) : ∃ rows c', q.map.run (Statement.exec env) c = (.ok rows, c') ∧
      Mapped env q.tenant q.provider q.items q.scope q.revive c rows c' := by
  obtain ⟨rows, c', hattempt⟩ : ∃ rows c', mapAttempt env q.tenant q.provider q.items q.scope
      q.revive c = (.ok rows, c') := mapAttempt_succeeds hminted hnodup
  refine ⟨rows, c', ?_, mapAttempt_ok hattempt⟩
  rw [Page.map, if_neg hitems, retries, Page.attempts, Prog.run_tryCatch, attempt_run, hattempt]

/-- An id that has got a row since the lookup makes the insertion fail. -/
theorem insertMissing_fails {tenant provider : String} {missing : List (String × String)}
    {scope : Scope} {item : String × String} (hitem : item ∈ missing)
    (htaken : (indexed c.memoryIndex tenant provider item.1).isSome) :
    ∃ text c', Memgw.insertMissing env tenant provider missing scope c =
      (.error (.integrity text), c') ∧ c.Still c' := by
  cases hins : Memgw.insertMissing env tenant provider missing scope c with
  | mk r c' =>
    cases r with
    | error e =>
      obtain ⟨hstill, text, rfl⟩ := insertMissing_error hins
      exact ⟨text, c', rfl, hstill⟩
    | ok fresh =>
      obtain ⟨hindex, -⟩ := insertMissing_ok hins
      obtain ⟨r, hr⟩ := Option.isSome_iff_exists.mp htaken
      obtain ⟨hmem, ht, hp, hn⟩ := indexed_some hr
      obtain ⟨r', hr', hn'⟩ := exists_freshRow hitem
      obtain ⟨ht', hp', -⟩ := mem_freshRows hr'
      have hsome := Option.isSome_iff_exists.mpr ⟨_, hindex⟩
      have hapart := ((Table.insert_isSome_iff _ _).mp hsome).2 r hmem r' hr'
      exact absurd (by simp [IndexRow.nativeKey, ht, hp, hn, ht', hp', hn'])
        (hapart IndexRow.nativeKey (by simp [indexKeys]))

theorem taken_mapped {q q' : Page} {rows : List CatalogRow} {n : String}
    (h : Mapped env q'.tenant q'.provider q'.items q'.scope q'.revive c rows c')
    (htaken : Taken c' q n) : Taken c q n ∨ n ∈ q'.natives := by
  obtain ⟨r, hr, ht, hp, rfl⟩ := taken_iff.mp htaken
  obtain ⟨now, fresh, hindex, hfresh⟩ := h.index
  rcases (hindex r).mp hr with ⟨r₀, h₀, rfl⟩ | hr
  · refine .inl (taken_iff.mpr ⟨r₀, h₀, ?_⟩)
    split at ht
    · rename_i hburied
      rw [if_pos hburied] at hp ⊢
      exact ⟨ht, hp, rfl⟩
    · rename_i hburied
      rw [if_neg hburied] at hp ⊢
      exact ⟨ht, hp, rfl⟩
  · obtain ⟨item, hitem, hid, -⟩ := (hfresh r hr).item
    exact .inr (hid ▸ List.mem_map_of_mem hitem)

section

variable [DecidableEq ι] {pool : ι → IndexProg (List CatalogRow)}

/-- One lost attempt: call `i` looks its page up, call `j` runs from its beginning to
    its end, and the insertion of call `i` finds an id of its page gone. -/
theorem attempt_loses {k : Nat} {n : String} (hnodup : (calls j).natives.Nodup)
    (hminted : c.Minted env) (hji : j ≠ i) (hbeside : (calls i).Beside (calls j))
    (hi : pool i = (calls i).attempts (k + 1)) (hj : pool j = (calls j).map)
    (hn : n ∈ (calls i).natives) (hnj : n ∈ (calls j).natives) (hnew : ¬ Taken c (calls i) n) :
    ∃ es pool' c' text, Exec (Statement.exec env) pool c es pool' c' ∧
      pool' i = retry k ((calls i).attempts k) (.integrity text) ∧
      (∀ l, l ≠ i → l ≠ j → pool' l = pool l) ∧ c'.Minted env ∧
      ∀ m, Taken c' (calls i) m → Taken c (calls i) m ∨ m ∈ (calls j).natives := by
  obtain ⟨item, hitem, rfl⟩ := List.mem_map.mp hn
  -- the lookup, which does not find the id
  generalize hknown : Memgw.findByNative c.memoryIndex (calls i).tenant (calls i).provider
    (calls i).natives = known
  have hnone : known item.1 = none := by
    rw [← hknown, findByNative_apply, if_pos hn]
    simpa [Taken] using hnew
  have hlookup := hi
  rw [Page.attempts, Page.attempt, Prog.bind_eq, Prog.tryCatch_bind] at hlookup
  have hrun₁ : (findByNative (calls i).tenant (calls i).provider (chunks (calls i).natives)
      fun _ => none).attempt.run (Statement.exec env) c = (.ok (.ok known), c) := by
    rw [Prog.run_attempt, lookup_run, hknown]
  obtain ⟨es₁, h₁⟩ := Exec.alone_bind hlookup hrun₁
  -- the other call, which takes it
  have hitems : (calls j).items ≠ [] := by
    intro hnil
    simp [Page.natives, hnil] at hnj
  obtain ⟨rows, c₂, hrun₂, hmapped⟩ := map_run hitems hnodup hminted
  rw [← hj, ← Function.update_of_ne hji (((calls i).settle known).tryCatch
    (retry k ((calls i).attempts k))) pool] at hrun₂
  obtain ⟨es₂, h₂⟩ := Exec.alone hrun₂
  -- the insertion, which fails
  have hmem : item ∈ (calls i).items.filter fun item => (known item.1).isNone :=
    List.mem_filter.mpr ⟨hitem, by simp [hnone]⟩
  have htaken : (indexed c₂.memoryIndex (calls i).tenant (calls i).provider item.1).isSome := by
    have := hmapped.covered item.1 hnj
    rwa [hbeside.1, hbeside.2] at this
  obtain ⟨text, c₃, hins, hstill⟩ : ∃ text c₃, Memgw.insertMissing env (calls i).tenant
      (calls i).provider ((calls i).items.filter fun item => (known item.1).isNone)
        (calls i).scope c₂ = (.error (.integrity text), c₃) ∧ c₂.Still c₃ :=
    insertMissing_fails hmem htaken
  obtain ⟨K, hK, hlost⟩ : ∃ K, ((calls i).settle known).tryCatch
      (retry k ((calls i).attempts k)) = .act (.insert (calls i).tenant (calls i).provider
        ((calls i).items.filter fun item => (known item.1).isNone) (calls i).scope) K ∧
      K (.error (.integrity text)) = retry k ((calls i).attempts k) (.integrity text) := by
    unfold Page.settle insertMissing
    dsimp only
    rw [if_neg (List.ne_nil_of_mem hmem)]
    exact ⟨_, rfl, rfl⟩
  have hact : Function.update (Function.update pool i (((calls i).settle known).tryCatch
      (retry k ((calls i).attempts k)))) j (.ret rows) i = .act _ K := by
    rw [Function.update_of_ne (Ne.symm hji), Function.update_self, hK]
  have h₃ := Exec.single (h := Statement.exec env) (s := c₂) hact
  rw [Statement.exec, hins, hlost] at h₃
  refine ⟨_, _, _, text, (h₁.trans h₂).trans h₃, Function.update_self .., ?_, ?_, ?_⟩
  · intro l hli hlj
    rw [Function.update_of_ne hli, Function.update_of_ne hlj, Function.update_of_ne hli]
  · exact (hminted.mapped hmapped).still hstill
  · intro m hm
    have hback : Keeps c₃ c₂ := keeps_subset fun r hr => hstill.index ▸ hr
    exact taken_mapped hmapped (hm.keeps hback)

/-- A call that can be overtaken once for each attempt it has left loses every one. -/
theorem overtaken_raises {k : Nat} {gone : List String}
    (hnodup : ∀ j, (calls j).natives.Nodup) (hminted : c.Minted env)
    (hi : pool i = (calls i).attempts (k + 1))
    (hfresh : ∀ j, j ≠ i → (∃ n ∈ (calls j).natives, n ∉ gone) → pool j = (calls j).map)
    (htaken : ∀ n, Taken c (calls i) n → Taken c₀ (calls i) n ∨ n ∈ gone)
    (hover : Overtaken calls c₀ i gone (k + 1)) :
    ∃ es pool' c' text, Exec (Statement.exec env) pool c es pool' c' ∧
      pool' i = .raise (.integrity text) := by
  induction k generalizing gone pool c with
  | zero =>
    obtain ⟨j, hji, hbeside, ⟨n, hn, hnj, hgone, hnew⟩, -⟩ := hover
    obtain ⟨es, pool', c', text, hx, hi', -⟩ := attempt_loses (hnodup j) hminted hji hbeside hi
      (hfresh j hji ⟨n, hnj, hgone⟩) hn hnj fun h => (htaken n h).elim hnew hgone
    exact ⟨es, pool', c', text, hx, hi'⟩
  | succ k ih =>
    obtain ⟨j, hji, hbeside, ⟨n, hn, hnj, hgone, hnew⟩, hover⟩ := hover
    obtain ⟨es, pool', c', text, hx, hi', hothers, hminted', htaken'⟩ := attempt_loses
      (hnodup j) hminted hji hbeside hi (hfresh j hji ⟨n, hnj, hgone⟩) hn hnj
      fun h => (htaken n h).elim hnew hgone
    -- the rivals that are left have not begun
    have hfresh' : ∀ l, l ≠ i → (∃ m ∈ (calls l).natives, m ∉ gone ++ (calls j).natives) →
        pool' l = (calls l).map := by
      rintro l hli ⟨m, hm, hmgone⟩
      have hlj : l ≠ j := by
        rintro rfl
        exact hmgone (List.mem_append_right _ hm)
      rw [hothers l hli hlj]
      exact hfresh l hli ⟨m, hm, fun h => hmgone (List.mem_append_left _ h)⟩
    have htaken'' : ∀ m, Taken c' (calls i) m →
        Taken c₀ (calls i) m ∨ m ∈ gone ++ (calls j).natives := by
      intro m hm
      rcases htaken' m hm with h | h
      · exact (htaken m h).imp_right (List.mem_append_left _)
      · exact .inr (List.mem_append_right _ h)
    obtain ⟨es', pool'', c'', text', hx', hraise⟩ := ih hminted' hi' hfresh' htaken'' hover
    exact ⟨es ++ es', pool'', c'', text', hx.trans hx', hraise⟩

/-- The calls of a pool all return, however their statements interleave, exactly if
    none of them can be overtaken as often as it tries. -/
theorem races_returned_iff (hnodup : ∀ i, (calls i).natives.Nodup) (hminted : c.Minted env) :
    (∀ es pool' c', Exec (Statement.exec env) (fun i => (calls i).map) c es pool' c' →
      ∀ i, (pool' i).Ended → ∃ rows, pool' i = .ret rows) ↔
    ∀ i, ¬ Overtaken calls c i [] retries := by
  constructor
  · intro hreturned i hover
    have hi : (calls i).map = (calls i).attempts (2 + 1) := by
      unfold Page.map
      rw [if_neg, retries]
      intro hnil
      obtain ⟨j, -, -, ⟨n, hn, -⟩, -⟩ := hover
      simp [Page.natives, hnil] at hn
    obtain ⟨es, pool', c', text, hx, hraise⟩ := overtaken_raises hnodup hminted hi
      (fun j _ _ => rfl) (fun n h => .inl h) hover
    obtain ⟨rows, hrows⟩ := hreturned es pool' c' hx i (by rw [hraise]; trivial)
    rw [hraise] at hrows
    cases hrows
  · intro hnever es pool' c' hx i hended
    obtain ⟨out, hends⟩ := hended.ends
    have hout : (∃ rows, out = .ok rows) ∨ Overtaken calls c i [] retries :=
      hx.under_ended (R := Rely env calls c) (G := Guarantee env calls c)
        (Q := fun i r _ => (∃ rows, r = .ok rows) ∨ Overtaken calls c i [] retries)
        Rely.refl (fun _ _ _ _ => Rely.trans) (fun i j hji s t h => h i (Ne.symm hji))
        (fun i => map_among (hnodup i) hminted) (fun _ _ _ h _ => h) hends
    obtain ⟨rows, rfl⟩ := hout.resolve_right (hnever i)
    exact ⟨rows, hends.eq_ret⟩

end

/-- Two writes of the same two memories. -/
def twoWrites : Fin 2 → Page := fun _ =>
  { tenant := "t", provider := "p", items := [("a", "tea"), ("b", "coffee")]
    scope := { subject := ⟨"u", u_mustBeReal⟩ }, revive := true }

/-- Neither of two calls can be overtaken three times, so both are answered. -/
theorem two_writes_returned : (∀ i, ¬ Overtaken twoWrites {} i [] retries) ∧
    ∀ es pool' c', Exec (Statement.exec .counting) (fun i => (twoWrites i).map) {} es pool' c' →
      ∀ i, (pool' i).Ended → ∃ rows, pool' i = .ret rows := by
  have hnever : ∀ i, ¬ Overtaken twoWrites {} i [] retries := by
    rintro i ⟨j, hji, -, -, l, hli, -, ⟨n, -, hnl, hnj, -⟩, -⟩
    exact hnj hnl
  refine ⟨hnever, (races_returned_iff (fun i => by simp [twoWrites, Page.natives]) ?_).mpr hnever⟩
  exact fun r hr => absurd hr Table.not_mem_empty

/-- A write of three memories, and a write of each of them. -/
def fourWrites : Fin 4 → Page
  | 0 => { tenant := "t", provider := "p", items := [("a", "tea"), ("b", "rye"), ("c", "oat")]
           scope := { subject := ⟨"u", u_mustBeReal⟩ }, revive := true }
  | 1 => { tenant := "t", provider := "p", items := [("a", "tea")]
           scope := { subject := ⟨"u", u_mustBeReal⟩ }, revive := true }
  | 2 => { tenant := "t", provider := "p", items := [("b", "rye")]
           scope := { subject := ⟨"u", u_mustBeReal⟩ }, revive := true }
  | 3 => { tenant := "t", provider := "p", items := [("c", "oat")]
           scope := { subject := ⟨"u", u_mustBeReal⟩ }, revive := true }

/-- Each of the three commits after a lookup of the first and before its insertion. -/
theorem four_writes_raise : ¬ ∀ es pool' c', Exec (Statement.exec .counting)
    (fun i => (fourWrites i).map) {} es pool' c' →
      ∀ i, (pool' i).Ended → ∃ rows, pool' i = .ret rows := by
  intro hreturned
  have hx := play_exec (h := Statement.exec .counting) [0, 1, 1, 0, 0, 2, 2, 0, 0, 3, 3, 0]
    (fun i => (fourWrites i).map) {}
  obtain ⟨rows, hrows⟩ := hreturned _ _ _ hx 0 trivial
  cases hrows

end Memgw.Statements
