-- SUMMARY: When erasing a scope at Mem0 empties it: a listing must not be cut below the page that the adapter asks for, and every memory must have a text.
import Memgw.Adapters.Mem0
import Mathlib.Data.List.Perm.Basic
import Mathlib.Data.List.Nodup

/-!
# Draining a scope

The adapter erases a scope page by page, and takes a page that is shorter than it asked
for as the last one. It measures a page after it has left out what has no text. So a
client that lists less at a time than the adapter asks for makes the first page the last
one, and a memory without a text stays, whatever page it is on.
-/

namespace Memgw.Mem0

/-! ## A client that caps its listings -/

/-- A listing shows some of what matches, as much as it is asked for and the cap allows,
    and a deletion takes the one memory that has the id. What an answer shows for a memory
    need not have a text. -/
structure Client.Capped {κ : Type} (client : Client κ) (stored : κ → List Stored)
    (shown : Stored → Item) (cap : Nat) : Prop where
  shown_id : ∀ m, (shown m).id = some m.id
  ids_nodup : ∀ s, ((stored s).map Stored.id).Nodup
  getAll_keeps : ∀ filters topK s, stored (client (.getAll filters topK) s).2 = stored s
  getAll : ∀ filters topK s, ∃ (answer : Answer) (listed : List Stored),
    (client (.getAll filters topK) s).1 = .ok answer ∧
    answer.items = listed.map shown ∧ listed.Nodup ∧
    (∀ m ∈ listed, m ∈ stored s ∧ filters.selects m = true) ∧
    listed.length = min topK (min cap ((stored s).countP filters.selects))
  delete : ∀ s, ∀ m ∈ stored s, (client (.delete m.id) s).1 = .ok () ∧
    stored (client (.delete m.id) s).2 = (stored s).filter fun m' => m'.id ≠ m.id

/-- What an answer shows for the memory has a text. -/
def Texted (shown : Stored → Item) (m : Stored) : Bool := (content (shown m)).isSome

section

variable {κ : Type} {client : Client κ} {stored : κ → List Stored} {shown : Stored → Item}
  {cap : Nat} {s : κ} {filters : Entities}

theorem Client.Capped.eq_of_id (hcapped : client.Capped stored shown cap) {m m' : Stored}
    (hm : m ∈ stored s) (hm' : m' ∈ stored s) (h : m.id = m'.id) : m = m' :=
  List.inj_on_of_nodup_map (hcapped.ids_nodup s) hm hm' h

theorem Client.Capped.nodup (hcapped : client.Capped stored shown cap) : (stored s).Nodup :=
  List.Nodup.of_map _ (hcapped.ids_nodup s)

/-- Deleting memories of the store one after the other takes just them. -/
theorem deletePage_run (hcapped : client.Capped stored shown cap) {seen : List Stored}
    (hseen : ∀ m ∈ seen, m ∈ stored s) (hnodup : seen.Nodup) :
    ∃ s', (deletePage (seen.map fun m => toMemory (shown m))).run client s = (.ok (), s') ∧
      stored s' = (stored s).filter fun m => m ∉ seen := by
  induction seen generalizing s with
  | nil => exact ⟨s, rfl, by simp⟩
  | cons m seen ih =>
    obtain ⟨hm, hseen⟩ := List.forall_mem_cons.mp hseen
    obtain ⟨hnot, hnodup⟩ := List.nodup_cons.mp hnodup
    have hid : (toMemory (shown m)).nativeId = m.id := by simp [toMemory, hcapped.shown_id]
    obtain ⟨hok, hkept⟩ := hcapped.delete s m hm
    have hrest : ∀ m' ∈ seen, m' ∈ stored (client (.delete m.id) s).2 := by
      intro m' hm'
      rw [hkept, List.mem_filter]
      refine ⟨hseen m' hm', decide_eq_true fun h => hnot ?_⟩
      rwa [← hcapped.eq_of_id (hseen m' hm') hm h]
    obtain ⟨s', hrun, hstored⟩ := ih hrest hnodup
    refine ⟨s', ?_, ?_⟩
    · rw [List.map_cons, deletePage, hid]
      exact (Prog.run_perform_bind hok).trans hrun
    · rw [hstored, hkept, List.filter_filter]
      refine List.filter_congr fun m' hm' => ?_
      have hsame : m'.id = m.id ↔ m' = m := ⟨hcapped.eq_of_id hm' hm, fun h => h ▸ rfl⟩
      simp [hsame, not_or, Bool.and_comm]

/-! ## One round -/

/-- What one round sees: matching memories with a text, as many as the page and the cap
    allow when they all have one; and how it goes on. -/
theorem drain_round (hcapped : client.Capped stored shown cap) (filters : Entities)
    (rounds removed : Nat) (s : κ) :
    ∃ (seen : List Stored) (s₁ s₂ : κ), seen.Nodup ∧
      (∀ m ∈ seen, m ∈ stored s ∧ filters.selects m = true ∧ Texted shown m = true) ∧
      ((∀ m ∈ stored s, filters.selects m = true → Texted shown m = true) →
        seen.length = min page (min cap ((stored s).countP filters.selects))) ∧
      stored s₁ = stored s ∧ stored s₂ = (stored s).filter (fun m => m ∉ seen) ∧
      (drain filters (rounds + 1) removed).run client s =
        if seen = [] then (.ok removed, s₁)
        else if seen.length < page then (.ok (removed + seen.length), s₂)
        else (drain filters rounds (removed + seen.length)).run client s₂ := by
  obtain ⟨answer, listed, hanswer, hitems, hnodup, hlisted, hlength⟩ := hcapped.getAll filters page s
  generalize hseen : listed.filter (Texted shown) = seen
  have hmem : ∀ m, m ∈ seen ↔ m ∈ listed ∧ Texted shown m = true := by
    intro m
    rw [← hseen, List.mem_filter]
  have hmemories : toMemories answer = seen.map fun m => toMemory (shown m) := by
    rw [toMemories, hitems, List.filter_map, List.map_map, ← hseen]
    rfl
  generalize hs₁ : (client (.getAll filters page) s).2 = s₁
  have hkept : stored s₁ = stored s := hs₁ ▸ hcapped.getAll_keeps filters page s
  have hstored : ∀ m ∈ seen, m ∈ stored s₁ :=
    fun m hm => hkept ▸ (hlisted m ((hmem m).mp hm).1).1
  have hseenNodup : seen.Nodup := hseen ▸ hnodup.filter _
  obtain ⟨s₂, hdelete, hs₂⟩ := deletePage_run hcapped hstored hseenNodup
  refine ⟨seen, s₁, s₂, hseenNodup, fun m hm => ?_, fun htexted => ?_, hkept, hkept ▸ hs₂, ?_⟩
  · obtain ⟨hm, htext⟩ := (hmem m).mp hm
    exact ⟨(hlisted m hm).1, (hlisted m hm).2, htext⟩
  · have hall : listed.filter (Texted shown) = listed :=
      List.filter_eq_self.mpr fun m hm => htexted m (hlisted m hm).1 (hlisted m hm).2
    rw [← hseen, hall, hlength]
  · rw [drain]
    refine (Prog.run_perform_bind hanswer).trans ?_
    simp only [hs₁]
    simp only [hmemories, List.map_eq_nil_iff, List.length_map]
    split
    · rfl
    · rw [Prog.bind_eq, Prog.run_bind, hdelete]
      simp only
      split <;> rfl

/-- What a round sees is gone after it, and counts no more. -/
theorem countP_unseen (hcapped : client.Capped stored shown cap) {seen : List Stored}
    (hnodup : seen.Nodup) (hseen : ∀ m ∈ seen, m ∈ stored s ∧ filters.selects m = true) :
    ((stored s).filter fun m => m ∉ seen).countP filters.selects + seen.length =
      (stored s).countP filters.selects := by
  have hsame : ((stored s).filter fun m => m ∈ seen).Perm seen := by
    refine (List.perm_ext_iff_of_nodup (hcapped.nodup.filter _) hnodup).mpr fun m => ?_
    rw [List.mem_filter, decide_eq_true_eq]
    exact and_iff_right_of_imp fun hm => (hseen m hm).1
  have hall : ((stored s).filter fun m => m ∈ seen).countP filters.selects = seen.length := by
    rw [hsame.countP_eq, List.countP_eq_length]
    exact fun m hm => (hseen m hm).2
  have hsplit := List.countP_eq_countP_filter_add (stored s) filters.selects fun m => m ∈ seen
  simp only [← decide_not] at hsplit
  omega

/-! ## Whole runs -/

/-- With more rounds than there are matching memories, the loop returns. -/
theorem drain_returns (hcapped : client.Capped stored shown cap) {rounds removed : Nat}
    (hrounds : (stored s).countP filters.selects < rounds) :
    ∃ n s', (drain filters rounds removed).run client s = (.ok n, s') := by
  induction rounds generalizing s removed with
  | zero => omega
  | succ rounds ih =>
    obtain ⟨seen, s₁, s₂, hnodup, hseen, -, -, hs₂, hrun⟩ :=
      drain_round hcapped filters rounds removed s
    rw [hrun]
    split
    · exact ⟨_, _, rfl⟩
    · split
      · exact ⟨_, _, rfl⟩
      · -- a full page is gone, so there are fewer memories left than rounds
        refine ih ?_
        have hcount := countP_unseen hcapped hnodup fun m hm => ⟨(hseen m hm).1, (hseen m hm).2.1⟩
        rw [← hs₂] at hcount
        have : page = 1000 := rfl
        omega

/-- A memory that shows no text stays. -/
theorem drain_keeps_textless (hcapped : client.Capped stored shown cap) {rounds removed : Nat}
    {m : Stored} (hm : m ∈ stored s) (htext : Texted shown m = false) :
    (drain filters rounds removed).wp client (fun _ s' => m ∈ stored s') s := by
  induction rounds generalizing s removed with
  | zero => exact hm
  | succ rounds ih =>
    obtain ⟨seen, s₁, s₂, -, hseen, -, hs₁, hs₂, hrun⟩ :=
      drain_round hcapped filters rounds removed s
    have hkept : m ∈ stored s₂ := by
      rw [hs₂, List.mem_filter, decide_eq_true_eq]
      refine ⟨hm, fun h => ?_⟩
      rw [(hseen m h).2.2] at htext
      cases htext
    unfold Prog.wp
    rw [hrun]
    split
    · show m ∈ stored s₁
      rwa [hs₁]
    · split
      · exact hkept
      · exact ih hkept

/-- Where all that matches has a text, and is listed in full pages or at once, the loop
    takes all of it and says how much that was. -/
theorem drain_empties (hcapped : client.Capped stored shown cap) {rounds removed : Nat}
    (htexted : ∀ m ∈ stored s, filters.selects m = true → Texted shown m = true)
    (hcap : page ≤ cap ∨ (stored s).countP filters.selects ≤ cap)
    (hrounds : (stored s).countP filters.selects < rounds) :
    ∃ s', (drain filters rounds removed).run client s =
        (.ok (removed + (stored s).countP filters.selects), s') ∧
      ∀ m ∈ stored s', filters.selects m = false := by
  induction rounds generalizing s removed with
  | zero => omega
  | succ rounds ih =>
    obtain ⟨seen, s₁, s₂, hnodup, hseen, hlength, hs₁, hs₂, hrun⟩ :=
      drain_round hcapped filters rounds removed s
    have hlength := hlength htexted
    have hcount := countP_unseen hcapped hnodup fun m hm => ⟨(hseen m hm).1, (hseen m hm).2.1⟩
    rw [← hs₂] at hcount
    have hpage : page = 1000 := rfl
    have hnone : ∀ t : κ, (stored t).countP filters.selects = 0 →
        ∀ m ∈ stored t, filters.selects m = false := by
      intro t ht m hm
      simpa using List.countP_eq_zero.mp ht m hm
    rw [hrun]
    split
    · rename_i hnil
      -- an empty page shows that nothing matches
      have hzero : (stored s).countP filters.selects = 0 := by
        rw [hnil, List.length_nil] at hlength
        omega
      exact ⟨s₁, by rw [hzero, Nat.add_zero], hnone s₁ (hs₁ ▸ hzero)⟩
    · split
      · -- a short page shows all that matches
        have hall : seen.length = (stored s).countP filters.selects := by omega
        exact ⟨s₂, by rw [hall], hnone s₂ (by omega)⟩
      · -- a full page was not cut by the cap, so neither is the next one
        have htexted₂ : ∀ m ∈ stored s₂, filters.selects m = true → Texted shown m = true := by
          intro m hm
          rw [hs₂] at hm
          exact htexted m (List.mem_of_mem_filter hm)
        obtain ⟨s', hrun', hempty⟩ : ∃ s',
            (drain filters rounds (removed + seen.length)).run client s₂ =
              (.ok (removed + seen.length + (stored s₂).countP filters.selects), s') ∧
            ∀ m ∈ stored s', filters.selects m = false :=
          ih htexted₂ (.inl (by omega)) (by omega)
        exact ⟨s', by rw [hrun', Nat.add_assoc, Nat.add_comm seen.length, hcount], hempty⟩

/-- Where a listing is cut below a page, and below what matches, the first page is taken
    for the last. -/
theorem drain_stops_short (hcapped : client.Capped stored shown cap) (rounds : Nat)
    (htexted : ∀ m ∈ stored s, filters.selects m = true → Texted shown m = true)
    (hpos : 1 ≤ cap) (hpage : cap < page) (hmore : cap < (stored s).countP filters.selects) :
    ∃ s', (drain filters (rounds + 1) 0).run client s = (.ok cap, s') := by
  obtain ⟨seen, s₁, s₂, hnodup, hseen, hlength, -, -, hrun⟩ :=
    drain_round hcapped filters rounds 0 s
  have hlength : seen.length = cap := by
    rw [hlength htexted]
    omega
  have hne : seen ≠ [] := by
    rintro rfl
    simp only [List.length_nil] at hlength
    omega
  refine ⟨s₂, ?_⟩
  rw [hrun, if_neg hne, if_pos (hlength ▸ hpage), Nat.zero_add, hlength]

end

/-- What erasing a scope is to do: return, however long it may take, with the number of
    the memories that matched, and leave none of them. -/
def Drains {κ : Type} (client : Client κ) (stored : κ → List Stored) (scope : Scope) (s : κ) :
    Prop :=
  ∃ enough, ∀ rounds, enough ≤ rounds → ∃ s', (deleteScope rounds scope).run client s =
      (.ok ((stored s).countP (buildFilters scope).selects), s') ∧
    ∀ m ∈ stored s', (buildFilters scope).selects m = false

/-- Erasing a scope always returns; and it drains the scope exactly when all that matches
    shows a text, and the cap is not below both a page and what matches. -/
theorem deleteScope_drains_iff {κ : Type} (client : Client κ) (stored : κ → List Stored)
    (shown : Stored → Item) (cap : Nat) (hcap : 1 ≤ cap)
    (hcapped : client.Capped stored shown cap) (scope : Scope) (s : κ) :
    (∃ enough, ∀ rounds, enough ≤ rounds →
      ∃ n s', (deleteScope rounds scope).run client s = (.ok n, s')) ∧
    (Drains client stored scope s ↔
      (∀ m ∈ stored s, (buildFilters scope).selects m = true → Texted shown m = true) ∧
        (page ≤ cap ∨ (stored s).countP (buildFilters scope).selects ≤ cap)) := by
  refine ⟨⟨(stored s).countP (buildFilters scope).selects + 1, fun rounds hrounds =>
    drain_returns hcapped hrounds⟩, ?_⟩
  constructor
  · rintro ⟨enough, hdrains⟩
    obtain ⟨s', hrun, hempty⟩ := hdrains (enough + 1) (Nat.le_succ enough)
    have htexted : ∀ m ∈ stored s, (buildFilters scope).selects m = true →
        Texted shown m = true := by
      intro m hm hsel
      by_contra htext
      have hkept : m ∈ stored s' :=
        Prog.of_wp (drain_keeps_textless hcapped hm (by simpa using htext)) hrun
      rw [hempty m hkept] at hsel
      cases hsel
    refine ⟨htexted, ?_⟩
    by_contra hshort
    push Not at hshort
    obtain ⟨s'', hrun'⟩ := drain_stops_short hcapped enough htexted hcap hshort.1 hshort.2
    have hcount : (stored s).countP (buildFilters scope).selects = cap :=
      Except.ok.inj (Prod.mk.inj (hrun.symm.trans hrun')).1
    omega
  · rintro ⟨htexted, hcap⟩
    refine ⟨(stored s).countP (buildFilters scope).selects + 1, fun rounds hrounds => ?_⟩
    obtain ⟨s', hrun, hempty⟩ : ∃ s', (deleteScope rounds scope).run client s =
        (.ok (0 + (stored s).countP (buildFilters scope).selects), s') ∧
        ∀ m ∈ stored s', (buildFilters scope).selects m = false :=
      drain_empties hcapped htexted hcap hrounds
    exact ⟨s', by rw [hrun, Nat.zero_add], hempty⟩

/-! ## A client that lists in order -/

/-- A store of memories with distinct ids. -/
abbrev Shelf : Type := { memories : List Stored // (memories.map Stored.id).Nodup }

/-- The object that stands for a memory: its text is under its usual name. -/
def plainItem (m : Stored) : Item := { id := some m.id, memory := some m.memory }

/-- A client over such a store that lists what matches from the front, up to a cap. -/
def shelfClient (cap : Nat) : Client Shelf
  | .getAll filters topK, s =>
    (.ok (.list (((s.val.filter filters.selects).take (min topK cap)).map
      fun m => some (plainItem m))), s)
  | .delete id, s =>
    (.ok (), ⟨s.val.filter fun m => m.id ≠ id, s.2.sublist (List.filter_sublist.map _)⟩)
  | .search .., s | .add .., s => (.ok .null, s)
  | .get _, s => (.ok none, s)
  | .update .., s => (.ok (), s)

theorem shelfClient_capped (cap : Nat) :
    (shelfClient cap).Capped Subtype.val plainItem cap where
  shown_id _ := rfl
  ids_nodup s := s.2
  getAll_keeps _ _ _ := rfl
  getAll filters topK s := by
    refine ⟨_, (s.val.filter filters.selects).take (min topK cap), rfl, ?_, ?_, fun m hm => ?_, ?_⟩
    · rw [Answer.items, Answer.entries, List.filterMap_map]
      exact congrFun List.filterMap_eq_map _
    · exact ((s.2.of_map _).filter _).sublist (List.take_sublist ..)
    · exact List.mem_filter.mp (List.mem_of_mem_take hm)
    · rw [List.length_take, ← List.countP_eq_length_filter, Nat.min_assoc]
  delete _ _ _ := ⟨rfl, rfl⟩

def notedScope : Scope := { subject := ⟨"u_1", u_1_mustBeReal⟩ }

def noted (id : String) : Stored where
  id := id
  memory := "tea"
  ids := writeIds notedScope
  metadata := {}

theorem one_memory_drains : Drains (shelfClient 1) Subtype.val notedScope
    ⟨[noted "m"], List.nodup_singleton _⟩ := by
  refine (deleteScope_drains_iff (shelfClient 1) Subtype.val plainItem 1 le_rfl
    (shelfClient_capped 1) notedScope ⟨[noted "m"], List.nodup_singleton _⟩).2.mpr ⟨?_, .inr ?_⟩
  · intro m hm _
    obtain rfl := List.mem_singleton.mp hm
    rfl
  · decide

/-- Two memories behind a cap of one: one goes, and the erasure is reported as done. -/
theorem capped_listing_stops_short : ¬ ∀ (κ : Type) (client : Client κ) (stored : κ → List Stored)
    (shown : Stored → Item) (cap : Nat), 1 ≤ cap → client.Capped stored shown cap →
    ∀ (scope : Scope) (s : κ), Drains client stored scope s := by
  intro h
  have hnodup : ([noted "m", noted "n"].map Stored.id).Nodup := by decide
  obtain ⟨enough, hdrains⟩ := h Shelf (shelfClient 1) Subtype.val plainItem 1 le_rfl
    (shelfClient_capped 1) notedScope ⟨[noted "m", noted "n"], hnodup⟩
  obtain ⟨s', hrun, -⟩ := hdrains (enough + 1) (Nat.le_succ enough)
  have htwo : [noted "m", noted "n"].countP (buildFilters notedScope).selects = 2 := by decide
  have htexted : ∀ m ∈ [noted "m", noted "n"], (buildFilters notedScope).selects m = true →
      Texted plainItem m = true := by decide
  obtain ⟨s'', hrun'⟩ : ∃ s'', (deleteScope (enough + 1) notedScope).run (shelfClient 1)
      ⟨[noted "m", noted "n"], hnodup⟩ = (.ok 1, s'') :=
    drain_stops_short (shelfClient_capped 1) enough htexted le_rfl (by decide)
      (htwo ▸ Nat.one_lt_two)
  have hcount := Except.ok.inj (Prod.mk.inj (hrun.symm.trans hrun')).1
  exact absurd (htwo.symm.trans hcount) (by decide)

end Memgw.Mem0
