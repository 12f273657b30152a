-- SUMMARY: When changes of one binding that overlap go through: exactly when nothing commits between the deletion and the insertion of a rebind.
import Memgw.Gateway.BindingStatements
import Memgw.Library.Alone

/-!
# Binding races

A call that has inserted its row holds the key until it commits, so insertions and
commits take turns, and each commit leaves one row, its own. A row that was committed
after a `rebind` deleted what stood is one that it has not deleted. Its insertion then
fails, and where `bind` answers with what stands, `rebind` lets the error through.
-/

namespace Memgw.Bindings

/-! ## What a call does -/

abbrev BindStep : Type := Step Statement.Ans Exc

/-- The answer is one that some state gives. -/
def Honest (st : BindStep) : Prop := ∃ rows, st.2 = (st.1.exec rows).1

/-- A statement on the row of the subject that is no lookup. -/
def writes : BindStep → Bool
  | ⟨.delete, _⟩ | ⟨.insert .., _⟩ | ⟨.commit _, _⟩ => true
  | ⟨.select, _⟩ | ⟨.liveCount _, _⟩ => false

def commits : BindStep → Bool
  | ⟨.commit _, _⟩ => true
  | _ => false

/-- The writing statements of a call that has ended, and how it ended. -/
inductive Wrote : BindingCall → List BindStep → Except Exc BindingReply → Prop where
  | bound {provider : String} {number : Nat} {reply : BindingReply} :
      Wrote (.bind provider)
        [⟨.insert [] provider none, .ok number⟩, ⟨.commit number, .ok ()⟩] (.ok reply)
  | kept {provider text : String} {reply : BindingReply} :
      Wrote (.bind provider)
        [⟨.insert [] provider none, .error (.integrity text)⟩] (.ok reply)
  | rebound {provider : String} {deleted : List Nat} {previous : Option String} {number : Nat}
      {reply : BindingReply} :
      Wrote (.rebind provider) [⟨.delete, .ok deleted⟩,
        ⟨.insert deleted provider previous, .ok number⟩, ⟨.commit number, .ok ()⟩] (.ok reply)
  | refused {provider text : String} {deleted : List Nat} {previous : Option String} :
      Wrote (.rebind provider) [⟨.delete, .ok deleted⟩,
        ⟨.insert deleted provider previous, .error (.integrity text)⟩] (.error (.integrity text))

theorem shows_execute {st : Statement} {Q : List BindStep → Except Exc st.Ans → Prop}
    (h : ∀ rows, Q (if writes ⟨st, (st.exec rows).1⟩ then [⟨st, (st.exec rows).1⟩] else [])
      (st.exec rows).1) : (execute st).Shows Honest writes Q := by
  refine Prog.shows_perform fun r hr => ?_
  obtain ⟨rows, rfl⟩ : ∃ rows, r = (st.exec rows).1 := hr
  exact h rows

theorem insert_answers {deleted : List Nat} {provider : String} {migratedFrom : Option String}
    {rows : Rows} : ((Statement.insert deleted provider migratedFrom).exec rows).1 =
      if rows.free deleted then .ok rows.inserted
      else .error (.integrity "UNIQUE constraint failed: scope_binding") := by
  simp only [Statement.exec]
  split <;> rfl

theorem shows_insert {deleted : List Nat} {provider : String} {migratedFrom : Option String}
    {Q : List BindStep → Except Exc Nat → Prop}
    (hok : ∀ n, Q [⟨.insert deleted provider migratedFrom, .ok n⟩] (.ok n))
    (herr : ∀ text, Q [⟨.insert deleted provider migratedFrom, .error (.integrity text)⟩]
      (.error (.integrity text))) :
    (execute (.insert deleted provider migratedFrom)).Shows Honest writes Q := by
  refine shows_execute fun rows => ?_
  rw [insert_answers]
  split
  · exact hok _
  · exact herr _

theorem commit_answers {number : Nat} {rows : Rows} :
    ((Statement.commit number).exec rows).1 = .ok () := by
  simp only [Statement.exec]
  cases rows.pending with
  | none => rfl
  | some p => dsimp only; split <;> rfl

theorem shows_commit {number : Nat} {Q : List BindStep → Except Exc Unit → Prop}
    (h : Q [⟨.commit number, .ok ()⟩] (.ok ())) :
    (execute (.commit number)).Shows Honest writes Q := by
  refine shows_execute fun rows => ?_
  rw [commit_answers]
  exact h

theorem bind_wrote {provider : String} :
    (BindingCall.bind provider).prog.Shows Honest writes (Wrote (.bind provider)) := by
  refine Prog.shows_bind (Prog.shows_bind (Prog.shows_attempt (Prog.shows_bind ?_)))
  refine shows_insert (fun n => Prog.shows_bind (shows_commit (Prog.shows_ret ?_))) fun text => ?_
  · exact Prog.shows_ret (Prog.shows_ret .bound)
  · refine Prog.shows_bind (shows_execute fun _ => ?_)
    exact Prog.shows_ret (Prog.shows_ret .kept)

theorem rebind_wrote {provider : String} :
    (BindingCall.rebind provider).prog.Shows Honest writes (Wrote (.rebind provider)) := by
  refine Prog.shows_bind (Prog.shows_bind (shows_execute fun rows => Prog.shows_bind ?_))
  have hstranded : ∀ {Q : List BindStep → Except Exc Nat → Prop}, (∀ n, Q [] (.ok n)) →
      ∀ previous, (rebind.strandedAt provider previous).Shows Honest writes Q := by
    intro Q hQ previous
    cases previous with
    | none => exact Prog.shows_ret (hQ 0)
    | some previous =>
      simp only [rebind.strandedAt]
      split
      · exact shows_execute fun _ => hQ _
      · exact Prog.shows_ret (hQ 0)
  refine hstranded (fun n => Prog.shows_bind (shows_execute fun _ => Prog.shows_bind ?_)) _
  refine shows_insert (fun number => Prog.shows_bind (shows_commit (Prog.shows_ret ?_)))
    fun text => .refused
  exact Prog.shows_ret .rebound

theorem prog_wrote (c : BindingCall) : c.prog.Shows Honest writes (Wrote c) := by
  cases c with
  | bind => exact bind_wrote
  | rebind => exact rebind_wrote

/-! ## What a statement leaves -/

variable {rows : Rows}

/-- A statement leaves the rows as they are, or it inserts, or it ends the transaction
    that holds the key. -/
theorem exec_cases (st : Statement) (rows : Rows) :
    (st.exec rows).2 = rows ∨
      (∃ deleted provider migratedFrom, st = .insert deleted provider migratedFrom ∧
        rows.free deleted = true ∧ (st.exec rows).2 = { rows with
          pending := some ⟨deleted, ⟨rows.inserted, provider, migratedFrom⟩⟩
          inserted := rows.inserted + 1 }) ∨
      ∃ p, st = .commit p.version.number ∧ rows.pending = some p ∧
        (st.exec rows).2 = { rows with committed := p.apply rows.committed, pending := none } := by
  cases st with
  | select | liveCount | delete => exact .inl rfl
  | insert deleted provider migratedFrom =>
    simp only [Statement.exec]
    split
    · rename_i hfree
      exact .inr (.inl ⟨deleted, provider, migratedFrom, rfl, hfree, rfl⟩)
    · exact .inl rfl
  | commit number =>
    simp only [Statement.exec]
    split
    · exact .inl rfl
    · rename_i p hp
      split
      · rename_i hnumber
        subst hnumber
        exact .inr (.inr ⟨p, rfl, hp, rfl⟩)
      · exact .inl rfl

/-- The rows are numbered in the order in which they were inserted, and nothing stands in
    the way of the transaction that holds the key. -/
structure Rows.Ordered (rows : Rows) : Prop where
  fresh : ∀ v ∈ rows.committed, v.number < rows.inserted
  pending : ∀ p, rows.pending = some p → rows.free p.deleted = true ∧
    (∀ v ∈ rows.committed, v.number < p.version.number) ∧ p.version.number < rows.inserted

theorem ordered_exec (st : Statement) (h : rows.Ordered) : (st.exec rows).2.Ordered := by
  obtain hsame | ⟨deleted, provider, migratedFrom, -, hfree, hrows⟩ | ⟨p, -, hp, hrows⟩ :=
    exec_cases st rows
  · rwa [hsame]
  · rw [hrows]
    refine ⟨fun v hv => Nat.lt_succ_of_lt (h.fresh v hv), ?_⟩
    rintro p ⟨⟩
    exact ⟨hfree, h.fresh, Nat.lt_succ_self _⟩
  · obtain ⟨hfree, -, hlt⟩ := h.pending p hp
    rw [hrows, Pending.apply_free hfree]
    exact ⟨by simpa using hlt, fun q hq => nomatch hq⟩

/-- A row stands, and each that does or is about to was inserted `k`-th or later. -/
structure Rows.Beyond (k : Nat) (rows : Rows) : Prop where
  stands : rows.committed ≠ []
  committed : ∀ v ∈ rows.committed, k ≤ v.number
  pending : ∀ p, rows.pending = some p → k ≤ p.version.number
  inserted : k ≤ rows.inserted

theorem beyond_exec {k : Nat} (st : Statement) (h : rows.Beyond k) :
    (st.exec rows).2.Beyond k := by
  obtain hsame | ⟨deleted, provider, migratedFrom, -, -, hrows⟩ | ⟨p, -, hp, hrows⟩ :=
    exec_cases st rows
  · rwa [hsame]
  · rw [hrows]
    refine ⟨h.stands, h.committed, ?_, Nat.le_succ_of_le h.inserted⟩
    rintro p ⟨⟩
    exact h.inserted
  · rw [hrows]
    refine ⟨by simp [Pending.apply], fun v hv => ?_, fun q hq => (nomatch hq), h.inserted⟩
    rcases List.mem_append.mp hv with hv | hv
    · exact h.committed v (List.mem_filter.mp hv).1
    · rw [List.mem_singleton.mp hv]
      exact h.pending p hp

theorem committed_exec {st : BindStep} (h : commits st = false) :
    (st.1.exec rows).2.committed = rows.committed := by
  obtain hsame | ⟨deleted, provider, migratedFrom, -, -, hrows⟩ | ⟨p, hst, -, -⟩ :=
    exec_cases st.1 rows
  · rw [hsame]
  · rw [hrows]
  · obtain ⟨_, r⟩ := st
    obtain rfl := hst
    cases h

theorem Rows.Beyond.not_free {k : Nat} {deleted : List Nat} (h : rows.Beyond k)
    (hdeleted : ∀ n ∈ deleted, n < k) : rows.free deleted = false := by
  obtain ⟨v, hv⟩ := List.exists_mem_of_ne_nil _ h.stands
  refine List.all_eq_false.mpr ⟨v, hv, ?_⟩
  rw [List.contains_iff_mem]
  intro hmem
  exact absurd (hdeleted _ hmem) (Nat.not_lt.mpr (h.committed v hv))

/-! ## Whose row stands -/

abbrev History (ι : Type) : Type := List (Event Statement.Ans Exc ι)

variable {ι : Type} {call : ι → BindingCall} {bound : Option Version} {es : History ι}
  {committed : List Version}

/-- The row is the one that call `i` has inserted. -/
def WrittenBy (call : ι → BindingCall) (es : History ι) (row : Version) (i : ι) : Prop :=
  row.provider = (call i).provider ∧ ∃ deleted,
    ⟨i, ⟨.insert deleted row.provider row.migratedFrom, .ok row.number⟩⟩ ∈ es

/-- Whose row is to stand: that of the rebind that committed last. Without one it is the
    row that stood at the beginning, and without that the one of the first call to commit. -/
def origin (call : ι → BindingCall) (bound : Option Version) (es : History ι) :
    Option (Version ⊕ ι) :=
  let committed := order commits es
  ((committed.filter fun i => (call i).isRebind).getLast?.map .inr).or
    ((bound.map .inl).or (committed.head?.map .inr))

/-- The row is the one that stood, or that the call has inserted. -/
def ComesFrom (call : ι → BindingCall) (es : History ι) (row : Version) : Version ⊕ ι → Prop
  | .inl standing => row = standing
  | .inr i => WrittenBy call es row i

/-- Nothing but the row of the right origin is committed. -/
def Stands (call : ι → BindingCall) (bound : Option Version) (es : History ι)
    (committed : List Version) : Prop :=
  match origin call bound es with
  | none => committed = []
  | some o => ∃ row, committed = [row] ∧ ComesFrom call es row o

theorem ComesFrom.append {row : Version} {o : Version ⊕ ι} {fs : History ι}
    (h : ComesFrom call es row o) : ComesFrom call (es ++ fs) row o := by
  cases o with
  | inl standing => exact h
  | inr i =>
    obtain ⟨hprovider, deleted, hmem⟩ := h
    exact ⟨hprovider, deleted, List.mem_append_left _ hmem⟩

theorem origin_none (h : origin call bound es = none) : bound = none ∧ order commits es = [] := by
  simp only [origin, Option.or_eq_none_iff, Option.map_eq_none_iff] at h
  exact ⟨h.2.1, List.head?_eq_none_iff.mp h.2.2⟩

/-- Without a commit the rows stand as they did. -/
theorem Stands.quiet {e : Event Statement.Ans Exc ι} (h : Stands call bound es committed)
    (he : commits e.step = false) : Stands call bound (es ++ [e]) committed := by
  have horder : order commits (es ++ [e]) = order commits es := by
    simp [order, he]
  unfold Stands origin at *
  rw [horder]
  dsimp only at *
  split
  · rename_i hnone
    rwa [hnone] at h
  · rename_i o ho
    rw [ho] at h
    obtain ⟨row, hrow, hfrom⟩ := h
    exact ⟨row, hrow, hfrom.append⟩

/-- A commit by a rebind, or a commit where nothing stood, is the one that counts. -/
theorem Stands.commit {row : Version} {e : Event Statement.Ans Exc ι}
    (h : Stands call bound es committed) (he : commits e.step = true)
    (hrow : WrittenBy call (es ++ [e]) row e.who) (hfirst : (call e.who).isRebind = false →
      committed = []) : Stands call bound (es ++ [e]) [row] := by
  have horder : order commits (es ++ [e]) = order commits es ++ [e.who] := by
    simp [order, he]
  cases hrebind : (call e.who).isRebind with
  | true =>
    have horigin : origin call bound (es ++ [e]) = some (.inr e.who) := by
      simp [origin, horder, hrebind]
    unfold Stands
    rw [horigin]
    exact ⟨row, rfl, hrow⟩
  | false =>
    obtain rfl := hfirst hrebind
    have hnone : origin call bound es = none := by
      unfold Stands at h
      split at h
      · assumption
      · obtain ⟨row, hrow, -⟩ := h
        cases hrow
    obtain ⟨rfl, hnil⟩ := origin_none hnone
    have horigin : origin call none (es ++ [e]) = some (.inr e.who) := by
      simp [origin, horder, hnil, hrebind]
    unfold Stands
    rw [horigin]
    exact ⟨row, rfl, hrow⟩

/-! ## Who holds the key -/

variable [DecidableEq ι]

/-- Call `i` has inserted its row, and has done nothing since that writes. -/
def Inserted (es : History ι) (i : ι) (p : Pending) : Prop :=
  ((own i es).filter writes).getLast? = some
    ⟨.insert p.deleted p.version.provider p.version.migratedFrom, .ok p.version.number⟩

/-- A call that has inserted its row and not committed it is alone in this, and its
    transaction is the one that is pending. -/
structure Held (es : History ι) (rows : Rows) : Prop where
  pending : ∀ i p, Inserted es i p → rows.pending = some p
  alone : ∀ i j p q, Inserted es i p → Inserted es j q → i = j

theorem inserted_nil {i : ι} {p : Pending} : ¬ Inserted ([] : History ι) i p := by
  simp [Inserted]

theorem inserted_append {i j : ι} {p : Pending} {st : BindStep}
    (h : Inserted (es ++ [⟨j, st⟩]) i p) :
    (j = i ∧ st = ⟨.insert p.deleted p.version.provider p.version.migratedFrom,
      .ok p.version.number⟩) ∨ (Inserted es i p ∧ (j = i → writes st = false)) := by
  unfold Inserted at *
  rw [own_append, List.filter_append] at h
  by_cases hj : j = i
  · subst hj
    rw [own_cons_self, own_nil] at h
    cases hst : writes st with
    | true =>
      rw [List.filter_cons_of_pos hst, List.filter_nil, List.getLast?_concat] at h
      exact .inl ⟨rfl, Option.some.inj h⟩
    | false =>
      rw [List.filter_cons_of_neg (by simp [hst]), List.filter_nil, List.append_nil] at h
      exact .inr ⟨h, fun _ => rfl⟩
  · rw [own_cons_ne hj, own_nil, List.filter_nil, List.append_nil] at h
    exact .inr ⟨h, fun hji => absurd hji hj⟩

theorem held_step {e : Event Statement.Ans Exc ι} (h : Held es rows)
    (hans : e.step.2 = (e.step.1.exec rows).1) (hadmits : e.step.1.Admits rows)
    (hcommit : ∀ n, e.step.1 = .commit n → ∃ p, Inserted es e.who p ∧ p.version.number = n) :
    Held (es ++ [e]) (e.step.1.exec rows).2 := by
  obtain ⟨j, op, r⟩ := e
  cases op with
  | select | liveCount | delete =>
    have hback : ∀ i p, Inserted (es ++ [⟨j, _, r⟩]) i p → Inserted es i p := by
      intro i p hp
      rcases inserted_append hp with ⟨-, hst⟩ | ⟨hp, -⟩
      · cases hst
      · exact hp
    exact ⟨fun i p hp => h.pending i p (hback i p hp),
      fun i k p q hp hq => h.alone i k p q (hback i p hp) (hback k q hq)⟩
  | insert deleted provider migratedFrom =>
    -- it has waited until no call held the key
    have hown : ∀ i p, Inserted (es ++ [⟨j, ⟨.insert deleted provider migratedFrom, r⟩⟩]) i p →
        j = i ∧ (⟨.insert deleted provider migratedFrom, r⟩ : BindStep) =
          ⟨.insert p.deleted p.version.provider p.version.migratedFrom, .ok p.version.number⟩ := by
      intro i p hp
      refine (inserted_append hp).resolve_right fun hold => ?_
      exact nomatch hadmits.symm.trans (h.pending i p hold.1)
    refine ⟨fun i p hp => ?_, fun i k p q hp hq => (hown i p hp).1.symm.trans (hown k q hq).1⟩
    obtain ⟨-, hst⟩ := hown i p hp
    cases hst
    rw [insert_answers] at hans
    split at hans
    · rename_i hfree
      obtain hnumber : p.version.number = rows.inserted := Except.ok.inj hans
      simp only [Statement.exec, hfree, if_true, ← hnumber]
    · cases hans
  | commit number =>
    -- the only call that held the key lets go of it
    have hnone : ∀ i p, ¬ Inserted (es ++ [⟨j, ⟨.commit number, r⟩⟩]) i p := by
      intro i p hp
      obtain ⟨q, hq, -⟩ := hcommit number rfl
      rcases inserted_append hp with ⟨-, hst⟩ | ⟨hp, hlast⟩
      · cases hst
      · cases hlast (h.alone j i q p hq hp)
    exact ⟨fun i p hp => absurd hp (hnone i p), fun i k p q hp _ => absurd hp (hnone i p)⟩

/-! ## Runs -/

/-- What commits is what the call has inserted just before. -/
theorem Wrote.of_commit {c : BindingCall} {pre post : List BindStep} {n : Nat}
    {r : Except Exc Unit} {out : Except Exc BindingReply}
    (h : Wrote c (pre ++ ⟨.commit n, r⟩ :: post) out) :
    ∃ p : Pending, p.version.number = n ∧ p.version.provider = c.provider ∧
      (c.isRebind = false → p.deleted = []) ∧ pre.getLast? = some
        ⟨.insert p.deleted p.version.provider p.version.migratedFrom, .ok p.version.number⟩ := by
  generalize hsteps : pre ++ ⟨.commit n, r⟩ :: post = steps at h
  have hmem : (⟨.commit n, r⟩ : BindStep) ∈ steps := by simp [← hsteps]
  cases h with
  | @bound provider number =>
    have hsplit : pre ++ (⟨.commit n, r⟩ : BindStep) :: post =
        [⟨.insert [] provider none, .ok number⟩] ++ ⟨.commit number, .ok ()⟩ :: [] := hsteps
    obtain ⟨rfl, hcommit, -⟩ := split_unique (P := commits) hsplit rfl (by simp [commits])
      (by simp)
    cases hcommit
    exact ⟨⟨[], ⟨n, provider, none⟩⟩, rfl, rfl, fun _ => rfl, rfl⟩
  | @rebound provider deleted previous number =>
    have hsplit : pre ++ (⟨.commit n, r⟩ : BindStep) :: post = [⟨.delete, .ok deleted⟩,
        ⟨.insert deleted provider previous, .ok number⟩] ++ ⟨.commit number, .ok ()⟩ :: [] :=
      hsteps
    obtain ⟨rfl, hcommit, -⟩ := split_unique (P := commits) hsplit rfl (by simp [commits])
      (by simp)
    cases hcommit
    exact ⟨⟨deleted, ⟨n, provider, previous⟩⟩, rfl, rfl, (fun h => nomatch h), rfl⟩
  | kept | refused => simp at hmem

theorem Inserted.mem {i : ι} {p : Pending} (h : Inserted es i p) :
    ⟨i, ⟨.insert p.deleted p.version.provider p.version.migratedFrom, .ok p.version.number⟩⟩ ∈
      es :=
  mem_own.mp (List.mem_filter.mp (List.mem_of_getLast? h)).1

/-- What holds at every moment of a run. -/
structure Settled (call : ι → BindingCall) (bound : Option Version) (es : History ι)
    (rows : Rows) : Prop where
  ordered : rows.Ordered
  held : Held es rows
  stands : Stands call bound es rows.committed

/-- A commit leaves the row of its call, and no other. -/
theorem Settled.exec_commit {i : ι} {p : Pending} (h : Settled call bound es rows)
    (hp : Inserted es i p) : ((Statement.commit p.version.number).exec rows).2 =
      { rows with committed := [p.version], pending := none } := by
  have hpending := h.held.pending i p hp
  simp only [Statement.exec, hpending, if_true,
    Pending.apply_free (h.ordered.pending p hpending).1]

theorem Settled.commit_beyond {i : ι} {p : Pending} (h : Settled call bound es rows)
    (hp : Inserted es i p) :
    ((Statement.commit p.version.number).exec rows).2.Beyond p.version.number := by
  rw [h.exec_commit hp]
  refine ⟨by simp, fun v hv => ?_, fun q hq => (nomatch hq), ?_⟩
  · rw [List.mem_singleton.mp hv]
  · exact (h.ordered.pending p (h.held.pending i p hp)).2.2.le

theorem settled_step {e : Event Statement.Ans Exc ι} (h : Settled call bound es rows)
    (hans : e.step.2 = (e.step.1.exec rows).1) (hadmits : e.step.1.Admits rows)
    (hcommit : ∀ n, e.step.1 = .commit n → ∃ p, Inserted es e.who p ∧ p.version.number = n ∧
      p.version.provider = (call e.who).provider ∧
        ((call e.who).isRebind = false → p.deleted = [])) :
    Settled call bound (es ++ [e]) (e.step.1.exec rows).2 := by
  refine ⟨ordered_exec _ h.ordered, held_step h.held hans hadmits fun n hn => ?_, ?_⟩
  · obtain ⟨p, hp, hnumber, -⟩ := hcommit n hn
    exact ⟨p, hp, hnumber⟩
  · cases he : commits e.step with
    | false =>
      rw [committed_exec he]
      exact h.stands.quiet he
    | true =>
      obtain ⟨n, hn⟩ : ∃ n, e.step.1 = .commit n := by
        obtain ⟨j, op, r⟩ := e
        cases op with
        | commit n => exact ⟨n, rfl⟩
        | select | liveCount | delete | insert => cases he
      obtain ⟨p, hp, rfl, hprovider, hdeleted⟩ := hcommit n hn
      rw [hn, h.exec_commit hp]
      refine h.stands.commit he ⟨hprovider, p.deleted, List.mem_append_left _ hp.mem⟩ ?_
      -- a bind has deleted nothing, and yet nothing stood in its way
      intro hbind
      have hfree := (h.ordered.pending p (h.held.pending _ p hp)).1
      rw [hdeleted hbind] at hfree
      exact List.eq_nil_iff_forall_not_mem.mpr fun v hv => by
        simpa using List.all_eq_true.mp hfree v hv

/-- The rows before any of the calls. -/
def Rows.standing (bound : Option Version) (live : String → Nat) : Rows where
  committed := bound.toList
  inserted := (bound.map fun v => v.number + 1).getD 0
  live := live

theorem settled_start {live : String → Nat} :
    Settled call bound [] (Rows.standing bound live) := by
  refine ⟨⟨?_, fun p hp => nomatch hp⟩, ⟨fun i p hp => absurd hp inserted_nil,
    fun i j p q hp _ => absurd hp inserted_nil⟩, ?_⟩
  · rintro v hv
    obtain rfl : bound = some v := by simpa [Rows.standing] using hv
    exact Nat.lt_succ_self _
  · cases bound with
    | none => exact rfl
    | some v => exact ⟨v, rfl, rfl⟩

/-- A run of the calls to the end of each, in which each insertion has waited for its turn. -/
structure Run (call : ι → BindingCall) (bound : Option Version) (live : String → Nat)
    (es : History ι) (pool : ι → BindProg BindingReply) (rows : Rows) : Prop where
  exec : Exec Statement.exec (fun i => (call i).prog) (.standing bound live) es pool rows
  waits : Admitted Statement.exec Statement.Admits es (.standing bound live)
  ended : ∀ i, (pool i).Ended

omit [DecidableEq ι] in
theorem committed_replay (hes : Faithful Statement.exec es rows)
    (hquiet : ∀ e ∈ es, commits e.step = false) :
    (replay Statement.exec es rows).committed = rows.committed :=
  replay_frame hes fun e he _ _ => committed_exec (hquiet e he)

section

variable {live : String → Nat} {pool : ι → BindProg BindingReply} {es₁ es₂ es₃ : History ι}

/-- Each call has made the statements of a call that ends as it did. -/
theorem Run.wrote (h : Run call bound live es pool rows) {i : ι} {out : Except Exc BindingReply}
    (hends : (pool i).Ends [] out) : Wrote (call i) ((own i es).filter writes) out := by
  have hwhole := h.exec.ends hends
  rw [List.append_nil] at hwhole
  refine prog_wrote (call i) _ _ hwhole fun st hst => ?_
  exact h.exec.faithful.answer (mem_own.mp hst)

/-- A call that commits has inserted its row and done nothing since. -/
theorem Run.inserted (h : Run call bound live es pool rows) {i : ι} {n : Nat}
    {r : Except Exc Unit} (hes : es = es₁ ++ ⟨i, ⟨.commit n, r⟩⟩ :: es₂) :
    ∃ p, Inserted es₁ i p ∧ p.version.number = n ∧ p.version.provider = (call i).provider ∧
      ((call i).isRebind = false → p.deleted = []) := by
  obtain ⟨out, hends⟩ := (h.ended i).ends
  have hwrote := h.wrote hends
  rw [hes, own_append, List.filter_append, own_cons_self, List.filter_cons_of_pos rfl] at hwrote
  obtain ⟨p, hnumber, hprovider, hdeleted, hlast⟩ := hwrote.of_commit
  exact ⟨p, hlast, hnumber, hprovider, hdeleted⟩

theorem Run.settled (h : Run call bound live es pool rows) (hes : es = es₁ ++ es₂) :
    Settled call bound es₁ (replay Statement.exec es₁ (.standing bound live)) := by
  refine replay_prefixes settled_start (fun es₁ e es₂ hes hsettled => ?_) es₁ es₂ hes
  have hfaithful := h.exec.faithful
  have hwaits := h.waits
  rw [hes, faithful_append] at hfaithful
  rw [hes, admitted_append] at hwaits
  refine settled_step hsettled hfaithful.2.1 hwaits.2.1 fun n hn => ?_
  obtain ⟨j, op, r⟩ := e
  obtain rfl := hn
  exact h.inserted hes

/-- The row of a commit was inserted after all that stood before it. -/
theorem Run.not_free {before after : History ι} {c : Event Statement.Ans Exc ι}
    (h : Run call bound live es pool rows) (hes : es = (es₁ ++ before) ++ c :: (after ++ es₃))
    (hbefore : ∀ e ∈ before, commits e.step = false) (hc : commits c.step = true) :
    (replay Statement.exec ((es₁ ++ before) ++ c :: after) (.standing bound live)).free
      (replay Statement.exec es₁ (.standing bound live)).numbers = false := by
  obtain ⟨j, op, r⟩ := c
  cases op with
  | select | liveCount | delete | insert => cases hc
  | commit n =>
    obtain ⟨p, hp, rfl, -⟩ := h.inserted hes
    have hsettled := h.settled hes
    have hfaithful := h.exec.faithful
    rw [hes] at hfaithful
    simp only [faithful_append, Faithful] at hfaithful
    obtain ⟨⟨-, hfaithful⟩, -, hafter, -⟩ := hfaithful
    have hstood := committed_replay hfaithful hbefore
    rw [← replay_append] at hstood
    have hearlier : ∀ m ∈ (replay Statement.exec es₁ (.standing bound live)).numbers,
        m < p.version.number := by
      intro m hm
      obtain ⟨v, hv, rfl⟩ := List.mem_map.mp hm
      exact (hsettled.ordered.pending p (hsettled.held.pending j p hp)).2.1 v (hstood ▸ hv)
    have hbeyond : (replay Statement.exec after _).Beyond p.version.number :=
      replay_invariant hafter (fun e _ t _ ht => beyond_exec e.step.1 ht)
        (hsettled.commit_beyond hp)
    rw [replay_append, replay_cons]
    exact hbeyond.not_free hearlier

/-- What a transaction found when it deleted is what stands when it inserts, unless
    another has committed in between. -/
theorem Run.free_iff (h : Run call bound live es pool rows) (hes : es = es₁ ++ (es₂ ++ es₃)) :
    (replay Statement.exec (es₁ ++ es₂) (.standing bound live)).free
        (replay Statement.exec es₁ (.standing bound live)).numbers = true ↔
      ∀ e ∈ es₂, commits e.step = false := by
  constructor
  · intro hfree
    by_contra hcommit
    -- the first commit is enough to look at
    obtain ⟨c, rest, hfilter⟩ : ∃ c rest, es₂.filter (fun e => commits e.step) = c :: rest := by
      cases hfilter : es₂.filter (fun e => commits e.step) with
      | nil => exact absurd (by simpa using hfilter) hcommit
      | cons c rest => exact ⟨c, rest, rfl⟩
    obtain ⟨before, after, rfl, hbefore, hc, -⟩ := List.filter_eq_cons_iff.mp hfilter
    have hsplit : es = (es₁ ++ before) ++ c :: (after ++ es₃) := by simp [hes]
    rw [← List.append_assoc, h.not_free hsplit (by simpa using hbefore) hc] at hfree
    cases hfree
  · intro hquiet
    have hfaithful := h.exec.faithful
    rw [hes, faithful_append, faithful_append] at hfaithful
    rw [replay_append, Rows.free, committed_replay hfaithful.2.1 hquiet]
    exact free_numbers

/-! ## The commits that matter -/

def deletes : BindStep → Bool
  | ⟨.delete, _⟩ => true
  | _ => false

def inserts : BindStep → Bool
  | ⟨.insert .., _⟩ => true
  | _ => false

/-- What happened between the deletion of call `i` and its insertion. -/
def meanwhile (i : ι) (es : History ι) : History ι :=
  between (fun e => e.who = i && deletes e.step) (fun e => e.who = i && inserts e.step) es

theorem deletes_writes {st : BindStep} (h : deletes st = true) : writes st = true := by
  obtain ⟨op, r⟩ := st
  cases op with
  | delete => rfl
  | select | liveCount | insert | commit => cases h

theorem inserts_writes {st : BindStep} (h : inserts st = true) : writes st = true := by
  obtain ⟨op, r⟩ := st
  cases op with
  | insert => rfl
  | select | liveCount | delete | commit => cases h

/-- The insertion of a rebind goes through exactly if nothing has committed since its
    deletion. -/
theorem Run.insertion_iff (h : Run call bound live es pool rows) {i : ι} {deleted : List Nat}
    {provider : String} {previous : Option String} {r : Except Exc Nat} {rest : List BindStep}
    (hsteps : (own i es).filter writes =
      ⟨.delete, .ok deleted⟩ :: ⟨.insert deleted provider previous, r⟩ :: rest) :
    (∃ n, r = .ok n) ↔ ∀ e ∈ meanwhile i es, commits e.step = false := by
  have hdelete : (own i es).filter writes = [] ++ ⟨.delete, .ok deleted⟩ ::
      ⟨.insert deleted provider previous, r⟩ :: rest := hsteps
  obtain ⟨es₁, later, rfl, hfirst, hlater⟩ := own_split hdelete
  have hinsert : (own i later).filter writes =
      [] ++ ⟨.insert deleted provider previous, r⟩ :: rest := hlater
  obtain ⟨es₂, es₃, rfl, hsecond, -⟩ := own_split hinsert
  have hmeanwhile : meanwhile i (es₁ ++ ⟨i, ⟨.delete, .ok deleted⟩⟩ ::
      (es₂ ++ ⟨i, ⟨.insert deleted provider previous, r⟩⟩ :: es₃)) = es₂ :=
    between_split (quiet_of_own (fun _ => deletes_writes) hfirst (by simp)) (by simp [deletes])
      (quiet_of_own (fun _ => inserts_writes) hsecond (by simp)) (by simp [inserts])
  have hfree := h.free_iff (List.append_cons es₁ ⟨i, ⟨.delete, .ok deleted⟩⟩ _)
  rw [replay_append, replay_append] at hfree
  have hfaithful := h.exec.faithful
  simp only [faithful_append, Faithful] at hfaithful
  obtain ⟨-, hdeleted, -, hr, -⟩ := hfaithful
  obtain rfl := Except.ok.inj hdeleted
  rw [hmeanwhile, ← hfree, hr, insert_answers]
  show (∃ n, ite _ _ _ = Except.ok n) ↔ (replay Statement.exec es₂ _).free _ = true
  split
  · rename_i hfree
    exact ⟨fun _ => hfree, fun _ => ⟨_, rfl⟩⟩
  · rename_i hfree
    refine ⟨?_, fun h => absurd h hfree⟩
    rintro ⟨n, hn⟩
    cases hn

theorem Run.refused_iff (h : Run call bound live es pool rows) {i : ι}
    {out : Except Exc BindingReply} (hends : (pool i).Ends [] out) :
    (∃ text, out = .error (.integrity text)) ↔ ∃ e ∈ meanwhile i es, commits e.step = true := by
  have hwrote := h.wrote hends
  generalize hsteps : (own i es).filter writes = steps at hwrote
  generalize call i = c at hwrote
  cases hwrote with
  | bound | kept =>
    -- a bind deletes nothing
    have hnone : meanwhile i es = [] :=
      between_nil (quiet_of_own (fun _ => deletes_writes) hsteps (by simp [deletes]))
    simp [hnone]
  | rebound =>
    have hquiet := (h.insertion_iff hsteps).mp ⟨_, rfl⟩
    refine ⟨fun ⟨text, hout⟩ => (nomatch hout), fun ⟨e, he, hcommit⟩ => ?_⟩
    exact Bool.noConfusion ((hquiet e he).symm.trans hcommit)
  | refused =>
    refine ⟨fun _ => ?_, fun _ => ⟨_, rfl⟩⟩
    by_contra hnone
    have hquiet : ∀ e ∈ meanwhile i es, commits e.step = false := fun e he =>
      Bool.eq_false_iff.mpr fun hcommit => hnone ⟨e, he, hcommit⟩
    obtain ⟨n, hn⟩ := (h.insertion_iff hsteps).mpr hquiet
    cases hn

/-- If nothing stood and nothing commits, then nothing is in the way of an insertion. -/
theorem Run.commits_or_stood [Nonempty ι] (h : Run call bound live es pool rows) :
    bound ≠ none ∨ ∃ e ∈ es, commits e.step = true := by
  obtain ⟨i⟩ := ‹Nonempty ι›
  obtain ⟨out, hends⟩ := (h.ended i).ends
  have hwrote := h.wrote hends
  generalize hsteps : (own i es).filter writes = steps at hwrote
  have hevent : ∀ st ∈ steps, ⟨i, st⟩ ∈ es := fun st hst =>
    mem_own.mp (List.mem_filter.mp (hsteps ▸ hst)).1
  have hfailed : ∀ {deleted provider previous text},
      (⟨.insert deleted provider previous, .error (.integrity text)⟩ : BindStep) ∈ steps →
        bound ≠ none ∨ ∃ e ∈ es, commits e.step = true := by
    intro deleted provider previous text hst
    by_contra hneither
    obtain ⟨rfl, hquiet⟩ : bound = none ∧ ∀ e ∈ es, commits e.step = false := by
      simpa using hneither
    obtain ⟨es₁, es₂, rfl⟩ := List.append_of_mem (hevent _ hst)
    have hfaithful := h.exec.faithful
    simp only [faithful_append, Faithful] at hfaithful
    obtain ⟨hbefore, hans, -⟩ := hfaithful
    have hcommitted : (replay Statement.exec es₁ (.standing none live)).committed = [] :=
      committed_replay hbefore fun e he => hquiet e (List.mem_append_left _ he)
    rw [insert_answers, Rows.free, hcommitted] at hans
    cases hans
  generalize call i = c at hwrote
  cases hwrote with
  | bound => exact .inr ⟨_, hevent _ (.tail _ (.head _)), rfl⟩
  | rebound => exact .inr ⟨_, hevent _ (.tail _ (.tail _ (.head _))), rfl⟩
  | kept => exact hfailed (.head _)
  | refused => exact hfailed (.tail _ (.head _))

/-- However the calls overlap, one row is left, and it is that of the right call. -/
theorem Run.one_row [Nonempty ι] (h : Run call bound live es pool rows) :
    ∃ row o, rows.committed = [row] ∧ origin call bound es = some o ∧
      ComesFrom call es row o := by
  have hstands := (h.settled (List.append_nil es).symm).stands
  rw [← h.exec.replay] at hstands
  unfold Stands at hstands
  split at hstands
  · rename_i hnone
    obtain ⟨hbound, horder⟩ := origin_none hnone
    obtain ⟨e, he, hcommit⟩ := h.commits_or_stood.resolve_left fun hne => hne hbound
    have hmem : e ∈ es.filter fun e => commits e.step := List.mem_filter.mpr ⟨he, hcommit⟩
    rw [List.map_eq_nil_iff.mp horder] at hmem
    cases hmem
  · rename_i o ho
    obtain ⟨row, hrow, hfrom⟩ := hstands
    exact ⟨row, o, hrow, ho, hfrom⟩

/-- Calls that bind and rebind one subject, however their statements interleave, all end
    without an integrity error and leave the one row of the rebind that committed last,
    exactly if nothing commits between the deletion of a rebind and its insertion. -/
theorem binding_races_iff [Nonempty ι] (call : ι → BindingCall) (bound : Option Version)
    (live : String → Nat) (es : History ι) (pool : ι → BindProg BindingReply) (rows : Rows)
    (hrun : Run call bound live es pool rows) :
    ((∀ i text, pool i ≠ .raise (.integrity text)) ∧
        ∃ row o, rows.committed = [row] ∧ origin call bound es = some o ∧
          ComesFrom call es row o) ↔
      ∀ i, ∀ e ∈ meanwhile i es, commits e.step = false := by
  constructor
  · rintro ⟨hnone, -⟩ i e he
    obtain ⟨out, hends⟩ := (hrun.ended i).ends
    by_contra hcommit
    obtain ⟨text, rfl⟩ := (hrun.refused_iff hends).mpr ⟨e, he, by simpa using hcommit⟩
    exact hnone i text hends.eq_raise
  · intro hquiet
    refine ⟨fun i text hraise => ?_, hrun.one_row⟩
    have hends : (pool i).Ends [] (.error (.integrity text)) := by rw [hraise]; exact .raise
    obtain ⟨e, he, hcommit⟩ := (hrun.refused_iff hends).mp ⟨text, rfl⟩
    exact Bool.noConfusion ((hquiet i e he).symm.trans hcommit)

end

/-! ## Two changes -/

inductive TwoChanges where
  | first
  | second
  deriving DecidableEq

instance : Nonempty TwoChanges := ⟨.first⟩

def bindThenRebind : TwoChanges → BindingCall
  | .first => .bind "mem0"
  | .second => .rebind "zep"

def inTurn : History TwoChanges × (TwoChanges → BindProg BindingReply) × Rows :=
  play Statement.exec (.replicate 2 .first ++ .replicate 5 .second)
    (fun i => (bindThenRebind i).prog) (.standing none fun _ => 0)

theorem bind_then_rebind : (∀ i text, inTurn.2.1 i ≠ .raise (.integrity text)) ∧
    ∃ row o, inTurn.2.2.committed = [row] ∧ origin bindThenRebind none inTurn.1 = some o ∧
      ComesFrom bindThenRebind inTurn.1 row o := by
  refine (binding_races_iff bindThenRebind none (fun _ => 0) _ _ _
    ⟨play_exec _ _ _, ?_, fun i => ?_⟩).mpr fun i e he => ?_
  · exact ⟨rfl, trivial, trivial, trivial, trivial, rfl, trivial, trivial⟩
  · cases i <;> trivial
  · cases i <;> cases he

def rebindTwice : TwoChanges → BindingCall
  | .first => .rebind "mem0"
  | .second => .rebind "zep"

/-- Both find no row to delete, and the second inserts when the first has committed. -/
theorem second_rebind_raises : ∃ es pool rows,
    Run rebindTwice none (fun _ => 0) es pool rows ∧
      pool .second = .raise (.integrity "UNIQUE constraint failed: scope_binding") := by
  refine ⟨_, _, _, ⟨play_exec [.first, .second, .first, .second, .first, .first, .second] _ _,
    ?_, fun i => ?_⟩, rfl⟩
  · exact ⟨trivial, trivial, trivial, trivial, rfl, trivial, rfl, trivial⟩
  · cases i <;> trivial

end Memgw.Bindings
