-- SUMMARY: Gateway ids are stable and agreed on: every id that concurrent calls hand out is the one that is stored.
import Memgw.Gateway.Statements

/-!
# Gateway ids

A call answers partly from lookups and partly from the rows that it made for its own
insertion. Either way the index had the row at that moment, and no statement of any
call takes a row away or touches one of its keys. So whatever the others do between
its statements, a call hands out the ids that are stored.
-/

namespace Memgw.Statements

variable {env : Env} {c c' : Catalog} {tenant provider : String}

/-! ## What a lookup knows -/

/-- Every row of the dictionary is stored, under the native id it is filed by. -/
def Shown (tenant provider : String) (known : Known) (c : Catalog) : Prop :=
  ∀ n row, known n = some (.live row) →
    Stored row c ∧ row.tenantId = tenant ∧ row.provider = provider ∧ row.nativeId = n

theorem Shown.keeps {known : Known} (h : Shown tenant provider known c) (hk : Keeps c c') :
    Shown tenant provider known c' := by
  intro n row hrow
  obtain ⟨hstored, hids⟩ := h n row hrow
  exact ⟨hk row hstored, hids⟩

theorem shown_none : Shown tenant provider (fun _ => none) c := by
  intro n row hrow
  cases hrow

theorem Shown.update {known fresh : Known} (h : Shown tenant provider known c)
    (hfresh : Shown tenant provider fresh c) : Shown tenant provider (known.update fresh) c := by
  intro n row hrow
  rcases Option.or_eq_some_iff.mp hrow with hrow | ⟨-, hrow⟩
  · exact hfresh n row hrow
  · exact h n row hrow

theorem Shown.record {known : Known} {rows : List IndexRow} (h : Shown tenant provider known c)
    (hrows : ∀ r ∈ rows, r ∈ c.memoryIndex ∧ r.tenantId = tenant ∧ r.provider = provider) :
    Shown tenant provider (known.record rows) c := by
  induction rows generalizing known with
  | nil => exact h
  | cons r rows ih =>
    obtain ⟨hr, hrest⟩ := List.forall_mem_cons.mp hrows
    have hset : Shown tenant provider (known.set r.nativeId r.sighting) c := ?_
    · exact ih hset hrest
    intro n row hrow
    rw [Known.set_apply] at hrow
    split at hrow
    · rename_i hn
      have hlive : r.toRow = row := by
        unfold IndexRow.sighting at hrow
        split at hrow
        · cases hrow
        · simpa using hrow
      obtain rfl := hlive
      exact ⟨stored_toRow hr.1, hr.2.1, hr.2.2, hn.symm⟩
    · exact h n row hrow

theorem Shown.mem_rows {known : Known} {natives : List String} {row : CatalogRow}
    (h : Shown tenant provider known c) (hrow : row ∈ known.rows natives) :
    Stored row c ∧ row.tenantId = tenant ∧ row.provider = provider ∧ row.nativeId ∈ natives := by
  obtain ⟨n, hn, hknown⟩ := List.mem_filterMap.mp hrow
  split at hknown
  · rename_i row' hlive
    obtain rfl := Option.some.inj hknown
    obtain ⟨hstored, ht, hp, rfl⟩ := h n _ hlive
    exact ⟨hstored, ht, hp, hn⟩
  · cases hknown

/-! ## What a call answers -/

/-- Whatever others do meanwhile, a value that the program returns satisfies `Q`. -/
def Yields {α : Type} (env : Env) (p : IndexProg α) (Q : α → Catalog → Prop) (c : Catalog) :
    Prop :=
  p.Under (Statement.exec env) Keeps Keeps (fun r c' => ∀ a, r = .ok a → Q a c') c

section

variable {α β : Type}

theorem yields_ret {a : α} {Q : α → Catalog → Prop} (h : Q a c) : Yields env (.ret a) Q c := by
  rintro _ ⟨⟩
  exact h

theorem yields_raise {e : Exc} {Q : α → Catalog → Prop} : Yields env (.raise e) Q c := by
  rintro _ ⟨⟩

theorem yields_execute {st : Statement} {Q : st.Ans → Catalog → Prop}
    (h : ∀ c', Keeps c c' → ∀ a, (st.exec env c').1 = .ok a → Q a (st.exec env c').2) :
    Yields env (execute st) Q c :=
  under_execute.mpr fun c' hk => ⟨keeps_exec st, h c' hk⟩

theorem yields_bind {p : IndexProg α} {f : α → IndexProg β} {P : α → Catalog → Prop}
    {Q : β → Catalog → Prop} (hp : Yields env p P c)
    (hf : ∀ a c', P a c' → Yields env (f a) Q c') : Yields env (p.bind f) Q c := by
  refine Prog.under_bind_of hp (fun a c' hP => hf a c' (hP a rfl)) ?_
  rintro e c' - _ ⟨⟩

/-- No program does more to the rows than keep them. -/
theorem yields_any {p : IndexProg α} : Yields env p (fun _ c' => Keeps c c') c := by
  have hkeeps : ∀ c₁, Keeps c c₁ → Yields env p (fun _ c' => Keeps c c') c₁ := by
    induction p with
    | ret a => exact fun c₁ hk => yields_ret hk
    | raise e => exact fun c₁ hk => yields_raise
    | act op k ih =>
      intro c₁ hk c₂ hk₂
      exact ⟨keeps_exec op, ih _ _ ((hk.trans hk₂).trans (keeps_exec op))⟩
  exact hkeeps c (.refl c)

theorem Yields.keeps {p : IndexProg α} {Q : α → Catalog → Prop} (hp : Yields env p Q c) :
    Yields env p (fun a c' => Keeps c c' ∧ Q a c') c :=
  (yields_any.and hp).mono fun _ _ h a hr => ⟨h.1 a hr, h.2 a hr⟩

theorem yields_tryCatch {p : IndexProg α} {f : Exc → IndexProg α} {Q : α → Catalog → Prop}
    (hp : Yields env p Q c) (hf : ∀ e c', Yields env (f e) Q c') :
    Yields env (p.tryCatch f) Q c := by
  refine Prog.under_tryCatch.mpr (hp.mono fun r c' hr => ?_)
  cases r with
  | ok a => exact hr
  | error e => exact hf e c'

end

theorem findByNative_yields {cs : List (List String)} {found : Known}
    (h : Shown tenant provider found c) :
    Yields env (findByNative tenant provider cs found) (Shown tenant provider) c := by
  induction cs generalizing found c with
  | nil => exact yields_ret h
  | cons chunk cs ih =>
    refine yields_bind (yields_execute fun c' hk rows hrows => ?_) fun rows c' h => ih h
    obtain rfl := Except.ok.inj hrows
    refine (h.keeps hk).record fun r hr => ?_
    obtain ⟨hmem, hp⟩ := Table.mem_select.mp hr
    obtain ⟨⟨ht, hp⟩, -⟩ : (r.tenantId = tenant ∧ r.provider = provider) ∧ r.nativeId ∈ chunk := by
      simpa using hp
    exact ⟨hmem, ht, hp⟩

theorem insertMissing_yields {missing : List (String × String)} {scope : Scope} {known : Known}
    (h : Shown tenant provider known c) :
    Yields env (insertMissing tenant provider missing scope known) (Shown tenant provider) c := by
  unfold insertMissing
  split
  · exact yields_ret h
  · have hinsert : Yields env (execute (.insert tenant provider missing scope))
        (Shown tenant provider) c := by
      refine yields_execute fun c' _ fresh hfresh => ?_
      obtain ⟨hins, -, -, -, rfl⟩ := insertMissing_ok (Prod.ext hfresh rfl)
      refine shown_none.record fun r hr => ?_
      obtain ⟨ht, hp, -⟩ := mem_freshRows hr
      exact ⟨(Table.mem_insert hins).mpr (.inr hr), ht, hp⟩
    refine yields_bind hinsert.keeps fun fresh c' hfresh => yields_ret ?_
    exact (h.keeps hfresh.1).update hfresh.2

theorem reviveDoomed_yields {items : List (String × String)} {scope : Scope} {known : Known}
    (h : Shown tenant provider known c) :
    Yields env (reviveDoomed tenant provider items scope known) (Shown tenant provider) c := by
  unfold reviveDoomed
  dsimp only
  split
  · exact yields_ret h
  · refine yields_bind yields_any fun now c₁ hk₁ => yields_bind yields_any fun _ c₂ hk₂ => ?_
    refine yields_bind (findByNative_yields shown_none).keeps fun found c₃ hfound => yields_ret ?_
    exact (h.keeps ((hk₁.trans hk₂).trans hfound.1)).update hfound.2

theorem takeBack_yields {q : Page} {known : Known} (h : Shown q.tenant q.provider known c) :
    Yields env (q.takeBack known) (Shown q.tenant q.provider) c := by
  unfold Page.takeBack
  split
  · exact reviveDoomed_yields h
  · exact yields_ret h

/-- Each row that a page is answered with is stored, and is for one of its ids. -/
theorem Page.map_yields (q : Page) : Yields env q.map (fun rows c' => ∀ row ∈ rows,
    Stored row c' ∧ row.tenantId = q.tenant ∧ row.provider = q.provider ∧
      row.nativeId ∈ q.natives) c := by
  have hattempt : ∀ c, Yields env q.attempt (fun rows c' => ∀ row ∈ rows,
      Stored row c' ∧ row.tenantId = q.tenant ∧ row.provider = q.provider ∧
        row.nativeId ∈ q.natives) c := by
    intro c
    refine yields_bind (findByNative_yields shown_none) fun known c₁ hknown => ?_
    refine yields_bind (insertMissing_yields hknown) fun known c₂ hknown => ?_
    refine yields_bind (takeBack_yields hknown) fun known c₃ hknown => yields_ret ?_
    intro row hrow
    exact hknown.mem_rows hrow
  have hattempts : ∀ n c, Yields env (q.attempts n) (fun rows c' => ∀ row ∈ rows,
      Stored row c' ∧ row.tenantId = q.tenant ∧ row.provider = q.provider ∧
        row.nativeId ∈ q.natives) c := by
    intro n
    induction n with
    | zero => exact fun c => yields_raise
    | succ n ih =>
      intro c
      refine yields_tryCatch (hattempt c) fun e c' => ?_
      unfold retry
      split
      · split
        · exact yields_raise
        · exact ih c'
      · exact yields_raise
  unfold Page.map
  split
  · exact yields_ret (by simp)
  · exact hattempts retries c

/-- The rows that a call was answered with. -/
def IndexReply.rows : IndexReply → List CatalogRow
  | .mapped rows => rows
  | .marked _ | .erased _ => []

/-- A row for one of the native ids of the call. -/
def IndexCall.AsksFor : IndexCall → CatalogRow → Prop
  | .recordMany tenant provider items _, row | .ensureMany tenant provider items _, row =>
    row.tenantId = tenant ∧ row.provider = provider ∧ row.nativeId ∈ items.map Prod.fst
  | .markDeleted .., _ | .markScopeDeleted .., _ => False

theorem IndexCall.yields (call : IndexCall) :
    Yields env call.prog
      (fun reply c' => ∀ row ∈ reply.rows, Stored row c' ∧ call.AsksFor row) c := by
  cases call with
  | recordMany | ensureMany =>
    exact yields_bind (Page.map_yields _) fun rows c' hrows => yields_ret hrows
  | markDeleted | markScopeDeleted =>
    exact yields_bind yields_any fun _ c' _ => yields_ret fun row hrow => nomatch hrow

/-! ## All calls -/

section

variable {ι : Type} [DecidableEq ι] {calls : ι → IndexCall}
  {es : List (Event Statement.Ans Exc ι)} {pool' : ι → IndexProg IndexReply}

theorem exec_keeps (hx : Exec (Statement.exec env) (fun i => (calls i).prog) c es pool' c')
    {es₁ es₂ : List (Event Statement.Ans Exc ι)} (hes : es = es₁ ++ es₂) :
    Keeps (replay (Statement.exec env) es₁ c) c' := by
  intro row hrow
  have hfaithful := hx.faithful
  rw [hes, faithful_append] at hfaithful
  rw [hx.replay, hes, replay_append]
  exact replay_invariant (I := Stored row) hfaithful.2
    (fun e _ t _ hstored => keeps_exec e.step.1 row hstored) hrow

theorem exec_stored (hx : Exec (Statement.exec env) (fun i => (calls i).prog) c es pool' c')
    {i : ι} {reply : IndexReply} (hret : pool' i = .ret reply) {row : CatalogRow}
    (hrow : row ∈ reply.rows) : Stored row c' ∧ (calls i).AsksFor row := by
  have hends : (pool' i).Ends [] (.ok reply) := by rw [hret]; exact .ret
  refine hx.under_ended (R := fun _ => Keeps) (G := fun _ => Keeps) (fun _ => Keeps.refl)
    (fun _ _ _ _ => Keeps.trans) (fun _ _ _ _ _ h => h) (fun i => (calls i).yields) ?_ hends
    reply rfl row hrow
  intro out t u hout hk reply hreply row hrow
  obtain ⟨hstored, hasks⟩ := hout reply hreply row hrow
  exact ⟨hk row hstored, hasks⟩

/-- However the statements of any number of calls interleave: at every moment a native
    id of a tenant at a provider has at most one row; a row that was there at some
    moment is there later, under the same ids; each row that a call has returned is
    for an id that it asked for, and stored; and two returned rows have one gateway
    id exactly if they are for one memory. -/
theorem gatewayIds_agreed
    (hx : Exec (Statement.exec env) (fun i => (calls i).prog) c es pool' c') :
    (∀ es₁ es₂, es = es₁ ++ es₂ → ∀ r ∈ (replay (Statement.exec env) es₁ c).memoryIndex,
      (∀ r₂ ∈ (replay (Statement.exec env) es₁ c).memoryIndex, r₂.tenantId = r.tenantId →
        r₂.provider = r.provider → r₂.nativeId = r.nativeId → r₂ = r) ∧
      ∃ r' ∈ c'.memoryIndex, r'.gatewayId = r.gatewayId ∧ r'.tenantId = r.tenantId ∧
        r'.provider = r.provider ∧ r'.nativeId = r.nativeId) ∧
    (∀ i reply, pool' i = .ret reply → ∀ row ∈ reply.rows, (calls i).AsksFor row ∧
      ∃ r ∈ c'.memoryIndex, r.gatewayId = row.gatewayId ∧ r.tenantId = row.tenantId ∧
        r.provider = row.provider ∧ r.nativeId = row.nativeId) ∧
    ∀ i j reply reply', pool' i = .ret reply → pool' j = .ret reply' →
      ∀ row ∈ reply.rows, ∀ row' ∈ reply'.rows,
        (row.gatewayId = row'.gatewayId ↔ row.tenantId = row'.tenantId ∧
          row.provider = row'.provider ∧ row.nativeId = row'.nativeId) := by
  refine ⟨fun es₁ es₂ hes r hr => ⟨fun r₂ hr₂ ht hp hn => eq_of_nativeKey hr₂ hr ht hp hn, ?_⟩,
    fun i reply hret row hrow => ?_, fun i j reply reply' hret hret' row hrow row' hrow' => ?_⟩
  · exact exec_keeps hx hes r.toRow (stored_toRow hr)
  · obtain ⟨hstored, hasks⟩ := exec_stored hx hret hrow
    exact ⟨hasks, hstored⟩
  · obtain ⟨⟨r, hr, hg, ht, hp, hn⟩, -⟩ := exec_stored hx hret hrow
    obtain ⟨⟨r', hr', hg', ht', hp', hn'⟩, -⟩ := exec_stored hx hret' hrow'
    rw [← hg, ← ht, ← hp, ← hn, ← hg', ← ht', ← hp', ← hn']
    constructor
    · intro hid
      obtain rfl := eq_of_gatewayId hr hr' hid
      exact ⟨rfl, rfl, rfl⟩
    · rintro ⟨ht, hp, hn⟩
      rw [eq_of_nativeKey hr hr' ht hp hn]

end

/-- Two writes of one memory, and an erasure of the subject. -/
def raceCalls : Fin 3 → IndexCall
  | 0 => .recordMany "t" "p" [("n", "likes tea")] { subject := ⟨"u", u_mustBeReal⟩ }
  | 1 => .recordMany "t" "p" [("n", "likes tea")] { subject := ⟨"u", u_mustBeReal⟩ }
  | 2 => .markScopeDeleted "t" { subject := ⟨"u", u_mustBeReal⟩ } "p"

/-- The second write loses the race, the erasure comes in between, and both writes are
    answered with the id that is stored. -/
theorem race_agreed : ∃ es pool' c', Exec (Statement.exec .counting)
    (fun i => (raceCalls i).prog) {} es pool' c' ∧
      ∃ a b, pool' 0 = .ret (.mapped [a]) ∧ pool' 1 = .ret (.mapped [b]) ∧
        a.gatewayId = b.gatewayId ∧ ∃ r ∈ c'.memoryIndex, r.gatewayId = b.gatewayId := by
  have hx := play_exec (h := Statement.exec .counting) [0, 1, 0, 1, 2, 1, 1, 1, 1]
    (fun i => (raceCalls i).prog) {}
  obtain ⟨-, hstored, hagreed⟩ := gatewayIds_agreed hx
  refine ⟨_, _, _, hx, _, _, rfl, rfl, ?_, ?_⟩
  · exact (hagreed 0 1 _ _ rfl rfl _ (List.mem_singleton_self _) _
      (List.mem_singleton_self _)).mpr ⟨rfl, rfl, rfl⟩
  · obtain ⟨-, r, hr, hid, -⟩ := hstored 1 _ rfl _ (List.mem_singleton_self _)
    exact ⟨r, hr, hid⟩

end Memgw.Statements
