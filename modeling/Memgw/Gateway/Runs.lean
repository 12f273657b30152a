-- SUMMARY: Sequential runs of verbs served by any gateways over one world, and invariants along them.
import Memgw.Gateway.Verbs

/-!
# Runs

A run serves requests one after the other. Each may come from a gateway of its
own: what they share is the world. The induction over a run is done once, in
`serve_invariant`, from what one verb can do.
-/

namespace Memgw

variable {σ : Type} {env : Env}

/-- A call, and the gateway that serves it. -/
abbrev Request (σ : Type) : Type := MemoryCore σ × Call

def Request.answer (env : Env) (q : Request σ) (w : World σ) : Except Exc Reply :=
  ((q.1.exec q.2).run (handle env) w).1

def Request.after (env : Env) (q : Request σ) (w : World σ) : World σ :=
  ((q.1.exec q.2).run (handle env) w).2

def serve (env : Env) (qs : List (Request σ)) (w : World σ) : World σ :=
  qs.foldl (fun w q => q.after env w) w

theorem Request.did (env : Env) (q : Request σ) (w : World σ) :
    q.1.Did env q.2 w (q.answer env w) (q.after env w) :=
  exec_did q.1 q.2

theorem serve_append {qs qs' : List (Request σ)} {w : World σ} :
    serve env (qs ++ qs') w = serve env qs' (serve env qs w) := by
  simp [serve, List.foldl_append]

/-- What every permitted request preserves, a run of them preserves. -/
theorem serve_invariant {I : World σ → Prop} {qs : List (Request σ)} {w : World σ}
    (hstep : ∀ q ∈ qs, ∀ w r w', q.1.Did env q.2 w r w' → I w → I w') (hw : I w) :
    I (serve env qs w) := by
  induction qs generalizing w with
  | nil => exact hw
  | cons q qs ih =>
    exact ih (fun q' hq' => hstep q' (List.mem_cons_of_mem q hq'))
      (hstep q (List.mem_cons_self ..) w _ _ (q.did env w) hw)

/-! ## Ids -/

/-- Verbs draw gateway ids from the supply of the catalog and from nowhere else. -/
theorem MemoryCore.Did.minted {core : MemoryCore σ} {call : Call} {w w' : World σ}
    {r : Except Exc Reply} (h : core.Did env call w r w') (hw : w.catalog.Minted env) :
    w'.catalog.Minted env := by
  cases h with
  | refused | failed | failedOpen | got => exact hw
  | unsettled _ _ hc => exact hw.still hc
  | searched _ _ hmap _ => exact hw.mapped hmap
  | listed _ _ hmap => exact hw.mapped hmap
  | updated _ _ _ hmap _ => exact hw.mapped hmap
  | upserted _ _ hmap =>
    intro r hr
    obtain ⟨k, hk, hid⟩ := hw.mapped hmap r (by simpa using hr)
    exact ⟨k, by simp; omega, hid⟩
  | ingested _ _ hmap hjournal _ =>
    intro r hr
    subst hjournal
    obtain ⟨k, hk, hid⟩ := hw.mapped hmap r (by split at hr <;> simpa using hr)
    exact ⟨k, by split <;> simp <;> omega, hid⟩
  | deleted => exact hw.bury
  | erased => exact hw.bury
  | rebound =>
    intro r hr
    obtain ⟨k, hk, hid⟩ := hw r (by simpa using hr)
    exact ⟨k, by simp; omega, hid⟩

/-- And episode ids from the supply for episodes. -/
theorem MemoryCore.Did.numbered {core : MemoryCore σ} {call : Call} {w w' : World σ}
    {r : Except Exc Reply} (h : core.Did env call w r w') (hw : w.catalog.Numbered env) :
    w'.catalog.Numbered env := by
  have hmapped : ∀ {t p : String} {items : List (String × String)} {scope : Scope} {revive : Bool}
      {rows : List CatalogRow} {c : Catalog},
      Mapped env t p items scope revive w.catalog rows c → c.Numbered env :=
    fun hmap => hw.mono (fun j hj => hmap.journal ▸ hj) hmap.ticks
  have hbound : ∀ {t s p : String} {c : Catalog}, c.Numbered env →
      (insertBinding env t s p c).2.Numbered env :=
    fun hc => hc.mono (fun j hj => by simpa using hj) (by simp)
  cases h with
  | refused | failed | failedOpen | got => exact hw
  | unsettled _ _ hc => exact hw.mono (fun j hj => hc.journal ▸ hj) hc.ticks
  | searched _ _ hmap => exact hmapped hmap
  | listed _ _ hmap => exact hmapped hmap
  | updated _ _ _ hmap => exact hmapped hmap
  | upserted _ _ hmap => exact hbound (hmapped hmap)
  | ingested _ _ hmap hjournal _ =>
    subst hjournal
    split
    · exact Catalog.Numbered.journal (hbound (hmapped hmap))
    · exact hbound (hmapped hmap)
  | deleted => exact hw.mono (fun _ hj => hj) (Nat.le_succ _)
  | erased =>
    exact hw.mono (fun j hj => (mem_deleteJournal.mp hj).1) (Nat.le_succ _)
  | rebound => exact hw.mono (fun j hj => by simpa using hj) (by simp)

/-- In every catalog that a run reaches from an empty one, the next gateway id is new. -/
theorem serve_minted {qs : List (Request σ)} {store : σ} :
    (serve env qs { catalog := {}, store := store }).catalog.Minted env :=
  serve_invariant (I := fun w => w.catalog.Minted env) (fun _ _ _ _ _ hdid hw => hdid.minted hw)
    (fun _ hr => absurd hr Table.not_mem_empty)

/-- And so is the next episode id. -/
theorem serve_numbered {qs : List (Request σ)} {store : σ} :
    (serve env qs { catalog := {}, store := store }).catalog.Numbered env :=
  serve_invariant (I := fun w => w.catalog.Numbered env)
    (fun _ _ _ _ _ hdid hw => hdid.numbered hw) (fun _ hj => absurd hj Table.not_mem_empty)

/-! ## What a verb keeps -/

/-- A row keeps its gateway id and its native id. -/
theorem MemoryCore.Did.row_persists {core : MemoryCore σ} {call : Call} {w w' : World σ}
    {r : Except Exc Reply} (h : core.Did env call w r w') {row : IndexRow}
    (hrow : row ∈ w.catalog.memoryIndex) :
    ∃ row' ∈ w'.catalog.memoryIndex, row'.gatewayId = row.gatewayId ∧
      row'.nativeId = row.nativeId := by
  have hmapped : ∀ {t p : String} {items : List (String × String)} {scope : Scope} {revive : Bool}
      {rows : List CatalogRow} {c : Catalog},
      Mapped env t p items scope revive w.catalog rows c →
      ∃ row' ∈ c.memoryIndex, row'.gatewayId = row.gatewayId ∧ row'.nativeId = row.nativeId := by
    intro t p items scope revive rows c hmap
    obtain ⟨row', hrow', hid, -, -, hn, -⟩ := hmap.survives hrow
    exact ⟨row', hrow', hid, hn⟩
  have hburied : ∀ p : IndexRow → Bool, ∃ row' ∈ (bury env p w.catalog).memoryIndex,
      row'.gatewayId = row.gatewayId ∧ row'.nativeId = row.nativeId := by
    refine fun p => ⟨_, mem_bury.mpr ⟨row, hrow, rfl⟩, ?_⟩
    split <;> exact ⟨rfl, rfl⟩
  cases h with
  | refused | failed | failedOpen | got => exact ⟨row, hrow, rfl, rfl⟩
  | unsettled _ _ hc => exact ⟨row, hc.index ▸ hrow, rfl, rfl⟩
  | searched _ _ hmap => exact hmapped hmap
  | listed _ _ hmap => exact hmapped hmap
  | updated _ _ _ hmap => exact hmapped hmap
  | upserted _ _ hmap => simpa using hmapped hmap
  | ingested _ _ hmap hjournal _ =>
    subst hjournal
    split <;> simpa using hmapped hmap
  | deleted => exact hburied _
  | erased => exact hburied _
  | rebound => exact ⟨row, by simpa using hrow, rfl, rfl⟩

theorem serve_row_persists {qs : List (Request σ)} {w : World σ} {row : IndexRow}
    (hrow : row ∈ w.catalog.memoryIndex) :
    ∃ row' ∈ (serve env qs w).catalog.memoryIndex, row'.gatewayId = row.gatewayId ∧
      row'.nativeId = row.nativeId := by
  refine serve_invariant (I := fun w => ∃ row' ∈ w.catalog.memoryIndex,
    row'.gatewayId = row.gatewayId ∧ row'.nativeId = row.nativeId) ?_ ⟨row, hrow, rfl, rfl⟩
  rintro q hq w r w' hdid ⟨row', hrow', hid, hn⟩
  obtain ⟨row'', hrow'', hid', hn'⟩ := hdid.row_persists hrow'
  exact ⟨row'', hrow'', hid'.trans hid, hn'.trans hn⟩

/-- What the calls of its adapters keep, a verb keeps. -/
theorem MemoryCore.Did.keeps_store {core : MemoryCore σ} {call : Call} {w w' : World σ}
    {r : Except Exc Reply} {I : σ → Prop} (h : core.Did env call w r w')
    (hcall : ∀ name a op s, core.adapter name = .ok a → I s → I (a.call op s).2)
    (hw : I w.store) : I w'.store := by
  have hasked : ∀ {name : String} {a : Adapter σ} {op op' : AdapterOp} {ans : Except Exc op.Ans}
      {s₁ : σ}, core.Asks w.catalog call name a op' → a.call op w.store = (ans, s₁) → I s₁ := by
    intro name a op op' ans s₁ hask hrun
    have hkept := hcall name a op w.store hask.configured hw
    rwa [hrun] at hkept
  cases h with
  | refused | rebound => exact hw
  | failed hask hrun hs =>
    rcases hs with rfl | rfl
    · exact hasked hask hrun
    · exact hcall _ _ _ _ hask.configured (hasked hask hrun)
  | failedOpen hask hrun | unsettled hask hrun | ingested hask hrun | upserted hask hrun
  | searched hask hrun | listed hask hrun | erased hask hrun => exact hasked hask hrun
  | updated _ hask hrun | got _ hask hrun | deleted _ hask hrun => exact hasked hask hrun

end Memgw
