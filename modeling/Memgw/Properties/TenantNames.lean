-- SUMMARY: When two tenants are kept apart by the user ids that a provider without tenants is given.
import Memgw.Adapters.Mem0
import Memgw.Adapters.Zep
import Memgw.Settings.ApiKeys

/-!
# Tenant names

Mem0 and Zep know users only, so a tenant and a subject are glued into one user id.
The subject is free text and the tenant may contain the separator, and then the
boundary between the two can be read in more than one way.
-/

namespace Memgw

/-- Everything that keeps the second tenant's memories out of the first one's reach:
    user ids that differ, and with them, over clients that filter on the user id,
    searches, listings and erasures that pass by. -/
structure TenantsApart (t₁ t₂ : String) : Prop where
  mem0_ids : ∀ s₁ s₂ : Scope, Mem0.userId (s₁.under t₁) ≠ Mem0.userId (s₂.under t₂)
  zep_ids : ∀ s₁ s₂ : Scope, Zep.userId (s₁.under t₁) ≠ Zep.userId (s₂.under t₂)
  mem0_memories : ∀ (κ : Type) (client : Mem0.Client κ) (stored : κ → List Mem0.Stored),
    client.Lawful stored → ∀ (s : κ) (s₁ s₂ : Scope), ∀ w ∈ stored s,
      w.ids = Mem0.writeIds (s₂.under t₂) →
        (∀ query memories, ((Mem0.search query (s₁.under t₁)).run client s).1 = .ok memories →
          ∀ m ∈ memories, m.nativeId ≠ w.id) ∧
        (∀ limit memories, ((Mem0.listScope (s₁.under t₁) limit).run client s).1 = .ok memories →
          ∀ m ∈ memories, m.nativeId ≠ w.id) ∧
        ∀ rounds, w ∈ stored ((Mem0.deleteScope rounds (s₁.under t₁)).run client s).2
  zep_memories : ∀ (κ : Type) (client : Zep.Client κ) (owns : κ → String → String → Prop),
    client.Lawful owns → ∀ (s : Zep.State κ) (s₁ s₂ : Scope) (uuid : String),
      owns s.client (Zep.userId (s₂.under t₂)) uuid →
        (∀ query memories, ((Zep.search query (s₁.under t₁)).run client.handle s).1 = .ok memories →
          ∀ m ∈ memories, m.nativeId ≠ uuid) ∧
        (∀ limit memories, ((Zep.listScope (s₁.under t₁) limit).run client.handle s).1 =
          .ok memories → ∀ m ∈ memories, m.nativeId ≠ uuid) ∧
        owns ((Zep.deleteScope (s₁.under t₁)).run client.handle s).2.client
          (Zep.userId (s₂.under t₂)) uuid

/-- Neither name, continued by the separator, is the beginning of the other one. -/
def NamesApart (t₁ t₂ : String) : Prop :=
  ¬ (t₁.toList ++ [':']) <+: t₂.toList ∧ ¬ (t₂.toList ++ [':']) <+: t₁.toList

instance (t₁ t₂ : String) : Decidable (NamesApart t₁ t₂) :=
  inferInstanceAs (Decidable (_ ∧ _))

/-! ## User ids -/

theorem mem0_userId_under {s : Scope} {t : String} (ht : t ≠ "") :
    (Mem0.userId (s.under t)).toList = t.toList ++ ':' :: s.subject.val.toList := by
  simp [Mem0.userId, ht]

theorem zep_userId_under {s : Scope} {t : String} (ht : t ≠ "") :
    (Zep.userId (s.under t)).toList = t.toList ++ ':' :: s.subject.val.toList := by
  simp [Zep.userId, ht]

/-- The subjects of a tenant are admissible right parts, and stay so under any
    beginning. -/
theorem glued_apart_iff {t₁ t₂ : String} (hne : t₁ ≠ t₂) :
    (∀ s₁ s₂ : Scope, t₁.toList ++ ':' :: s₁.subject.val.toList ≠
      t₂.toList ++ ':' :: s₂.subject.val.toList) ↔ NamesApart t₁ t₂ := by
  have hsubject : ∀ x : List Char, 'u' ∈ x → ∃ s : Scope, s.subject.val.toList = x := by
    intro x hx
    have hreal : Text.strip (String.ofList x) ≠ "" :=
      Text.strip_ne_empty_of_mem (by simpa using hx) (by decide)
    exact ⟨{ subject := ⟨String.ofList x, hreal⟩ }, by simp⟩
  have hlists : t₁.toList ≠ t₂.toList := fun h => hne (String.ext h)
  refine Iff.trans ?_ (Text.glue_disjoint_iff (V := fun x => ∃ s : Scope, s.subject.val.toList = x)
    hlists ['u'] (hsubject _ (by simp)) (fun r => hsubject _ (by simp)))
  constructor
  · rintro h _ _ ⟨s₁, rfl⟩ ⟨s₂, rfl⟩
    exact h s₁ s₂
  · intro h s₁ s₂
    exact h _ _ ⟨s₁, rfl⟩ ⟨s₂, rfl⟩

theorem mem0_ids_apart_iff {t₁ t₂ : String} (h₁ : t₁ ≠ "") (h₂ : t₂ ≠ "") (hne : t₁ ≠ t₂) :
    (∀ s₁ s₂ : Scope, Mem0.userId (s₁.under t₁) ≠ Mem0.userId (s₂.under t₂)) ↔
      NamesApart t₁ t₂ := by
  rw [← glued_apart_iff hne]
  refine forall₂_congr (fun s₁ s₂ => not_congr ?_)
  rw [← mem0_userId_under h₁, ← mem0_userId_under h₂, String.toList_inj]

theorem zep_ids_apart_iff {t₁ t₂ : String} (h₁ : t₁ ≠ "") (h₂ : t₂ ≠ "") (hne : t₁ ≠ t₂) :
    (∀ s₁ s₂ : Scope, Zep.userId (s₁.under t₁) ≠ Zep.userId (s₂.under t₂)) ↔
      NamesApart t₁ t₂ := by
  rw [← glued_apart_iff hne]
  refine forall₂_congr (fun s₁ s₂ => not_congr ?_)
  rw [← zep_userId_under h₁, ← zep_userId_under h₂, String.toList_inj]

/-- A user id with a tenant is no wildcard. -/
theorem mem0_userId_ne_any {s : Scope} {t : String} (ht : t ≠ "") :
    (Mem0.buildFilters (s.under t)).userId ≠ Mem0.any := by
  intro h
  have hlist := congrArg (fun u => u.toList.length) h
  simp only [Mem0.buildFilters, mem0_userId_under ht, Mem0.any, List.length_append,
    List.length_cons] at hlist
  have hone : ("*" : String).toList.length = 1 := by decide
  have hpos : 0 < t.toList.length := by
    rw [List.length_pos_iff]
    exact fun hnil => ht (String.ext (by simpa using hnil))
  omega

/-! ## What follows for the memories -/

theorem mem0_memories_apart {t₁ t₂ : String} (h₁ : t₁ ≠ "")
    (hids : ∀ s₁ s₂ : Scope, Mem0.userId (s₁.under t₁) ≠ Mem0.userId (s₂.under t₂))
    {κ : Type} {client : Mem0.Client κ} {stored : κ → List Mem0.Stored}
    (hlawful : client.Lawful stored) {s : κ} {s₁ s₂ : Scope} {w : Mem0.Stored} (hw : w ∈ stored s)
    (hwrite : w.ids = Mem0.writeIds (s₂.under t₂)) :
    (∀ query memories, ((Mem0.search query (s₁.under t₁)).run client s).1 = .ok memories →
      ∀ m ∈ memories, m.nativeId ≠ w.id) ∧
    (∀ limit memories, ((Mem0.listScope (s₁.under t₁) limit).run client s).1 = .ok memories →
      ∀ m ∈ memories, m.nativeId ≠ w.id) ∧
    ∀ rounds, w ∈ stored ((Mem0.deleteScope rounds (s₁.under t₁)).run client s).2 := by
  have hout : ¬ (Mem0.buildFilters (s₁.under t₁)).selects w = true := by
    intro hsel
    have huser := Mem0.Entities.userId_of_selects hsel (mem0_userId_ne_any h₁)
    rw [hwrite] at huser
    exact hids s₁ s₂ huser.symm
  have hshown : ∀ m : ProviderMemory, (∃ w' ∈ stored s,
      (Mem0.buildFilters (s₁.under t₁)).selects w' = true ∧ w'.memory ≠ "" ∧ w'.id = m.nativeId) →
      m.nativeId ≠ w.id := by
    rintro m ⟨w', hw', hsel, -, hid⟩ heq
    exact hout (hlawful.one s w' hw' w hw (hid.trans heq) ▸ hsel)
  refine ⟨fun query memories hrun m hm => ?_, fun limit memories hrun m hm => ?_, fun rounds => ?_⟩
  · exact hshown m ((Mem0.search_selects hlawful).2 memories hrun m hm)
  · exact hshown m (Mem0.listScope_selects hlawful memories hrun m hm)
  · by_contra hgone
    exact hout ((Mem0.drain_only hlawful).2 w hw hgone).1

theorem zep_memories_apart {t₁ t₂ : String}
    (hids : ∀ s₁ s₂ : Scope, Zep.userId (s₁.under t₁) ≠ Zep.userId (s₂.under t₂))
    {κ : Type} {client : Zep.Client κ} {owns : κ → String → String → Prop}
    (hlawful : client.Lawful owns) {s : Zep.State κ} {s₁ s₂ : Scope} {uuid : String}
    (howns : owns s.client (Zep.userId (s₂.under t₂)) uuid) :
    (∀ query memories, ((Zep.search query (s₁.under t₁)).run client.handle s).1 = .ok memories →
      ∀ m ∈ memories, m.nativeId ≠ uuid) ∧
    (∀ limit memories, ((Zep.listScope (s₁.under t₁) limit).run client.handle s).1 = .ok memories →
      ∀ m ∈ memories, m.nativeId ≠ uuid) ∧
    owns ((Zep.deleteScope (s₁.under t₁)).run client.handle s).2.client
      (Zep.userId (s₂.under t₂)) uuid := by
  have hother : ∀ m : ProviderMemory, owns s.client (Zep.userId (s₁.under t₁)) m.nativeId →
      m.nativeId ≠ uuid := by
    rintro m hm rfl
    exact hids s₁ s₂ (hlawful.one _ _ _ _ hm howns)
  refine ⟨fun query memories hrun m hm => ?_, fun limit memories hrun m hm => ?_, ?_⟩
  · exact hother m (Zep.search_owned hlawful memories hrun m hm)
  · exact hother m (Zep.listScope_owned hlawful memories hrun m hm)
  · exact Zep.deleteScope_keeps hlawful (hids s₁ s₂).symm howns

theorem tenants_apart_iff (raw t₁ t₂ : String) (h₁ : t₁ ∈ tenants raw) (h₂ : t₂ ∈ tenants raw)
    (hne : t₁ ≠ t₂) : TenantsApart t₁ t₂ ↔ NamesApart t₁ t₂ := by
  have h₁ := tenants_ne_empty h₁
  have h₂ := tenants_ne_empty h₂
  constructor
  · intro h
    exact (mem0_ids_apart_iff h₁ h₂ hne).mp h.mem0_ids
  · intro h
    have hmem0 := (mem0_ids_apart_iff h₁ h₂ hne).mpr h
    have hzep := (zep_ids_apart_iff h₁ h₂ hne).mpr h
    exact ⟨hmem0, hzep, fun κ client stored hlawful s s₁ s₂ w hw hwrite =>
      mem0_memories_apart h₁ hmem0 hlawful hw hwrite,
      fun κ client owns hlawful s s₁ s₂ uuid howns => zep_memories_apart hzep hlawful howns⟩

theorem tenants_apart_plain : TenantsApart "a" "b" :=
  (tenants_apart_iff "k1:a,k2:b" "a" "b" (by decide) (by decide) (by decide)).mpr (by decide)

/-- Tenant `a` with subject `b:c` and tenant `a:b` with subject `c` are one user. -/
theorem glued_names_collide :
    "a" ∈ tenants "k1:a,k2:a:b" ∧ "a:b" ∈ tenants "k1:a,k2:a:b" ∧
      ∃ s₁ s₂ : Scope, Mem0.userId (s₁.under "a") = Mem0.userId (s₂.under "a:b") ∧
        Zep.userId (s₁.under "a") = Zep.userId (s₂.under "a:b") := by
  refine ⟨by decide, by decide, { subject := ⟨"b:c", by decide⟩ }, { subject := ⟨"c", by decide⟩ },
    by decide, by decide⟩

end Memgw
