-- SUMMARY: How the environment variable with the API keys is parsed, and which tenants it can name.
import Memgw.Gateway.Errors

/-!
# API keys

`key:tenant,key:tenant`, or bare keys, which land on one default tenant. Only the
first separator of an entry counts, so a tenant may contain further ones.
-/

namespace Memgw

/-- `_csv`. -/
def csv (raw : String) : List String :=
  ((Text.split ',' raw).map Text.strip).filter (· != "")

/-- The key and the tenant of one entry. -/
def keyAndTenant (entry : String) : String × String :=
  let parts := Text.partition ':' entry
  (Text.strip parts.1, if Text.strip parts.2 = "" then "default" else Text.strip parts.2)

/-- `_api_keys`. -/
def apiKeys (raw : String) : List (String × String) :=
  (csv raw).foldl (fun out entry => setField out (keyAndTenant entry).1 (keyAndTenant entry).2) []

/-- The tenants that the API keys name. -/
def tenants (raw : String) : List String := (apiKeys raw).map Prod.snd

theorem mem_setField {α : Type} {fields : List (String × α)} {key : String} {value : α}
    {kv : String × α} (h : kv ∈ setField fields key value) : kv ∈ fields ∨ kv.2 = value := by
  induction fields with
  | nil => exact .inr (congrArg Prod.snd (List.mem_singleton.mp h))
  | cons kv' fields ih =>
    simp only [setField] at h
    split at h
    · rcases List.mem_cons.mp h with rfl | h
      · exact .inr rfl
      · exact .inl (List.mem_cons_of_mem _ h)
    · rcases List.mem_cons.mp h with rfl | h
      · exact .inl (List.mem_cons_self ..)
      · exact (ih h).imp (List.mem_cons_of_mem _) id

theorem keyAndTenant_ne_empty (entry : String) : (keyAndTenant entry).2 ≠ "" := by
  simp only [keyAndTenant]
  split
  · decide
  · assumption

/-- No API key names the empty tenant, which would count as no tenant at all. -/
theorem tenants_ne_empty {raw t : String} (h : t ∈ tenants raw) : t ≠ "" := by
  have hfold : ∀ (entries : List String) (out : List (String × String)),
      (∀ kv ∈ out, kv.2 ≠ "") → ∀ kv ∈ entries.foldl (fun out entry =>
        setField out (keyAndTenant entry).1 (keyAndTenant entry).2) out, kv.2 ≠ "" := by
    intro entries
    induction entries with
    | nil => intro out hout; exact hout
    | cons entry entries ih =>
      intro out hout
      apply ih
      intro kv hkv
      rcases mem_setField hkv with hkv | htenant
      · exact hout kv hkv
      · rw [htenant]
        exact keyAndTenant_ne_empty entry
  simp only [tenants, List.mem_map] at h
  obtain ⟨kv, hkv, rfl⟩ := h
  unfold apiKeys at hkv
  exact hfold _ _ (by simp) kv hkv

end Memgw
