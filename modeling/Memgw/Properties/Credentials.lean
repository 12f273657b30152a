-- SUMMARY: Which credentials the gateway takes, and which tenant each of them names.
import Memgw.Server.Auth

/-!
# Credentials

A header is taken exactly when it presents a key of the list, in the scheme that the
gateway expects, and it then stands for the tenant that the list has for the key. The
keys are held by their digests, so this needs digests that tell the key presented and
the keys of the list apart. Everything else gets the same error, whatever it was.
-/

namespace Memgw

/-! ## Dictionaries -/

section

variable {β : Type} {fields : List (String × β)} {k : String} {v : β}

theorem lookup_eq_some_iff_mem (h : (fields.map Prod.fst).Nodup) :
    fields.lookup k = some v ↔ (k, v) ∈ fields := by
  induction fields with
  | nil => simp
  | cons kv fields ih =>
    obtain ⟨hkv, hnodup⟩ := List.nodup_cons.mp h
    rw [List.lookup_cons, List.mem_cons]
    cases hk : k == kv.1 with
    | true =>
      obtain rfl := beq_iff_eq.mp hk
      have hnot : (kv.1, v) ∉ fields := fun hmem =>
        hkv (List.mem_map.mpr ⟨_, hmem, rfl⟩)
      simp [hnot, Prod.ext_iff, eq_comm]
    | false =>
      have hne : (k, v) ≠ kv := fun heq => ne_of_beq_false hk (congrArg Prod.fst heq)
      simp [hne, ih hnodup]

/-- Going through all the items ends with the one that a lookup finds. -/
theorem scan_eq_lookup (h : (fields.map Prod.fst).Nodup) :
    fields.foldl (fun found kv => if kv.1 = k then some kv.2 else found) none =
      fields.lookup k := by
  have hscan : ∀ (fields : List (String × β)) (found : Option β), (fields.map Prod.fst).Nodup →
      fields.foldl (fun found kv => if kv.1 = k then some kv.2 else found) found =
        (fields.lookup k).or found := by
    intro fields
    induction fields with
    | nil => exact fun found _ => rfl
    | cons kv fields ih =>
      intro found hnodup
      obtain ⟨hkv, hnodup⟩ := List.nodup_cons.mp hnodup
      rw [List.foldl_cons, ih _ hnodup, List.lookup_cons]
      cases hk : k == kv.1 with
      | true =>
        obtain rfl := beq_iff_eq.mp hk
        -- no later item has the key
        have hnone : fields.lookup kv.1 = none := by
          rw [List.lookup_eq_none_iff]
          intro kv' hkv'
          exact bne_iff_ne.mpr fun heq => hkv (List.mem_map.mpr ⟨kv', hkv', heq.symm⟩)
        simp [hnone]
      | false => rw [if_neg (Ne.symm (ne_of_beq_false hk))]
  exact (hscan fields none h).trans (Option.or_none ..)

end

/-! ## Digests -/

/-- No two of the texts have the same digest. -/
def Digest.Apart (digest : Digest) (texts : List String) : Prop :=
  ∀ a ∈ texts, ∀ b ∈ texts, digest a = digest b → a = b

theorem mem_apiKeys_iff {raw key tenant : String} :
    (key, tenant) ∈ apiKeys raw ↔ listedTenant raw key = some tenant := by
  rw [← lookup_apiKeys]
  exact (lookup_eq_some_iff_mem nodup_dictOf).symm

/-- Digests that tell the keys apart find the owner that the list has for the key. -/
theorem owner_new {digest : Digest} {raw key tenant : String}
    (h : digest.Apart (key :: (apiKeys raw).map Prod.fst)) :
    (ApiKeyAuth.new digest (apiKeys raw)).owner (digest key) = some tenant ↔
      listedTenant raw key = some tenant := by
  rw [ApiKeyAuth.owner, scan_eq_lookup (ApiKeyAuth.nodup _), ApiKeyAuth.new, lookup_dictOf,
    Option.map_eq_some_iff, ← mem_apiKeys_iff]
  have hfound : ∀ kv : String × String,
      (apiKeys raw).reverse.find? (fun kv => digest kv.1 == digest key) = some kv →
        kv.1 = key ∧ kv ∈ apiKeys raw := by
    intro kv hfind
    have hmem := List.mem_reverse.mp (List.mem_of_find?_eq_some hfind)
    have hdigest : digest kv.1 = digest key := by simpa using List.find?_some hfind
    exact ⟨h _ (List.mem_cons_of_mem _ (List.mem_map_of_mem hmem)) _ (List.mem_cons_self ..)
      hdigest, hmem⟩
  constructor
  · rintro ⟨kv, hfind, rfl⟩
    obtain ⟨rfl, hmem⟩ := hfound kv hfind
    exact hmem
  · intro hmem
    have hsome : ((apiKeys raw).reverse.find? fun kv => digest kv.1 == digest key).isSome :=
      List.find?_isSome.mpr ⟨_, List.mem_reverse.mpr hmem, beq_self_eq_true _⟩
    obtain ⟨kv, hfind⟩ := Option.isSome_iff_exists.mp hsome
    obtain ⟨rfl, hmem'⟩ := hfound kv hfind
    rw [mem_apiKeys_iff] at hmem
    rw [show kv = (kv.1, kv.2) from rfl, mem_apiKeys_iff] at hmem'
    exact ⟨kv, hfind, Option.some.inj (hmem'.symm.trans hmem)⟩

/-! ## Headers -/

/-- What a header presents, after its scheme. -/
def presented (header : Option String) : List String :=
  header.toList.map fun header => (Text.partition ' ' header).2

section

variable {sep : Char} {glue s a b : String}

theorem partition_append (hglue : glue.toList = [sep]) (ha : sep ∉ a.toList) :
    Text.partition sep (a ++ glue ++ b) = (a, b) := by
  have hne : ∀ c ∈ a.toList, (c != sep) = true := fun c hc =>
    bne_iff_ne.mpr fun h => ha (h ▸ hc)
  simp [Text.partition, hglue, List.takeWhile_append_of_pos hne, List.dropWhile_append_of_pos hne]

theorem partition_eq_append (hglue : glue.toList = [sep]) (h : (Text.partition sep s).2 ≠ "") :
    s = (Text.partition sep s).1 ++ glue ++ (Text.partition sep s).2 := by
  cases hrest : s.toList.dropWhile (· != sep) with
  | nil => exact absurd (by simp [Text.partition, hrest]) h
  | cons c rest =>
    -- what stopped the search is the separator
    have hc := List.head?_dropWhile_not (· != sep) s.toList
    rw [hrest] at hc
    obtain rfl : c = sep := by simpa using hc
    have hsplit := List.takeWhile_append_dropWhile (p := (· != c)) (l := s.toList)
    rw [hrest] at hsplit
    apply String.toList_injective
    simp [Text.partition, hglue, hrest, hsplit]

end

/-- The scheme has no space in it. -/
theorem space_not_mem_scheme {scheme : String} (h : lower scheme = "bearer") :
    ' ' ∉ scheme.toList := by
  intro hmem
  have hlower : (' ' : Char) ∈ (lower scheme).toList := by
    rw [lower, String.toList_ofList]
    exact List.mem_map.mpr ⟨' ', hmem, rfl⟩
  rw [h] at hlower
  simp at hlower

/-- The start of its digest stands for a key. -/
def keyIdOf (digest : Digest) (key : String) : String := String.ofList ((digest key).toList.take 12)

section

variable {digest : Digest} {auth : ApiKeyAuth} {who : Principal}

theorem authenticate_ok_iff {header : String} :
    auth.authenticate digest (some header) = .ok who ↔
      lower (Text.partition ' ' header).1 = "bearer" ∧ (Text.partition ' ' header).2 ≠ "" ∧
        auth.owner (digest (Text.partition ' ' header).2) = some who.tenantId ∧
        who.keyId = keyIdOf digest (Text.partition ' ' header).2 := by
  by_cases hempty : header = ""
  · subst hempty
    simp [ApiKeyAuth.authenticate, Text.partition]
  · simp only [ApiKeyAuth.authenticate]
    generalize Text.partition ' ' header = parts
    by_cases hform : lower parts.1 ≠ "bearer" ∨ parts.2 = ""
    · rw [if_pos hform]
      refine iff_of_false (fun h => by cases h) fun h => ?_
      exact hform.elim (fun hscheme => hscheme h.1) h.2.1
    · rw [if_neg hform]
      obtain ⟨hscheme, hkey⟩ := not_or.mp hform
      cases auth.owner (digest parts.2) with
      | none => simp
      | some tenant =>
        obtain ⟨tenantId, keyId⟩ := who
        simp [not_ne_iff.mp hscheme, hkey, keyIdOf, eq_comm]

theorem authenticate_error {header : Option String} {e : GatewayError}
    (h : auth.authenticate digest header = .error e) :
    ∃ message ∈ ["missing Authorization header", "expected 'Authorization: Bearer <key>'",
      "unknown api key"], e = unauthenticated message := by
  simp only [ApiKeyAuth.authenticate] at h
  split at h
  · exact ⟨_, by simp, (Except.error.inj h).symm⟩
  · exact ⟨_, by simp, (Except.error.inj h).symm⟩
  · split at h
    · exact ⟨_, by simp, (Except.error.inj h).symm⟩
    · split at h
      · exact ⟨_, by simp, (Except.error.inj h).symm⟩
      · cases h

end

/-- A header is taken exactly when it presents a listed key, for the tenant that the
    last entry with the key names. Any other gets one of three errors, which repeat
    nothing of it. -/
theorem credential_names_tenant (raw : String) (digest : Digest) (header : Option String)
    (hapart : digest.Apart (presented header ++ (apiKeys raw).map Prod.fst)) :
    let auth := ApiKeyAuth.new digest (apiKeys raw)
    (∀ who, auth.authenticate digest header = .ok who ↔ ∃ scheme key,
      header = some (scheme ++ " " ++ key) ∧ lower scheme = "bearer" ∧ key ≠ "" ∧
        listedTenant raw key = some who.tenantId ∧ who.keyId = keyIdOf digest key) ∧
    ∀ e, auth.authenticate digest header = .error e → ∃ message ∈
      ["missing Authorization header", "expected 'Authorization: Bearer <key>'",
        "unknown api key"], e = unauthenticated message := by
  refine ⟨fun who => ?_, fun e => authenticate_error⟩
  cases header with
  | none => simp [ApiKeyAuth.authenticate]
  | some header =>
    rw [authenticate_ok_iff, owner_new hapart]
    constructor
    · rintro ⟨hscheme, hkey, htenant, hid⟩
      exact ⟨_, _, congrArg some (partition_eq_append (by simp) hkey), hscheme, hkey, htenant, hid⟩
    · rintro ⟨scheme, key, hheader, hscheme, hkey, htenant, hid⟩
      obtain rfl := Option.some.inj hheader
      have hpartition : Text.partition ' ' (scheme ++ " " ++ key) = (scheme, key) :=
        partition_append (by simp) (space_not_mem_scheme hscheme)
      simp only [hpartition]
      exact ⟨hscheme, hkey, htenant, hid⟩

/-- `sha256` of two keys. -/
def twoDigests : Digest := fun key =>
  if key = "alpha" then "8ed3f6ad685b959ead7022518e1af76cd816f8e8ec7ccdda1ed4018e8f2223f8"
  else if key = "beta" then "f44e64e75f3948e9f73f8dfa94721c4ce8cbb4f265c4790c702b2d41cfbf2753"
  else ""

theorem alpha_names_globex :
    (ApiKeyAuth.new twoDigests (apiKeys "alpha:acme, beta, alpha:globex")).authenticate twoDigests
      (some "Bearer alpha") = .ok { tenantId := "globex", keyId := "8ed3f6ad685b" } := by
  have hkeys : apiKeys "alpha:acme, beta, alpha:globex" =
      [("alpha", "globex"), ("beta", "default")] := by decide +kernel
  have hpresented : presented (some "Bearer alpha") = ["alpha"] := by decide +kernel
  have hapart : twoDigests.Apart (presented (some "Bearer alpha") ++
      (apiKeys "alpha:acme, beta, alpha:globex").map Prod.fst) := by
    rw [hkeys, hpresented]
    simp [Digest.Apart, twoDigests]
  refine ((credential_names_tenant _ _ _ hapart).1 _).mpr ⟨"Bearer", "alpha", rfl, ?_⟩
  decide +kernel

end Memgw
