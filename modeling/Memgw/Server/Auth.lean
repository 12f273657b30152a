-- SUMMARY: Who is calling: the keys of a gateway, and the tenant that an `Authorization` header names.
import Memgw.Settings.ApiKeys

/-!
# Who is calling

The tenant comes from the credential and never from the payload. Keys are held by
their digests, and what a header carries is compared with all of them.
-/

namespace Memgw

/-! ## Dictionaries -/

/-- `{key(item): value(item) for item in items}`. -/
def dictOf {α β : Type} (key : α → String) (value : α → β) (items : List α) : List (String × β) :=
  items.foldl (fun out item => setField out (key item) (value item)) []

section

variable {α β : Type} {key : α → String} {value : α → β} {items : List α}

theorem nodup_dictOf : ((dictOf key value items).map Prod.fst).Nodup := by
  have hfold : ∀ out : List (String × β), (out.map Prod.fst).Nodup →
      ((items.foldl (fun out item => setField out (key item) (value item)) out).map
        Prod.fst).Nodup := by
    induction items with
    | nil => exact fun out h => h
    | cons item items ih => exact fun out h => ih _ (nodup_setField h)
  exact hfold [] List.nodup_nil

/-- The last item with a key is the one that counts. -/
theorem lookup_dictOf {k : String} :
    (dictOf key value items).lookup k = (items.reverse.find? (key · == k)).map value := by
  have hfold : ∀ out : List (String × β),
      (items.foldl (fun out item => setField out (key item) (value item)) out).lookup k =
        ((items.reverse.find? (key · == k)).map value).or (out.lookup k) := by
    induction items with
    | nil => exact fun out => rfl
    | cons item items ih =>
      intro out
      rw [List.foldl_cons, ih, lookup_setField, List.reverse_cons, List.find?_append]
      by_cases hk : key item = k
      · cases items.reverse.find? (key · == k) <;> simp [hk]
      · cases items.reverse.find? (key · == k) <;> simp [hk, Ne.symm hk]
  exact (hfold []).trans (Option.or_none ..)

end

/-! ## Keys -/

/-- The tenant of the last entry that has the key. -/
def listedTenant (raw key : String) : Option String :=
  ((csv raw).reverse.find? fun entry => (keyAndTenant entry).1 == key).map fun entry =>
    (keyAndTenant entry).2

theorem apiKeys_eq {raw : String} : apiKeys raw =
    dictOf (fun entry => (keyAndTenant entry).1) (fun entry => (keyAndTenant entry).2) (csv raw) :=
  rfl

theorem lookup_apiKeys {raw key : String} : (apiKeys raw).lookup key = listedTenant raw key := by
  rw [apiKeys_eq, lookup_dictOf]
  rfl

/-- `_digest`, whose hash is taken as it comes. -/
abbrev Digest : Type := String → String

structure Principal where
  tenantId : String
  /-- The start of a digest, never a key. -/
  keyId : String
  deriving DecidableEq

structure ApiKeyAuth where
  /-- The tenant of each digest. -/
  byDigest : List (String × String)
  nodup : (byDigest.map Prod.fst).Nodup

/-- `ApiKeyAuth(keys)`. -/
def ApiKeyAuth.new (digest : Digest) (keys : List (String × String)) : ApiKeyAuth where
  byDigest := dictOf (fun kv => digest kv.1) Prod.snd keys
  nodup := nodup_dictOf

/-- Every candidate is compared, and a later match would win over an earlier one. -/
def ApiKeyAuth.owner (auth : ApiKeyAuth) (digest : String) : Option String :=
  auth.byDigest.foldl (fun tenant known => if known.1 = digest then some known.2 else tenant) none

/-- `scheme.lower()`, where the word looked for is in plain letters. -/
def lower (scheme : String) : String := String.ofList (scheme.toList.map Char.toLower)

def unauthenticated (message : String) : GatewayError :=
  ErrorClass.unauthenticated.error message []

def ApiKeyAuth.authenticate (digest : Digest) (auth : ApiKeyAuth) (header : Option String) :
    Except GatewayError Principal :=
  match header with
  | none | some "" => .error (unauthenticated "missing Authorization header")
  | some header =>
    let (scheme, token) := Text.partition ' ' header
    if lower scheme ≠ "bearer" ∨ token = "" then
      .error (unauthenticated "expected 'Authorization: Bearer <key>'")
    else
      let known := digest token
      match auth.owner known with
      | none => .error (unauthenticated "unknown api key")
      | some tenant => .ok { tenantId := tenant, keyId := String.ofList (known.toList.take 12) }

/-- The header of a client with a key. -/
def authorization (apiKey : Option String) : Option String :=
  (apiKey.filter (· != "")).map ("Bearer " ++ ·)

end Memgw
