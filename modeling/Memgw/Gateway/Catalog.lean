-- SUMMARY: The catalog: its three tables, the statements run against them, and what each transaction can do.
import Memgw.Gateway.Types
import Memgw.Library.Table
import Mathlib.Logic.Function.Basic
import Mathlib.Data.List.Basic

/-!
# The catalog

`memory_index` maps gateway ids to native ids, `scope_binding` records where an
end-user lives, and `episode_journal` keeps raw episodes. This module has the
tables and the transactions on them. Each transaction is atomic here; the methods
that need several of them are programs, in `Bookkeeping`.

Ids, clock readings and the content hash come from an `Env`. A catalog counts how
many readings it has taken, so that a run draws ids one after the other.
-/

namespace Memgw

/-- Where ids, times and hashes come from. `newId tag k` is the id that the `k`-th
    reading yields; ids with one tag are distinct. -/
structure Env where
  newId : String → Nat → String
  newId_injective : ∀ tag, Function.Injective (newId tag)
  now : Nat → Time
  hash : String → String

/-- An environment that counts: every reading is the number of those before it. -/
def Env.counting : Env where
  newId tag k := tag ++ String.ofList (List.replicate k 'I')
  newId_injective tag a b h := by
    have := congrArg String.length h
    simpa using this
  now k := k
  hash := id

/-! ## Ids -/

/-- `_CROCKFORD`. -/
def crockford : List Char := "0123456789ABCDEFGHJKMNPQRSTVWXYZ".toList

/-- The digits of `_b32`, the last one first. -/
def b32Digits : Nat → Nat → List Char
  | _, 0 => []
  | value, length + 1 =>
    crockford.getD (value &&& 0x1F) '0' :: b32Digits (value >>> 5) length

def b32 (value length : Nat) : String := String.ofList (b32Digits value length).reverse

/-- `new_id`, of a millisecond and a random number. -/
def ulid (tag : String) (ms rand : Nat) : String := tag ++ "_" ++ b32 ms 10 ++ b32 rand 16

theorem b32Digits_alphanum {value length : Nat} :
    ∀ c ∈ b32Digits value length, c.isAlphanum = true := by
  have hdigits : crockford.all Char.isAlphanum = true := by decide
  induction length generalizing value with
  | zero => intro c hc; cases hc
  | succ length ih =>
    intro c hc
    rcases List.mem_cons.mp hc with rfl | hc
    · rw [List.getD_eq_getElem?_getD]
      cases hdigit : crockford[value &&& 0x1F]? with
      | none => rfl
      | some c => exact List.all_eq_true.mp hdigits c (List.mem_of_getElem? hdigit)
    · exact ih c hc

/-- A gateway id is made of letters, digits and an underscore. -/
theorem ulid_word {ms rand : Nat} {c : Char} (hc : c ∈ (ulid "mg" ms rand).toList) :
    c.isAlphanum ∨ c = '_' := by
  simp only [ulid, b32, String.toList_append, String.toList_ofList, List.mem_append,
    List.mem_reverse] at hc
  rcases hc with ((hc | hc) | hc) | hc
  · have htag : "mg".toList.all Char.isAlphanum = true := by decide
    exact .inl (List.all_eq_true.mp htag c hc)
  · exact .inr (List.mem_singleton.mp hc)
  · exact .inl (b32Digits_alphanum c hc)
  · exact .inl (b32Digits_alphanum c hc)

/-! ## Schema -/

structure IndexRow where
  gatewayId : String
  tenantId : String
  provider : String
  nativeId : String
  subject : Subject
  agent : Option Dim
  session : Option Dim
  contentHash : String
  createdAt : Time
  updatedAt : Time
  deletedAt : Option Time
  deriving DecidableEq

structure BindingRow where
  tenantId : String
  subject : String
  provider : String
  boundAt : Time
  migratedFrom : Option String
  deriving DecidableEq

structure JournalRow where
  episodeId : String
  tenantId : String
  subject : Subject
  agent : Option Dim
  session : Option Dim
  payload : Episode
  ingestedTo : List (String × List String)
  createdAt : Time
  deriving DecidableEq

def IndexRow.idKey (r : IndexRow) : List String := [r.gatewayId]
def IndexRow.nativeKey (r : IndexRow) : List String := [r.tenantId, r.provider, r.nativeId]

/-- The primary key, and the unique constraint `uq_memory_index_native`. -/
def indexKeys : List (IndexRow → List String) := [IndexRow.idKey, IndexRow.nativeKey]

def bindingKeys : List (BindingRow → List String) := [fun r => [r.tenantId, r.subject]]

def journalKeys : List (JournalRow → List String) := [fun r => [r.episodeId]]

structure Catalog where
  memoryIndex : Table indexKeys := .empty
  scopeBinding : Table bindingKeys := .empty
  episodeJournal : Table journalKeys := .empty
  ticks : Nat := 0

/-- Two catalogs with the same tables. The later one may have drawn more ids. -/
structure Catalog.Still (c c' : Catalog) : Prop where
  index : c'.memoryIndex = c.memoryIndex
  binding : c'.scopeBinding = c.scopeBinding
  journal : c'.episodeJournal = c.episodeJournal
  ticks : c.ticks ≤ c'.ticks

theorem Catalog.Still.refl (c : Catalog) : c.Still c := ⟨rfl, rfl, rfl, le_rfl⟩

theorem Catalog.Still.trans {c c' c'' : Catalog} (h : c.Still c') (h' : c'.Still c'') :
    c.Still c'' :=
  ⟨h'.index.trans h.index, h'.binding.trans h.binding, h'.journal.trans h.journal,
    h.ticks.trans h'.ticks⟩

/-- What the catalog hands out for a live row of the index. -/
structure CatalogRow where
  gatewayId : String
  tenantId : String
  provider : String
  nativeId : String
  subject : Subject
  agent : Option Dim
  session : Option Dim
  deriving DecidableEq

/-- The stored scope. Validation is the identity on stored columns
    (`blankIsNone_val`), so nothing can be refused here. -/
def CatalogRow.scope (r : CatalogRow) : Scope where
  subject := r.subject
  agent := r.agent
  session := r.session

def IndexRow.toRow (r : IndexRow) : CatalogRow where
  gatewayId := r.gatewayId
  tenantId := r.tenantId
  provider := r.provider
  nativeId := r.nativeId
  subject := r.subject
  agent := r.agent
  session := r.session

/-- `if asked: column == asked`. A dimension left open matches every stored value,
    an absent one included. -/
def dimMatches (asked stored : Option Dim) : Bool :=
  match asked with
  | none => true
  | some _ => stored == asked

@[simp] theorem dimMatches_none {stored : Option Dim} : dimMatches none stored = true := rfl

@[simp] theorem dimMatches_some {d : Dim} {stored : Option Dim} :
    dimMatches (some d) stored = true ↔ stored = some d := by
  simp [dimMatches]

def IndexRow.named (tenant provider native : String) (r : IndexRow) : Bool :=
  r.tenantId == tenant && r.provider == provider && r.nativeId == native

def IndexRow.live (r : IndexRow) : Bool := r.deletedAt.isNone

/-- The condition of `mark_scope_deleted`. -/
def IndexRow.inScope (tenant : String) (scope : Scope) (provider : String) (r : IndexRow) : Bool :=
  r.tenantId == tenant && r.provider == provider && r.subject == scope.subject && r.live &&
    dimMatches scope.agent r.agent && dimMatches scope.session r.session

/-- The condition of `delete_journal`. -/
def JournalRow.inScope (tenant : String) (scope : Scope) (r : JournalRow) : Bool :=
  r.tenantId == tenant && r.subject == scope.subject &&
    dimMatches scope.agent r.agent && dimMatches scope.session r.session

theorem IndexRow.named_iff {tenant provider native : String} {r : IndexRow} :
    r.named tenant provider native = true ↔
      r.tenantId = tenant ∧ r.provider = provider ∧ r.nativeId = native := by
  simp [named, and_assoc]

theorem IndexRow.inScope_iff {tenant : String} {scope : Scope} {provider : String} {r : IndexRow} :
    r.inScope tenant scope provider = true ↔
      r.tenantId = tenant ∧ r.provider = provider ∧ r.subject = scope.subject ∧ r.live = true ∧
        dimMatches scope.agent r.agent = true ∧ dimMatches scope.session r.session = true := by
  simp [inScope, and_assoc, Subtype.ext_iff]

theorem JournalRow.inScope_iff {tenant : String} {scope : Scope} {r : JournalRow} :
    r.inScope tenant scope = true ↔
      r.tenantId = tenant ∧ r.subject = scope.subject ∧
        dimMatches scope.agent r.agent = true ∧ dimMatches scope.session r.session = true := by
  simp [inScope, and_assoc, Subtype.ext_iff]

/-! ## Lookup by native id -/

/-- What a lookup knows about a native id: a live row, or the `_GONE` marker. An
    id without a sighting was never seen. -/
inductive Sighting where
  | gone
  | live (row : CatalogRow)
  deriving DecidableEq

/-- The dictionary a lookup returns, by native id. -/
abbrev Known := String → Option Sighting

def IndexRow.sighting (r : IndexRow) : Sighting :=
  if r.deletedAt.isSome then .gone else .live r.toRow

/-- `_CHUNK`. -/
def chunkSize : Nat := 500

/-- `_chunks`: consecutive slices of at most `chunkSize` values. -/
def chunks (values : List String) : List (List String) :=
  (List.range ((values.length + chunkSize - 1) / chunkSize)).map fun i =>
    (values.drop (i * chunkSize)).take chunkSize

theorem mem_chunks {values : List String} {v : String} :
    (∃ chunk ∈ chunks values, v ∈ chunk) ↔ v ∈ values := by
  constructor
  · rintro ⟨chunk, hchunk, hv⟩
    obtain ⟨i, -, rfl⟩ := List.mem_map.mp hchunk
    exact List.mem_of_mem_drop (List.mem_of_mem_take hv)
  · intro hv
    obtain ⟨n, hn, rfl⟩ := List.getElem_of_mem hv
    refine ⟨_, List.mem_map.mpr ⟨n / chunkSize, ?_, rfl⟩, ?_⟩
    · have : n / chunkSize < (values.length + chunkSize - 1) / chunkSize := by
        simp only [chunkSize] at *
        omega
      simpa using this
    · rw [List.mem_take_iff_getElem]
      refine ⟨n % chunkSize, ?_, ?_⟩
      · have hmod : n % chunkSize < chunkSize := Nat.mod_lt _ (by decide)
        have hdiv := Nat.div_add_mod' n chunkSize
        simp only [List.length_drop]
        omega
      · have hdiv := Nat.div_add_mod' n chunkSize
        simp only [List.getElem_drop, hdiv]

def Known.set (found : Known) (native : String) (s : Sighting) : Known :=
  fun n => if n = native then some s else found n

@[simp] theorem Known.set_apply {found : Known} {native n : String} {s : Sighting} :
    found.set native s n = if n = native then some s else found n := rfl

/-- `for row in rows: found[row.native_id] = …`. -/
def Known.record (found : Known) (rows : List IndexRow) : Known :=
  rows.foldl (fun found r => found.set r.nativeId r.sighting) found

/-- `_find_by_native`. -/
def findByNative (index : Table indexKeys) (tenant provider : String) (natives : List String) :
    Known :=
  (chunks natives).foldl (fun found chunk =>
    Known.record found (index.select fun r => r.tenantId == tenant && r.provider == provider &&
      chunk.contains r.nativeId)) fun _ => none

/-- Recording rows changes the entry of a native id exactly when one of the rows
    has it. With several of them the last one would win, so they must agree. -/
theorem Known.record_apply {rows : List IndexRow} {found : Known} {n : String}
    (hone : ∀ a ∈ rows, ∀ b ∈ rows, a.nativeId = n → b.nativeId = n → a = b) :
    found.record rows n =
      match rows.find? (·.nativeId == n) with
      | some r => some r.sighting
      | none => found n := by
  induction rows generalizing found with
  | nil => rfl
  | cons r rows ih =>
    have hstep : found.record (r :: rows) = (found.set r.nativeId r.sighting).record rows := rfl
    rw [hstep, ih (fun a ha b hb => hone a (List.mem_cons_of_mem r ha) b (List.mem_cons_of_mem r hb))]
    by_cases hr : r.nativeId = n
    · cases hf : rows.find? (·.nativeId == n) with
      | none => simp [hr]
      | some r' =>
        have hr' : r'.nativeId = n := by simpa using List.find?_some hf
        have hmem : r' ∈ r :: rows := List.mem_cons_of_mem r (List.mem_of_find?_eq_some hf)
        have : r = r' := hone r (List.mem_cons_self ..) r' hmem hr hr'
        simp [← this, hr]
    · have hne : n ≠ r.nativeId := fun h => hr h.symm
      simp [hr, hne]

/-- The row of the index for a native id, if there is one. -/
def indexed (index : Table indexKeys) (tenant provider native : String) : Option IndexRow :=
  index.find? (IndexRow.named tenant provider native)

theorem indexed_some {index : Table indexKeys} {tenant provider native : String} {r : IndexRow}
    (h : indexed index tenant provider native = some r) :
    r ∈ index ∧ r.tenantId = tenant ∧ r.provider = provider ∧ r.nativeId = native := by
  obtain ⟨hr, hp⟩ := Table.find?_some h
  exact ⟨hr, IndexRow.named_iff.mp hp⟩

theorem indexed_of_mem {index : Table indexKeys} {r : IndexRow} (hr : r ∈ index) :
    indexed index r.tenantId r.provider r.nativeId = some r := by
  refine Table.find?_eq_some IndexRow.nativeKey (by simp [indexKeys]) ?_ hr
    (IndexRow.named_iff.mpr ⟨rfl, rfl, rfl⟩)
  intro a b ha hb
  obtain ⟨ha₁, ha₂, ha₃⟩ := IndexRow.named_iff.mp ha
  obtain ⟨hb₁, hb₂, hb₃⟩ := IndexRow.named_iff.mp hb
  simp [IndexRow.nativeKey, ha₁, ha₂, ha₃, hb₁, hb₂, hb₃]

theorem indexed_none {index : Table indexKeys} {tenant provider native : String} :
    indexed index tenant provider native = none ↔
      ∀ r ∈ index, ¬ (r.tenantId = tenant ∧ r.provider = provider ∧ r.nativeId = native) := by
  rw [indexed, Table.find?_none]
  refine forall₂_congr (fun r _ => ?_)
  rw [← IndexRow.named_iff, Bool.not_eq_true]

/-- Two rows for one native id of one tenant at one provider are one row. -/
theorem eq_of_nativeKey {index : Table indexKeys} {a b : IndexRow} (ha : a ∈ index) (hb : b ∈ index)
    (ht : a.tenantId = b.tenantId) (hp : a.provider = b.provider) (hn : a.nativeId = b.nativeId) :
    a = b :=
  Table.eq_of_key IndexRow.nativeKey (by simp [indexKeys]) ha hb
    (by simp [IndexRow.nativeKey, ht, hp, hn])

theorem eq_of_gatewayId {index : Table indexKeys} {a b : IndexRow} (ha : a ∈ index) (hb : b ∈ index)
    (h : a.gatewayId = b.gatewayId) : a = b :=
  Table.eq_of_key IndexRow.idKey (by simp [indexKeys]) ha hb (by simp [IndexRow.idKey, h])

/-- One chunk of the lookup. -/
private theorem record_chunk {index : Table indexKeys} {tenant provider : String}
    {chunk : List String} {found : Known} {n : String} :
    found.record (index.select fun r => r.tenantId == tenant && r.provider == provider &&
        chunk.contains r.nativeId) n =
      if n ∈ chunk then
        match indexed index tenant provider n with
        | some r => some r.sighting
        | none => found n
      else found n := by
  have hselect : ∀ r, r ∈ index.select (fun r => r.tenantId == tenant && r.provider == provider &&
      chunk.contains r.nativeId) ↔
        r ∈ index ∧ r.tenantId = tenant ∧ r.provider = provider ∧ r.nativeId ∈ chunk := by
    intro r
    simp [and_assoc]
  rw [Known.record_apply]
  · cases hi : indexed index tenant provider n with
    | none =>
      rw [indexed_none] at hi
      rw [List.find?_eq_none.mpr]
      · simp
      · intro r hr
        obtain ⟨hmem, ht, hp, -⟩ := (hselect r).mp hr
        simpa using fun hn => hi r hmem ⟨ht, hp, hn⟩
    | some r =>
      obtain ⟨hmem, ht, hp, hn⟩ := indexed_some hi
      by_cases hchunk : n ∈ chunk
      · rw [if_pos hchunk]
        cases hf : List.find? (·.nativeId == n) (index.select fun r => r.tenantId == tenant &&
            r.provider == provider && chunk.contains r.nativeId) with
        | none =>
          have := List.find?_eq_none.mp hf r ((hselect r).mpr ⟨hmem, ht, hp, hn ▸ hchunk⟩)
          simp [hn] at this
        | some r' =>
          obtain ⟨hmem', ht', hp', -⟩ := (hselect r').mp (List.mem_of_find?_eq_some hf)
          have hn' : r'.nativeId = n := by simpa using List.find?_some hf
          rw [eq_of_nativeKey hmem' hmem (ht'.trans ht.symm) (hp'.trans hp.symm) (hn'.trans hn.symm)]
      · rw [if_neg hchunk, List.find?_eq_none.mpr]
        intro r' hr'
        obtain ⟨-, -, -, hc⟩ := (hselect r').mp hr'
        simpa using fun hn' : r'.nativeId = n => hchunk (hn' ▸ hc)
  · intro a ha b hb hna hnb
    obtain ⟨hma, hta, hpa, -⟩ := (hselect a).mp ha
    obtain ⟨hmb, htb, hpb, -⟩ := (hselect b).mp hb
    exact eq_of_nativeKey hma hmb (hta.trans htb.symm) (hpa.trans hpb.symm) (hna.trans hnb.symm)

/-- The chunked lookup is the lookup of each id on its own. -/
theorem findByNative_apply {index : Table indexKeys} {tenant provider : String}
    {natives : List String} {n : String} :
    findByNative index tenant provider natives n =
      if n ∈ natives then (indexed index tenant provider n).map IndexRow.sighting else none := by
  have hfold : ∀ (cs : List (List String)) (found : Known),
      cs.foldl (fun found chunk => found.record (index.select fun r => r.tenantId == tenant &&
          r.provider == provider && chunk.contains r.nativeId)) found n =
        if ∃ chunk ∈ cs, n ∈ chunk then
          match indexed index tenant provider n with
          | some r => some r.sighting
          | none => found n
        else found n := by
    intro cs
    induction cs with
    | nil => intro found; simp
    | cons chunk cs ih =>
      intro found
      rw [List.foldl_cons, ih, record_chunk]
      by_cases hhead : n ∈ chunk <;> by_cases htail : ∃ chunk ∈ cs, n ∈ chunk <;>
        cases hi : indexed index tenant provider n <;> simp_all
  rw [findByNative, hfold]
  simp only [mem_chunks]
  cases indexed index tenant provider n <;> rfl

end Memgw
