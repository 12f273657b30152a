-- SUMMARY: Which accepted configurations can be built: every check of the constructors, held against the variables.
import Memgw.Settings.Settings

/-!
# Configurations that can be built

What `from_env` accepts names known providers with their credentials. The width of
the embeddings is looked up later, when the adapter is built, and a model that is
not in the table has none unless the dimension is given.
-/

namespace Memgw

/-! ## What is accepted -/

/-- Settings that `from_env` accepts, held against the variables. -/
structure Accepted (e : Environment) (s : Settings) : Prop where
  providers : s.providers = csv (e.get "MEMGW_PROVIDERS" "pgvector")
  known : ∀ name ∈ s.providers, name ∈ knownProviders
  nonempty : s.providers ≠ []
  default : s.defaultProvider ∈ s.providers
  dimension : optionalInt (e "MEMGW_EMBEDDING_DIMENSION") = .ok s.embeddingDimension
  model : s.embeddingModel = e.get "MEMGW_EMBEDDING_MODEL" defaultEmbeddingModel
  pgvectorUrl : s.pgvectorUrl = e.get "MEMGW_PGVECTOR_URL" defaultPgvectorUrl
  catalogUrl : s.catalogUrl = e.get "MEMGW_CATALOG_URL" defaultCatalogUrl
  credentials : ∀ name ∈ s.providers, s.checkCredential name = .ok ()

theorem fromEnv_ok {e : Environment} {s : Settings} (h : Settings.fromEnv e = .ok s) :
    Accepted e s := by
  simp only [Settings.fromEnv] at h
  split at h
  · cases h
  rename_i hunknown
  split at h
  · cases h
  rename_i first rest hproviders
  split at h
  · cases h
  rename_i hdefault
  obtain ⟨dimension, hdimension, h⟩ := bind_ok_iff.mp h
  obtain ⟨port, -, h⟩ := bind_ok_iff.mp h
  obtain ⟨u, hcredentials, h⟩ := bind_ok_iff.mp h
  obtain rfl := Except.ok.inj h
  refine ⟨rfl, ?_, ?_, ?_, hdimension, rfl, rfl, rfl, forM_ok hcredentials⟩
  · simpa [Settings.filled] using hunknown
  · simp [Settings.filled, hproviders]
  · simpa [Settings.filled] using hdefault

/-! ## What is built -/

/-- The width of the embeddings that the variables determine: the dimension that is
    given, or that of a known model. -/
def widthOf (e : Environment) : Option Int :=
  match optionalInt (e "MEMGW_EMBEDDING_DIMENSION") with
  | .ok (some dimension) => some dimension
  | _ => openaiDimensions.lookup (e.get "MEMGW_EMBEDDING_MODEL" defaultEmbeddingModel)

/-- The variables leave the self-hosted store out, or determine a width for it. A
    table that a PostgreSQL database already has for it is of this width. -/
def Buildable (db : Databases) (e : Environment) : Prop :=
  "pgvector" ∈ csv (e.get "MEMGW_PROVIDERS" "pgvector") →
    ∃ width, widthOf e = some width ∧
      (db.dialect (e.get "MEMGW_PGVECTOR_URL" defaultPgvectorUrl) = "postgresql" →
        ∀ found ∈ db.storedWidth (e.get "MEMGW_PGVECTOR_URL" defaultPgvectorUrl), found = width)

variable {db : Databases} {e : Environment} {s : Settings}

theorem widthOf_eq (h : Accepted e s) :
    widthOf e = (s.embeddingDimension <|> openaiDimensions.lookup s.embeddingModel) := by
  rw [widthOf, h.dimension, h.model]
  cases s.embeddingDimension <;> rfl

/-- The embedder comes up exactly where a width is determined. -/
theorem embedder_ok_iff (h : Accepted e s) {width : Int} :
    (∃ embedder, s.embedder = .ok embedder ∧ embedder.dimension = width) ↔
      widthOf e = some width := by
  rw [widthOf_eq h, Settings.embedder, OpenAIEmbedder.init]
  cases s.embeddingDimension <|> openaiDimensions.lookup s.embeddingModel with
  | none => simp
  | some d => simp

theorem pgvectorInit_ok_iff {url : String} {embedder : OpenAIEmbedder} :
    pgvectorInit db url embedder = .ok () ↔
      (db.dialect url = "postgresql" →
        ∀ found ∈ db.storedWidth url, found = embedder.dimension) := by
  unfold pgvectorInit
  split
  · rename_i hdialect
    cases hfound : db.storedWidth url with
    | none => simp [hdialect]
    | some found =>
      by_cases hwidth : found = embedder.dimension
      · simp [hwidth]
      · simp [hdialect, hwidth]
  · rename_i hdialect
    simp [hdialect]

theorem embedder_error {exc : Exc} (h : s.embedder = .error exc) :
    ∃ text, exc = valueError text := by
  simp only [Settings.embedder, OpenAIEmbedder.init] at h
  split at h
  · cases h
  · exact ⟨_, (Except.error.inj h).symm⟩

theorem pgvectorInit_error {url : String} {embedder : OpenAIEmbedder} {exc : Exc}
    (h : pgvectorInit db url embedder = .error exc) : ∃ text, exc = valueError text := by
  simp only [pgvectorInit] at h
  split at h
  · split at h
    · split at h
      · exact ⟨_, (Except.error.inj h).symm⟩
      · cases h
    · cases h
  · cases h

/-- Every check of the constructors is a `ValueError`. -/
theorem buildAdapter_error {name : String} {exc : Exc} (h : buildAdapter db name s = .error exc) :
    ∃ text, exc = valueError text := by
  simp only [buildAdapter] at h
  split at h
  · rcases bind_error_iff.mp h with h | ⟨embedder, -, h⟩
    · exact embedder_error h
    · rcases bind_error_iff.mp h with h | ⟨u, -, h⟩
      · exact pgvectorInit_error h
      · cases h
  · split at h
    · cases h
    · split at h
      · cases h
      · exact ⟨_, (Except.error.inj h).symm⟩

/-- So to raise none of them is to come up. -/
theorem buildAdapter_ok_iff {name : String} :
    (∀ text, buildAdapter db name s ≠ .error (valueError text)) ↔
      ∃ adapter, buildAdapter db name s = .ok adapter := by
  cases h : buildAdapter db name s with
  | ok adapter => simp
  | error exc =>
    obtain ⟨text, rfl⟩ := buildAdapter_error h
    simp

/-- The self-hosted store comes up exactly with a width, and over a table of that
    width. -/
theorem buildAdapter_pgvector_iff (h : Accepted e s) :
    (∃ adapter, buildAdapter db "pgvector" s = .ok adapter) ↔
      ∃ width, widthOf e = some width ∧
        (db.dialect s.pgvectorUrl = "postgresql" →
          ∀ found ∈ db.storedWidth s.pgvectorUrl, found = width) := by
  rw [buildAdapter, if_pos rfl]
  constructor
  · rintro ⟨adapter, hbuilt⟩
    obtain ⟨embedder, hembedder, hbuilt⟩ := bind_ok_iff.mp hbuilt
    obtain ⟨u, hinit, -⟩ := bind_ok_iff.mp hbuilt
    exact ⟨embedder.dimension, (embedder_ok_iff h).mp ⟨embedder, hembedder, rfl⟩,
      pgvectorInit_ok_iff.mp hinit⟩
  · rintro ⟨width, hwidth, hfound⟩
    obtain ⟨embedder, hembedder, rfl⟩ := (embedder_ok_iff h).mpr hwidth
    refine ⟨.pgvector s.pgvectorUrl embedder s.extractor, bind_ok_iff.mpr ⟨embedder, hembedder, ?_⟩⟩
    exact bind_ok_iff.mpr ⟨(), pgvectorInit_ok_iff.mpr hfound, rfl⟩

/-- The other recipes ask for nothing more. -/
theorem buildAdapter_other {name : String} (hknown : name ∈ knownProviders)
    (hname : name ≠ "pgvector") : ∃ adapter, buildAdapter db name s = .ok adapter := by
  rw [buildAdapter, if_neg hname]
  by_cases hmem0 : name = "mem0"
  · exact ⟨_, if_pos hmem0⟩
  · rw [if_neg hmem0]
    have hzep : name = "zep" := by
      simpa [knownProviders, hname, hmem0] using hknown
    exact ⟨_, if_pos hzep⟩

/-- A provider that passes has its entry among the required keys, and its key. -/
theorem checkCredential_ok {name : String} (h : s.checkCredential name = .ok ()) :
    ∃ var why, requiredKeys.lookup name = some (var, why) ∧ s.holds var = true := by
  unfold Settings.checkCredential at h
  split at h
  · cases h
  · rename_i var why hlookup
    split at h
    · rename_i hholds
      exact ⟨var, why, hlookup, hholds⟩
    · cases h

/-- Every provider of an accepted configuration is known and has its credential. All of
    them can be built exactly when the self-hosted store, where it is among them, has
    a width. -/
theorem accepted_builds_iff (db : Databases) (e : Environment) (s : Settings)
    (h : Settings.fromEnv e = .ok s) :
    (∀ name ∈ s.providers, name ∈ knownProviders ∧
      ∃ var why, requiredKeys.lookup name = some (var, why) ∧ s.holds var = true) ∧
    ((∀ name ∈ s.providers, ∀ text, buildAdapter db name s ≠ .error (valueError text)) ↔
      Buildable db e) := by
  have hs := fromEnv_ok h
  refine ⟨fun name hname => ?_, ?_⟩
  · exact ⟨hs.known name hname, checkCredential_ok (hs.credentials name hname)⟩
  rw [Buildable, ← hs.providers, ← hs.pgvectorUrl]
  constructor
  · intro hbuild hpgvector
    exact (buildAdapter_pgvector_iff hs).mp (buildAdapter_ok_iff.mp (hbuild _ hpgvector))
  · intro hwidth name hname
    refine buildAdapter_ok_iff.mpr ?_
    by_cases hpgvector : name = "pgvector"
    · subst hpgvector
      exact (buildAdapter_pgvector_iff hs).mpr (hwidth hname)
    · exact buildAdapter_other (hs.known name hname) hpgvector

/-- Databases without a table for vectors yet. -/
def newDatabases : Databases := ⟨fun _ => "sqlite", fun _ => none⟩

/-- A key alone is a configuration that can be built. -/
theorem key_alone_builds : ∃ s, Settings.fromEnv (givenOnly [("OPENAI_API_KEY", "sk-1")]) = .ok s ∧
    ∀ name ∈ s.providers, ∀ text, buildAdapter newDatabases name s ≠ .error (valueError text) := by
  have hready : Buildable newDatabases (givenOnly [("OPENAI_API_KEY", "sk-1")]) := by
    intro _
    exact ⟨1536, rfl, fun hdialect => absurd hdialect (by decide)⟩
  exact ⟨_, rfl, (accepted_builds_iff newDatabases _ _ rfl).2.mpr hready⟩

/-- A model that is not in the table passes, and cannot be built. -/
theorem unknown_model_accepted : ¬ ∀ db e s, Settings.fromEnv e = .ok s →
    ∀ name ∈ s.providers, ∀ text, buildAdapter db name s ≠ .error (valueError text) := by
  intro h
  exact h newDatabases
    (givenOnly [("OPENAI_API_KEY", "sk-1"), ("MEMGW_EMBEDDING_MODEL", "text-embedding-4")]) _ rfl
    "pgvector" (by decide) _ rfl

end Memgw
