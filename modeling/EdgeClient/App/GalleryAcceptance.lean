import EdgeClient.App.AttendanceCoordinator
import EdgeClient.Storage.GalleryPersistence
import EdgeClient.Sync.GalleryDocument
import EdgeClient.Vision.MatcherReference

/-!
# A gallery that was read is accepted everywhere

Five checks stand between a gallery document and an event that names one of its identities: those
of the reader, the repository, the coordinator, the matcher and the envelope. What the reader lets
through passes all the others. The embeddings are scaled to unit length three times on the way,
which changes them only once, so comparisons say what the document says.
-/

namespace EdgeClient.App

open Basis Basis.Extended Vision Storage Sync

/-! ## What the reader lets through -/

/-- A template of unit length with a name. -/
structure ReadTemplate (t : GalleryTemplate (Extended ℝ)) : Prop where
  /-- The identity may stand in an event. -/
  identity : validId t.identityId = true
  /-- The embedding has been normalized. -/
  unit : ∃ x, 1e-12 ≤ embeddingNorm x ∧ t.embedding = exactEmbedding (unitEmbedding x)

/-- A gallery that the reader returns. -/
structure ReadGallery (hash : String) (g : GallerySnapshot (Extended ℝ)) : Prop where
  /-- Every template has an identifier. -/
  paired : g.templateIds.length = g.templates.length
  /-- The identifiers are distinct. -/
  distinct : g.templateIds.Nodup
  /-- The version may stand in an event. -/
  version : validId g.version = true
  /-- The embeddings are those of the active model. -/
  model : g.modelSha256 = hash
  /-- The templates have names and unit length. -/
  templates : ∀ t ∈ g.templates, ReadTemplate t

section Reader

variable {w : Wire (Extended ℝ)} {b : Blobs (Extended ℝ)}

/-- An accepted embedding is of unit length, made from one that is not almost zero. The division
is by the length, which the parser has bounded below. -/
theorem unit_of_parseEmbedding {data : String} {v : Embedding (Extended ℝ)}
    (h : parseEmbedding b (Extended ℝ) data = .ok v) :
    ∃ x, 1e-12 ≤ embeddingNorm x ∧ v = exactEmbedding (unitEmbedding x) := by
  unfold parseEmbedding at h
  split at h
  · cases h
  split at h
  · cases h
  rename_i bytes hbytes
  split at h
  · cases h
  split at h
  · unfold normalizeGalleryEmbedding at h
    split at h
    · rename_i u hu
      cases h
      obtain ⟨x, -, hlong, hunit⟩ := normalizeEmbedding_exact.mp hu
      exact ⟨x, hlong, hunit⟩
    · cases h
  · cases h

/-- One template more. Its identifier is a new one, and its embedding has unit length. -/
theorem parseTemplate_ok {seen seen' : List (String × GalleryTemplate (Extended ℝ))}
    {v : Json (Extended ℝ)} (h : parseTemplate b seen v = .ok seen') :
    ∃ id t, seen' = seen ++ [(id, t)] ∧ id ∉ seen.map (·.1) ∧ ReadTemplate t := by
  unfold parseTemplate at h
  obtain ⟨o, -, h⟩ := bind_eq_ok.mp h
  obtain ⟨id, -, h⟩ := bind_eq_ok.mp h
  obtain ⟨-, -, h⟩ := bind_eq_ok.mp h
  split at h
  · cases h
  rename_i hfresh
  obtain ⟨identity, -, h⟩ := bind_eq_ok.mp h
  obtain ⟨⟨⟩, hidentity, h⟩ := bind_eq_ok.mp h
  obtain ⟨-, -, h⟩ := bind_eq_ok.mp h
  obtain ⟨-, -, h⟩ := bind_eq_ok.mp h
  obtain ⟨data, -, h⟩ := bind_eq_ok.mp h
  obtain ⟨embedding, hembedding, h⟩ := bind_eq_ok.mp h
  cases h
  exact ⟨id, ⟨identity, embedding⟩, rfl, hfresh, checkId_ok.mp hidentity,
    unit_of_parseEmbedding hembedding⟩

/-- The templates of a document. The invariant of the loop speaks of the templates that were read
so far. -/
theorem distinct_of_parseTemplates {list : List (Json (Extended ℝ))}
    {templates : List (String × GalleryTemplate (Extended ℝ))}
    (h : list.foldlM (parseTemplate b) [] = .ok templates) :
    (templates.map (·.1)).Nodup ∧ ∀ t ∈ templates.map (·.2), ReadTemplate t := by
  refine foldlM_ok (fun _ (seen : List (String × GalleryTemplate (Extended ℝ))) =>
    (seen.map Prod.fst).Nodup ∧ ∀ t ∈ seen.map Prod.snd, ReadTemplate t) ?_ ?_ h
  · exact ⟨List.nodup_nil, fun t ht => absurd ht List.not_mem_nil⟩
  rintro _ _ _ seen _ _ ⟨hdistinct, hread⟩ hstep
  obtain ⟨id, t, rfl, hfresh, ht⟩ := parseTemplate_ok hstep
  rw [List.map_append, List.map_append]
  refine ⟨List.concat_eq_append ▸ hdistinct.concat hfresh, fun t' ht' => ?_⟩
  rcases List.mem_append.mp ht' with hmem | hmem
  · exact hread t' hmem
  · rw [List.mem_singleton.mp hmem]
    exact ht

/-- What the parser accepts is a gallery that can be stored, loaded and served. The parts are read
off the checks of the parser in their order. -/
theorem readGallery_of_parse {document etag hash : String} {g : GallerySnapshot (Extended ℝ)}
    (h : parseGallery w b document etag hash = .ok g) : ReadGallery hash g := by
  unfold parseGallery at h
  dsimp only at h
  by_cases hsize : 32 * 1024 * 1024 < document.utf8ByteSize
  · rw [if_pos hsize] at h
    cases h
  rw [if_neg hsize] at h
  obtain ⟨o, -, h⟩ := bind_eq_ok.mp h
  obtain ⟨-, -, h⟩ := bind_eq_ok.mp h
  obtain ⟨-, -, h⟩ := bind_eq_ok.mp h
  obtain ⟨-, -, h⟩ := bind_eq_ok.mp h
  obtain ⟨modelId, -, h⟩ := bind_eq_ok.mp h
  obtain ⟨modelSha256, -, h⟩ := bind_eq_ok.mp h
  obtain ⟨version, -, h⟩ := bind_eq_ok.mp h
  obtain ⟨⟨⟩, hversion, h⟩ := bind_eq_ok.mp h
  split at h
  · cases h
  split at h
  · cases h
  rename_i hmodel
  obtain ⟨list, -, h⟩ := bind_eq_ok.mp h
  split at h
  · cases h
  obtain ⟨templates, htemplates, h⟩ := bind_eq_ok.mp h
  cases h
  obtain ⟨hdistinct, hread⟩ := distinct_of_parseTemplates htemplates
  exact ⟨by simp, hdistinct, checkId_ok.mp hversion, by simpa using (not_or.mp hmodel).2, hread⟩

end Reader

/-! ## Unit length -/

/-- A vector that has been normalized has length one. The squares of the components are divided by
the square of the length. -/
theorem embeddingNorm_unit {x : Components} (hx : 1e-12 ≤ embeddingNorm x) :
    embeddingNorm (unitEmbedding x) = 1 := by
  have hpos : 0 < embeddingNorm x := lt_of_lt_of_le (by norm_num) hx
  have hsum : ∑ j, x j * x j = embeddingNorm x * embeddingNorm x :=
    (Real.mul_self_sqrt (Finset.sum_nonneg fun j _ => mul_self_nonneg (x j))).symm
  have hunit : ∑ j, unitEmbedding x j * unitEmbedding x j = 1 := by
    simp only [unitEmbedding, div_mul_div_comm]
    rw [← Finset.sum_div, hsum, div_self (mul_pos hpos hpos).ne']
  rw [embeddingNorm, hunit, Real.sqrt_one]

/-- Normalizing twice is normalizing once. -/
theorem unitEmbedding_unit {x : Components} (hx : 1e-12 ≤ embeddingNorm x) :
    unitEmbedding (unitEmbedding x) = unitEmbedding x := by
  funext j
  rw [unitEmbedding, embeddingNorm_unit hx, div_one]

namespace ReadTemplate

variable {t : GalleryTemplate (Extended ℝ)}

/-- The identity of a template that was read has a name, since its identifier is valid. -/
theorem name_ne_empty (h : ReadTemplate t) : t.identityId ≠ "" := by
  intro hempty
  have hidentity := h.identity
  rw [hempty] at hidentity
  exact absurd hidentity (by decide)

/-- The repository stores the template as it is. The stored embedding has length one, so dividing
by the length once more changes nothing. -/
theorem checkTemplate_eq (h : ReadTemplate t) :
    GalleryRepository.checkTemplate (Extended ℝ) t = .ok t := by
  obtain ⟨x, hx, hunit⟩ := h.unit
  have hnormal : normalizeGalleryEmbedding (Extended ℝ) t.embedding = .ok t.embedding := by
    unfold normalizeGalleryEmbedding
    rw [normalizeEmbedding_exact.mpr ⟨unitEmbedding x, hunit, ?_, ?_⟩]
    · rfl
    · rw [embeddingNorm_unit hx]
      norm_num
    · rw [unitEmbedding_unit hx, hunit]
  unfold GalleryRepository.checkTemplate
  rw [if_neg h.name_ne_empty, hnormal]
  rfl

/-- The matcher can load the template. -/
theorem loadable (h : ReadTemplate t) : Loadable t := by
  obtain ⟨x, hx, hunit⟩ := h.unit
  refine ⟨h.name_ne_empty, unitEmbedding x, hunit, ?_⟩
  rw [embeddingNorm_unit hx]
  norm_num

end ReadTemplate

/-! ## The other checks -/

namespace ReadGallery

variable {hash : String} {g : GallerySnapshot (Extended ℝ)}

/-- The repository accepts every template that the parser accepts, and changes none: the embedding
has unit length already. -/
theorem checkTemplates_eq (h : ReadGallery hash g) :
    g.templates.mapM (GalleryRepository.checkTemplate (Extended ℝ)) = .ok g.templates :=
  mapM_eq_ok.mpr (List.forall₂_same.mpr fun t ht => (h.templates t ht).checkTemplate_eq)

/-- The repository accepts the gallery. -/
theorem storable (h : ReadGallery hash g) : GalleryRepository.Storable g where
  paired := h.paired
  version hempty := by
    have hvalid := h.version
    rw [hempty] at hvalid
    exact absurd hvalid (by decide)
  distinct := h.distinct
  templates t ht := (h.templates t ht).loadable

/-- What is loaded again is what was read. Normalizing an embedding of unit length changes
nothing, and loading only sorts. -/
theorem load_entries (h : ReadGallery hash g) {t t' : GalleryTables (Extended ℝ)}
    (hstored : GalleryRepository.replace (Extended ℝ) g t = .ok ((), t')) :
    (GalleryRepository.load t').metadata = g.metadata ∧
      (GalleryRepository.load t').entries.Perm g.entries ∧
      (GalleryRepository.load t').templates.Perm g.templates := by
  obtain ⟨hmetadata, hpaired, -, -, values, hvalues, hperm⟩ :=
    GalleryRepository.load_replace hstored
  have hsame : g.templates = values :=
    Except.ok.inj (h.checkTemplates_eq.symm.trans (mapM_eq_ok.mpr hvalues))
  rw [← hsame] at hperm
  refine ⟨hmetadata, hperm, ?_⟩
  have htemplates := hperm.map Prod.snd
  rwa [GallerySnapshot.entries, List.map_snd_zip hpaired.ge, List.map_snd_zip h.paired.ge]
    at htemplates

end ReadGallery

/-- The reference depends on the set of the templates. Each clause of the reference asks only
which templates there are and which scores they have. -/
theorem reference_congr {templates templates' : List (GalleryTemplate (Extended ℝ))}
    {x : Components} {m : GalleryMatch (Extended ℝ)} (hsame : ∀ t, t ∈ templates ↔ t ∈ templates')
    (h : Reference templates x m) : Reference templates' x m := by
  have hnil : templates = [] ↔ templates' = [] := by
    simp only [List.eq_nil_iff_forall_not_mem, hsame]
  refine ⟨by rw [← hnil]; exact h.invalid, h.empty, fun hvalid => ?_,
    fun hvalid hall => ?_, fun hvalid hother => ?_⟩
  · simpa only [scores_congr hsame] using h.winner hvalid
  · exact h.single hvalid fun t ht => hall t ((hsame t).mp ht)
  · simp only [← hsame] at hother
    simpa only [scores_congr hsame] using h.several hvalid hother

/-! ## Events -/

/-- What a platform with random bytes accepts as an observation of somebody. -/
structure Recordable (w : Wire (Extended ℝ)) (e : AttendanceObservation (Extended ℝ)) : Prop where
  /-- The time is positive and fits an identifier. -/
  time : 0 < e.occurredAtUtcMs ∧ e.occurredAtUtcMs ≤ maxUuidMs
  /-- The platform knows the date. -/
  date : ∃ seconds, w.calendar (e.occurredAtUtcMs.toNat / 1000 : ℕ) = some seconds
  /-- The numbers are finite. -/
  finite : isFinite e.similarity = true ∧ isFinite e.similarityMargin = true ∧
    isFinite e.padMedianPReal = true ∧ isFinite e.padMedianMarginPReal = true

/-- An observation under valid names becomes a record. Every check of `envelope` succeeds, in the
order in which it is made. -/
theorem envelope_returns {w : Wire (Extended ℝ)} {e : AttendanceObservation (Extended ℝ)}
    (he : Recordable w e) {device version : String} (hdevice : validId device = true)
    (hversion : validId version = true) (hidentity : validId e.identityId = true)
    (random : Fin 16 → UInt8) :
    ∃ r, envelope w (some random) e device version = .ok r := by
  obtain ⟨seconds, hseconds⟩ := he.date
  obtain ⟨hsimilarity, hmargin, hpad, hpadMargin⟩ := he.finite
  have hid : ∃ id, uuidV7 (some random) e.occurredAtUtcMs = .ok id := by
    unfold uuidV7
    rw [if_neg (by have := he.time; omega)]
    exact ⟨_, rfl⟩
  have htime : ∃ text, timestamp w e.occurredAtUtcMs = .ok text := by
    unfold timestamp
    rw [if_neg (not_le.mpr he.time.1), hseconds]
    exact ⟨_, rfl⟩
  obtain ⟨id, hid⟩ := hid
  obtain ⟨occurredAt, htime⟩ := htime
  have hnumber : ∀ key (x : Extended ℝ), isFinite x = true →
      number key (widen x : Extended ℝ) = .ok (key, .number x) := fun key x hx => if_pos hx
  have hmembers : ∃ members, eventMembers (Extended ℝ) e device version id occurredAt =
      .ok members := by
    unfold eventMembers
    refine exists_ok_bind (hnumber "similarity" _ hsimilarity) ?_
    refine exists_ok_bind (hnumber "similarity_margin" _ hmargin) ?_
    refine exists_ok_bind (hnumber "pad_median_p_real" _ hpad) ?_
    exact exists_ok_bind (hnumber "pad_median_margin_p_real" _ hpadMargin) ⟨_, rfl⟩
  obtain ⟨members, hmembers⟩ := hmembers
  unfold envelope
  refine exists_ok_bind (checkId_ok.mpr hdevice) ?_
  refine exists_ok_bind (checkId_ok.mpr hversion) ?_
  refine exists_ok_bind (checkId_ok.mpr hidentity) ?_
  refine exists_ok_bind hid ?_
  refine exists_ok_bind htime ?_
  exact exists_ok_bind hmembers ⟨_, rfl⟩

/-- What a gallery that was read is for the application, whatever gallery was stored before. Each
field is one of the places where the application reads the gallery again. -/
structure Serves (w : Wire (Extended ℝ)) (hash : String) (g : GallerySnapshot (Extended ℝ))
    (stored : GalleryTables (Extended ℝ)) : Prop where
  /-- The same gallery is loaded again. -/
  metadata : (GalleryRepository.load stored).metadata = g.metadata
  /-- Its entries are unchanged. -/
  entries : (GalleryRepository.load stored).entries.Perm g.entries
  /-- A coordinator for the same model does not refuse it. -/
  model : ∀ c : AttendanceCoordinator, c.modelHash = hash →
    c.checkModel (GalleryRepository.load stored) = .ok ()
  /-- The matcher loads it and answers every query as the document says, after any others. -/
  matcher : ∃ m, GalleryMatcher.replace (Extended ℝ) (GalleryRepository.load stored).templates =
    .ok m ∧ ∀ (queries : List (Embedding (Extended ℝ))) (x : Components), ∃ r m',
      (runFrom MatcherCall.perform m (queries.map .match)).match (Extended ℝ) (exactEmbedding x) =
        .ok (r, m') ∧
      Reference g.templates x r
  /-- Every identity and the version may stand in an event. -/
  events : ∀ t ∈ g.templates, ∀ e : AttendanceObservation (Extended ℝ), Recordable w e →
    e.identityId = t.identityId → ∀ device, validId device = true → ∀ random,
      ∃ r, envelope w (some random) e device (GalleryRepository.load stored).version = .ok r

/-- A gallery that was read once is stored, loaded, installed and named in events without an
exception. -/
theorem read_gallery_serves {w : Wire (Extended ℝ)} {b : Blobs (Extended ℝ)}
    {document etag hash : String} {g : GallerySnapshot (Extended ℝ)}
    (h : parseGallery w b document etag hash = .ok g) (t : GalleryTables (Extended ℝ)) :
    ∃ t', GalleryRepository.replace (Extended ℝ) g t = .ok ((), t') ∧ Serves w hash g t' := by
  have hread := readGallery_of_parse h
  obtain ⟨t', hstored⟩ := GalleryRepository.replace_storable hread.storable t
  obtain ⟨hmetadata, hentries, htemplates⟩ := hread.load_entries hstored
  have hversion : (GalleryRepository.load t').version = g.version :=
    congrArg GalleryMetadata.version hmetadata
  have hmodel : (GalleryRepository.load t').modelSha256 = g.modelSha256 :=
    congrArg GalleryMetadata.modelSha256 hmetadata
  refine ⟨t', hstored, hmetadata, hentries, fun c hc => ?_, ?_, fun t ht e he hidentity device
    hdevice random => ?_⟩
  · refine if_neg fun hother => hother.2 ?_
    rw [hmodel, hread.model, hc]
  · refine ⟨_, replace_eq_ok.mpr ⟨fun t ht => ?_, rfl⟩, fun queries x => ?_⟩
    · exact (hread.templates t (htemplates.mem_iff.mp ht)).loadable
    · obtain ⟨r, m', hmatch, href⟩ :=
        (MatcherCall.same_queries queries (.refl _)).answers x
      exact ⟨r, m', hmatch, reference_congr (fun t => htemplates.mem_iff) href⟩
  · exact envelope_returns he hdevice (hversion ▸ hread.version)
      (hidentity ▸ (hread.templates t ht).identity) random

/-! ## A gallery of one template -/

/-- Base64 of twelve bytes: the number one in single precision, three times. -/
def threeOnes : String := "AACAPwAAgD8AAIA/"

/-- Base64 of `3 * n` ones. -/
def onesText : ℕ → String
  | 0 => ""
  | n + 1 => threeOnes ++ onesText n

/-- Each three ones take sixteen characters. -/
theorem utf8ByteSize_onesText (n : ℕ) : (onesText n).utf8ByteSize = 16 * n := by
  induction n with
  | zero => rfl
  | succ n ih =>
    have hthree : threeOnes.utf8ByteSize = 16 := by decide
    rw [onesText, String.utf8ByteSize_append, ih, hthree]
    omega

/-- Base64 of 512 ones. -/
def allOnes : String := onesText 170 ++ "AACAPwAAgD8="

/-- The text of 512 ones has the one length that the parser accepts. -/
theorem utf8ByteSize_allOnes : allOnes.utf8ByteSize = 2732 := by
  have hlast : "AACAPwAAgD8=".utf8ByteSize = 12 := by decide
  rw [allOnes, String.utf8ByteSize_append, utf8ByteSize_onesText, hlast]

/-- The bytes of `n` ones, the lowest byte first. -/
def onesBytes : ℕ → List UInt8
  | 0 => []
  | n + 1 => 0 :: 0 :: 0x80 :: 0x3f :: onesBytes n

/-- Each one takes four bytes. -/
theorem length_onesBytes (n : ℕ) : (onesBytes n).length = 4 * n := by
  induction n with
  | zero => rfl
  | succ n ih =>
    simp only [onesBytes, List.length_cons, ih]
    omega

/-- The four bytes of each component are those of the number one in single precision, with the
lowest byte in front. -/
theorem onesBytes_getD {n j : ℕ} (hj : j < n) :
    (onesBytes n).getD (4 * j) 0 = 0 ∧ (onesBytes n).getD (4 * j + 1) 0 = 0 ∧
      (onesBytes n).getD (4 * j + 2) 0 = 0x80 ∧ (onesBytes n).getD (4 * j + 3) 0 = 0x3f := by
  induction n generalizing j with
  | zero => exact absurd hj (Nat.not_lt_zero j)
  | succ n ih =>
    cases j with
    | zero => exact ⟨rfl, rfl, rfl, rfl⟩
    | succ j => exact ih (Nat.lt_of_succ_lt_succ hj)

/-- The members of a template. -/
def smallTemplate (data : String) : JsonObject (Extended ℝ) :=
  [text "template_id" "t1", text "identity_id" "visitor", ("dimension", .number (.fin (512 : ℚ))),
    text "encoding" "f32le-base64", text "data" data]

/-- The members of a gallery document with one template. -/
def smallMembers (data : String) : JsonObject (Extended ℝ) :=
  [("schema_version", .number (.fin (1 : ℚ))), ("embedding_dimension", .number (.fin (512 : ℚ))),
    text "embedding_encoding" "f32le-base64", text "embedding_model" "insightface/w600k_r50",
    text "model_sha256" "hash", text "gallery_version" "v1",
    ("templates", .array [.object (smallTemplate data)])]

/-- The document up to the embedding. -/
def smallHead : String :=
  "\x7b\"schema_version\":1,\"embedding_dimension\":512,\"embedding_encoding\":\"f32le-base64\"," ++
  "\"embedding_model\":\"insightface/w600k_r50\",\"model_sha256\":\"hash\"," ++
  "\"gallery_version\":\"v1\",\"templates\":[\x7b\"template_id\":\"t1\"," ++
  "\"identity_id\":\"visitor\",\"dimension\":512,\"encoding\":\"f32le-base64\",\"data\":\""

/-- The document. -/
def smallDocument : String := smallHead ++ (allOnes ++ "\"\x7d]\x7d")

/-- A platform that reads the document. -/
def smallWire : Wire (Extended ℝ) where
  parse s := if s = smallDocument then some (smallMembers allOnes) else none
  stringify _ := smallDocument
  calendar seconds := some (toString seconds.toNat)
  httpDate _ := none

/-- A platform that reads its embedding. -/
def smallBlobs : Blobs (Extended ℝ) where
  base64 s := if s = allOnes then some (onesBytes 512) else none
  float32 b₀ b₁ b₂ b₃ := if b₀ = 0 ∧ b₁ = 0 ∧ b₂ = 0x80 ∧ b₃ = 0x3f then .fin 1 else .nan

/-- The bytes of 512 ones are read as the embedding of 512 ones. -/
theorem embedding_onesBytes : smallBlobs.embedding (onesBytes 512) = exactEmbedding fun _ => 1 :=
  funext fun j => if_pos (onesBytes_getD j.isLt)

/-- The embedding of ones is long enough to be brought to unit length. -/
theorem norm_ones : 1e-12 ≤ embeddingNorm fun _ => 1 := by
  have hlong : (1 : ℝ) ≤ embeddingNorm fun _ => 1 := by
    rw [embeddingNorm, Real.one_le_sqrt, Finset.sum_const, Finset.card_univ, Fintype.card_fin]
    norm_num [kEmbeddingSize]
  exact le_trans (by norm_num) hlong

/-- An embedding of the right size and sufficient length is read. The four checks are passed one
after the other. -/
theorem parseEmbedding_returns {b : Blobs (Extended ℝ)} {data : String} {bytes : List UInt8}
    {x : Components} (hsize : data.utf8ByteSize = 2732) (hbytes : b.base64 data = some bytes)
    (hlength : bytes.length = 2048) (hx : b.embedding bytes = exactEmbedding x)
    (hlong : 1e-12 ≤ embeddingNorm x) :
    parseEmbedding b (Extended ℝ) data = .ok (exactEmbedding (unitEmbedding x)) := by
  unfold parseEmbedding normalizeGalleryEmbedding
  rw [if_neg (not_not.mpr hsize), hbytes]
  dsimp only
  rw [if_neg (not_not.mpr hlength), hx, if_pos (by simp [exactEmbedding]),
    normalizeEmbedding_exact.mpr ⟨x, rfl, hlong, rfl⟩]
  rfl

/-- The text of 512 ones is accepted and read as a unit embedding. -/
theorem parseEmbedding_allOnes : parseEmbedding smallBlobs (Extended ℝ) allOnes =
    .ok (exactEmbedding (unitEmbedding fun _ => 1)) := by
  have hbytes : smallBlobs.base64 allOnes = some (onesBytes 512) := by simp [smallBlobs]
  exact parseEmbedding_returns utf8ByteSize_allOnes hbytes (length_onesBytes 512)
    embedding_onesBytes norm_ones

/-- The gallery of the document. -/
def smallGallery (embedding : Embedding (Extended ℝ)) : GallerySnapshot (Extended ℝ) where
  version := "v1"
  etag := "tag"
  modelId := "insightface/w600k_r50"
  modelSha256 := "hash"
  templateIds := ["t1"]
  templates := [⟨"visitor", embedding⟩]

/-- The check of a number accepts a member with that number. -/
theorem expectNumber_returns {o : JsonObject (Extended ℝ)} {key what : String} {x value : ℚ}
    (hmember : o.lookup key = some (.number (.fin x))) (hvalue : x = value) :
    expectNumber o key value what = .ok () := by
  have hequal : numberEq (.fin (x : ℝ) : Extended ℝ) (lit value) = true := by
    simp [numberEq, lit_def, fin_le, hvalue]
  exact bind_eq_ok.mpr ⟨_, getNamedNumber_ok.mpr hmember, if_pos hequal⟩

/-- The check of a text accepts a member with that text. -/
theorem expectText_returns {o : JsonObject (Extended ℝ)} {key value what : String}
    (hmember : o.lookup key = some (.string value)) : expectText o key value what = .ok () :=
  bind_eq_ok.mpr ⟨_, getNamedString_ok.mpr hmember, if_pos rfl⟩

/-- The one template of the small gallery is accepted, if its embedding is. Each check of a member
is met by the value written there. -/
theorem parseTemplate_small {b : Blobs (Extended ℝ)} {data : String}
    {embedding : Embedding (Extended ℝ)}
    (hembedding : parseEmbedding b (Extended ℝ) data = .ok embedding) :
    parseTemplate b [] (.object (smallTemplate data)) = .ok [("t1", ⟨"visitor", embedding⟩)] := by
  unfold parseTemplate
  refine bind_eq_ok.mpr ⟨_, getObject_ok.mpr rfl, ?_⟩
  refine bind_eq_ok.mpr ⟨"t1", getNamedString_ok.mpr rfl, ?_⟩
  refine bind_eq_ok.mpr ⟨(), checkId_ok.mpr (by decide), ?_⟩
  rw [if_neg (by simp)]
  refine bind_eq_ok.mpr ⟨"visitor", getNamedString_ok.mpr rfl, ?_⟩
  refine bind_eq_ok.mpr ⟨(), checkId_ok.mpr (by decide), ?_⟩
  refine bind_eq_ok.mpr ⟨(), expectNumber_returns rfl rfl, ?_⟩
  refine bind_eq_ok.mpr ⟨(), expectText_returns rfl, ?_⟩
  refine bind_eq_ok.mpr ⟨data, getNamedString_ok.mpr rfl, ?_⟩
  exact bind_eq_ok.mpr ⟨embedding, hembedding, rfl⟩

/-- The small gallery is accepted, if it is a document of its members and its embedding is
accepted. -/
theorem parseGallery_small {w : Wire (Extended ℝ)} {b : Blobs (Extended ℝ)}
    {document data : String} {embedding : Embedding (Extended ℝ)}
    (hsize : document.utf8ByteSize ≤ 32 * 1024 * 1024)
    (hread : w.parse document = some (smallMembers data))
    (hembedding : parseEmbedding b (Extended ℝ) data = .ok embedding) :
    parseGallery w b document "tag" "hash" = .ok (smallGallery embedding) := by
  unfold parseGallery
  rw [if_neg (not_lt.mpr hsize)]
  refine bind_eq_ok.mpr ⟨_, parseObject_ok.mpr hread, ?_⟩
  refine bind_eq_ok.mpr ⟨(), expectNumber_returns rfl rfl, ?_⟩
  refine bind_eq_ok.mpr ⟨(), expectNumber_returns rfl rfl, ?_⟩
  refine bind_eq_ok.mpr ⟨(), expectText_returns rfl, ?_⟩
  refine bind_eq_ok.mpr ⟨_, getNamedString_ok.mpr rfl, ?_⟩
  refine bind_eq_ok.mpr ⟨_, getNamedString_ok.mpr rfl, ?_⟩
  refine bind_eq_ok.mpr ⟨"v1", getNamedString_ok.mpr rfl, ?_⟩
  refine bind_eq_ok.mpr ⟨(), checkId_ok.mpr (by decide), ?_⟩
  rw [if_neg (by decide), if_neg (by simp)]
  refine bind_eq_ok.mpr ⟨_, getNamedArray_ok.mpr rfl, ?_⟩
  rw [if_neg (by simp)]
  refine bind_eq_ok.mpr ⟨[("t1", ⟨"visitor", embedding⟩)], ?_, rfl⟩
  rw [List.foldlM_cons, parseTemplate_small hembedding]
  rfl

/-- The document of the small gallery is within the limit of the parser. -/
theorem utf8ByteSize_smallDocument : smallDocument.utf8ByteSize ≤ 32 * 1024 * 1024 := by
  have hhead : smallHead.utf8ByteSize ≤ 1000 := by decide +kernel
  have htail : "\"\x7d]\x7d".utf8ByteSize ≤ 1000 := by decide +kernel
  rw [smallDocument, String.utf8ByteSize_append, String.utf8ByteSize_append, utf8ByteSize_allOnes]
  omega

/-- An observation of the visitor, one second after the epoch. The similarity, the margin and the
median are one. -/
def smallObservation : AttendanceObservation (Extended ℝ) where
  occurredAtUtcMs := 1000
  cameraFrameId := 1
  trackId := 1
  identityId := "visitor"
  similarity := .fin 1
  similarityMargin := .fin 1
  padMedianPReal := .fin 1
  padMedianMarginPReal := .fin 0

/-- The gallery takes the place of no gallery, and the visitor is recorded under its version. The
embedding of the one template is given by its text, and every check of the parser is run on it. -/
theorem read_gallery_serves_sample :
    let g := smallGallery (exactEmbedding (unitEmbedding fun _ => 1))
    ∃ t', GalleryRepository.replace (Extended ℝ) g .empty = .ok ((), t') ∧
      Serves smallWire "hash" g t' ∧
      ∃ r, envelope smallWire (some fun _ => 0) smallObservation "device"
        (GalleryRepository.load t').version = .ok r := by
  have hread : smallWire.parse smallDocument = some (smallMembers allOnes) := by simp [smallWire]
  have hparsed := parseGallery_small utf8ByteSize_smallDocument hread parseEmbedding_allOnes
  obtain ⟨t', hstored, hserves⟩ := read_gallery_serves hparsed .empty
  have hrecordable : Recordable smallWire smallObservation :=
    ⟨⟨by decide, by decide⟩, ⟨_, rfl⟩, rfl, rfl, rfl, rfl⟩
  have hrecord := hserves.events _ (List.mem_singleton_self _) smallObservation hrecordable rfl
    "device" (by decide) fun _ => 0
  exact ⟨t', hstored, hserves, hrecord⟩

end EdgeClient.App
