import EdgeClient.Storage.GalleryRepository
import EdgeClient.Sync.WireFormat

/-!
# The gallery document

The server sends a gallery as one JSON document. It names the face model that the
embeddings were made with, and carries every embedding as base64 text. A document is read as
a whole or refused; the embeddings are scaled to unit length on the way.
-/

namespace EdgeClient.Sync

open Basis Vision Storage

/-- What the platform does with binary data. -/
structure Blobs (F : Type) where
  /-- `CryptStringToBinaryA` for strict base64. -/
  base64 : String → Option (List UInt8)
  /-- A number in memory, the lowest byte first. -/
  float32 : UInt8 → UInt8 → UInt8 → UInt8 → F

variable {F D : Type} [FloatOps F] [FloatOps D] [FloatPair F D] (w : Wire D) (b : Blobs F)

/-- `std::memcpy` of the bytes of an embedding. -/
def Blobs.embedding (bytes : List UInt8) : Embedding F := fun j =>
  b.float32 (bytes.getD (4 * j) 0) (bytes.getD (4 * j + 1) 0) (bytes.getD (4 * j + 2) 0)
    (bytes.getD (4 * j + 3) 0)

/-- Whether a text may be an entity tag. -/
def validEtag (s : String) : Bool := validId s

/-- A number of the document that must have this value. -/
def expectNumber (o : JsonObject D) (key : String) (value : ℚ) (what : String) :
    Except Thrown Unit := do
  let x ← getNamedNumber o key
  if numberEq x (lit value) then return () else throw (.invalidArgument what)

/-- A text of the document that must have this value. -/
def expectText (o : JsonObject D) (key value what : String) : Except Thrown Unit := do
  let s ← getNamedString o key
  if s = value then return () else throw (.invalidArgument what)

/-- The embedding of a template. The length is that of 2048 bytes in base64, and every one of the
512 numbers must be finite. -/
def parseEmbedding (D : Type) [FloatOps D] [FloatPair F D] (data : String) :
    Except Thrown (Embedding F) :=
  if data.utf8ByteSize ≠ 2732 then throw (.invalidArgument "Invalid embedding length")
  else match b.base64 data with
    | none => throw (.invalidArgument "Invalid embedding base64")
    | some bytes =>
      if bytes.length ≠ 2048 then throw (.invalidArgument "Invalid embedding base64")
      else if (List.finRange kEmbeddingSize).all fun j => isFinite (b.embedding bytes j) then
        normalizeGalleryEmbedding D (b.embedding bytes)
      else throw (.invalidArgument "Invalid embedding number")

/-- Read one template; `seen` are the templates in front of it. A template identifier that has
been seen is refused, while an identity may have several templates. -/
def parseTemplate (seen : List (String × GalleryTemplate F)) (v : Json D) :
    Except Thrown (List (String × GalleryTemplate F)) := do
  let t ← getObject v
  let id ← getNamedString t "template_id"
  checkId id
  if id ∈ seen.map (·.1) then throw (.invalidArgument "Duplicate template ID")
  let identityId ← getNamedString t "identity_id"
  checkId identityId
  expectNumber t "dimension" 512 "Invalid template encoding"
  expectText t "encoding" "f32le-base64" "Invalid template encoding"
  let data ← getNamedString t "data"
  let embedding ← parseEmbedding b D data
  return seen ++ [(id, (⟨identityId, embedding⟩ : GalleryTemplate F))]

/-- `parse_gallery`. The checks are made in the order of the source, each with its own message. -/
def parseGallery (document etag expectedHash : String) : Except Thrown (GallerySnapshot F) := do
  if 32 * 1024 * 1024 < document.utf8ByteSize then
    throw (.invalidArgument "GallerySnapshot exceeds size limit")
  let o ← parseObject w document
  expectNumber o "schema_version" 1 "Unsupported gallery schema/encoding"
  expectNumber o "embedding_dimension" 512 "Unsupported gallery schema/encoding"
  expectText o "embedding_encoding" "f32le-base64" "Unsupported gallery schema/encoding"
  let modelId ← getNamedString o "embedding_model"
  let modelSha256 ← getNamedString o "model_sha256"
  let version ← getNamedString o "gallery_version"
  checkId version
  if validEtag etag = false then throw (.invalidArgument "Invalid gallery ETag")
  if modelId ≠ "insightface/w600k_r50" ∨ modelSha256 ≠ expectedHash then
    throw (.invalidArgument "Incompatible gallery model")
  let list ← getNamedArray o "templates"
  if 10000 < list.length then throw (.invalidArgument "Too many templates")
  let templates ← list.foldlM (parseTemplate b) []
  return {
    version, etag, modelId, modelSha256
    templateIds := templates.map (·.1), templates := templates.map (·.2) }

/-- `parse_gallery_file`. -/
def parseGalleryFile (json expectedHash : String) : Except Thrown (GallerySnapshot F) := do
  let document ← parseObject w json
  let etag ← getNamedString document "etag"
  parseGallery w b json etag expectedHash

end EdgeClient.Sync
