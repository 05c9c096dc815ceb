import EdgeClient.Storage.Database
import EdgeClient.Vision.GalleryMatcher

/-!
# The stored gallery

The database keeps one gallery: the revision it came with and its templates. A new
gallery takes the place of the old one in one transaction, after its templates were
checked and scaled to unit length.
-/

namespace EdgeClient.Storage

open Basis Vision

variable {F D : Type} [FloatOps F] [FloatOps D] [FloatPair F D]

/-- A gallery with its revision. -/
structure GallerySnapshot (F : Type) where
  /-- Version of the gallery. -/
  version : String
  /-- Entity tag of the download. -/
  etag : String
  /-- Name of the face model. -/
  modelId : String
  /-- Hash of the face model. -/
  modelSha256 : String
  /-- Identifiers of the templates. -/
  templateIds : List String
  /-- The templates, in the same order. -/
  templates : List (GalleryTemplate F)

/-- No gallery. -/
def GallerySnapshot.empty : GallerySnapshot F := ⟨"", "", "", "", [], []⟩

/-- The row of `gallery_state`. -/
structure GalleryMetadata where
  /-- Version of the gallery. -/
  version : String
  /-- Entity tag of the download. -/
  etag : String
  /-- Name of the face model. -/
  modelId : String
  /-- Hash of the face model. -/
  modelSha256 : String
  deriving DecidableEq, Repr

/-- A row of `gallery_template`. -/
structure TemplateRow (F : Type) where
  /-- Identifier of the template. -/
  templateId : String
  /-- Its identity. -/
  identityId : String
  /-- Its embedding: 2048 bytes. -/
  embedding : Embedding F

/-- The tables of the gallery. -/
structure GalleryTables (F : Type) where
  /-- The only row of `gallery_state`. -/
  state : Option GalleryMetadata
  /-- `gallery_template`. -/
  templates : Table String (TemplateRow F) TemplateRow.templateId

/-- The tables of a new database. -/
def GalleryTables.empty : GalleryTables F := ⟨none, .empty⟩

/-- `normalize_embedding` of the application: the contract of the runtime, with an
exception of its own. -/
def normalizeGalleryEmbedding (D : Type) [FloatOps D] [FloatPair F D] (embedding : Embedding F) :
    Except Thrown (Embedding F) :=
  match normalizeEmbedding D embedding with
  | .ok v => return v
  | .error _ => throw (.invalidArgument "Invalid gallery embedding norm")

namespace GalleryRepository

/-- Check and scale one template. -/
def checkTemplate (D : Type) [FloatOps D] [FloatPair F D] (t : GalleryTemplate F) :
    Except Thrown (GalleryTemplate F) := do
  if t.identityId = "" then throw (.invalidArgument "Empty identity")
  let embedding ← normalizeGalleryEmbedding D t.embedding
  return { t with embedding }

/-- What `replace` checks before it opens the transaction. -/
def checked (D : Type) [FloatOps D] [FloatPair F D] (g : GallerySnapshot F) :
    Except Thrown (List (GalleryTemplate F)) := do
  if g.templateIds.length ≠ g.templates.length ∨ g.version = "" then
    throw (.invalidArgument "Invalid gallery snapshot")
  g.templates.mapM (checkTemplate D)

/-- `INSERT INTO gallery_template`. -/
def insertTemplate (rows : Table String (TemplateRow F) TemplateRow.templateId)
    (entry : String × GalleryTemplate F) :
    Except Thrown (Table String (TemplateRow F) TemplateRow.templateId) :=
  match rows.insert ⟨entry.1, entry.2.identityId, entry.2.embedding⟩ with
  | none => throw .storageError
  | some rows => return rows

/-- `replace`: the tables in front of it are deleted. -/
def replace (D : Type) [FloatOps D] [FloatPair F D] (g : GallerySnapshot F)
    (_ : GalleryTables F) : Except Thrown (Unit × GalleryTables F) := do
  let values ← checked D g
  let rows ← (g.templateIds.zip values).foldlM insertTemplate .empty
  return ((), { state := some ⟨g.version, g.etag, g.modelId, g.modelSha256⟩, templates := rows })

/-- `load`. The rows come back ordered by template, and without a state row the snapshot is the
empty one. -/
def load (t : GalleryTables F) : GallerySnapshot F :=
  match t.state with
  | none => .empty
  | some state =>
    let rows := t.templates.rows.insertionSort fun a b => a.templateId ≤ b.templateId
    { version := state.version
      etag := state.etag
      modelId := state.modelId
      modelSha256 := state.modelSha256
      templateIds := rows.map (·.templateId)
      templates := rows.map fun row => ⟨row.identityId, row.embedding⟩ }

/-- `load_metadata`. -/
def loadMetadata (t : GalleryTables F) : GalleryMetadata := t.state.getD ⟨"", "", "", ""⟩

end GalleryRepository

end EdgeClient.Storage
