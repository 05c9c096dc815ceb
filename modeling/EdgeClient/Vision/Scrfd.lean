import EdgeClient.Basis.ExactArithmetic
import EdgeClient.Basis.GreedySuppression
import EdgeClient.Basis.StatefulPrograms
import EdgeClient.Vision.Types

/-!
# The face detector

The network writes nine tensors: for each of three strides the scores, boxes and landmarks of
two anchors in every cell of a grid. Anchors with a sufficient score become candidates,
candidates that overlap a better one are suppressed, and the boxes that remain are mapped
from the letterbox input of the network back into the camera frame and clamped to it.
-/

namespace EdgeClient.Vision.Scrfd

open Basis

/-! ## The program -/

section Program

variable {F : Type} [FloatOps F]

/-- `ScrfdConfig` without the path of the model. -/
structure ScrfdConfig (F : Type) [FloatOps F] where
  /-- Width of the network input. -/
  inputWidth : ℕ := 640
  /-- Height of the network input. -/
  inputHeight : ℕ := 640
  /-- Candidates with a smaller score are skipped. -/
  scoreThreshold : F := lit (1 / 2)
  /-- Candidates that overlap a better one by more are dropped. -/
  nmsThreshold : F := lit (2 / 5)

/-- `validate_config`. -/
def validateConfig (c : ScrfdConfig F) : Except String Unit :=
  if c.inputWidth ≠ 640 ∨ c.inputHeight ≠ 640 then
    throw "SCRFD v3.1 baseline menggunakan original input 640x640"
  else if c.scoreThreshold < lit 0 ∨ lit 1 < c.scoreThreshold then
    throw "score_threshold harus berada pada rentang 0..1"
  else if c.nmsThreshold < lit 0 ∨ lit 1 < c.nmsThreshold then
    throw "nms_threshold harus berada pada rentang 0..1"
  else return ()

/-- An output of the network. -/
structure TensorBlob (F : Type) where
  /-- Its shape. -/
  shape : List ℤ
  /-- Its numbers. -/
  data : List F

/-- `last_dimension`. -/
def lastDimension (blob : TensorBlob F) : ℕ :=
  match blob.shape.getLast? with
  | none => 0
  | some value => value.toNat

/-- `row_count`. -/
def rowCount (blob : TensorBlob F) : ℕ :=
  let dim := lastDimension blob
  if dim = 0 ∨ blob.data.length % dim ≠ 0 then 0 else blob.data.length / dim

/-- The strides of the network. -/
def strides : List ℕ := [8, 16, 32]

/-- Anchors in each cell. -/
def numAnchors : ℕ := 2

/-- `stride_for_anchor_count`. -/
def strideForAnchorCount (anchors inputWidth inputHeight : ℕ) : ℕ :=
  (strides.find? fun stride =>
    anchors = inputWidth / stride * (inputHeight / stride) * numAnchors).getD 0

/-- The outputs of one stride as far as they were found. -/
structure LevelParts (F : Type) where
  /-- Number of anchors. -/
  anchors : ℕ := 0
  /-- Scores. -/
  scores : Option (List F) := none
  /-- Boxes. -/
  bbox : Option (List F) := none
  /-- Landmarks. -/
  kps : Option (List F) := none

/-- The outputs of one stride. -/
structure LevelBlobs (F : Type) where
  /-- The stride. -/
  stride : ℕ
  /-- Number of anchors. -/
  anchors : ℕ
  /-- Scores. -/
  scores : List F
  /-- Boxes. -/
  bbox : List F
  /-- Landmarks. -/
  kps : List F

/-- Put an output to its stride and its kind. The kind is told by the last dimension: one score,
four distances or ten offsets. -/
def placeBlob (c : ScrfdConfig F) (levels : ℕ → Option (LevelParts F)) (blob : TensorBlob F) :
    Except String (ℕ → Option (LevelParts F)) :=
  let rows := rowCount blob
  let stride := strideForAnchorCount rows c.inputWidth c.inputHeight
  let level := { (levels stride).getD {} with anchors := rows }
  if stride = 0 then throw "Shape output SCRFD tidak cocok dengan stride 8/16/32"
  else if lastDimension blob = 1 then
    return Function.update levels stride (some { level with scores := some blob.data })
  else if lastDimension blob = 4 then
    return Function.update levels stride (some { level with bbox := some blob.data })
  else if lastDimension blob = 10 then
    return Function.update levels stride (some { level with kps := some blob.data })
  else throw ("Output SCRFD memiliki dimensi terakhir yang tidak dikenal: " ++
    toString (lastDimension blob))

/-- The outputs of a stride, if all are there. -/
def orderedLevel (levels : ℕ → Option (LevelParts F)) (stride : ℕ) :
    Except String (LevelBlobs F) :=
  match levels stride with
  | none => throw ("Output SCRFD untuk stride " ++ toString stride ++ " tidak ditemukan")
  | some ⟨anchors, some scores, some bbox, some kps⟩ =>
    return ⟨stride, anchors, scores, bbox, kps⟩
  | some _ => throw ("Output SCRFD stride " ++ toString stride ++ " tidak lengkap")

/-- `organize_outputs`. -/
def organizeOutputs (c : ScrfdConfig F) (blobs : List (TensorBlob F)) :
    Except String (List (LevelBlobs F)) := do
  let levels ← blobs.foldlM (placeBlob c) fun _ => none
  strides.mapM (orderedLevel levels)

/-- `clampf`. -/
def clampf (value low high : F) : F := stdMax low (stdMin value high)

/-- `iou_inclusive`. -/
def iouInclusive (a b : FaceDetection F) : F :=
  let width := stdMax (lit 0) (stdMin a.x2 b.x2 - stdMax a.x1 b.x1 + lit 1)
  let height := stdMax (lit 0) (stdMin a.y2 b.y2 - stdMax a.y1 b.y1 + lit 1)
  let intersection := width * height
  let areaA := stdMax (lit 0) (a.x2 - a.x1 + lit 1) * stdMax (lit 0) (a.y2 - a.y1 + lit 1)
  let areaB := stdMax (lit 0) (b.x2 - b.x1 + lit 1) * stdMax (lit 0) (b.y2 - b.y1 + lit 1)
  let denominator := areaA + areaB - intersection
  if denominator ≤ lit 0 then lit 0 else intersection / denominator

/-- `nms`, with the order that `std::sort` produces. -/
def nms (sort : List (FaceDetection F) → List (FaceDetection F)) (threshold : F)
    (candidates : List (FaceDetection F)) : List (FaceDetection F) :=
  suppress (fun accepted candidate => threshold < iouInclusive candidate accepted) (sort candidates)

/-- The candidate of an anchor. The distances are in units of the stride, from the position of the
anchor. -/
def anchorCandidate (c : ScrfdConfig F) (level : LevelBlobs F) (i : ℕ) : FaceDetection F :=
  let stride : F := lit level.stride
  let cell := i / numAnchors
  let featWidth := c.inputWidth / level.stride
  let anchorX : F := lit (cell % featWidth * level.stride : ℕ)
  let anchorY : F := lit (cell / featWidth * level.stride : ℕ)
  let bbox := fun k => level.bbox.getD (i * 4 + k) (lit 0)
  let kps := fun k => level.kps.getD (i * 10 + k) (lit 0)
  { x1 := anchorX - bbox 0 * stride
    y1 := anchorY - bbox 1 * stride
    x2 := anchorX + bbox 2 * stride
    y2 := anchorY + bbox 3 * stride
    score := level.scores.getD i (lit 0)
    landmarks := fun p => ⟨anchorX + kps (p * 2) * stride, anchorY + kps (p * 2 + 1) * stride⟩ }

/-- The candidates of one stride. -/
def levelCandidates (c : ScrfdConfig F) (level : LevelBlobs F) :
    Except String (List (FaceDetection F)) :=
  if level.scores.length ≠ level.anchors ∨ level.bbox.length ≠ level.anchors * 4 ∨
      level.kps.length ≠ level.anchors * 10 then
    throw "Jumlah elemen output SCRFD tidak konsisten"
  else
    return ((List.range level.anchors).filter fun i =>
      ¬ level.scores.getD i (lit 0) < c.scoreThreshold).map (anchorCandidate c level)

/-- The map from the camera frame to the input of the network. -/
structure LetterboxTransform (F : Type) where
  /-- Scale. -/
  scale : F
  /-- Empty columns on the left. -/
  padX : F
  /-- Empty rows at the top. -/
  padY : F

/-- The transform of a frame size, from `create_shared_nv12`. -/
def letterbox (c : ScrfdConfig F) (width height : ℕ) : LetterboxTransform F :=
  let scale : F := stdMin (lit c.inputWidth / lit width) (lit c.inputHeight / lit height)
  { scale
    padX := (lit c.inputWidth - lit width * scale) * lit (1 / 2)
    padY := (lit c.inputHeight - lit height * scale) * lit (1 / 2) }

/-- Map a coordinate into the frame. -/
def unmap (pad inverseScale limit value : F) : F :=
  clampf ((value - pad) * inverseScale) (lit 0) limit

/-- Map a candidate into the frame. -/
def toFrame (t : LetterboxTransform F) (width height : ℕ) (d : FaceDetection F) :
    FaceDetection F :=
  let mapX := unmap t.padX (lit 1 / t.scale) (lit (width - 1 : ℕ))
  let mapY := unmap t.padY (lit 1 / t.scale) (lit (height - 1 : ℕ))
  { x1 := mapX d.x1, y1 := mapY d.y1, x2 := mapX d.x2, y2 := mapY d.y2, score := d.score
    landmarks := fun p => ⟨mapX (d.landmarks p).x, mapY (d.landmarks p).y⟩ }

/-- `decode`, for a frame of the size of the transform. -/
def decode (c : ScrfdConfig F) (sort : List (FaceDetection F) → List (FaceDetection F))
    (levels : List (LevelBlobs F)) (width height : ℕ) : Except String (List (FaceDetection F)) := do
  let candidates ← levels.mapM (levelCandidates c)
  let kept := nms sort c.nmsThreshold candidates.flatten
  return (kept.map (toFrame (letterbox c width height) width height)).filter fun d =>
    d.x1 < d.x2 ∧ d.y1 < d.y2

end Program

end EdgeClient.Vision.Scrfd
