import EdgeClient.Basis.FloatArithmetic

/-!
# The data of the vision pipeline

Detections, tracks and frames as they pass between the detector, the tracker and
the attendance processor. Texture handles, timestamps and timings, which none of
the modelled functions reads, are left out.
-/

namespace EdgeClient.Vision

open Basis

/-- A point of the camera frame. -/
structure Point2f (F : Type) where
  /-- Horizontal coordinate. -/
  x : F
  /-- Vertical coordinate. -/
  y : F

/-- A detected face: its box, its score and five landmarks, all in original
camera coordinates. -/
structure FaceDetection (F : Type) where
  /-- Left edge. -/
  x1 : F
  /-- Upper edge. -/
  y1 : F
  /-- Right edge. -/
  x2 : F
  /-- Lower edge. -/
  y2 : F
  /-- Confidence of the detector. -/
  score : F
  /-- Left eye, right eye, nose, left and right corner of the mouth. -/
  landmarks : Fin 5 → Point2f F

/-- The life cycle of a track. Only the tracker changes it. -/
inductive TrackState where
  /-- Created from a detection and not yet activated. -/
  | new
  /-- Matched to a detection of the current frame. -/
  | tracked
  /-- Without a detection for some frames. -/
  | lost
  /-- Given up. -/
  | removed
  deriving DecidableEq

/-- What the tracker reports about one track in one frame. A track that is only predicted has no
observation. -/
structure TrackResult (F : Type) where
  /-- Identifier, unique since the last reset of the tracker. -/
  trackId : ℕ
  /-- Left edge of the filtered box. -/
  x1 : F
  /-- Upper edge of the filtered box. -/
  y1 : F
  /-- Right edge of the filtered box. -/
  x2 : F
  /-- Lower edge of the filtered box. -/
  y2 : F
  /-- Score of the detection matched in the current frame. -/
  score : F
  /-- State of the track. -/
  state : TrackState
  /-- Frame in which the track was activated. -/
  startFrame : ℤ
  /-- Frame of the last match. -/
  frameId : ℤ
  /-- Number of matches since the last activation. -/
  trackletLen : ℤ
  /-- Whether `observation` is set. -/
  hasObservation : Bool
  /-- The detection that updated the track, with its landmarks. -/
  observation : FaceDetection F

/-- The camera frame handed through the pipeline. -/
structure GpuFrame where
  /-- Strictly increasing within one camera session. -/
  frameId : ℕ
  deriving DecidableEq

/-- One frame with the tracks reported for it. -/
structure FaceTrackingFrame (F : Type) where
  /-- The frame that the detector saw. -/
  gpuFrame : GpuFrame
  /-- The tracks reported for it. -/
  tracks : List (TrackResult F)

/-- Number of components of a face embedding. -/
def kEmbeddingSize : ℕ := 512

/-- A face embedding. -/
abbrev Embedding (F : Type) := Fin kEmbeddingSize → F

/-- A gallery entry: an identity and one of its embeddings. -/
structure GalleryTemplate (F : Type) where
  /-- Identity at the level of the application. -/
  identityId : String
  /-- Embedding, normalized when it is loaded. -/
  embedding : Embedding F

/-- `a[0] * b[0] + a[1] * b[1] + …` in the order of the components, starting from
zero and accumulated in the wide format. -/
def dotProduct {F D : Type} [FloatOps D] [FloatPair F D] (a b : Embedding F) : D :=
  (List.finRange kEmbeddingSize).foldl (fun acc j => acc + widen (a j) * widen (b j)) (lit 0)

end EdgeClient.Vision
