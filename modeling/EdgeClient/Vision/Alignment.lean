import EdgeClient.Vision.Types

/-!
# Landmark alignment

Both face models align the five landmarks to a fixed template with a
least-squares similarity transform. The normal equations are solved by
Gauss–Jordan elimination with partial pivoting. The two callers differ only in
their template and in the texts of their errors.
-/

namespace EdgeClient.Vision

open Basis

variable {F D : Type} [FloatOps F] [FloatOps D] [FloatPair F D]

/-- A planar map in both directions, with the residual of its fit. -/
structure SimilarityTransform2D (F : Type) where
  /-- Rows of the map from camera coordinates to output pixels. -/
  srcToDst : Fin 6 → F
  /-- Rows of the inverse map. -/
  dstToSrc : Fin 6 → F
  /-- Root mean square error of the landmarks, in output pixels. -/
  rmse : F

/-- What distinguishes the alignment of one model from that of another. -/
structure AlignmentTarget (F : Type) where
  /-- Width and height of the aligned crop. -/
  side : ℕ
  /-- Landmark positions in the aligned crop. -/
  points : Fin 5 → Point2f F
  /-- Error for another crop size. -/
  sizeError : String
  /-- Error for a landmark that is not finite. -/
  landmarkError : String
  /-- Error for singular normal equations. -/
  degenerateError : String
  /-- Error for a vanishing scale. -/
  scaleError : String

/-- The ArcFace template for crops of 112 by 112 pixels. -/
def arcFaceTarget : AlignmentTarget F where
  side := 112
  points := ![⟨lit 38.2946, lit 51.6963⟩, ⟨lit 73.5318, lit 51.5014⟩,
    ⟨lit 56.0252, lit 71.7366⟩, ⟨lit 41.5493, lit 92.3655⟩, ⟨lit 70.7299, lit 92.2041⟩]
  sizeError := "v4.7 ArcFace alignment dikunci ke template InsightFace 112x112"
  landmarkError := "Landmark ArcFace mengandung NaN/Inf"
  degenerateError := "Landmark ArcFace menghasilkan transform degenerat"
  scaleError := "Scale similarity transform ArcFace mendekati nol"

/-- The template of the liveness model for crops of 80 by 80 pixels. -/
def livenessTarget : AlignmentTarget F where
  side := 80
  points := ![⟨lit 32.03, lit 38.06⟩, ⟨lit 47.89, lit 37.98⟩, ⟨lit 40.01, lit 47.08⟩,
    ⟨lit 33.50, lit 56.36⟩, ⟨lit 46.63, lit 56.29⟩]
  sizeError := "Liveness alignment dikunci ke template InsightFace 80x80"
  landmarkError := "Landmark Liveness mengandung NaN/Inf"
  degenerateError := "Landmark Liveness menghasilkan transform degenerat"
  scaleError := "Scale similarity transform Liveness mendekati nol"

/-- Exchange two rows, divide the pivot row by its pivot and subtract multiples of
it from the other rows. Factors below 1e-18 are skipped. -/
def solve4Eliminate (col pivot : Fin 4) (system : (Fin 4 → Fin 4 → D) × (Fin 4 → D)) :
    (Fin 4 → Fin 4 → D) × (Fin 4 → D) :=
  let a := system.1 ∘ Equiv.swap pivot col
  let b := system.2 ∘ Equiv.swap pivot col
  let diag := a col col
  let a := Function.update a col fun j => if col ≤ j then a col j / diag else a col j
  let b := Function.update b col (b col / diag)
  (fun row j =>
      if row = col ∨ stdAbs (a row col) < lit 1e-18 ∨ j < col then a row j
      else a row j - a row col * a col j,
    fun row =>
      if row = col ∨ stdAbs (a row col) < lit 1e-18 then b row
      else b row - a row col * b col)

/-- Solve a system of four linear equations. -/
def solve4 (degenerateError : String) (a : Fin 4 → Fin 4 → D) (b : Fin 4 → D) :
    Except String (Fin 4 → D) := do
  let system ← (List.finRange 4).foldlM (fun system col =>
    let (pivot, best) := pivotRow (fun row => system.1 row col) col
    if best < lit 1e-10 then throw degenerateError
    else return solve4Eliminate col pivot system) (a, b)
  return system.2

/-- Add one observation equation to the normal equations. -/
def accumulateRow (row : Fin 4 → D) (target : D)
    (system : (Fin 4 → Fin 4 → D) × (Fin 4 → D)) : (Fin 4 → Fin 4 → D) × (Fin 4 → D) :=
  (fun i j => system.1 i j + row i * row j, fun i => system.2 i + row i * target)

/-- Least-squares similarity transform of the landmarks to the template: `a`, `b`,
`tx` and `ty` of `u = a*x - b*y + tx`, `v = b*x + a*y + ty`. -/
def estimateTransform (target : AlignmentTarget F) (observation : FaceDetection F)
    (outputWidth outputHeight : ℕ) : Except String (SimilarityTransform2D F) := do
  if outputWidth ≠ target.side ∨ outputHeight ≠ target.side then throw target.sizeError
  let zero : (Fin 4 → Fin 4 → D) × (Fin 4 → D) := (fun _ _ => lit 0, fun _ => lit 0)
  let system ← (List.finRange 5).foldlM (fun system i =>
    let x : D := widen (observation.landmarks i).x
    let y : D := widen (observation.landmarks i).y
    let u : D := widen (target.points i).x
    let v : D := widen (target.points i).y
    if isFinite x && isFinite y && isFinite u && isFinite v then
      return accumulateRow ![y, x, lit 0, lit 1] v (accumulateRow ![x, -y, lit 1, lit 0] u system)
    else throw target.landmarkError) zero
  let p ← solve4 target.degenerateError system.1 system.2
  let (a, b, tx, ty) := (p 0, p 1, p 2, p 3)
  let denom := a * a + b * b
  if denom < lit 1e-12 then throw target.scaleError
  let (i00, i01, i10, i11) := (a / denom, b / denom, -b / denom, a / denom)
  let i02 := -(i00 * tx + i01 * ty)
  let i12 := -(i10 * tx + i11 * ty)
  let sq := (List.finRange 5).foldl (fun sq i =>
    let x : D := widen (observation.landmarks i).x
    let y : D := widen (observation.landmarks i).y
    let du := a * x - b * y + tx - widen (target.points i).x
    let dv := b * x + a * y + ty - widen (target.points i).y
    sq + (du * du + dv * dv)) (lit 0)
  return {
    srcToDst := ![narrow a, narrow (-b), narrow tx, narrow b, narrow a, narrow ty]
    dstToSrc := ![narrow i00, narrow i01, narrow i02, narrow i10, narrow i11, narrow i12]
    rmse := narrow (sqrt (sq / lit 5)) }

/-- Alignment for face recognition. -/
def estimateArcfaceTransform (D : Type) [FloatOps D] [FloatPair F D]
    (observation : FaceDetection F) (outputWidth : ℕ := 112) (outputHeight : ℕ := 112) :
    Except String (SimilarityTransform2D F) :=
  estimateTransform (D := D) arcFaceTarget observation outputWidth outputHeight

/-- Alignment for the liveness model. -/
def estimateLivenessTransform (D : Type) [FloatOps D] [FloatPair F D]
    (observation : FaceDetection F) (outputWidth : ℕ := 80) (outputHeight : ℕ := 80) :
    Except String (SimilarityTransform2D F) :=
  estimateTransform (D := D) livenessTarget observation outputWidth outputHeight

end EdgeClient.Vision
