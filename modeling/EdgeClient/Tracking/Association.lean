import EdgeClient.Basis.FloatArithmetic

/-!
# Association costs

The cost of assigning a detection to a track is one minus the overlap of their
boxes, weighted with the score of the detection on request.
-/

namespace EdgeClient.Tracking

open Basis

variable {F : Type} [FloatOps F]

/-- A box with its score. -/
structure AssociationItem (F : Type) where
  /-- Left edge. -/
  x1 : F
  /-- Upper edge. -/
  y1 : F
  /-- Right edge. -/
  x2 : F
  /-- Lower edge. -/
  y2 : F
  /-- Score of the detection. -/
  score : F

/-- Intersection over union of two boxes. The sides are cut at zero, and two boxes without area
have no overlap. -/
def iou (a b : AssociationItem F) : F :=
  let left := stdMax a.x1 b.x1
  let top := stdMax a.y1 b.y1
  let right := stdMin a.x2 b.x2
  let bottom := stdMin a.y2 b.y2
  let iw := stdMax (lit 0) (right - left)
  let ih := stdMax (lit 0) (bottom - top)
  let inter := iw * ih
  let areaA := stdMax (lit 0) (a.x2 - a.x1) * stdMax (lit 0) (a.y2 - a.y1)
  let areaB := stdMax (lit 0) (b.x2 - b.x1) * stdMax (lit 0) (b.y2 - b.y1)
  let uni := areaA + areaB - inter
  if lit 0 < uni then inter / uni else lit 0

/-- The cost of one pair. -/
def pairCost (fuseScore : Bool) (track detection : AssociationItem F) : F :=
  if fuseScore then lit 1 - iou track detection * detection.score
  else lit 1 - iou track detection

/-- The costs of all pairs, row by row. -/
def costMatrix (tracks detections : List (AssociationItem F)) (fuseScore : Bool) : List F :=
  tracks.flatMap fun track => detections.map (pairCost fuseScore track)

/-- There is one cost for each pair. -/
theorem length_costMatrix (tracks detections : List (AssociationItem F)) (fuseScore : Bool) :
    (costMatrix tracks detections fuseScore).length = tracks.length * detections.length := by
  induction tracks with
  | nil => simp [costMatrix]
  | cons track tracks ih =>
    unfold costMatrix at ih ⊢
    rw [List.flatMap_cons, List.length_append, ih, List.length_map, List.length_cons]
    ring

/-- The cost of a pair stands at the position of its row and column. The matrix is stored row by
row. -/
theorem getD_costMatrix (tracks detections : List (AssociationItem F)) (fuseScore : Bool)
    {i j : ℕ} (hi : i < tracks.length) (hj : j < detections.length) (d : F) :
    (costMatrix tracks detections fuseScore).getD (i * detections.length + j) d =
      pairCost fuseScore tracks[i] detections[j] := by
  induction tracks generalizing i with
  | nil => cases hi
  | cons track tracks ih =>
    unfold costMatrix at ih ⊢
    rw [List.flatMap_cons]
    cases i with
    | zero =>
      rw [Nat.zero_mul, Nat.zero_add, List.getD_append _ _ _ _ (by simpa using hj)]
      simp [hj]
    | succ i =>
      have hlength : (detections.map (pairCost fuseScore track)).length = detections.length :=
        List.length_map ..
      rw [List.getD_append_right _ _ _ _ (by rw [hlength, Nat.succ_mul]; omega), hlength]
      have hindex : (i + 1) * detections.length + j - detections.length =
          i * detections.length + j := by
        rw [Nat.succ_mul]
        omega
      rw [hindex, ih (Nat.lt_of_succ_lt_succ hi)]
      rfl

end EdgeClient.Tracking
