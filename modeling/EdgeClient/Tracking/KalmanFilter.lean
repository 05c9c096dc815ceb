import EdgeClient.Basis.FloatArithmetic

/-!
# The Kalman filter of the tracker

The filter estimates centre, aspect ratio and height of a box together with their
velocities. The products with the transition matrix are written out as sums over
all entries, as the source computes them.
-/

namespace EdgeClient.Tracking

open Basis

variable {D : Type} [FloatOps D]

/-- Centre, aspect ratio and height, followed by their velocities. -/
abbrev Mean (D : Type) := Fin 8 → D

/-- Covariance of a mean. -/
abbrev Covariance (D : Type) := Fin 8 → Fin 8 → D

/-- A measured centre, aspect ratio and height. -/
abbrev Measurement (D : Type) := Fin 4 → D

/-- A mean and its covariance. -/
structure KalmanState (D : Type) where
  /-- The estimate. -/
  mean : Mean D
  /-- Its covariance. -/
  covariance : Covariance D

namespace KalmanFilter

/-- Weight of the height in the deviation of a position. -/
def kStdWeightPosition : D := lit 1 / lit 20

/-- Weight of the height in the deviation of a velocity. -/
def kStdWeightVelocity : D := lit 1 / lit 160

/-- A sum over indices in increasing order, starting from zero. -/
def sumOver {n : ℕ} (term : Fin n → D) : D :=
  (List.finRange n).foldl (fun sum k => sum + term k) (lit 0)

/-- One column of the elimination: exchange, division and subtraction. -/
def invert4Eliminate (col pivot : Fin 4) (aug : Fin 4 → Fin 8 → D) : Fin 4 → Fin 8 → D :=
  let aug := aug ∘ Equiv.swap pivot col
  let diag := aug col (col.castLE four_le_eight)
  let aug := Function.update aug col fun c => aug col c / diag
  fun r c =>
    if r = col then aug r c else aug r c - aug r (col.castLE four_le_eight) * aug col c

/-- Invert a matrix by elimination with partial pivoting. -/
def invert4 (input : Fin 4 → Fin 4 → D) : Except String (Fin 4 → Fin 4 → D) := do
  let start : Fin 4 → Fin 8 → D := fun r c =>
    if h : c.val < 4 then input r ⟨c, h⟩ else if c.val = r.val + 4 then lit 1 else lit 0
  let aug ← (List.finRange 4).foldlM (fun aug col =>
    let (pivot, pivotAbs) := pivotRow (fun r => aug r (col.castLE four_le_eight)) col
    if pivotAbs < lit 1e-12 then throw "ByteTrack Kalman projected covariance singular"
    else return invert4Eliminate col pivot aug) start
  return fun r c => aug r (c.natAdd 4)

/-- Start from a first measurement. -/
def initiate (measurement : Measurement D) : KalmanState D :=
  let h := stdMax (lit 1e-6) (measurement 3)
  let stddev : Fin 8 → D := ![lit 2 * kStdWeightPosition * h, lit 2 * kStdWeightPosition * h,
    lit 1e-2, lit 2 * kStdWeightPosition * h, lit 10 * kStdWeightVelocity * h,
    lit 10 * kStdWeightVelocity * h, lit 1e-5, lit 10 * kStdWeightVelocity * h]
  { mean := fun i => if hi : i.val < 4 then measurement ⟨i, hi⟩ else lit 0
    covariance := fun r c => if r = c then stddev r * stddev r else lit 0 }

/-- The transition matrix: each position advances by its velocity. -/
def transition (r c : Fin 8) : D :=
  if r = c ∨ c.val = r.val + 4 then lit 1 else lit 0

/-- Advance by one frame. The noise is added on the diagonal; except for the aspect ratio its
standard deviations grow with the height. -/
def predict (mean : Mean D) (covariance : Covariance D) : KalmanState D :=
  let tmp : Covariance D := fun r c => sumOver fun k => transition r k * covariance k c
  let out : Covariance D := fun r c => sumOver fun k => tmp r k * transition c k
  let h := stdMax (lit 1e-6) (mean 3)
  let stddev : Fin 8 → D := ![kStdWeightPosition * h, kStdWeightPosition * h, lit 1e-2,
    kStdWeightPosition * h, kStdWeightVelocity * h, kStdWeightVelocity * h, lit 1e-5,
    kStdWeightVelocity * h]
  { mean := fun i =>
    if hi : i.val < 4 then mean i + mean (Fin.natAdd 4 (⟨i, hi⟩ : Fin 4)) else mean i
    covariance := fun r c => if r = c then out r c + stddev r * stddev r else out r c }

/-- Correct by a measurement. The inverse of the projected covariance may not exist, and this is
its only exception. -/
def update (mean : Mean D) (covariance : Covariance D) (measurement : Measurement D) :
    Except String (KalmanState D) := do
  let state : Fin 4 → Fin 8 := Fin.castLE four_le_eight
  let h := stdMax (lit 1e-6) (mean 3)
  let stddev : Fin 4 → D :=
    ![kStdWeightPosition * h, kStdWeightPosition * h, lit 1e-1, kStdWeightPosition * h]
  let inv ← invert4 fun r c =>
    if r = c then covariance (state r) (state c) + stddev r * stddev r
    else covariance (state r) (state c)
  let gain : Fin 8 → Fin 4 → D := fun r c =>
    sumOver fun k => covariance r (state k) * inv k c
  let innovation : Fin 4 → D := fun i => measurement i - mean (state i)
  let corrected : Covariance D := fun r c =>
    covariance r c - sumOver fun k => gain r k * covariance c (state k)
  return {
    mean := fun r =>
      (List.finRange 4).foldl (fun m k => m + gain r k * innovation k) (mean r)
    covariance := fun r c =>
      if r < c then lit 0.5 * (corrected r c + corrected c r)
      else if c < r then lit 0.5 * (corrected c r + corrected r c)
      else corrected r c }

end KalmanFilter

end EdgeClient.Tracking
