import EdgeClient.Basis.ExactArithmetic
import EdgeClient.Basis.GaussJordan
import EdgeClient.Basis.GaussianUpdate
import EdgeClient.Basis.StatefulPrograms
import EdgeClient.Tracking.KalmanFilter

/-!
# The Kalman filter in exact arithmetic

In exact arithmetic the loops of the filter are products of matrices: `predict` is the
prediction of a linear model, `invert4` is the inverse and `update` is the standard correction.
-/

namespace EdgeClient.Tracking

open Basis Basis.Extended Matrix

namespace KalmanFilter

variable {K : Type} [Field K] [LinearOrder K] [RootOps K]

/-- A vector of numbers. -/
def exactVector {n : ℕ} (v : Fin n → K) : Fin n → Extended K := fun i => .fin (v i)

/-- A matrix of numbers. -/
def exactMatrix {n m : ℕ} (a : Matrix (Fin n) (Fin m) K) : Fin n → Fin m → Extended K :=
  fun r c => .fin (a r c)

/-- The loop that sums from zero computes the sum of Mathlib. -/
theorem sumOver_exact {n : ℕ} (f : Fin n → K) :
    sumOver (fun k => (.fin (f k) : Extended K)) = .fin (∑ k, f k) := by
  simp only [sumOver, lit_def, Rat.cast_zero]
  rw [foldl_add_fin, zero_add]

/-! ## The inverse -/

/-- One column of the elimination is a step on the numbers. The row of the pivot is divided by it,
and the others lose their entry in its column. -/
theorem invert4Eliminate_exact {col pivot : Fin 4} {rows : Fin 4 → Fin (4 + 4) → K}
    (hpivot : rows pivot (Fin.castAdd 4 col) ≠ 0) :
    invert4Eliminate col pivot (fun r c => (.fin (rows r c) : Extended K)) =
      fun r c => .fin (GaussJordan.step col pivot (Fin.castAdd 4 col) rows r c) := by
  have hdiag : rows (Equiv.swap pivot col col) (Fin.castAdd 4 col) ≠ 0 := by simpa using hpivot
  have hlead : (Fin.castLE four_le_eight col : Fin 8) = Fin.castAdd 4 col := rfl
  funext r c
  simp only [invert4Eliminate, GaussJordan.step, hlead]
  by_cases hr : r = col
  · simp only [hr, if_true, Function.update_self]
    exact fin_div _ hdiag
  · simp only [hr, if_false, Function.update_of_ne hr, Function.update_self, Function.comp_apply]
    rw [fin_div (rows (Equiv.swap pivot col col) c) hdiag, fin_mul, fin_sub]

/-- The matrix next to the identity. The code writes it entry by entry. -/
theorem augmented_exact (s : Matrix (Fin 4) (Fin 4) K) :
    (fun (r : Fin 4) (c : Fin 8) => if h : c.val < 4 then exactMatrix s r ⟨c, h⟩
      else if c.val = r.val + 4 then (lit 1 : Extended K) else lit 0) = fun r c =>
        .fin ((Fin.append (s r) ((1 : Matrix (Fin 4) (Fin 4) K) r) : Fin (4 + 4) → K) c) := by
  funext r c
  by_cases hc : c.val < 4
  · have hleft : (Fin.append (s r) ((1 : Matrix (Fin 4) (Fin 4) K) r) : Fin (4 + 4) → K) c =
        s r ⟨c, hc⟩ := Fin.append_left (s r) _ (⟨c, hc⟩ : Fin 4)
    rw [dif_pos hc, hleft]
    rfl
  · have hright : c = Fin.natAdd 4 (⟨c.val - 4, by omega⟩ : Fin 4) := by
      apply Fin.ext
      simp only [Fin.val_natAdd]
      omega
    have hone : c.val = r.val + 4 ↔ r = (⟨c.val - 4, by omega⟩ : Fin 4) := by
      rw [Fin.ext_iff]
      simp only
      omega
    rw [dif_neg hc]
    conv_rhs => rw [hright, Fin.append_right]
    rw [Matrix.one_apply]
    simp only [hone, lit_def]
    split <;> simp

variable [IsStrictOrderedRing K]

/-- One pass of the loop. The pivot is large enough, and the rows are reduced in one more
column. -/
theorem invert4_step {s : Matrix (Fin 4) (Fin 4) K} {col : Fin 4} {rows : Fin 4 → Fin (4 + 4) → K}
    {aug : Fin 4 → Fin 8 → Extended K}
    (hrows : GaussJordan.Reduced (Fin.castAdd 4)
      (fun r => Fin.append (s r) ((1 : Matrix (Fin 4) (Fin 4) K) r)) col.val rows)
    (h : (let (pivot, pivotAbs) := pivotRow (fun r => (.fin (rows r (Fin.castAdd 4 col)) :
        Extended K)) col
      if pivotAbs < lit 1e-12 then throw "ByteTrack Kalman projected covariance singular"
      else return invert4Eliminate col pivot fun r c => .fin (rows r c) : Except String _) =
        .ok aug) :
    ∃ next : Fin 4 → Fin (4 + 4) → K, aug = (fun r c => .fin (next r c)) ∧
      GaussJordan.Reduced (Fin.castAdd 4)
        (fun r => Fin.append (s r) ((1 : Matrix (Fin 4) (Fin 4) K) r)) (col.val + 1) next := by
  obtain ⟨pivot, hpivot, hle, -⟩ := pivotRow_fin (fun r => rows r (Fin.castAdd 4 col)) col
  rw [hpivot] at h
  dsimp only at h
  split at h
  · cases h
  rename_i hlarge
  have hne : rows pivot (Fin.castAdd 4 col) ≠ 0 := by
    intro hzero
    rw [hzero, lit_def, fin_lt, abs_zero] at hlarge
    norm_num at hlarge
  cases h
  exact ⟨_, invert4Eliminate_exact hne, hrows.step hle hne⟩

/-- `invert4` returns the inverse, and the matrix has one. The loop is the elimination of the
library, with the largest entry as its pivot. -/
theorem invert4_exact {s : Matrix (Fin 4) (Fin 4) K} {inv : Fin 4 → Fin 4 → Extended K}
    (h : invert4 (exactMatrix s) = .ok inv) : IsUnit s ∧ inv = exactMatrix s⁻¹ := by
  unfold invert4 at h
  dsimp only at h
  rw [augmented_exact] at h
  obtain ⟨aug, hloop, h⟩ := bind_eq_ok.mp h
  cases h
  have hreduced : ∃ rows : Fin 4 → Fin (4 + 4) → K, aug = (fun r c => .fin (rows r c)) ∧
      GaussJordan.Reduced (Fin.castAdd 4)
        (fun r => Fin.append (s r) ((1 : Matrix (Fin 4) (Fin 4) K) r)) (List.finRange 4).length
          rows := by
    refine foldlM_ok (fun pre aug => ∃ rows : Fin 4 → Fin (4 + 4) → K,
      aug = (fun r c => .fin (rows r c)) ∧ GaussJordan.Reduced (Fin.castAdd 4)
        (fun r => Fin.append (s r) ((1 : Matrix (Fin 4) (Fin 4) K) r)) pre.length rows)
      ⟨_, rfl, GaussJordan.reduced_start⟩ ?_ hloop
    rintro pre col post aug aug' hsplit ⟨rows, rfl, hrows⟩ hstep
    have hcol := val_of_finRange_split hsplit
    rw [← hcol] at hrows
    obtain ⟨next, hnext, hreduced⟩ := invert4_step hrows hstep
    refine ⟨next, hnext, ?_⟩
    rw [List.length_append, List.length_singleton, ← hcol]
    exact hreduced
  obtain ⟨rows, rfl, hrows⟩ := hreduced
  have hinverse := hrows.inverse
  have hunit : IsUnit s := IsUnit.of_mul_eq_one_right _ hinverse
  refine ⟨hunit, ?_⟩
  rw [Matrix.inv_eq_left_inv hinverse]
  rfl

/-! ## Diagonal matrices -/

/-- The rows of the elimination for a diagonal matrix. -/
def DiagonalRows (d : Fin 4 → K) (k : ℕ) (rows : Fin 4 → Fin (4 + 4) → K) : Prop :=
  ∀ r j : Fin 4, rows r (Fin.castAdd 4 j) = if r = j then (if j.val < k then 1 else d j) else 0

/-- The pivot of a diagonal matrix is on the diagonal. Below the diagonal the column is zero, so
nothing else is as large. -/
theorem DiagonalRows.pivot {d : Fin 4 → K} {col : Fin 4} {rows : Fin 4 → Fin (4 + 4) → K}
    (h : DiagonalRows d col.val rows) (hd : 0 < d col) :
    pivotRow (fun r => (.fin (rows r (Fin.castAdd 4 col)) : Extended K)) col =
      (col, .fin (d col)) := by
  obtain ⟨pivot, hpivot, -, hmax⟩ := pivotRow_fin (fun r => rows r (Fin.castAdd 4 col)) col
  have hdiag : rows col (Fin.castAdd 4 col) = d col := by simp [h col col]
  have hcol : pivot = col := by
    by_contra hne
    have hle := hmax col le_rfl
    rw [hdiag, h pivot col, if_neg hne, abs_zero, abs_of_pos hd] at hle
    linarith
  rw [hpivot, hcol, hdiag, abs_of_pos hd]

omit [RootOps K] [IsStrictOrderedRing K] in
/-- A step keeps the matrix diagonal. The pivot is on the diagonal, and only the row of the pivot
changes. -/
theorem DiagonalRows.step {d : Fin 4 → K} {col : Fin 4} {rows : Fin 4 → Fin (4 + 4) → K}
    (h : DiagonalRows d col.val rows) (hd : 0 < d col) :
    DiagonalRows d (col.val + 1) (GaussJordan.step col col (Fin.castAdd 4 col) rows) := by
  intro r j
  have hdiag : rows col (Fin.castAdd 4 col) = d col := by simp [h col col]
  simp only [GaussJordan.step, Equiv.swap_self, Equiv.coe_refl, Function.comp_id]
  by_cases hr : r = col
  · rw [if_pos hr, hdiag, h col j, hr]
    by_cases hj : col = j
    · simp [← hj, hd.ne']
    · simp [hj]
  · rw [if_neg hr, h r col, if_neg hr, zero_mul, sub_zero, h r j]
    by_cases hj : r = j
    · have hne : ¬ j = col := fun heq => hr (hj.trans heq)
      have hlt : j.val < col.val + 1 ↔ j.val < col.val := by
        have hval : j.val ≠ col.val := fun heq => hne (Fin.ext heq)
        omega
      simp only [hj, if_true, hlt]
    · simp [hj]

/-- `invert4` inverts a diagonal matrix unless one of its entries is too small. The pivots are the
entries themselves, each compared with the bound of the code. -/
theorem invert4_diagonal {d : Fin 4 → K} (hd : ∀ i, 0 < d i) :
    (∃ inv, invert4 (exactMatrix (Matrix.diagonal d)) = .ok inv) ↔ ∀ i, 1e-12 ≤ d i := by
  have hloop : ∀ (post pre : List (Fin 4)) (rows : Fin 4 → Fin (4 + 4) → K),
      List.finRange 4 = pre ++ post → DiagonalRows d pre.length rows →
      ((∃ aug, post.foldlM (fun aug col =>
        let (pivot, pivotAbs) := pivotRow (fun r => aug r (Fin.castAdd 4 col)) col
        if pivotAbs < lit 1e-12 then throw "ByteTrack Kalman projected covariance singular"
        else return invert4Eliminate col pivot aug)
          (fun r (c : Fin 8) => (.fin (rows r c) : Extended K)) =
            (.ok aug : Except String (Fin 4 → Fin 8 → Extended K))) ↔
        ∀ col ∈ post, 1e-12 ≤ d col) := by
    intro post
    induction post with
    | nil => exact fun _ _ _ _ => iff_of_true ⟨_, rfl⟩ (by simp)
    | cons col post ih =>
      intro pre rows hsplit hrows
      have hcol := val_of_finRange_split hsplit
      rw [← hcol] at hrows
      rw [List.foldlM_cons, List.forall_mem_cons]
      dsimp only
      rw [hrows.pivot (hd col)]
      dsimp only
      have hlimit : ((.fin (d col) : Extended K) < lit 1e-12) ↔ d col < 1e-12 := by
        rw [lit_def, fin_lt]
        norm_num
      by_cases hsmall : d col < 1e-12
      · rw [if_pos (hlimit.mpr hsmall)]
        refine iff_of_false ?_ fun hall => absurd hall.1 (not_le.mpr hsmall)
        rintro ⟨aug, haug⟩
        cases haug
      · rw [if_neg (hlimit.not.mpr hsmall)]
        have hne : rows col (Fin.castAdd 4 col) ≠ 0 := by
          simp [hrows col col, (hd col).ne']
        have hnext := ih (pre ++ [col]) _ (by simpa using hsplit)
          (by simpa [← hcol] using hrows.step (hd col))
        rw [and_iff_right (not_lt.mp hsmall), ← hnext, ← invert4Eliminate_exact hne]
        rfl
  have hstart : DiagonalRows d 0 fun r =>
      Fin.append ((Matrix.diagonal d : Matrix (Fin 4) (Fin 4) K) r)
        ((1 : Matrix (Fin 4) (Fin 4) K) r) := by
    intro r j
    refine (Fin.append_left _ _ j).trans ?_
    rw [Matrix.diagonal_apply]
    by_cases hr : r = j
    · simp [hr]
    · simp [hr]
  have hrun := hloop (List.finRange 4) [] _ rfl hstart
  unfold invert4
  dsimp only
  rw [augmented_exact]
  constructor
  · rintro ⟨inv, hinv⟩
    obtain ⟨aug, haug, -⟩ := bind_eq_ok.mp hinv
    exact fun i => hrun.mp ⟨aug, haug⟩ i (List.mem_finRange i)
  · intro hall
    obtain ⟨aug, haug⟩ := hrun.mpr fun i _ => hall i
    exact ⟨_, bind_eq_ok.mpr ⟨aug, haug, rfl⟩⟩

/-! ## The model of the filter -/

/-- The transition matrix. -/
def transitionMatrix : Matrix (Fin 8) (Fin 8) K :=
  .of fun r c => if r = c ∨ c.val = r.val + 4 then 1 else 0

/-- The measurement matrix: centre, aspect ratio and height are measured. -/
def measurementMatrix : Matrix (Fin 4) (Fin 8) K :=
  .of fun r c => if c = Fin.castLE four_le_eight r then 1 else 0

/-- The height that the noise is relative to. -/
def noiseHeight (h : K) : K := max 1e-6 h

/-- Deviations of a first estimate. -/
def initialDeviation (h : K) : Fin 8 → K :=
  ![2 * (1 / 20) * h, 2 * (1 / 20) * h, 1e-2, 2 * (1 / 20) * h, 10 * (1 / 160) * h,
    10 * (1 / 160) * h, 1e-5, 10 * (1 / 160) * h]

/-- Deviations of the noise of a prediction. -/
def processDeviation (h : K) : Fin 8 → K :=
  ![1 / 20 * h, 1 / 20 * h, 1e-2, 1 / 20 * h, 1 / 160 * h, 1 / 160 * h, 1e-5, 1 / 160 * h]

/-- Deviations of the noise of a measurement. -/
def measurementDeviation (h : K) : Fin 4 → K :=
  ![1 / 20 * h, 1 / 20 * h, 1e-1, 1 / 20 * h]

/-- Independent noise with these deviations. -/
def noise {n : ℕ} (deviation : Fin n → K) : Matrix (Fin n) (Fin n) K :=
  Matrix.diagonal fun i => deviation i * deviation i

/-- The covariance of a first estimate. -/
def initialCovariance (z : Fin 4 → K) : Matrix (Fin 8) (Fin 8) K :=
  noise (initialDeviation (noiseHeight (z 3)))

/-- The covariance after a prediction from this mean. -/
def predictedCovariance (m : Fin 8 → K) (P : Matrix (Fin 8) (Fin 8) K) :
    Matrix (Fin 8) (Fin 8) K :=
  transitionMatrix * P * transitionMatrixᵀ + noise (processDeviation (noiseHeight (m 3)))

/-- The noise of a measurement against this mean. -/
def measurementNoise (m : Fin 8 → K) : Matrix (Fin 4) (Fin 4) K :=
  noise (measurementDeviation (noiseHeight (m 3)))

omit [RootOps K] in
/-- The height that scales the noise is positive, because the code bounds it below. -/
theorem noiseHeight_pos (h : K) : 0 < noiseHeight h := by
  unfold noiseHeight
  exact lt_of_lt_of_le (by norm_num) (le_max_left _ _)

omit [RootOps K] in
/-- Each component of a new track is uncertain. -/
theorem initialDeviation_pos (h : K) (i : Fin 8) : 0 < initialDeviation (noiseHeight h) i := by
  have hpos := noiseHeight_pos h
  fin_cases i <;> simp [initialDeviation] <;> positivity

omit [RootOps K] in
/-- Each component becomes less certain in a prediction. -/
theorem processDeviation_pos (h : K) (i : Fin 8) : 0 < processDeviation (noiseHeight h) i := by
  have hpos := noiseHeight_pos h
  fin_cases i <;> simp [processDeviation] <;> positivity

omit [RootOps K] in
/-- No measurement is certain. -/
theorem measurementDeviation_pos (h : K) (i : Fin 4) :
    0 < measurementDeviation (noiseHeight h) i := by
  have hpos := noiseHeight_pos h
  fin_cases i <;> simp [measurementDeviation] <;> positivity

/-! ## The functions on numbers -/

/-- A state of numbers. -/
def exactState (m : Fin 8 → K) (P : Matrix (Fin 8) (Fin 8) K) : KalmanState (Extended K) :=
  ⟨exactVector m, exactMatrix P⟩

/-- The weight of positions is a twentieth. -/
theorem weightPosition_exact : (kStdWeightPosition : Extended K) = .fin (1 / 20) := by
  unfold kStdWeightPosition
  rw [lit_def, lit_def, fin_div _ (by norm_num)]
  norm_num

/-- The weight of velocities is a hundred and sixtieth. -/
theorem weightVelocity_exact : (kStdWeightVelocity : Extended K) = .fin (1 / 160) := by
  unfold kStdWeightVelocity
  rw [lit_def, lit_def, fin_div _ (by norm_num)]
  norm_num

/-- The height that scales the noise is computed without rounding. -/
theorem noiseHeight_exact (h : K) :
    stdMax (lit 1e-6) (.fin h : Extended K) = .fin (noiseHeight h) := by
  rw [lit_def, stdMax_fin, noiseHeight]
  norm_num

/-- A new track is at the measured box, at rest, with the initial covariance. The covariance is
diagonal, with the squares of the deviations. -/
theorem initiate_exact (z : Fin 4 → K) :
    initiate (exactVector z) =
      exactState (fun i => if hi : i.val < 4 then z ⟨i, hi⟩ else 0) (initialCovariance z) := by
  have hdeviation : (![lit 2 * kStdWeightPosition * .fin (noiseHeight (z 3)),
      lit 2 * kStdWeightPosition * .fin (noiseHeight (z 3)), lit 1e-2,
      lit 2 * kStdWeightPosition * .fin (noiseHeight (z 3)),
      lit 10 * kStdWeightVelocity * .fin (noiseHeight (z 3)),
      lit 10 * kStdWeightVelocity * .fin (noiseHeight (z 3)), lit 1e-5,
      lit 10 * kStdWeightVelocity * .fin (noiseHeight (z 3))] : Fin 8 → Extended K) =
        exactVector (initialDeviation (noiseHeight (z 3))) := by
    funext i
    fin_cases i <;>
      simp [exactVector, initialDeviation, weightPosition_exact, weightVelocity_exact, lit_def]
  unfold initiate
  rw [show exactVector z 3 = .fin (z 3) from rfl, noiseHeight_exact]
  dsimp only
  rw [hdeviation]
  unfold exactState
  congr 1
  · funext i
    by_cases hi : i.val < 4
    · simp [exactVector, hi]
    · simp [exactVector, hi, lit_def]
  · funext r c
    by_cases hrc : r = c
    · simp [exactVector, exactMatrix, initialCovariance, noise, hrc]
    · simp [exactMatrix, initialCovariance, noise, hrc, lit_def]

omit [IsStrictOrderedRing K] in
/-- A product of matrices, entry by entry. -/
theorem sumOver_mul {n k m : ℕ} (a : Matrix (Fin n) (Fin k) K) (b : Matrix (Fin k) (Fin m) K) :
    (fun r c => sumOver fun j => exactMatrix a r j * exactMatrix b j c) = exactMatrix (a * b) := by
  funext r c
  simp only [exactMatrix, fin_mul]
  rw [sumOver_exact, Matrix.mul_apply]

omit [IsStrictOrderedRing K] in
/-- The transition of the code is the matrix that adds velocities to positions. -/
theorem transition_exact :
    (transition : Fin 8 → Fin 8 → Extended K) = exactMatrix transitionMatrix := by
  funext r c
  unfold transition exactMatrix transitionMatrix
  rw [Matrix.of_apply]
  split <;> simp [lit_def]

/-- A prediction is the linear one of the textbook: the transition applied to the mean, and to the
covariance on both sides, with process noise added. -/
theorem predict_exact (m : Fin 8 → K) (P : Matrix (Fin 8) (Fin 8) K) :
    predict (exactVector m) (exactMatrix P) =
      exactState (transitionMatrix *ᵥ m) (predictedCovariance m P) := by
  have hdeviation : (![kStdWeightPosition * .fin (noiseHeight (m 3)),
      kStdWeightPosition * .fin (noiseHeight (m 3)), lit 1e-2,
      kStdWeightPosition * .fin (noiseHeight (m 3)), kStdWeightVelocity * .fin (noiseHeight (m 3)),
      kStdWeightVelocity * .fin (noiseHeight (m 3)), lit 1e-5,
      kStdWeightVelocity * .fin (noiseHeight (m 3))] : Fin 8 → Extended K) =
        exactVector (processDeviation (noiseHeight (m 3))) := by
    funext i
    fin_cases i <;>
      simp [exactVector, processDeviation, weightPosition_exact, weightVelocity_exact, lit_def]
  have hmoved : (fun r c => sumOver fun k => (fun r c => sumOver fun k =>
      transition r k * exactMatrix P k c) r k * transition c k) =
        exactMatrix (transitionMatrix * P * transitionMatrixᵀ) := by
    rw [transition_exact, sumOver_mul]
    exact sumOver_mul (transitionMatrix * P) transitionMatrixᵀ
  unfold predict
  rw [show exactVector m 3 = .fin (m 3) from rfl, noiseHeight_exact]
  dsimp only at hmoved ⊢
  rw [hdeviation]
  unfold exactState
  congr 1
  · funext i
    fin_cases i <;>
      simp [exactVector, Matrix.mulVec, dotProduct, Fin.sum_univ_eight, transitionMatrix]
  · funext r c
    have hentry := congrFun (congrFun hmoved r) c
    rw [hentry]
    by_cases hrc : r = c
    · simp [exactVector, exactMatrix, predictedCovariance, noise, hrc]
    · simp [exactMatrix, predictedCovariance, noise, hrc]

/-! ## The correction -/

/-- The position of a measured component in the mean. -/
abbrev measured : Fin 4 → Fin 8 := Fin.castLE four_le_eight

/-- The covariance of `update` in front of its last loop. -/
def corrected {D : Type} [FloatOps D] (covariance : Covariance D) (inv : Fin 4 → Fin 4 → D) :
    Covariance D := fun r c =>
  covariance r c - sumOver fun k =>
    (sumOver fun j => covariance r (measured j) * inv j k) * covariance c (measured k)

omit [LinearOrder K] [RootOps K] [IsStrictOrderedRing K] in
/-- Multiplying by the transposed measurement matrix takes the columns of the components. -/
theorem mul_measurement {n : ℕ} (a : Matrix (Fin n) (Fin 8) K) (r : Fin n) (c : Fin 4) :
    (a * (measurementMatrix (K := K))ᵀ) r c = a r (measured c) := by
  rw [Matrix.mul_apply]
  simp [measurementMatrix, Matrix.transpose_apply]

omit [LinearOrder K] [RootOps K] [IsStrictOrderedRing K] in
/-- Multiplying by the measurement matrix takes the rows of the components. -/
theorem measurement_mul {n : ℕ} (a : Matrix (Fin 8) (Fin n) K) (r : Fin 4) (c : Fin n) :
    ((measurementMatrix : Matrix (Fin 4) (Fin 8) K) * a) r c = a (measured r) c := by
  rw [Matrix.mul_apply]
  simp [measurementMatrix]

omit [RootOps K] [IsStrictOrderedRing K] in
/-- The covariance of the measurement of components that are uncorrelated. The noise is diagonal
too. -/
theorem innovationCovariance_diagonal {P : Matrix (Fin 8) (Fin 8) K} (m : Fin 8 → K)
    (hP : ∀ i j, i ≠ j → P (measured i) (measured j) = 0) :
    innovationCovariance P measurementMatrix (measurementNoise m) =
      Matrix.diagonal fun i => P (measured i) (measured i) +
        measurementDeviation (noiseHeight (m 3)) i *
          measurementDeviation (noiseHeight (m 3)) i := by
  ext r c
  rw [innovationCovariance, Matrix.add_apply, mul_measurement, measurement_mul, measurementNoise,
    noise]
  by_cases hrc : r = c
  · simp [hrc]
  · simp [hrc, hP r c hrc]

omit [LinearOrder K] [RootOps K] [IsStrictOrderedRing K] in
/-- The measured part of a mean is its first four components. -/
theorem measurement_mulVec (m : Fin 8 → K) (r : Fin 4) :
    (measurementMatrix *ᵥ m) r = m (measured r) := by
  simp [measurementMatrix, Matrix.mulVec, dotProduct]

variable {m : Fin 8 → K} {P : Matrix (Fin 8) (Fin 8) K} {z : Fin 4 → K}

omit [IsStrictOrderedRing K] in
/-- The covariance that `update` inverts. It is the projection of the covariance with the noise of
the measurement added. -/
theorem projected_exact :
    (fun r c : Fin 4 => if r = c then exactMatrix P (measured r) (measured c) +
        exactVector (measurementDeviation (noiseHeight (m 3))) r *
          exactVector (measurementDeviation (noiseHeight (m 3))) r
      else exactMatrix P (measured r) (measured c)) =
      exactMatrix (innovationCovariance P measurementMatrix (measurementNoise m)) := by
  have hentry : ∀ r c,
    ((measurementMatrix : Matrix (Fin 4) (Fin 8) K) * P * (measurementMatrix (K := K))ᵀ) r c =
      P (measured r) (measured c) := by
    intro r c
    rw [mul_measurement, measurement_mul]
  funext r c
  by_cases hrc : r = c
  · simp [exactVector, exactMatrix, innovationCovariance, measurementNoise, noise, hrc, hentry]
  · simp [exactMatrix, innovationCovariance, measurementNoise, noise, hrc, hentry]

omit [IsStrictOrderedRing K] in
/-- The gain as the code computes it. -/
theorem gain_exact (s : Matrix (Fin 4) (Fin 4) K) :
    (fun r c => sumOver fun k => exactMatrix P r (measured k) * exactMatrix s k c) =
      exactMatrix (P * (measurementMatrix (K := K))ᵀ * s) := by
  rw [← sumOver_mul]
  funext r c
  simp only [exactMatrix, mul_measurement]

omit [IsStrictOrderedRing K] in
/-- The covariance in front of the last loop is the posterior one. The symmetry is used where the
code reads a row for a column. -/
theorem corrected_exact (hP : P.IsSymm) :
    corrected (exactMatrix P) (exactMatrix
        (innovationCovariance P measurementMatrix (measurementNoise m))⁻¹) =
      exactMatrix (posteriorCovariance P measurementMatrix (measurementNoise m)) := by
  funext r c
  unfold corrected
  have hgain : ∀ k, (sumOver fun j => exactMatrix P r (measured j) * exactMatrix
      (innovationCovariance P measurementMatrix (measurementNoise m))⁻¹ j k) =
        .fin (gainMatrix P measurementMatrix (measurementNoise m) r k) :=
    fun k => congrFun (congrFun (gain_exact _) r) k
  simp only [hgain]
  simp only [exactMatrix, fin_mul]
  rw [sumOver_exact, fin_sub, posteriorCovariance, Matrix.sub_apply, Matrix.mul_assoc _ _ P,
    Matrix.mul_apply]
  simp only [measurement_mul, hP.apply c]

/-- The deviations of a measurement are computed without rounding. -/
theorem measurementDeviation_exact (h : K) :
    (![kStdWeightPosition * .fin (noiseHeight h), kStdWeightPosition * .fin (noiseHeight h),
      lit 1e-1, kStdWeightPosition * .fin (noiseHeight h)] : Fin 4 → Extended K) =
        exactVector (measurementDeviation (noiseHeight h)) := by
  funext i
  fin_cases i <;> simp [exactVector, measurementDeviation, weightPosition_exact, lit_def]

/-- `update` returns when the inverse exists for `invert4`. Nothing else in the update can
throw. -/
theorem update_returns_iff :
    (∃ s', update (exactVector m) (exactMatrix P) (exactVector z) = .ok s') ↔
      ∃ inv, invert4 (exactMatrix
        (innovationCovariance P measurementMatrix (measurementNoise m))) = .ok inv := by
  unfold update
  rw [show exactVector m 3 = .fin (m 3) from rfl, noiseHeight_exact]
  dsimp only
  rw [measurementDeviation_exact, ← projected_exact]
  constructor
  · rintro ⟨s', h⟩
    obtain ⟨inv, hinv, -⟩ := bind_eq_ok.mp h
    exact ⟨inv, hinv⟩
  · rintro ⟨inv, hinv⟩
    exact ⟨_, bind_eq_ok.mpr ⟨inv, hinv, rfl⟩⟩

/-- `update` is the standard correction. The last loop of the code makes the result symmetric,
which it is already in exact arithmetic. -/
theorem update_exact (hP : P.IsSymm) {s' : KalmanState (Extended K)}
    (h : update (exactVector m) (exactMatrix P) (exactVector z) = .ok s') :
    let S := innovationCovariance P measurementMatrix (measurementNoise m)
    IsUnit S ∧ invert4 (exactMatrix S) = .ok (exactMatrix S⁻¹) ∧
      s' = exactState
        (m + gainMatrix P measurementMatrix (measurementNoise m) *ᵥ (z - measurementMatrix *ᵥ m))
        (posteriorCovariance P measurementMatrix (measurementNoise m)) ∧
      s'.covariance = corrected (exactMatrix P) (exactMatrix S⁻¹) := by
  intro S
  unfold update at h
  rw [show exactVector m 3 = .fin (m 3) from rfl, noiseHeight_exact] at h
  dsimp only at h
  rw [measurementDeviation_exact] at h
  obtain ⟨inv, hinv, h⟩ := bind_eq_ok.mp h
  have hprojected : invert4 (exactMatrix S) = .ok inv := by
    rw [← hinv, ← projected_exact]
  obtain ⟨hunit, rfl⟩ := invert4_exact hprojected
  have hcorrected : corrected (exactMatrix P) (exactMatrix S⁻¹) =
      exactMatrix (posteriorCovariance P measurementMatrix (measurementNoise m)) :=
    corrected_exact hP
  have hsymm : ∀ r c, corrected (exactMatrix P) (exactMatrix S⁻¹) r c =
      corrected (exactMatrix P) (exactMatrix S⁻¹) c r := by
    intro r c
    have hnoise : (measurementNoise m).IsSymm := Matrix.isSymm_diagonal _
    have hposterior := isSymm_posteriorCovariance (H := measurementMatrix) hP hnoise
    rw [hcorrected]
    exact congrArg Extended.fin (hposterior.apply c r)
  have hgain : ∀ r k, (sumOver fun j => exactMatrix P r (measured j) * exactMatrix S⁻¹ j k) =
      .fin (gainMatrix P measurementMatrix (measurementNoise m) r k) :=
    fun r k => congrFun (congrFun (gain_exact _) r) k
  have hcovariance : s'.covariance = corrected (exactMatrix P) (exactMatrix S⁻¹) := by
    cases h
    funext r c
    change (if r < c then lit 0.5 * (corrected (exactMatrix P) (exactMatrix S⁻¹) r c +
        corrected (exactMatrix P) (exactMatrix S⁻¹) c r)
      else if c < r then lit 0.5 * (corrected (exactMatrix P) (exactMatrix S⁻¹) c r +
        corrected (exactMatrix P) (exactMatrix S⁻¹) r c)
      else corrected (exactMatrix P) (exactMatrix S⁻¹) r c) = _
    have hmiddle : lit 0.5 * (corrected (exactMatrix P) (exactMatrix S⁻¹) r c +
        corrected (exactMatrix P) (exactMatrix S⁻¹) r c) =
          corrected (exactMatrix P) (exactMatrix S⁻¹) r c := by
      rw [hcorrected]
      simp only [exactMatrix, lit_def, fin_add, fin_mul]
      congr 1
      push_cast
      ring
    rw [hsymm c r, hmiddle]
    split_ifs <;> rfl
  have hmean : s'.mean = exactVector
      (m + gainMatrix P measurementMatrix (measurementNoise m) *ᵥ
        (z - measurementMatrix *ᵥ m)) := by
    cases h
    funext r
    change (List.finRange 4).foldl (fun acc k => acc +
      (sumOver fun j => exactMatrix P r (measured j) * exactMatrix S⁻¹ j k) *
        (exactVector z k - exactVector m (measured k))) (exactVector m r) = _
    simp only [hgain]
    simp only [exactVector, fin_sub, fin_mul]
    rw [foldl_add_fin]
    simp only [Pi.add_apply, Matrix.mulVec, dotProduct, Pi.sub_apply]
    congr 3
    funext k
    rw [← measurement_mulVec m k]
    rfl
  refine ⟨hunit, hprojected, ?_, hcovariance⟩
  rw [hcorrected] at hcovariance
  cases s'
  simp only at hmean hcovariance
  rw [hmean, hcovariance]
  rfl

end KalmanFilter

end EdgeClient.Tracking
