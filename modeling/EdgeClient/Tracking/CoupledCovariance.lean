import EdgeClient.Tracking.ExactKalman

/-!
# Which entries of a covariance are not zero

The covariance of a track couples each component with its own velocity only. So the matrix
that a correction inverts is diagonal, and the correction returns unless one of its entries
is below the limit for pivots.
-/

namespace EdgeClient.Tracking.KalmanFilter

open Basis Basis.Extended Matrix

variable {K : Type} [Field K] [LinearOrder K] [IsStrictOrderedRing K]

/-- The position of a velocity in the mean. -/
abbrev velocity : Fin 4 → Fin 8 := Fin.natAdd 4

/-- Components are coupled with their own velocities only. -/
structure Coupled (P : Matrix (Fin 8) (Fin 8) K) : Prop where
  /-- The covariance is symmetric. -/
  symm : P.IsSymm
  /-- Other entries are zero. -/
  apart : ∀ i j : Fin 4, i ≠ j → P (measured i) (measured j) = 0 ∧
    P (measured i) (velocity j) = 0 ∧ P (velocity i) (velocity j) = 0
  /-- Variances are not negative. -/
  position : ∀ i, 0 ≤ P (measured i) (measured i)
  /-- Variances of velocities are not negative. -/
  speed : ∀ i, 0 ≤ P (velocity i) (velocity i)
  /-- A covariance is bounded by the variances. -/
  bound : ∀ i, P (measured i) (velocity i) * P (measured i) (velocity i) ≤
    P (measured i) (measured i) * P (velocity i) (velocity i)

/-- The variance of a position and its velocity together. -/
theorem Coupled.sum_nonneg {P : Matrix (Fin 8) (Fin 8) K} (h : Coupled P) (i : Fin 4) :
    0 ≤ P (measured i) (measured i) + P (measured i) (velocity i) +
      (P (measured i) (velocity i) + P (velocity i) (velocity i)) := by
  have hposition := h.position i
  have hspeed := h.speed i
  have hbound := h.bound i
  nlinarith [sq_nonneg (P (measured i) (measured i) - P (velocity i) (velocity i))]

/-- A component is not a velocity. -/
theorem measured_ne_velocity (i j : Fin 4) : measured i ≠ velocity j := by
  intro h
  have hval := congrArg Fin.val h
  simp only [Fin.val_castLE, Fin.val_natAdd] at hval
  omega

omit [LinearOrder K] [IsStrictOrderedRing K] in
/-- Noise enters a diagonal entry only. -/
theorem noise_measured (d : Fin 8 → K) (i j : Fin 4) :
    noise d (measured i) (measured j) = if i = j then d (measured i) * d (measured i) else 0 := by
  rw [noise, Matrix.diagonal_apply]
  simp only [Fin.ext_iff, Fin.val_castLE]

omit [LinearOrder K] [IsStrictOrderedRing K] in
/-- The noise of velocities is on the diagonal. -/
theorem noise_velocity (d : Fin 8 → K) (i j : Fin 4) :
    noise d (velocity i) (velocity j) = if i = j then d (velocity i) * d (velocity i) else 0 := by
  rw [noise, Matrix.diagonal_apply]
  simp only [Fin.ext_iff, Fin.val_natAdd, Nat.add_left_cancel_iff]

omit [LinearOrder K] [IsStrictOrderedRing K] in
/-- There is no common noise of a component and a velocity. -/
theorem noise_mixed (d : Fin 8 → K) (i j : Fin 4) : noise d (measured i) (velocity j) = 0 := by
  rw [noise, Matrix.diagonal_apply, if_neg (measured_ne_velocity i j)]

/-- A first estimate is coupled. It is diagonal, so all the mixed entries vanish. -/
theorem coupled_initialCovariance (z : Fin 4 → K) : Coupled (initialCovariance z) where
  symm := Matrix.isSymm_diagonal _
  apart i j hij := by
    simp only [initialCovariance, noise_measured, noise_velocity, noise_mixed, if_neg hij, and_self]
  position i := by
    rw [initialCovariance, noise_measured, if_pos rfl]
    exact mul_self_nonneg _
  speed i := by
    rw [initialCovariance, noise_velocity, if_pos rfl]
    exact mul_self_nonneg _
  bound i := by
    simp only [initialCovariance, noise_measured, noise_velocity, noise_mixed, if_true, mul_zero]
    exact mul_nonneg (mul_self_nonneg _) (mul_self_nonneg _)

/-! ## Prediction -/

omit [LinearOrder K] [IsStrictOrderedRing K] in
/-- A transition from the left adds the row of the velocity to that of the component. A row of the
transition has a one in both places. -/
theorem transition_mul_measured (a : Matrix (Fin 8) (Fin 8) K) (i : Fin 4) (c : Fin 8) :
    (transitionMatrix (K := K) * a) (measured i) c = a (measured i) c + a (velocity i) c := by
  have hrow : ∀ k, transitionMatrix (K := K) (measured i) k =
      (if measured i = k then 1 else 0) + if velocity i = k then 1 else 0 := by
    intro k
    simp only [transitionMatrix, Matrix.of_apply, Fin.ext_iff, Fin.val_castLE, Fin.val_natAdd]
    by_cases hsame : i.val = k.val
    · simp [hsame]
    · have hnext : k.val = i.val + 4 ↔ 4 + i.val = k.val := by omega
      simp [hsame, hnext]
  rw [Matrix.mul_apply]
  simp only [hrow, add_mul, ite_mul, one_mul, zero_mul, Finset.sum_add_distrib,
    Finset.sum_ite_eq, Finset.mem_univ, if_true]

omit [LinearOrder K] [IsStrictOrderedRing K] in
/-- A transition from the left keeps the rows of velocities. Such a row has a single one. -/
theorem transition_mul_velocity (a : Matrix (Fin 8) (Fin 8) K) (i : Fin 4) (c : Fin 8) :
    (transitionMatrix (K := K) * a) (velocity i) c = a (velocity i) c := by
  have hrow : ∀ k, transitionMatrix (K := K) (velocity i) k = if velocity i = k then 1 else 0 := by
    intro k
    have hlast : ¬ k.val = (velocity i).val + 4 := by
      simp only [Fin.val_natAdd]
      omega
    simp only [transitionMatrix, Matrix.of_apply, hlast, or_false]
  rw [Matrix.mul_apply]
  simp only [hrow, ite_mul, one_mul, zero_mul, Finset.sum_ite_eq, Finset.mem_univ, if_true]

omit [LinearOrder K] [IsStrictOrderedRing K] in
/-- A transition from the right adds the column of the velocity to that of the component. -/
theorem mul_transition_measured (a : Matrix (Fin 8) (Fin 8) K) (r : Fin 8) (i : Fin 4) :
    (a * (transitionMatrix (K := K))ᵀ) r (measured i) = a r (measured i) + a r (velocity i) := by
  rw [← Matrix.transpose_apply (a * _), Matrix.transpose_mul, Matrix.transpose_transpose,
    transition_mul_measured]
  rfl

omit [LinearOrder K] [IsStrictOrderedRing K] in
/-- A transition from the right keeps the columns of velocities. -/
theorem mul_transition_velocity (a : Matrix (Fin 8) (Fin 8) K) (r : Fin 8) (i : Fin 4) :
    (a * (transitionMatrix (K := K))ᵀ) r (velocity i) = a r (velocity i) := by
  rw [← Matrix.transpose_apply (a * _), Matrix.transpose_mul, Matrix.transpose_transpose,
    transition_mul_velocity]
  rfl

variable {P : Matrix (Fin 8) (Fin 8) K} {m : Fin 8 → K}

omit [IsStrictOrderedRing K] in
/-- The variance of a position after a prediction. -/
theorem predicted_measured (i j : Fin 4) :
    predictedCovariance m P (measured i) (measured j) =
      P (measured i) (measured j) + P (velocity i) (measured j) +
        (P (measured i) (velocity j) + P (velocity i) (velocity j)) +
        if i = j then processDeviation (noiseHeight (m 3)) (measured i) *
          processDeviation (noiseHeight (m 3)) (measured i) else 0 := by
  rw [predictedCovariance, Matrix.add_apply, mul_transition_measured, transition_mul_measured,
    transition_mul_measured, noise_measured]

omit [IsStrictOrderedRing K] in
/-- In a prediction, the covariances of velocities only gain the noise. -/
theorem predicted_velocity (i j : Fin 4) :
    predictedCovariance m P (velocity i) (velocity j) = P (velocity i) (velocity j) +
      if i = j then processDeviation (noiseHeight (m 3)) (velocity i) *
        processDeviation (noiseHeight (m 3)) (velocity i) else 0 := by
  rw [predictedCovariance, Matrix.add_apply, mul_transition_velocity, transition_mul_velocity,
    noise_velocity]

omit [IsStrictOrderedRing K] in
/-- In a prediction, the covariance of a component and a velocity gains that of the two
velocities. -/
theorem predicted_mixed (i j : Fin 4) :
    predictedCovariance m P (measured i) (velocity j) =
      P (measured i) (velocity j) + P (velocity i) (velocity j) := by
  rw [predictedCovariance, Matrix.add_apply, mul_transition_velocity, transition_mul_measured,
    noise_mixed, add_zero]

/-- A prediction keeps a covariance coupled. The cross terms of one component and its velocity
grow, and those of different components stay zero. -/
theorem Coupled.predicted (h : Coupled P) : Coupled (predictedCovariance m P) where
  symm := by
    have hnoise : (noise (processDeviation (noiseHeight (m 3)))).IsSymm := Matrix.isSymm_diagonal _
    unfold Matrix.IsSymm predictedCovariance
    simp only [Matrix.transpose_add, Matrix.transpose_mul, Matrix.transpose_transpose, h.symm.eq,
      hnoise.eq, Matrix.mul_assoc]
  apart i j hij := by
    obtain ⟨hposition, hmixed, hspeed⟩ := h.apart i j hij
    have hmixed' : P (velocity i) (measured j) = 0 := by
      rw [h.symm.apply]
      exact (h.apart j i (Ne.symm hij)).2.1
    rw [predicted_measured, predicted_mixed, predicted_velocity, if_neg hij, if_neg hij, hposition,
      hmixed, hmixed', hspeed]
    simp
  position i := by
    rw [predicted_measured, if_pos rfl, h.symm.apply (measured i) (velocity i)]
    have hnoise := mul_self_nonneg (processDeviation (noiseHeight (m 3)) (measured i))
    have hsum := h.sum_nonneg i
    linarith
  speed i := by
    rw [predicted_velocity, if_pos rfl]
    have hspeed := h.speed i
    have hnoise := mul_self_nonneg (processDeviation (noiseHeight (m 3)) (velocity i))
    linarith
  bound i := by
    rw [predicted_measured, predicted_velocity, predicted_mixed, if_pos rfl, if_pos rfl,
      h.symm.apply (measured i) (velocity i)]
    have hbound := h.bound i
    have hspeed := h.speed i
    have hsum := h.sum_nonneg i
    have hnoise := mul_self_nonneg (processDeviation (noiseHeight (m 3)) (measured i))
    have hnoise' := mul_self_nonneg (processDeviation (noiseHeight (m 3)) (velocity i))
    nlinarith [mul_nonneg hnoise hspeed, mul_nonneg hnoise hnoise', mul_nonneg hsum hnoise']

/-! ## Correction -/

/-- The variances of the components as a correction from a mean measures them. -/
def projectedVariance (m : Fin 8 → K) (P : Matrix (Fin 8) (Fin 8) K) (i : Fin 4) : K :=
  P (measured i) (measured i) +
    measurementDeviation (noiseHeight (m 3)) i * measurementDeviation (noiseHeight (m 3)) i

namespace Coupled

omit [IsStrictOrderedRing K] in
/-- A velocity is not coupled with the component of another index, in either order. -/
theorem velocity_measured (h : Coupled P) {i j : Fin 4} (hij : i ≠ j) :
    P (velocity i) (measured j) = 0 := by
  rw [h.symm.apply]
  exact (h.apart j i (Ne.symm hij)).2.1

/-- The variance of a predicted measurement is positive, since it includes measurement noise. -/
theorem projectedVariance_pos (h : Coupled P) (i : Fin 4) : 0 < projectedVariance m P i := by
  have hposition := h.position i
  have hnoise := measurementDeviation_pos (m 3) i
  have hsquare := mul_pos hnoise hnoise
  unfold projectedVariance
  linarith

omit [IsStrictOrderedRing K] in
/-- The covariance of the innovation is diagonal: different components of a box are not coupled. -/
theorem innovation_eq (h : Coupled P) :
    innovationCovariance P measurementMatrix (measurementNoise m) =
      Matrix.diagonal (projectedVariance m P) :=
  innovationCovariance_diagonal m fun i j hij => (h.apart i j hij).1

/-- The correction divides by the variances. The innovation covariance is diagonal, so it is
inverted entry by entry. -/
theorem posterior_apply (h : Coupled P) (r c : Fin 8) :
    posteriorCovariance P measurementMatrix (measurementNoise m) r c = P r c -
      ∑ k, P r (measured k) * (projectedVariance m P k)⁻¹ * P (measured k) c := by
  have hinverse : (Matrix.diagonal (projectedVariance m P))⁻¹ =
      Matrix.diagonal fun i => (projectedVariance m P i)⁻¹ := by
    apply Matrix.inv_eq_left_inv
    rw [Matrix.diagonal_mul_diagonal, ← Matrix.diagonal_one]
    congr 1
    funext i
    exact inv_mul_cancel₀ (h.projectedVariance_pos i).ne'
  rw [posteriorCovariance, Matrix.sub_apply, gainMatrix, h.innovation_eq, hinverse,
    Matrix.mul_assoc, Matrix.mul_apply]
  simp only [Matrix.mul_diagonal, mul_measurement, measurement_mul]

/-- An entry of one component depends on that component only. -/
theorem posterior_same (h : Coupled P) {i : Fin 4} {r : Fin 8} (c : Fin 8)
    (hr : ∀ k, i ≠ k → P r (measured k) = 0) :
    posteriorCovariance P measurementMatrix (measurementNoise m) r c =
      P r c - P r (measured i) * (projectedVariance m P i)⁻¹ * P (measured i) c := by
  rw [h.posterior_apply, Finset.sum_eq_single i]
  · intro k _ hk
    rw [hr k (Ne.symm hk), zero_mul, zero_mul]
  · exact fun hi => absurd (Finset.mem_univ i) hi

/-- A correction keeps a covariance coupled. The innovation is diagonal, so that each component is
corrected by its own measurement. -/
theorem posterior (h : Coupled P) :
    Coupled (posteriorCovariance P measurementMatrix (measurementNoise m)) := by
  have hposition : ∀ i k, i ≠ k → P (measured i) (measured k) = 0 := fun i k hik =>
    (h.apart i k hik).1
  have hvelocity : ∀ i k, i ≠ k → P (velocity i) (measured k) = 0 := fun i k hik =>
    h.velocity_measured hik
  refine ⟨isSymm_posteriorCovariance h.symm (Matrix.isSymm_diagonal _), fun i j hij => ?_,
    fun i => ?_, fun i => ?_, fun i => ?_⟩
  · obtain ⟨hfirst, hmixed, hspeed⟩ := h.apart i j hij
    rw [h.posterior_same _ (hposition i), h.posterior_same _ (hposition i),
      h.posterior_same _ (hvelocity i), hfirst, hmixed, hspeed]
    simp
  all_goals
    have hvariance := h.projectedVariance_pos (m := m) i
    have hnoise := mul_self_nonneg (measurementDeviation (noiseHeight (m 3)) i)
    have hfirst := h.position i
    have hspeed := h.speed i
    have hbound := h.bound i
    have hsymm := h.symm.apply (measured i) (velocity i)
  · rw [h.posterior_same _ (hposition i)]
    have heq : P (measured i) (measured i) - P (measured i) (measured i) *
        (projectedVariance m P i)⁻¹ * P (measured i) (measured i) =
          P (measured i) (measured i) * (measurementDeviation (noiseHeight (m 3)) i *
            measurementDeviation (noiseHeight (m 3)) i) / projectedVariance m P i := by
      field_simp
      rw [projectedVariance]
      ring
    rw [heq]
    positivity
  · rw [h.posterior_same _ (hvelocity i), hsymm]
    have heq : P (velocity i) (velocity i) - P (measured i) (velocity i) *
        (projectedVariance m P i)⁻¹ * P (measured i) (velocity i) =
          (P (velocity i) (velocity i) * projectedVariance m P i -
            P (measured i) (velocity i) * P (measured i) (velocity i)) /
              projectedVariance m P i := by
      field_simp
    rw [heq]
    apply div_nonneg _ hvariance.le
    rw [projectedVariance]
    nlinarith [mul_nonneg hspeed hnoise]
  · rw [h.posterior_same _ (hposition i), h.posterior_same _ (hposition i),
      h.posterior_same _ (hvelocity i), hsymm]
    generalize hp : P (measured i) (measured i) = p at *
    generalize hx : P (measured i) (velocity i) = x at *
    generalize hv : P (velocity i) (velocity i) = v at *
    generalize hn : measurementDeviation (noiseHeight (m 3)) i *
      measurementDeviation (noiseHeight (m 3)) i = n at *
    have hs : projectedVariance m P i = p + n := by rw [projectedVariance, hp, hn]
    rw [hs] at hvariance ⊢
    have heq : (p - p * (p + n)⁻¹ * p) * (v - x * (p + n)⁻¹ * x) -
        (x - p * (p + n)⁻¹ * x) * (x - p * (p + n)⁻¹ * x) =
          n * (p * v - x * x) / (p + n) := by
      field_simp
      ring
    have hnonneg : 0 ≤ n * (p * v - x * x) / (p + n) :=
      div_nonneg (mul_nonneg hnoise (sub_nonneg.mpr hbound)) hvariance.le
    linarith

end Coupled

variable [RootOps K]

/-- A correction of a coupled covariance returns unless a variance is below the limit. -/
theorem update_returns_iff_variances (h : Coupled P) {z : Fin 4 → K} :
    (∃ s', update (exactVector m) (exactMatrix P) (exactVector z) = .ok s') ↔
      ∀ i, 1e-12 ≤ projectedVariance m P i := by
  rw [update_returns_iff, h.innovation_eq, invert4_diagonal h.projectedVariance_pos]

/-- What a correction that returns leaves is coupled. -/
theorem Coupled.update {z : Fin 4 → K} (h : Coupled P) {s' : KalmanState (Extended K)}
    (hrun : KalmanFilter.update (exactVector m) (exactMatrix P) (exactVector z) = .ok s') :
    ∃ m' P', s' = exactState m' P' ∧ Coupled P' := by
  obtain ⟨-, -, rfl, -⟩ := update_exact h.symm hrun
  exact ⟨_, _, rfl, h.posterior⟩

end EdgeClient.Tracking.KalmanFilter
