import EdgeClient.Basis.Literals

/-!
# Covariances under prediction and correction

A linear model with noise moves a covariance `P` to `F P Fᵀ + Q`. A measurement `H` with noise
`R` corrects it to `P - P Hᵀ S⁻¹ H P`, where `S = H P Hᵀ + R`. Both keep a covariance
symmetric and positive definite; the second one because it is the inverse of
`P⁻¹ + Hᵀ R⁻¹ H`.
-/

namespace Basis

open Matrix

variable {ι κ : Type} [Fintype ι] [DecidableEq ι] [Fintype κ] [DecidableEq κ]

section Model

variable {K : Type} [CommRing K]

/-- The covariance of the measurement. -/
def innovationCovariance (P : Matrix ι ι K) (H : Matrix κ ι K) (R : Matrix κ κ K) :
    Matrix κ κ K := H * P * Hᵀ + R

/-- The gain: how a deviation of the measurement moves the estimate. -/
noncomputable def gainMatrix (P : Matrix ι ι K) (H : Matrix κ ι K) (R : Matrix κ κ K) :
    Matrix ι κ K := P * Hᵀ * (innovationCovariance P H R)⁻¹

/-- The covariance after the correction. -/
noncomputable def posteriorCovariance (P : Matrix ι ι K) (H : Matrix κ ι K) (R : Matrix κ κ K) :
    Matrix ι ι K := P - gainMatrix P H R * H * P

omit [DecidableEq ι] in
/-- A correction keeps a covariance symmetric. -/
theorem isSymm_posteriorCovariance {P : Matrix ι ι K} {H : Matrix κ ι K} {R : Matrix κ κ K}
    (hP : P.IsSymm) (hR : R.IsSymm) : (posteriorCovariance P H R).IsSymm := by
  have hS : (innovationCovariance P H R)ᵀ = innovationCovariance P H R := by
    simp only [innovationCovariance, transpose_add, transpose_mul, transpose_transpose, hP.eq,
      hR.eq, Matrix.mul_assoc]
  unfold Matrix.IsSymm posteriorCovariance gainMatrix
  simp only [transpose_sub, transpose_mul, transpose_nonsing_inv, transpose_transpose, hP.eq, hS,
    Matrix.mul_assoc]

end Model

variable {P Q F : Matrix ι ι ℝ} {H : Matrix κ ι ℝ} {R : Matrix κ κ ℝ}

/-- A prediction with a transition that loses nothing. -/
theorem posDef_predicted (hP : P.PosDef) (hF : IsUnit F) (hQ : Q.PosSemidef) :
    (F * P * Fᵀ + Q).PosDef := by
  have hmoved : (F * P * Fᵀ).PosDef := by
    have hconj := hP.mul_mul_conjTranspose_same (B := F) (Matrix.vecMul_injective_iff_isUnit.mpr hF)
    simpa only [conjTranspose_eq_transpose_of_trivial] using hconj
  exact hmoved.add_posSemidef hQ

omit [DecidableEq ι] [DecidableEq κ] in
/-- The covariance of the innovation is positive definite, because that of the measurement is. -/
theorem posDef_innovationCovariance (hP : P.PosDef) (hR : R.PosDef) :
    (innovationCovariance P H R).PosDef := by
  have hprojected : (H * P * Hᵀ).PosSemidef := by
    have hconj := hP.posSemidef.mul_mul_conjTranspose_same H
    simpa only [conjTranspose_eq_transpose_of_trivial] using hconj
  exact hR.posSemidef_add hprojected

/-- The correction adds up information. This is the identity of Woodbury, for which all three
matrices have to be invertible. -/
theorem posteriorCovariance_eq (hP : P.PosDef) (hR : R.PosDef) :
    posteriorCovariance P H R = (P⁻¹ + Hᵀ * R⁻¹ * H)⁻¹ := by
  have hS : IsUnit (R⁻¹⁻¹ + H * P⁻¹⁻¹ * Hᵀ) := by
    rw [nonsing_inv_nonsing_inv _ (isUnit_iff_isUnit_det _ |>.mp hR.isUnit),
      nonsing_inv_nonsing_inv _ (isUnit_iff_isUnit_det _ |>.mp hP.isUnit), add_comm]
    exact (posDef_innovationCovariance hP hR).isUnit
  rw [add_mul_mul_inv_eq_sub _ _ _ _ hP.inv.isUnit hR.inv.isUnit hS,
    nonsing_inv_nonsing_inv _ (isUnit_iff_isUnit_det _ |>.mp hR.isUnit),
    nonsing_inv_nonsing_inv _ (isUnit_iff_isUnit_det _ |>.mp hP.isUnit)]
  rw [posteriorCovariance, gainMatrix, innovationCovariance, add_comm R]

/-- A correction keeps a covariance positive definite. -/
theorem posDef_posteriorCovariance (hP : P.PosDef) (hR : R.PosDef) :
    (posteriorCovariance P H R).PosDef := by
  rw [posteriorCovariance_eq hP hR]
  have hinformation : (Hᵀ * R⁻¹ * H).PosSemidef := by
    have hconj := hR.inv.posSemidef.conjTranspose_mul_mul_same H
    simpa only [conjTranspose_eq_transpose_of_trivial] using hconj
  exact (hP.inv.add_posSemidef hinformation).inv

end Basis
