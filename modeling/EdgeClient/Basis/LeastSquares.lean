import EdgeClient.Basis.Literals

/-!
# Least squares

Linear equations with more rows than unknowns have no solution in general. The normal
equations have the parameters of least residual as their solutions: at such a solution the
residual of any other parameters exceeds the least one by the squares of the rows applied to
the difference. When the normal equations have one solution, it is the only minimum.
-/

namespace Basis

namespace LeastSquares

variable {ι K : Type*} [Fintype ι] [Field K] {n : ℕ}

/-- A row applied to parameters. -/
def value (row p : Fin n → K) : K := ∑ j, row j * p j

/-- Sum of the squared errors of the parameters. -/
def residual (rows : ι → Fin n → K) (target : ι → K) (p : Fin n → K) : K :=
  ∑ k, (value (rows k) p - target k) ^ 2

/-- Matrix of the normal equations. -/
def normalMatrix (rows : ι → Fin n → K) (i j : Fin n) : K := ∑ k, rows k i * rows k j

/-- Right-hand side of the normal equations. -/
def normalTarget (rows : ι → Fin n → K) (target : ι → K) (i : Fin n) : K :=
  ∑ k, rows k i * target k

/-- The parameters solve the normal equations. -/
def Solves (rows : ι → Fin n → K) (target : ι → K) (p : Fin n → K) : Prop :=
  ∀ i, ∑ j, normalMatrix rows i j * p j = normalTarget rows target i

variable {rows : ι → Fin n → K} {target : ι → K} {p q : Fin n → K}

omit [Fintype ι] in
/-- The value of a row is additive in the parameters. -/
theorem value_add (row d : Fin n → K) : value row (p + d) = value row p + value row d := by
  unfold value
  rw [← Finset.sum_add_distrib]
  apply Finset.sum_congr rfl
  intro j _
  rw [Pi.add_apply, mul_add]

/-- A row of the normal matrix applied to parameters. The two sums are exchanged. -/
theorem sum_normalMatrix (i : Fin n) :
    ∑ j, normalMatrix rows i j * p j = ∑ k, rows k i * value (rows k) p := by
  unfold normalMatrix value
  simp only [Finset.sum_mul, Finset.mul_sum]
  rw [Finset.sum_comm]
  apply Finset.sum_congr rfl
  intro k _
  apply Finset.sum_congr rfl
  intro j _
  ring

/-- The errors of a solution are orthogonal to the columns. -/
theorem solves_iff : Solves rows target p ↔
    ∀ i, ∑ k, rows k i * (value (rows k) p - target k) = 0 := by
  apply forall_congr'
  intro i
  simp only [mul_sub]
  rw [Finset.sum_sub_distrib, ← sum_normalMatrix, sub_eq_zero]
  rfl

/-- The errors of a solution are orthogonal to the rows applied to any direction. These are the
normal equations, tested against one direction. -/
theorem Solves.orthogonal (h : Solves rows target p) (d : Fin n → K) :
    ∑ k, value (rows k) d * (value (rows k) p - target k) = 0 := by
  have hrow := solves_iff.mp h
  calc ∑ k, value (rows k) d * (value (rows k) p - target k)
      = ∑ k, ∑ i, d i * (rows k i * (value (rows k) p - target k)) := by
        apply Finset.sum_congr rfl
        intro k _
        rw [value, Finset.sum_mul]
        apply Finset.sum_congr rfl
        intro i _
        ring
    _ = ∑ i, d i * ∑ k, rows k i * (value (rows k) p - target k) := by
        rw [Finset.sum_comm]
        apply Finset.sum_congr rfl
        intro i _
        rw [Finset.mul_sum]
    _ = 0 := by simp [hrow]

/-- The residual away from a solution. The mixed terms vanish, because the errors are orthogonal
to the rows. -/
theorem Solves.residual_add (h : Solves rows target p) (d : Fin n → K) :
    residual rows target (p + d) = residual rows target p + ∑ k, value (rows k) d ^ 2 := by
  have hcross := h.orthogonal d
  unfold residual
  rw [← Finset.sum_add_distrib]
  have hsplit : ∀ k, (value (rows k) (p + d) - target k) ^ 2 =
      (value (rows k) p - target k) ^ 2 + value (rows k) d ^ 2 +
        2 * (value (rows k) d * (value (rows k) p - target k)) := by
    intro k
    rw [value_add]
    ring
  simp only [hsplit]
  rw [Finset.sum_add_distrib, ← Finset.mul_sum, hcross, mul_zero, add_zero]

/-- A direction that no row sees leads from one solution to another. -/
theorem Solves.add (h : Solves rows target p) {d : Fin n → K} (hd : ∀ k, value (rows k) d = 0) :
    Solves rows target (p + d) := by
  intro i
  rw [sum_normalMatrix, ← h i, sum_normalMatrix]
  apply Finset.sum_congr rfl
  intro k _
  rw [value_add, hd k, add_zero]

/-- The solution for a target that combines two targets and the values of some parameters. The
normal equations are linear in target and parameters, so they hold of every such combination. -/
theorem Solves.combine {target' : ι → K} {p' : Fin n → K} (h : Solves rows target p)
    (h' : Solves rows target' p') (s : K) (c : Fin n → K) :
    Solves rows (fun k => target' k - s * target k - value (rows k) c)
      (fun j => p' j - s * p j - c j) := by
  rw [solves_iff] at h h' ⊢
  intro i
  have hvalue : ∀ k, value (rows k) (fun j => p' j - s * p j - c j) =
      value (rows k) p' - s * value (rows k) p - value (rows k) c := by
    intro k
    unfold value
    rw [Finset.mul_sum, ← Finset.sum_sub_distrib, ← Finset.sum_sub_distrib]
    apply Finset.sum_congr rfl
    intro j _
    ring
  calc ∑ k, rows k i * (value (rows k) (fun j => p' j - s * p j - c j) -
        (target' k - s * target k - value (rows k) c))
      = ∑ k, (rows k i * (value (rows k) p' - target' k) -
          s * (rows k i * (value (rows k) p - target k))) := by
        apply Finset.sum_congr rfl
        intro k _
        rw [hvalue]
        ring
    _ = 0 := by rw [Finset.sum_sub_distrib, ← Finset.mul_sum, h i, h' i, mul_zero, sub_zero]

/-- The values of a solution are not larger than its target. The residual and the values of a
solution are orthogonal, so that their squares add up to that of the target. -/
theorem Solves.sum_sq_le [LinearOrder K] [IsStrictOrderedRing K] (h : Solves rows target p) :
    ∑ k, value (rows k) p ^ 2 ≤ ∑ k, target k ^ 2 := by
  have hzero := h.residual_add (-p)
  have hneg : ∀ k, value (rows k) (-p) = -value (rows k) p := by
    intro k
    unfold value
    rw [← Finset.sum_neg_distrib]
    apply Finset.sum_congr rfl
    intro j _
    rw [Pi.neg_apply, mul_neg]
  simp only [hneg, neg_sq] at hzero
  have horigin : residual rows target (p + -p) = ∑ k, target k ^ 2 := by
    unfold residual value
    simp
  have hnonneg : 0 ≤ residual rows target p := Finset.sum_nonneg fun k _ => sq_nonneg _
  linarith

/-- The only solution of the normal equations is the only minimum. Another minimum would add
nothing to the residual, so the rows would not see the difference and it would solve the equations
too. -/
theorem Solves.lt_residual [LinearOrder K] [IsStrictOrderedRing K] (h : Solves rows target p)
    (hunique : ∀ q, Solves rows target q → q = p) (hne : q ≠ p) :
    residual rows target p < residual rows target q := by
  have hq : q = p + (q - p) := (add_sub_cancel p q).symm
  rw [hq, h.residual_add]
  have hnonneg : ∀ k ∈ Finset.univ, 0 ≤ value (rows k) (q - p) ^ 2 := fun k _ => sq_nonneg _
  refine lt_add_of_pos_right _ (lt_of_le_of_ne (Finset.sum_nonneg hnonneg) fun hzero => hne ?_)
  have hnone : ∀ k, value (rows k) (q - p) = 0 := by
    intro k
    exact pow_eq_zero_iff (two_ne_zero) |>.mp
      ((Finset.sum_eq_zero_iff_of_nonneg hnonneg).mp hzero.symm k (Finset.mem_univ k))
  rw [hq]
  exact hunique _ (h.add hnone)

end LeastSquares

end Basis
