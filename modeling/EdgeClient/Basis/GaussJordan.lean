import EdgeClient.Basis.Literals

/-!
# Gauss–Jordan elimination

A step exchanges two rows, divides the pivot row and subtracts multiples of it from all other
rows. It does not change which vectors all rows annihilate, it makes the pivot column a unit
vector, and it keeps the unit vectors that are there. After one step for every row the leading
columns are those of the identity matrix, so the annihilated vectors can be read off.
-/

namespace Basis

namespace GaussJordan

variable {K : Type} [Field K] {n m : ℕ} {col pivot : Fin n} {p : Fin m} {rows : Fin n → Fin m → K}

/-- A vector that every row annihilates. -/
def Annihilates (rows : Fin n → Fin m → K) (y : Fin m → K) : Prop := ∀ r, ∑ c, rows r c * y c = 0

/-- One step: the rows `pivot` and `col` are exchanged, and column `p` is cleared. -/
def step (col pivot : Fin n) (p : Fin m) (rows : Fin n → Fin m → K) : Fin n → Fin m → K :=
  let rows := rows ∘ Equiv.swap pivot col
  fun r c =>
    if r = col then rows col c / rows col p else rows r c - rows r p * (rows col c / rows col p)

/-- An exchange of rows does not matter. -/
theorem annihilates_swap {y : Fin m → K} :
    Annihilates (rows ∘ Equiv.swap pivot col) y ↔ Annihilates rows y := by
  constructor
  · intro h r
    have hr := h (Equiv.swap pivot col r)
    simpa using hr
  · intro h r
    exact h _

/-- A step does not change what the rows annihilate. A swap only reorders the equations, and
adding a multiple of the pivot row can be taken back. -/
theorem annihilates_step (hp : rows pivot p ≠ 0) {y : Fin m → K} :
    Annihilates (step col pivot p rows) y ↔ Annihilates rows y := by
  have hswap : Annihilates (rows ∘ Equiv.swap pivot col) y ↔ Annihilates rows y := annihilates_swap
  refine Iff.trans ?_ hswap
  have hdiag : (rows ∘ Equiv.swap pivot col) col p ≠ 0 := by simpa using hp
  unfold step
  generalize rows ∘ Equiv.swap pivot col = a at hdiag
  have hcol : ∑ c, a col c / a col p * y c = (∑ c, a col c * y c) / a col p := by
    rw [Finset.sum_div]
    apply Finset.sum_congr rfl
    intro c _
    ring
  have hrow : ∀ r, ∑ c, (a r c - a r p * (a col c / a col p)) * y c =
      ∑ c, a r c * y c - a r p * ∑ c, a col c / a col p * y c := by
    intro r
    rw [Finset.mul_sum, ← Finset.sum_sub_distrib]
    apply Finset.sum_congr rfl
    intro c _
    ring
  constructor
  · intro h
    have hzero : ∑ c, a col c * y c = 0 := by
      have hpivot := h col
      simp only [if_true] at hpivot
      rw [hcol, div_eq_zero_iff] at hpivot
      exact hpivot.resolve_right hdiag
    intro r
    by_cases hr : r = col
    · rw [hr]
      exact hzero
    · have hother := h r
      simp only [hr, if_false] at hother
      rw [hrow, hcol, hzero] at hother
      simpa using hother
  · intro h r
    by_cases hr : r = col
    · simp only [hr, if_true]
      rw [hcol, h col, zero_div]
    · simp only [hr, if_false]
      rw [hrow, hcol, h col, h r]
      simp

/-- The pivot column becomes a unit vector. Its row has been divided by the pivot, and every other
row loses its entry. -/
theorem step_pivot (hp : rows pivot p ≠ 0) (r : Fin n) :
    step col pivot p rows r p = if r = col then 1 else 0 := by
  have hdiag : (rows ∘ Equiv.swap pivot col) col p ≠ 0 := by simpa using hp
  unfold step
  generalize rows ∘ Equiv.swap pivot col = a at hdiag
  simp only [div_self hdiag]
  split
  · rfl
  · ring

/-- A unit vector in front of the pivot stays. The pivot row has a zero in such a column, so that
adding multiples of it changes nothing there. -/
theorem step_unit {q : Fin m} {k : Fin n} (hunit : ∀ r, rows r q = if r = k then 1 else 0)
    (hcol : k ≠ col) (hpivot : k ≠ pivot) (r : Fin n) :
    step col pivot p rows r q = if r = k then 1 else 0 := by
  have hswap : ∀ r, (rows ∘ Equiv.swap pivot col) r q = if r = k then 1 else 0 := by
    intro r
    rw [Function.comp_apply, hunit, ← Equiv.swap_apply_of_ne_of_ne hpivot hcol]
    simp only [EmbeddingLike.apply_eq_iff_eq]
    rw [Equiv.swap_apply_of_ne_of_ne hpivot hcol]
  unfold step
  generalize rows ∘ Equiv.swap pivot col = a at hswap
  have hzero : a col q = 0 := by
    rw [hswap, if_neg hcol.symm]
  by_cases hr : r = col
  · rw [if_pos hr, hzero, zero_div, hr, if_neg hcol.symm]
  · rw [if_neg hr, hzero, zero_div, mul_zero, sub_zero, hswap]

/-- What the elimination has reached after `k` steps. -/
structure Reduced (lead : Fin n → Fin m) (start : Fin n → Fin m → K) (k : ℕ)
    (rows : Fin n → Fin m → K) : Prop where
  /-- The rows annihilate the same vectors. -/
  null : ∀ y, Annihilates rows y ↔ Annihilates start y
  /-- The first columns are unit vectors. -/
  unit : ∀ q : Fin n, q.val < k → ∀ r, rows r (lead q) = if r = q then 1 else 0

variable {lead : Fin n → Fin m} {start : Fin n → Fin m → K}

/-- Before the elimination no column is reduced. -/
theorem reduced_start : Reduced lead start 0 start :=
  ⟨fun _ => Iff.rfl, fun _ hq => absurd hq (Nat.not_lt_zero _)⟩

/-- One more step. The new column becomes a unit vector, and the columns in front of it stay as
they are. -/
theorem Reduced.step (h : Reduced lead start col.val rows) (hle : col ≤ pivot)
    (hp : rows pivot (lead col) ≠ 0) :
    Reduced lead start (col.val + 1) (step col pivot (lead col) rows) := by
  refine ⟨fun y => (annihilates_step hp).trans (h.null y), fun q hq r => ?_⟩
  by_cases hlast : q = col
  · rw [hlast]
    exact step_pivot hp r
  · have hlt : q.val < col.val := by
      have hne : q.val ≠ col.val := fun heq => hlast (Fin.ext heq)
      omega
    apply step_unit (h.unit q hlt) hlast
    intro heq
    have hle' : col.val ≤ pivot.val := hle
    rw [heq] at hlt
    omega

/-- The solution of a system that is reduced: the last column of the rows. The reduced rows
annihilate the same vectors as the rows at the start, and there the equations can be read off. -/
theorem Reduced.solution {a : Fin n → Fin n → K} {b : Fin n → K} {rows : Fin n → Fin (n + 1) → K}
    (h : Reduced Fin.castSucc (fun r => Fin.snoc (a r) (b r)) n rows) (x : Fin n → K) :
    (∀ r, ∑ j, a r j * x j = b r) ↔ ∀ r, x r = rows r (Fin.last n) := by
  have hnull := h.null (Fin.snoc x (-1))
  have hleft : Annihilates (fun r => (Fin.snoc (a r) (b r) : Fin (n + 1) → K)) (Fin.snoc x (-1)) ↔
      ∀ r, ∑ j, a r j * x j = b r := by
    apply forall_congr'
    intro r
    rw [Fin.sum_univ_castSucc]
    simp only [Fin.snoc_castSucc, Fin.snoc_last, mul_neg, mul_one, ← sub_eq_add_neg, sub_eq_zero]
  have hright : Annihilates rows (Fin.snoc x (-1)) ↔ ∀ r, x r = rows r (Fin.last n) := by
    apply forall_congr'
    intro r
    rw [Fin.sum_univ_castSucc]
    have hunit : ∀ j : Fin n, rows r j.castSucc = if r = j then 1 else 0 :=
      fun j => h.unit j j.isLt r
    simp only [Fin.snoc_castSucc, Fin.snoc_last, hunit, mul_neg, mul_one, ← sub_eq_add_neg,
      sub_eq_zero, ite_mul, one_mul, zero_mul, Finset.sum_ite_eq, Finset.mem_univ, if_true]
  rw [← hleft, ← hnull, hright]

/-- The inverse of a matrix that is reduced next to the identity: the second half of the rows.
Each column of the identity is the right side of its own system, so all columns are solved at
once. -/
theorem Reduced.inverse {s : Matrix (Fin n) (Fin n) K} {rows : Fin n → Fin (n + n) → K}
    (h : Reduced (Fin.castAdd n) (fun r => Fin.append (s r) ((1 : Matrix (Fin n) (Fin n) K) r)) n
      rows) : Matrix.of (fun r c => rows r (Fin.natAdd n c)) * s = 1 := by
  ext r c
  -- The vector that the rows of `s` next to the identity annihilate for column `c`.
  have hstart : Annihilates (fun r => (Fin.append (s r) ((1 : Matrix (Fin n) (Fin n) K) r) :
      Fin (n + n) → K)) (Fin.append (Pi.single c 1) fun k => -s k c) := by
    intro r
    rw [Fin.sum_univ_add]
    simp only [Fin.append_left, Fin.append_right, Matrix.one_apply, Pi.single_apply, mul_ite,
      ite_mul, mul_one, mul_zero, one_mul, zero_mul, Finset.sum_ite_eq', Finset.sum_ite_eq,
      Finset.mem_univ, if_true, add_neg_cancel]
  have hrow := (h.null _).mpr hstart r
  rw [Fin.sum_univ_add] at hrow
  have hunit : ∀ j : Fin n, rows r (Fin.castAdd n j) = if r = j then 1 else 0 :=
    fun j => h.unit j j.isLt r
  simp only [Fin.append_left, Fin.append_right, hunit, Pi.single_apply, mul_ite, mul_one, mul_zero,
    Finset.sum_ite_eq', Finset.mem_univ, if_true, mul_neg, Finset.sum_neg_distrib] at hrow
  rw [Matrix.mul_apply, Matrix.one_apply]
  simp only [Matrix.of_apply]
  linear_combination -hrow

end GaussJordan

end Basis
