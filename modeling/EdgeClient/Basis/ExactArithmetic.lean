import EdgeClient.Basis.FloatArithmetic

/-!
# Calculating in exact arithmetic

An operation on numbers of the field gives a number of the field, and a result is one only
when the operands are. The square root is that of the real numbers.
-/

namespace Basis

/-- The real numbers with their square root. -/
noncomputable instance : RootOps ℝ where
  root := Real.sqrt
  integerPart x := if x < 0 then ⌈x⌉ else ⌊x⌋

/-- The root on the reals is the square root of Mathlib. -/
theorem root_real (x : ℝ) : RootOps.root x = √x := rfl

namespace Extended

variable {K : Type} [Field K] [LinearOrder K] [RootOps K] {a b : Extended K} {x y lo hi : K}

/-! ## Numbers of the field -/

/-- Numbers are added without rounding. -/
@[simp] theorem fin_add (x y : K) : (fin x + fin y : Extended K) = fin (x + y) := rfl

/-- Numbers are multiplied without rounding. -/
@[simp] theorem fin_mul (x y : K) : (fin x * fin y : Extended K) = fin (x * y) := rfl

/-- The negation of a number is a number. -/
@[simp] theorem fin_neg (x : K) : (-fin x : Extended K) = fin (-x) := rfl

/-- Numbers are subtracted without rounding. -/
@[simp] theorem fin_sub (x y : K) : (fin x - fin y : Extended K) = fin (x - y) := by
  rw [sub_eq_add_neg]
  rfl

/-- Division by a number other than zero is exact. By zero its result is a special value. -/
theorem fin_div (x : K) (hy : y ≠ 0) : (fin x / fin y : Extended K) = fin (x / y) := if_neg hy

/-- Numbers are compared as in the field. -/
@[simp] theorem fin_lt : ((fin x : Extended K) < fin y) ↔ x < y := by
  rw [lt_def, ltb, decide_eq_true_iff]

/-- Numbers are compared as in the field, equality included. -/
@[simp] theorem fin_le : ((fin x : Extended K) ≤ fin y) ↔ x ≤ y := by
  rw [le_def, leb, decide_eq_true_iff]

/-- A number is finite. -/
@[simp] theorem isFinite_fin (x : K) : isFinite (fin x : Extended K) = true := rfl

/-- The finite values are the numbers. The three special values are not finite. -/
theorem isFinite_iff : isFinite a = true ↔ ∃ x, a = fin x := by
  constructor
  · exact exists_fin_of_isFinite
  · rintro ⟨x, rfl⟩
    rfl

omit [Field K] [LinearOrder K] [RootOps K] in
/-- Both precisions are the same type here, so widening changes nothing. -/
@[simp] theorem widen_eq (a : Extended K) : (widen a : Extended K) = a := rfl

omit [Field K] [LinearOrder K] [RootOps K] in
/-- Both precisions are the same type here, so narrowing changes nothing. -/
@[simp] theorem narrow_eq (a : Extended K) : (narrow a : Extended K) = a := rfl

/-- The root of a number that is not negative is exact. -/
theorem sqrt_fin (hx : 0 ≤ x) : (Basis.sqrt (fin x) : Extended K) = fin (RootOps.root x) :=
  if_neg (not_lt.mpr hx)

/-- `std::max` of two numbers is their maximum. -/
@[simp] theorem stdMax_fin (x y : K) : stdMax (fin x : Extended K) (fin y) = fin (max x y) := by
  unfold stdMax
  simp only [fin_lt]
  split
  · rename_i h
    rw [max_eq_right h.le]
  · rename_i h
    rw [max_eq_left (not_lt.mp h)]

/-- `std::min` of two numbers is their minimum. -/
@[simp] theorem stdMin_fin (x y : K) : stdMin (fin x : Extended K) (fin y) = fin (min x y) := by
  unfold stdMin
  simp only [fin_lt]
  split
  · rename_i h
    rw [min_eq_right h.le]
  · rename_i h
    rw [min_eq_left (not_lt.mp h)]

/-- `std::clamp` of a number brings it between the bounds, if they are in order. The three
branches are those of the standard: below, above and between the bounds. -/
theorem stdClamp_fin (h : lo ≤ hi) :
    stdClamp (fin x : Extended K) (fin lo) (fin hi) = fin (max lo (min x hi)) := by
  unfold stdClamp
  simp only [fin_lt]
  split
  · rename_i hlow
    rw [min_eq_left (hlow.le.trans h), max_eq_left hlow.le]
  split
  · rename_i hhigh
    rw [min_eq_right hhigh.le, max_eq_right h]
  · rename_i hlow hhigh
    rw [min_eq_left (not_lt.mp hhigh), max_eq_right (not_lt.mp hlow)]

/-- `std::abs` of a number is its absolute value. The sign is found by a comparison with zero. -/
@[simp] theorem stdAbs_fin [IsStrictOrderedRing K] (x : K) :
    stdAbs (fin x : Extended K) = fin |x| := by
  unfold stdAbs
  simp only [lit_def, Rat.cast_zero, fin_lt]
  split
  · rename_i h
    rw [abs_of_neg h, fin_neg]
  · rename_i h
    rw [abs_of_nonneg (not_lt.mp h)]

/-- A sum of numbers in the order of their indices. The induction is on the list of indices, with
the sum so far as a parameter. -/
theorem foldl_add_fin {n : ℕ} (f : Fin n → K) (c : K) :
    (List.finRange n).foldl (fun acc j => acc + fin (f j)) (fin c : Extended K) =
      fin (c + ∑ j, f j) := by
  rw [Fin.sum_univ_def]
  generalize List.finRange n = indices
  induction indices generalizing c with
  | nil => simp
  | cons j indices ih =>
    rw [List.foldl_cons, fin_add, ih, List.map_cons, List.sum_cons, add_assoc]

/-- The pivot is an entry of largest absolute value. The loop takes a row only when it is strictly
better, so the first of equal ones stays. It looks at no row in front of the column. -/
theorem pivotRow_fin [IsStrictOrderedRing K] (v : Fin 4 → K) (col : Fin 4) :
    ∃ pivot, pivotRow (fun row => (fin (v row) : Extended K)) col = (pivot, fin |v pivot|) ∧
      col ≤ pivot ∧ ∀ row, col ≤ row → |v row| ≤ |v pivot| := by
  unfold pivotRow
  have hrows :
      ∀ row, col ≤ row ↔ row = col ∨ row ∈ (List.finRange 4).filter (fun row => col < row) := by
    intro row
    rw [List.mem_filter, decide_eq_true_iff, le_iff_eq_or_lt, eq_comm]
    simp
  have hfold : ∀ (rows : List (Fin 4)) (best : Fin 4), ∃ pivot,
      rows.foldl (fun best row =>
          if best.2 < stdAbs (fin (v row) : Extended K) then (row, stdAbs (fin (v row))) else best)
        (best, fin |v best|) = (pivot, fin |v pivot|) ∧ (pivot = best ∨ pivot ∈ rows) ∧
        |v best| ≤ |v pivot| ∧ ∀ row ∈ rows, |v row| ≤ |v pivot| := by
    intro rows
    induction rows with
    | nil => exact fun best => ⟨best, rfl, Or.inl rfl, le_rfl, by simp⟩
    | cons row rows ih =>
      intro best
      rw [List.foldl_cons]
      simp only [stdAbs_fin, fin_lt]
      by_cases hbetter : |v best| < |v row|
      · rw [if_pos hbetter]
        obtain ⟨pivot, hpivot, hmem, hle, hall⟩ := ih row
        simp only [stdAbs_fin] at hpivot
        refine ⟨pivot, hpivot, Or.inr ?_, hbetter.le.trans hle,
          List.forall_mem_cons.mpr ⟨hle, hall⟩⟩
        exact List.mem_cons.mpr hmem
      · rw [if_neg hbetter]
        obtain ⟨pivot, hpivot, hmem, hle, hall⟩ := ih best
        simp only [stdAbs_fin] at hpivot
        refine ⟨pivot, hpivot, hmem.imp_right (List.mem_cons_of_mem _), hle,
          List.forall_mem_cons.mpr ⟨(not_lt.mp hbetter).trans hle, hall⟩⟩
  rw [stdAbs_fin]
  obtain ⟨pivot, hpivot, hmem, hle, hall⟩ :=
    hfold ((List.finRange 4).filter fun row => col < row) col
  refine ⟨pivot, hpivot, (hrows pivot).mpr hmem, fun row hrow => ?_⟩
  obtain rfl | hrow := (hrows row).mp hrow
  · exact hle
  · exact hall row hrow

/-- The number of a finite datum. -/
def number : Extended K → K
  | fin x => x
  | _ => 0

omit [LinearOrder K] [RootOps K] in
/-- A number is read back from the value that holds it. -/
@[simp] theorem number_fin (x : K) : (fin x : Extended K).number = x := rfl

/-- A finite value is the number read from it. -/
theorem fin_number (h : isFinite a = true) : fin a.number = a := by
  obtain ⟨x, rfl⟩ := exists_fin_of_isFinite h
  rfl

/-! ## Results that are numbers of the field -/

/-- If a sum is finite, both its terms are: there is no cancellation of infinities. -/
theorem finite_of_add (h : isFinite (a + b) = true) : isFinite a = true ∧ isFinite b = true := by
  cases a <;> cases b <;> first | exact ⟨rfl, rfl⟩ | cases h

/-- A product with an infinity is not finite. -/
theorem not_finite_scaled (x y : K) :
    isFinite (if x = 0 then nan else infinityOf y : Extended K) = false := by
  unfold infinityOf
  split
  · rfl
  · split <;> rfl

/-- If a product is finite, both its factors are. The products with a special value are special
values again, also the product with zero. -/
theorem finite_of_mul (h : isFinite (a * b) = true) : isFinite a = true ∧ isFinite b = true := by
  cases a with
  | fin x =>
    cases b with
    | fin y => exact ⟨rfl, rfl⟩
    | nan => cases h
    | posInf => exact absurd h (Bool.eq_false_iff.mp (not_finite_scaled x x))
    | negInf => exact absurd h (Bool.eq_false_iff.mp (not_finite_scaled x (-x)))
  | nan => cases b <;> cases h
  | posInf =>
    cases b with
    | fin y => exact absurd h (Bool.eq_false_iff.mp (not_finite_scaled y y))
    | nan | posInf | negInf => cases h
  | negInf =>
    cases b with
    | fin y => exact absurd h (Bool.eq_false_iff.mp (not_finite_scaled y (-y)))
    | nan | posInf | negInf => cases h

/-- If a root is finite, it was taken from a number that is not negative. The root of a negative
number is not a number. -/
theorem finite_of_sqrt (h : isFinite (Basis.sqrt a) = true) : ∃ x, a = fin x ∧ 0 ≤ x := by
  cases a with
  | nan | negInf => cases h
  | posInf => cases h
  | fin x =>
    refine ⟨x, rfl, ?_⟩
    by_contra hneg
    have hnan : (Basis.sqrt (fin x) : Extended K) = nan := if_pos (not_le.mp hneg)
    rw [hnan] at h
    cases h

/-- A finite sum has finite terms. Going backwards, each step of the sum was finite already. -/
theorem finite_of_foldl_add {ι : Type} {f : ι → Extended K} {indices : List ι} {c : Extended K}
    (h : isFinite (indices.foldl (fun acc j => acc + f j) c) = true) :
    isFinite c = true ∧ ∀ j ∈ indices, isFinite (f j) = true := by
  induction indices generalizing c with
  | nil => exact ⟨h, fun j hj => absurd hj List.not_mem_nil⟩
  | cons j indices ih =>
    obtain ⟨hsum, hrest⟩ := ih h
    obtain ⟨hc, hj⟩ := finite_of_add hsum
    exact ⟨hc, List.forall_mem_cons.mpr ⟨hj, hrest⟩⟩

end Extended

end Basis
