import EdgeClient.Vision.AttendanceConfig
import EdgeClient.Vision.ExactAlignment
import EdgeClient.Vision.LivenessCoverage

/-!
# The quality gate and the alignment for liveness

A face passes the quality gate only when its landmarks fit the template of the recognition
model closely. The template of the liveness model is nearly the same figure on a smaller
scale, so the same landmarks fit it with a scale that is neither zero nor too large. The
elimination takes the same course for both templates.
-/

namespace EdgeClient.Vision

open Basis Basis.Extended Basis.LeastSquares

/-! ## The elimination does not depend on the template -/

section Elimination

variable {D : Type} [FloatOps D]

/-- The right-hand side does not influence whether the elimination throws. The pivots are chosen
and tested on the matrix alone. -/
theorem solve4_ok_of_ok {e e' : String} {a : Fin 4 → Fin 4 → D} {b b' x : Fin 4 → D}
    (hok : solve4 e a b = .ok x) : ∃ x', solve4 e' a b' = .ok x' := by
  have hloop : ∀ (cols : List (Fin 4)) (system system' out : (Fin 4 → Fin 4 → D) × (Fin 4 → D)),
      system.1 = system'.1 →
      cols.foldlM (fun system col =>
        let found := pivotRow (fun row => system.1 row col) col
        if found.2 < lit 1e-10 then throw e
        else return solve4Eliminate col found.1 system) system = (.ok out : Except String _) →
      ∃ out', cols.foldlM (fun system col =>
        let found := pivotRow (fun row => system.1 row col) col
        if found.2 < lit 1e-10 then throw e'
        else return solve4Eliminate col found.1 system) system' = (.ok out' : Except String _) := by
    intro cols
    induction cols with
    | nil => exact fun _ system' _ _ _ => ⟨system', rfl⟩
    | cons col cols ih =>
      intro system system' out hsame hrun
      rw [List.foldlM_cons] at hrun ⊢
      obtain ⟨next, hnext, hrun⟩ := bind_eq_ok.mp hrun
      dsimp only at hnext ⊢
      rw [hsame] at hnext
      split at hnext
      · cases hnext
      rename_i hlarge
      cases hnext
      have hcourse :
          (solve4Eliminate col (pivotRow (fun row => system'.1 row col) col).1 system).1 =
          (solve4Eliminate col (pivotRow (fun row => system'.1 row col) col).1 system').1 := by
        simp only [solve4Eliminate, hsame]
      obtain ⟨out', hout'⟩ := ih _ _ out hcourse hrun
      exact ⟨out', bind_eq_ok.mpr ⟨_, if_neg hlarge, hout'⟩⟩
  unfold solve4 at hok ⊢
  obtain ⟨system, hrun, -⟩ := bind_eq_ok.mp hok
  obtain ⟨out', hout'⟩ := hloop _ (a, b) (a, b') _ rfl hrun
  exact ⟨out'.2, bind_eq_ok.mpr ⟨out', hout', rfl⟩⟩

/-- The right-hand side does not influence which factors are skipped. By induction on the columns:
the left-hand sides stay equal. -/
theorem unskipped_congr {cols : List (Fin 4)}
    {system system' : (Fin 4 → Fin 4 → D) × (Fin 4 → D)} (hsame : system.1 = system'.1) :
    unskipped cols system = unskipped cols system' := by
  induction cols generalizing system system' with
  | nil => rfl
  | cons col cols ih =>
    unfold unskipped
    dsimp only
    rw [hsame]
    have hcourse : (solve4Eliminate col (pivotRow (fun row => system'.1 row col) col).1 system).1 =
        (solve4Eliminate col (pivotRow (fun row => system'.1 row col) col).1 system').1 := by
      simp only [solve4Eliminate, hsame]
    rw [ih hcourse]

end Elimination

variable {K : Type} [Field K] [LinearOrder K] [IsStrictOrderedRing K]

/-! ## The size of a fit -/

/-- The centre of five points. -/
def centre (points : Fin 5 → Point2f K) : Point2f K :=
  ⟨(∑ i, (points i).x) / 5, (∑ i, (points i).y) / 5⟩

/-- How far five points are spread. -/
def spread (points : Fin 5 → Point2f K) : K :=
  ∑ i, (((points i).x - (centre points).x) ^ 2 + ((points i).y - (centre points).y) ^ 2)

/-- The map of all points to the centre of the template. -/
def toCentre (points : Fin 5 → Point2f K) : Fin 4 → K :=
  ![0, 0, (centre points).x, (centre points).y]

omit [LinearOrder K] [IsStrictOrderedRing K] in
/-- The values of parameters at the landmarks. Each landmark has one row for either coordinate. -/
theorem sum_landmarkRows (landmarks : Fin 5 → Point2f K) (p : Fin 4 → K) (g : Fin 5 × Fin 2 → K) :
    ∑ k, (value (landmarkRows landmarks k) p - g k) ^ 2 =
      ∑ i, ((p 0 * (landmarks i).x - p 1 * (landmarks i).y + p 2 - g (i, 0)) ^ 2 +
        (p 1 * (landmarks i).x + p 0 * (landmarks i).y + p 3 - g (i, 1)) ^ 2) := by
  unfold value landmarkRows
  rw [Fintype.sum_prod_type]
  apply Finset.sum_congr rfl
  intro i _
  simp only [Fin.sum_univ_two, Fin.sum_univ_four, if_true, Fin.one_eq_zero_iff]
  simp
  ring

/-- The translation of a fit takes centre to centre. These are the two normal equations of the
translation. -/
theorem translation_of_solves {points landmarks : Fin 5 → Point2f K} {p : Fin 4 → K}
    (h : Solves (landmarkRows landmarks) (templateValues points) p) :
    p 2 = (centre points).x - p 0 * (centre landmarks).x + p 1 * (centre landmarks).y ∧
      p 3 = (centre points).y - p 1 * (centre landmarks).x - p 0 * (centre landmarks).y := by
  have hx := solves_iff.mp h 2
  have hy := solves_iff.mp h 3
  simp only [Fintype.sum_prod_type, Fin.sum_univ_two, Fin.sum_univ_five, landmarkRows, value,
    templateValues, Fin.sum_univ_four, if_true, Fin.one_eq_zero_iff, Matrix.cons_val] at hx hy
  simp at hx hy
  unfold centre
  simp only [Fin.sum_univ_five]
  constructor
  · linarith
  · linarith

/-- What a fit adds to the centre, as a sum over the landmarks. The fitted map scales distances
from the centre by one and the same factor. -/
theorem sum_sq_fit {points landmarks : Fin 5 → Point2f K} {p : Fin 4 → K}
    (h : Solves (landmarkRows landmarks) (templateValues points) p) :
    ∑ k, value (landmarkRows landmarks k) (toCentre points - p) ^ 2 =
      (p 0 * p 0 + p 1 * p 1) * spread landmarks := by
  obtain ⟨hx, hy⟩ := translation_of_solves h
  have hsum := sum_landmarkRows landmarks (toCentre points - p) fun _ => 0
  simp only [sub_zero] at hsum
  rw [hsum]
  unfold spread
  rw [Finset.mul_sum]
  apply Finset.sum_congr rfl
  intro i _
  simp only [toCentre, Pi.sub_apply, Matrix.cons_val]
  rw [hx, hy]
  ring

/-- Numbers between zero and a bound are not spread more than at its ends. The deviation from the
mean is not larger than that from the middle of the range. -/
theorem sum_sq_sub_mean_le {x : Fin 5 → K} {M : K} (hx : ∀ i, 0 ≤ x i ∧ x i ≤ M) :
    ∑ i, (x i - (∑ j, x j) / 5) ^ 2 ≤ 5 * (M / 2) ^ 2 := by
  have hmiddle : ∀ i, (x i - M / 2) ^ 2 ≤ (M / 2) ^ 2 := by
    intro i
    apply sq_le_sq'
    · linarith [(hx i).1]
    · linarith [(hx i).2]
  have hshift : ∑ i, (x i - (∑ j, x j) / 5) ^ 2 =
      ∑ i, (x i - M / 2) ^ 2 - 5 * ((∑ j, x j) / 5 - M / 2) ^ 2 := by
    simp only [Fin.sum_univ_five]
    ring
  have hsum : ∑ i, (x i - M / 2) ^ 2 ≤ ∑ _i : Fin 5, (M / 2) ^ 2 :=
    Finset.sum_le_sum fun i _ => hmiddle i
  rw [Finset.sum_const, Finset.card_univ, Fintype.card_fin, nsmul_eq_mul] at hsum
  rw [hshift]
  have hsq := sq_nonneg ((∑ j, x j) / 5 - M / 2)
  push_cast at hsum
  linarith

/-- The spread of landmarks in a frame. -/
theorem spread_le {landmarks : Fin 5 → Point2f K} {M : K}
    (h : ∀ i, (0 ≤ (landmarks i).x ∧ (landmarks i).x ≤ M) ∧
      0 ≤ (landmarks i).y ∧ (landmarks i).y ≤ M) : spread landmarks ≤ 10 * (M / 2) ^ 2 := by
  have hx := sum_sq_sub_mean_le fun i => (h i).1
  have hy := sum_sq_sub_mean_le fun i => (h i).2
  unfold spread centre
  rw [Finset.sum_add_distrib]
  linarith

/-! ## The two templates -/

section Templates

variable [RootOps K]

omit [IsStrictOrderedRing K] in
/-- The coordinates of the template for recognition. -/
theorem numbers_arcFaceTarget : numbers (arcFaceTarget (F := Extended K)).points =
    ![⟨38.2946, 51.6963⟩, ⟨73.5318, 51.5014⟩, ⟨56.0252, 71.7366⟩, ⟨41.5493, 92.3655⟩,
      ⟨70.7299, 92.2041⟩] := by
  funext i
  fin_cases i <;> simp [numbers, arcFaceTarget, lit_def]

omit [IsStrictOrderedRing K] in
/-- The coordinates of the template for liveness. -/
theorem numbers_livenessTarget : numbers (livenessTarget (F := Extended K)).points =
    ![⟨32.03, 38.06⟩, ⟨47.89, 37.98⟩, ⟨40.01, 47.08⟩, ⟨33.50, 56.36⟩, ⟨46.63, 56.29⟩] := by
  funext i
  fin_cases i <;> simp [numbers, livenessTarget, lit_def]

/-- The centre of the template for recognition. -/
theorem toCentre_arcFaceTarget : toCentre (numbers (arcFaceTarget (F := Extended K)).points) =
    ![0, 0, 56.02616, 71.90078] := by
  rw [numbers_arcFaceTarget]
  simp only [toCentre, centre, Fin.sum_univ_five, Matrix.cons_val]
  norm_num

/-- The centre of the template for liveness. -/
theorem toCentre_livenessTarget : toCentre (numbers (livenessTarget (F := Extended K)).points) =
    ![0, 0, 40.012, 47.154] := by
  rw [numbers_livenessTarget]
  simp only [toCentre, centre, Fin.sum_univ_five, Matrix.cons_val]
  norm_num

/-- A face shrunk to a point is far from the template for recognition. -/
theorem residual_toCentre (landmarks : Fin 5 → Point2f K) :
    2702 ≤ LeastSquares.residual (landmarkRows landmarks)
      (templateValues (numbers (arcFaceTarget (F := Extended K)).points))
      (toCentre (numbers (arcFaceTarget (F := Extended K)).points)) := by
  unfold LeastSquares.residual
  rw [sum_landmarkRows, toCentre_arcFaceTarget, numbers_arcFaceTarget]
  simp only [templateValues, Fin.sum_univ_five, Matrix.cons_val, if_true, Fin.one_eq_zero_iff]
  norm_num

/-- On nine twentieths of its scale the template for recognition is nearly the one for
liveness. -/
theorem templates_similar (landmarks : Fin 5 → Point2f K) :
    ∑ k, (templateValues (numbers (livenessTarget (F := Extended K)).points) k -
        9 / 20 * templateValues (numbers (arcFaceTarget (F := Extended K)).points) k -
        value (landmarkRows landmarks k) (fun j =>
          toCentre (numbers (livenessTarget (F := Extended K)).points) j -
            9 / 20 * toCentre (numbers (arcFaceTarget (F := Extended K)).points) j)) ^ 2 ≤
      1 := by
  have hflip : ∀ k, (templateValues (numbers (livenessTarget (F := Extended K)).points) k -
        9 / 20 * templateValues (numbers (arcFaceTarget (F := Extended K)).points) k -
        value (landmarkRows landmarks k) (fun j =>
          toCentre (numbers (livenessTarget (F := Extended K)).points) j -
            9 / 20 * toCentre (numbers (arcFaceTarget (F := Extended K)).points) j)) ^ 2 =
      (value (landmarkRows landmarks k) (fun j =>
          toCentre (numbers (livenessTarget (F := Extended K)).points) j -
            9 / 20 * toCentre (numbers (arcFaceTarget (F := Extended K)).points) j) -
        (templateValues (numbers (livenessTarget (F := Extended K)).points) k -
          9 / 20 * templateValues (numbers (arcFaceTarget (F := Extended K)).points) k)) ^ 2 := by
    intro k
    ring
  simp only [hflip]
  rw [sum_landmarkRows, toCentre_arcFaceTarget, toCentre_livenessTarget, numbers_arcFaceTarget,
    numbers_livenessTarget]
  simp only [templateValues, Fin.sum_univ_five, Matrix.cons_val, if_true, Fin.one_eq_zero_iff]
  norm_num

/-- Landmarks that fit the template for recognition fit the one for liveness with a scale that
is bounded from below. -/
theorem scale_of_close_fit {landmarks : Fin 5 → Point2f K} {p p' : Fin 4 → K}
    (h : Solves (landmarkRows landmarks)
      (templateValues (numbers (arcFaceTarget (F := Extended K)).points)) p)
    (hclose : LeastSquares.residual (landmarkRows landmarks)
      (templateValues (numbers (arcFaceTarget (F := Extended K)).points)) p ≤ 405)
    (h' : Solves (landmarkRows landmarks)
      (templateValues (numbers (livenessTarget (F := Extended K)).points)) p') :
    231 ≤ (p' 0 * p' 0 + p' 1 * p' 1) * spread landmarks := by
  set q := toCentre (numbers (arcFaceTarget (F := Extended K)).points) with hq
  set q' := toCentre (numbers (livenessTarget (F := Extended K)).points) with hq'
  have hfar : 2297 ≤ ∑ k, value (landmarkRows landmarks k) (q - p) ^ 2 := by
    have hsplit := h.residual_add (q - p)
    rw [add_sub_cancel] at hsplit
    have hcentre := residual_toCentre (K := K) landmarks
    rw [hsplit] at hcentre
    linarith
  -- The fit for liveness differs little from the scaled fit for recognition.
  have hnear := (h.combine h' (9 / 20) fun j => q' j - 9 / 20 * q j).sum_sq_le
  have hsmall := hnear.trans (templates_similar landmarks)
  rw [← sum_sq_fit h']
  have hpoint : ∀ k, 81 / 800 * value (landmarkRows landmarks k) (q - p) ^ 2 -
      value (landmarkRows landmarks k)
        (fun j => p' j - 9 / 20 * p j - (q' j - 9 / 20 * q j)) ^ 2 ≤
      value (landmarkRows landmarks k) (q' - p') ^ 2 := by
    intro k
    have hlinear : value (landmarkRows landmarks k) (q' - p') =
        9 / 20 * value (landmarkRows landmarks k) (q - p) -
          value (landmarkRows landmarks k)
            (fun j => p' j - 9 / 20 * p j - (q' j - 9 / 20 * q j)) := by
      simp only [value, Fin.sum_univ_four, Pi.sub_apply]
      ring
    rw [hlinear]
    generalize value (landmarkRows landmarks k) (q - p) = u
    generalize value (landmarkRows landmarks k)
      (fun j => p' j - 9 / 20 * p j - (q' j - 9 / 20 * q j)) = v
    nlinarith [sq_nonneg (9 / 40 * u - v), sq_nonneg (9 / 20 * u - 2 * v)]
  have hsum := Finset.sum_le_sum fun k (_ : k ∈ Finset.univ) => hpoint k
  rw [Finset.sum_sub_distrib, ← Finset.mul_sum] at hsum
  linarith

end Templates

/-! ## The inverse map -/

/-- The translation of the inverse map takes the centre of the template back. This keeps the
translation of the inverse small where its entries are. -/
theorem inverseMap_translation {points landmarks : Fin 5 → Point2f K} {p : Fin 4 → K}
    (h : Solves (landmarkRows landmarks) (templateValues points) p)
    (hp : p 0 * p 0 + p 1 * p 1 ≠ 0) :
    inverseMap p 2 = (centre landmarks).x - inverseMap p 0 * (centre points).x -
        inverseMap p 1 * (centre points).y ∧
      inverseMap p 5 = (centre landmarks).y - inverseMap p 3 * (centre points).x -
        inverseMap p 4 * (centre points).y := by
  obtain ⟨hx, hy⟩ := translation_of_solves h
  simp only [inverseMap, Matrix.cons_val]
  rw [hx, hy]
  generalize hd : p 0 * p 0 + p 1 * p 1 = d at hp
  constructor
  · field_simp
    linear_combination (centre landmarks).x * hd
  · field_simp
    linear_combination (centre landmarks).y * hd

/-- The entries of the inverse map are bounded by the spread of the landmarks. The inverse scales
by the reciprocal of the scale of the fit. -/
theorem inverseMap_le {p : Fin 4 → K} {S R : K} (hS : S ≤ 231 * R ^ 2)
    (hscale : 231 ≤ (p 0 * p 0 + p 1 * p 1) * S)
    (hR : 0 ≤ R) :
    |inverseMap p 0| ≤ R ∧ |inverseMap p 1| ≤ R ∧ |inverseMap p 3| ≤ R ∧ |inverseMap p 4| ≤ R := by
  have hnonneg : 0 ≤ p 0 * p 0 + p 1 * p 1 :=
    add_nonneg (mul_self_nonneg _) (mul_self_nonneg _)
  have hpos : 0 < p 0 * p 0 + p 1 * p 1 := by
    refine lt_of_le_of_ne hnonneg fun hzero => ?_
    rw [← hzero, zero_mul] at hscale
    norm_num at hscale
  have hone : 1 ≤ (p 0 * p 0 + p 1 * p 1) * R ^ 2 := by
    have hle := mul_le_mul_of_nonneg_left hS hnonneg
    linarith
  have hfirst : (p 0 / (p 0 * p 0 + p 1 * p 1)) ^ 2 ≤ R ^ 2 := by
    rw [div_pow, div_le_iff₀ (pow_pos hpos 2)]
    nlinarith [mul_self_nonneg (p 1), mul_le_mul_of_nonneg_left hone hnonneg]
  have hsecond : (p 1 / (p 0 * p 0 + p 1 * p 1)) ^ 2 ≤ R ^ 2 := by
    rw [div_pow, div_le_iff₀ (pow_pos hpos 2)]
    nlinarith [mul_self_nonneg (p 0), mul_le_mul_of_nonneg_left hone hnonneg]
  have hp := abs_le_of_sq_le_sq hfirst hR
  have hq := abs_le_of_sq_le_sq hsecond hR
  refine ⟨hp, hq, ?_, hp⟩
  have hneg : inverseMap p 3 = -inverseMap p 1 := by
    simp only [inverseMap, Matrix.cons_val]
    rw [neg_div]
  rw [hneg, abs_neg]
  exact hq

section Gate

variable [RootOps K]

/-- Landmarks in a frame and a scale that is bounded from below pass both range checks. The
entries and the translation of the inverse map are bounded, and with them its corners. -/
theorem updateParams_ok {landmarks : Fin 5 → Point2f K} {p : Fin 4 → K}
    {t : SimilarityTransform2D (Extended K)} (hdst : t.dstToSrc = fun i => fin (inverseMap p i))
    (h : Solves (landmarkRows landmarks)
      (templateValues (numbers (livenessTarget (F := Extended K)).points)) p)
    (hscale : 231 ≤ (p 0 * p 0 + p 1 * p 1) * spread landmarks)
    (hframe : ∀ i, (0 ≤ (landmarks i).x ∧ (landmarks i).x ≤ 16383) ∧
      0 ≤ (landmarks i).y ∧ (landmarks i).y ≤ 16383) (sourceWidth sourceHeight : ℕ) :
    ∃ params, Liveness.updateParams sourceWidth sourceHeight t = .ok params := by
  have hspread : spread landmarks ≤ 231 * 1705 ^ 2 := by
    have hle := spread_le hframe
    norm_num at hle ⊢
    linarith
  obtain ⟨h0, h1, h3, h4⟩ := inverseMap_le hspread hscale (by norm_num)
  have hpos : p 0 * p 0 + p 1 * p 1 ≠ 0 := by
    intro hzero
    rw [hzero, zero_mul] at hscale
    norm_num at hscale
  obtain ⟨h2, h5⟩ := inverseMap_translation h hpos
  have hcentre := congrFun (toCentre_livenessTarget (K := K))
  have hcx : (centre (numbers (livenessTarget (F := Extended K)).points)).x = 40.012 := hcentre 2
  have hcy : (centre (numbers (livenessTarget (F := Extended K)).points)).y = 47.154 := hcentre 3
  have hmean : ∀ x : Fin 5 → K, (∀ i, 0 ≤ x i ∧ x i ≤ 16383) →
      0 ≤ (∑ i, x i) / 5 ∧ (∑ i, x i) / 5 ≤ 16383 := by
    intro x hx
    simp only [Fin.sum_univ_five]
    constructor
    · linarith [(hx 0).1, (hx 1).1, (hx 2).1, (hx 3).1, (hx 4).1]
    · linarith [(hx 0).2, (hx 1).2, (hx 2).2, (hx 3).2, (hx 4).2]
  have hmx := hmean _ fun i => (hframe i).1
  have hmy := hmean _ fun i => (hframe i).2
  rw [hcx, hcy] at h2 h5
  rw [abs_le] at h0 h1 h3 h4
  have h2' : |inverseMap p 2| ≤ 166000 := by
    rw [h2, abs_le]
    unfold centre
    constructor
    · norm_num
      linarith
    · norm_num
      linarith
  have h5' : |inverseMap p 5| ≤ 166000 := by
    rw [h5, abs_le]
    unfold centre
    constructor
    · norm_num
      linarith
    · norm_num
      linarith
  rw [← abs_le] at h0 h1 h3 h4
  have hentries : ∀ i, |inverseMap p i| ≤ 166000 := by
    intro i
    fin_cases i
    · exact h0.trans (by norm_num)
    · exact h1.trans (by norm_num)
    · exact h2'
    · exact h3.trans (by norm_num)
    · exact h4.trans (by norm_num)
    · exact h5'
  have hvalid : ∀ i, Liveness.invalidEntry (t.dstToSrc i) = false := by
    intro i
    rw [hdst, Liveness.invalidEntry, decide_eq_false_iff_not, stdAbs_fin, lit_def, fin_lt]
    have hi := hentries i
    norm_num
    linarith
  have hrange : ∀ a b c : K, |a| ≤ 1705 → |b| ≤ 1705 → |c| ≤ 166000 → ∀ x ∈ [0, 79],
      ∀ y ∈ [0, 79], Liveness.exceedsRange (fin a : Extended K) (fin b) (fin c) x y = false := by
    intro a b c ha hb hc x hx y hy
    have hx' : (0 : K) ≤ (x : K) ∧ (x : K) ≤ 79 := by
      simp only [List.mem_cons, List.not_mem_nil, or_false] at hx
      rcases hx with rfl | rfl <;> norm_num
    have hy' : (0 : K) ≤ (y : K) ∧ (y : K) ≤ 79 := by
      simp only [List.mem_cons, List.not_mem_nil, or_false] at hy
      rcases hy with rfl | rfl <;> norm_num
    rw [Liveness.exceedsRange, decide_eq_false_iff_not]
    simp only [lit_def, Rat.cast_natCast, fin_mul, stdAbs_fin, fin_add, fin_lt]
    rw [abs_mul, abs_mul, abs_of_nonneg hx'.1, abs_of_nonneg hy'.1, not_lt]
    have hax : |a| * x ≤ 1705 * 79 := mul_le_mul ha hx'.2 hx'.1 (by norm_num)
    have hby : |b| * y ≤ 1705 * 79 := mul_le_mul hb hy'.2 hy'.1 (by norm_num)
    norm_num at hax hby ⊢
    linarith
  unfold Liveness.updateParams
  dsimp only
  rw [if_neg, if_neg]
  · exact ⟨_, rfl⟩
  · rw [List.any_eq_true]
    rintro ⟨y, hy, hany⟩
    obtain ⟨x, hx, hexceeds⟩ := List.any_eq_true.mp hany
    rw [hdst] at hexceeds
    simp [hrange _ _ _ h0 h1 h2' x hx y hy, hrange _ _ _ h3 h4 h5' x hx y hy] at hexceeds
  · rw [List.any_eq_true]
    rintro ⟨i, -, hinvalid⟩
    rw [hvalid i] at hinvalid
    cases hinvalid

/-- The root is at most one below the exact one. -/
def CloseRoot (K : Type) [Field K] [LinearOrder K] [RootOps K] : Prop :=
  ∀ x y : K, 0 ≤ x → RootOps.root x ≤ y → x ≤ (y + 1) ^ 2

/-- The root of the reals is as close as the gate needs it. -/
theorem closeRoot_real : CloseRoot ℝ := by
  intro x y hx hy
  rw [root_real] at hy
  have hroot := Real.sqrt_nonneg x
  have hsquare := Real.mul_self_sqrt hx
  nlinarith

/-- The root of a rational number to twelve decimals. The samples are computed with it. -/
theorem closeRoot_rat : CloseRoot ℚ := by
  intro x y hx hy
  set d : ℚ := x.den * 10 ^ 12 with hd
  set N := Nat.sqrt (x.num.toNat * x.den * 10 ^ 24) with hN
  have hroot : RootOps.root x = (N : ℚ) / d := rfl
  have hden : (1 : ℚ) ≤ x.den := by exact_mod_cast x.pos
  have hone : 1 ≤ d := by
    rw [hd]
    nlinarith
  have hnum : x * x.den = x.num.toNat := by
    rw [Rat.mul_den_eq_num]
    exact_mod_cast (Int.toNat_of_nonneg (Rat.num_nonneg.mpr hx)).symm
  have hscaled : x * d ^ 2 = (x.num.toNat * x.den * 10 ^ 24 : ℕ) := by
    push_cast
    rw [← hnum, hd]
    ring
  have hlt : x * d ^ 2 < ((N : ℚ) + 1) ^ 2 := by
    rw [hscaled]
    exact_mod_cast Nat.lt_succ_sqrt' _
  have hnonneg : (0 : ℚ) ≤ N := Nat.cast_nonneg N
  rw [hroot, div_le_iff₀ (by linarith)] at hy
  have hy' : 0 ≤ y := by
    by_contra hneg
    nlinarith
  have hle : (N : ℚ) + 1 ≤ (y + 1) * d := by nlinarith
  have hsq : ((N : ℚ) + 1) ^ 2 ≤ ((y + 1) * d) ^ 2 := by
    apply sq_le_sq' <;> nlinarith
  rw [mul_pow] at hsq
  exact le_of_mul_le_mul_right (hlt.le.trans hsq) (by positivity)

omit [IsStrictOrderedRing K] in
/-- A face of positive quality was aligned for recognition, with a residual in the limit. The
quality is zero wherever the alignment throws or its residual is above the limit. -/
theorem aligned_of_quality {t : TrackResult (Extended K)}
    {c : BiometricAttendanceConfig (Extended K)} (h : lit 0 < quality (Extended K) t c) :
    ∃ a, estimateArcfaceTransform (Extended K) t.observation = .ok a ∧ isFinite a.rmse = true ∧
      ¬ c.maxAlignmentRmse < a.rmse := by
  have hzero : ¬ (lit 0 : Extended K) < lit 0 := by
    rw [lit_def, fin_lt]
    exact lt_irrefl _
  unfold quality at h
  split at h
  · exact absurd h hzero
  dsimp only at h
  split at h
  · exact absurd h hzero
  split at h
  · exact absurd h hzero
  split at h
  · exact absurd h hzero
  split at h
  · exact absurd h hzero
  · rename_i a ha
    split at h
    · exact absurd h hzero
    · rename_i hrmse
      obtain ⟨hfinite, hlimit⟩ := not_or.mp hrmse
      exact ⟨a, ha, Bool.not_eq_false _ ▸ hfinite, hlimit⟩

omit [IsStrictOrderedRing K] in
/-- The template of the recognition has finite points. -/
theorem finitePoints_arcFaceTarget : FinitePoints (arcFaceTarget (F := Extended K)).points := by
  intro i
  fin_cases i <;> exact ⟨rfl, rfl⟩

omit [IsStrictOrderedRing K] in
/-- The template of the liveness check has finite points. -/
theorem finitePoints_livenessTarget : FinitePoints (livenessTarget (F := Extended K)).points := by
  intro i
  fin_cases i <;> exact ⟨rfl, rfl⟩

omit [IsStrictOrderedRing K] in
/-- The matrix of the normal equations does not depend on the template. -/
theorem normalEquations_course {landmarks : Fin 5 → Point2f (Extended K)}
    (hlandmarks : FinitePoints landmarks) :
    (normalEquations (D := Extended K) arcFaceTarget.points landmarks).1 =
      (normalEquations (D := Extended K) livenessTarget.points landmarks).1 := by
  rw [normalEquations_exact finitePoints_arcFaceTarget hlandmarks,
    normalEquations_exact finitePoints_livenessTarget hlandmarks]

/-- `solve4` returns the only solution of the normal equations. No factor was skipped, so the
elimination is exact. -/
theorem solves_of_solve4 {e : String} {points landmarks : Fin 5 → Point2f (Extended K)}
    {x : Fin 4 → Extended K} (hpoints : FinitePoints points) (hlandmarks : FinitePoints landmarks)
    (hun : unskipped (List.finRange 4) (normalEquations (D := Extended K) points landmarks) = true)
    (hok : solve4 e (normalEquations (D := Extended K) points landmarks).1
      (normalEquations (D := Extended K) points landmarks).2 = .ok x) :
    ∃ p : Fin 4 → K, x = (fun i => fin (p i)) ∧
      ∀ q, Solves (landmarkRows (numbers landmarks)) (templateValues (numbers points)) q ↔
        q = p := by
  rw [normalEquations_exact hpoints hlandmarks] at hok hun
  exact solve4_exact hun hok

/-- A face that passes the quality gate with the default limit is aligned for liveness, and
its transform passes the range checks of the preprocessor. -/
theorem liveness_aligned_of_quality {t : TrackResult (Extended K)}
    {c : BiometricAttendanceConfig (Extended K)} (hroot : CloseRoot K)
    (hframe : ∀ i, (lit 0 ≤ (t.observation.landmarks i).x ∧
        (t.observation.landmarks i).x ≤ lit 16383) ∧
      lit 0 ≤ (t.observation.landmarks i).y ∧ (t.observation.landmarks i).y ≤ lit 16383)
    (hlimit : c.maxAlignmentRmse = lit 8) (hquality : lit 0 < quality (Extended K) t c)
    (hun : unskipped (List.finRange 4) (normalEquations (D := Extended K)
      arcFaceTarget.points t.observation.landmarks) = true) :
    ∃ transform, estimateLivenessTransform (Extended K) t.observation = .ok transform ∧
      ∀ sourceWidth sourceHeight, ∃ params,
        Liveness.updateParams sourceWidth sourceHeight transform = .ok params := by
  obtain ⟨a, ha, -, hrmse⟩ := aligned_of_quality hquality
  obtain ⟨p, hfit, hsolves, -⟩ := faceFit_of_ok hun ha
  obtain ⟨-, hlandmarks, x, hx, -⟩ := estimateTransform_ok ha
  have hclose : LeastSquares.residual (landmarkRows (numbers t.observation.landmarks))
      (templateValues (numbers (arcFaceTarget (F := Extended K)).points)) p ≤ 405 := by
    rw [← fitError_eq_residual]
    rw [hlimit, hfit.rmse, lit_def, fin_lt, not_lt, Rat.cast_ofNat] at hrmse
    have hnonneg : 0 ≤ fitError (numbers (arcFaceTarget (F := Extended K)).points)
        (numbers t.observation.landmarks) p / 5 := by
      unfold fitError
      positivity
    have hle := hroot _ _ hnonneg hrmse
    norm_num at hle
    linarith
  -- The elimination for liveness takes the course of the one for recognition.
  have hsame := normalEquations_course hlandmarks
  have hunLive : unskipped (List.finRange 4) (normalEquations (D := Extended K)
      livenessTarget.points t.observation.landmarks) = true :=
    (unskipped_congr hsame).symm.trans hun
  obtain ⟨x', hx'⟩ : ∃ x' : Fin 4 → Extended K,
      solve4 (livenessTarget (F := Extended K)).degenerateError
        (normalEquations (D := Extended K) livenessTarget.points t.observation.landmarks).1
        (normalEquations (D := Extended K) livenessTarget.points t.observation.landmarks).2 =
          .ok x' := by
    rw [← hsame]
    exact solve4_ok_of_ok hx
  obtain ⟨p', rfl, hsolves'⟩ := solves_of_solve4 finitePoints_livenessTarget hlandmarks hunLive hx'
  have hinside : ∀ i, (0 ≤ (numbers t.observation.landmarks i).x ∧
        (numbers t.observation.landmarks i).x ≤ 16383) ∧
      0 ≤ (numbers t.observation.landmarks i).y ∧
        (numbers t.observation.landmarks i).y ≤ 16383 := by
    intro i
    have hi := hframe i
    rw [← fin_number (hlandmarks i).1, ← fin_number (hlandmarks i).2] at hi
    simp only [lit_def, fin_le, Rat.cast_zero, Rat.cast_ofNat] at hi
    exact hi
  have hscale := scale_of_close_fit ((hsolves p).mpr rfl) hclose ((hsolves' p').mpr rfl)
  have hspread := spread_le hinside
  have hdenom : ¬ (fin (p' 0) * fin (p' 0) + fin (p' 1) * fin (p' 1) : Extended K) <
      lit 1e-12 := by
    rw [fin_mul, fin_mul, fin_add, lit_def, fin_lt, not_lt]
    have hnonneg : 0 ≤ p' 0 * p' 0 + p' 1 * p' 1 :=
      add_nonneg (mul_self_nonneg _) (mul_self_nonneg _)
    norm_num at hspread ⊢
    nlinarith
  obtain ⟨transform, htransform⟩ := estimateTransform_returns
    finitePoints_livenessTarget hlandmarks hx' hdenom
  refine ⟨transform, htransform, fun sourceWidth sourceHeight => ?_⟩
  obtain ⟨q, hfit', hsolvesLive, -⟩ := faceFit_of_ok hunLive htransform
  have hq : p' = q := (hsolvesLive p').mp ((hsolves' p').mpr rfl)
  subst hq
  exact updateParams_ok hfit'.dstToSrc ((hsolves' p').mpr rfl) hscale hinside _ _

/-- A track with the face in the middle of the frame. The track is in its first frame and carries
the sample observation. -/
def sampleTrack : TrackResult (Extended ℚ) where
  trackId := 1
  x1 := fin 600
  y1 := fin 300
  x2 := fin 800
  y2 := fin 560
  score := fin (9 / 10)
  state := .tracked
  startFrame := 1
  frameId := 1
  trackletLen := 0
  hasObservation := true
  observation := sampleObservation

/-- The face in the middle of the frame passes the gate and is aligned for liveness. -/
theorem liveness_aligned_of_quality_sample :
    ∃ transform, estimateLivenessTransform (Extended ℚ) sampleObservation = .ok transform ∧
      ∀ sourceWidth sourceHeight, ∃ params,
        Liveness.updateParams sourceWidth sourceHeight transform = .ok params :=
  @liveness_aligned_of_quality ℚ _ _ _ _ sampleTrack {} closeRoot_rat (by decide +kernel) rfl
    (by decide +kernel) (by decide +kernel)

end Gate

end EdgeClient.Vision
