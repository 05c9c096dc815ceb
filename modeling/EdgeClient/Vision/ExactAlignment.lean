import EdgeClient.Basis.ExactArithmetic
import EdgeClient.Basis.GaussJordan
import EdgeClient.Basis.LeastSquares
import EdgeClient.Basis.StatefulPrograms
import EdgeClient.Vision.Alignment

/-!
# Alignment in exact arithmetic

In exact arithmetic `solve4` solves the normal equations, unless it skips a factor that is
small and not zero. The solution is then the only one, so that the similarity is the only one
of least residual, and landmarks that coincide, for which there are several solutions, are
refused. A skipped factor can let landmarks that coincide pass.
-/

namespace EdgeClient.Vision

open Basis Basis.Extended Basis.LeastSquares

/-! ## Skipped factors -/

section Program

variable {F D : Type} [FloatOps F] [FloatOps D] [FloatPair F D]

/-- A factor that the elimination skips although it is not zero. -/
def skippedFactor (factor : D) : Bool := lit 0 < stdAbs factor ∧ stdAbs factor < lit 1e-18

/-- The columns of `solve4` skip no factor that is not zero, up to the column that throws. A
factor that is skipped would leave its row unreduced, so the solution would not be exact. -/
def unskipped : List (Fin 4) → (Fin 4 → Fin 4 → D) × (Fin 4 → D) → Bool
  | [], _ => true
  | col :: cols, system =>
    let (pivot, best) := pivotRow (fun row => system.1 row col) col
    if best < lit 1e-10 then true
    else
      ((List.finRange 4).all fun row =>
        row = col ∨ ¬ skippedFactor (system.1 (Equiv.swap pivot col row) col)) &&
      unskipped cols (solve4Eliminate col pivot system)

/-- The normal equations of landmarks and a template. -/
def normalEquations (points landmarks : Fin 5 → Point2f F) :
    (Fin 4 → Fin 4 → D) × (Fin 4 → D) :=
  (List.finRange 5).foldl (fun system i =>
    accumulateRow ![widen (landmarks i).y, widen (landmarks i).x, lit 0, lit 1]
      (widen (points i).y)
      (accumulateRow ![widen (landmarks i).x, -widen (landmarks i).y, lit 1, lit 0]
        (widen (points i).x) system))
    (fun _ _ => lit 0, fun _ => lit 0)

end Program

variable {K : Type} [Field K] [LinearOrder K] [RootOps K]

/-- A system of numbers. -/
def exactSystem (rows : Fin 4 → Fin (4 + 1) → K) :
    (Fin 4 → Fin 4 → Extended K) × (Fin 4 → Extended K) :=
  (fun r j => fin (rows r j.castSucc), fun r => fin (rows r (Fin.last 4)))

/-! ## The solver -/

section Solver

variable [IsStrictOrderedRing K] {start rows : Fin 4 → Fin (4 + 1) → K} {col pivot : Fin 4}

/-- A factor that is not skipped has an effect, or is zero. -/
theorem eq_zero_of_small {x : K} (hun : skippedFactor (fin x : Extended K) = false)
    (hsmall : stdAbs (fin x : Extended K) < lit 1e-18) : x = 0 := by
  by_contra hx
  have hpos : (lit 0 : Extended K) < stdAbs (fin x) := by
    rw [stdAbs_fin, lit_def, fin_lt, Rat.cast_zero]
    exact abs_pos.mpr hx
  rw [skippedFactor, decide_eq_false_iff_not] at hun
  exact hun ⟨hpos, hsmall⟩

/-- One column of the elimination is a step on the numbers. The code skips rows with a small
factor, and by the hypothesis none is small but zero. -/
theorem solve4Eliminate_exact
    (hrows : GaussJordan.Reduced Fin.castSucc start col.val rows) (hle : col ≤ pivot)
    (hpivot : rows pivot col.castSucc ≠ 0)
    (hun : ∀ row, row ≠ col →
      skippedFactor (fin (rows (Equiv.swap pivot col row) col.castSucc) : Extended K) = false) :
    solve4Eliminate col pivot (exactSystem rows) =
      exactSystem (GaussJordan.step col pivot col.castSucc rows) := by
  have hdiag : rows (Equiv.swap pivot col col) col.castSucc ≠ 0 := by simpa using hpivot
  -- In front of the column the row of the pivot is zero.
  have hzero : ∀ j : Fin 4, j < col → rows (Equiv.swap pivot col col) j.castSucc = 0 := by
    intro j hj
    rw [Equiv.swap_apply_right, hrows.unit j hj, if_neg]
    exact (hj.trans_le hle).ne'
  refine Prod.ext ?_ ?_
  · funext r j
    simp only [solve4Eliminate, exactSystem, GaussJordan.step, Function.comp_apply]
    by_cases hr : r = col
    · simp only [hr, true_or, if_true, Function.update_self]
      split
      · exact fin_div _ hdiag
      · rename_i hj
        rw [hzero j (not_le.mp hj), zero_div]
    · simp only [hr, false_or, if_false, Function.update_of_ne hr, Function.update_self,
        Function.comp_apply]
      by_cases hj : j < col
      · rw [if_pos (Or.inr hj), hzero j hj, zero_div, mul_zero, sub_zero]
      · rw [if_pos (not_lt.mp hj)]
        split
        · rename_i hsmall
          rw [eq_zero_of_small (hun r hr) (hsmall.resolve_right hj), zero_mul, sub_zero]
        · rw [fin_div _ hdiag, fin_mul, fin_sub]
  · funext r
    simp only [solve4Eliminate, exactSystem, GaussJordan.step, Function.comp_apply]
    by_cases hr : r = col
    · simp only [hr, true_or, if_true, Function.update_self]
      exact fin_div _ hdiag
    · simp only [hr, false_or, if_false, Function.update_of_ne hr, Function.update_self,
        Function.comp_apply]
      split
      · rename_i hsmall
        rw [eq_zero_of_small (hun r hr) hsmall, zero_mul, sub_zero]
      · rw [fin_div _ hdiag, fin_mul, fin_sub]

/-- The columns that are left. The induction is on the columns that are left, with the rows
reduced so far. -/
theorem reduced_of_foldlM {e : String} {pre post : List (Fin 4)}
    {system : (Fin 4 → Fin 4 → Extended K) × (Fin 4 → Extended K)}
    (hsplit : List.finRange 4 = pre ++ post)
    (hrows : GaussJordan.Reduced Fin.castSucc start pre.length rows)
    (hun : unskipped post (exactSystem rows) = true)
    (hok : post.foldlM (fun system col =>
      let (pivot, best) := pivotRow (fun row => system.1 row col) col
      if best < lit 1e-10 then throw e
      else return solve4Eliminate col pivot system) (exactSystem rows) =
        (.ok system : Except String _)) :
    ∃ rows', system = exactSystem rows' ∧ GaussJordan.Reduced Fin.castSucc start 4 rows' := by
  induction post generalizing pre rows with
  | nil =>
    cases hok
    have hlength : pre.length = 4 := by
      rw [← List.append_nil pre, ← hsplit]
      rfl
    rw [hlength] at hrows
    exact ⟨rows, rfl, hrows⟩
  | cons col post ih =>
    have hcol := val_of_finRange_split hsplit
    rw [← hcol] at hrows
    obtain ⟨pivot, hpivot, hle, -⟩ := pivotRow_fin (fun row => rows row col.castSucc) col
    have hchoice : pivotRow (fun row => (exactSystem rows).1 row col) col =
        (pivot, fin |rows pivot col.castSucc|) := hpivot
    rw [List.foldlM_cons] at hok
    obtain ⟨next, hnext, hok⟩ := bind_eq_ok.mp hok
    unfold unskipped at hun
    rw [hchoice] at hnext hun
    dsimp only at hnext hun
    split at hnext
    · cases hnext
    rename_i hlarge
    cases hnext
    have hne : rows pivot col.castSucc ≠ 0 := by
      intro hzero
      rw [hzero, lit_def, fin_lt, abs_zero] at hlarge
      norm_num at hlarge
    rw [if_neg hlarge, Bool.and_eq_true, List.all_eq_true] at hun
    have hfactors : ∀ row, row ≠ col →
        skippedFactor (fin (rows (Equiv.swap pivot col row) col.castSucc) : Extended K) =
          false := by
      intro row hrow
      have hall := of_decide_eq_true (hun.1 row (List.mem_finRange row))
      exact Bool.eq_false_iff.mpr (hall.resolve_left hrow)
    have hstep := solve4Eliminate_exact hrows hle hne hfactors
    have hun' := hun.2
    rw [hstep] at hok hun'
    have hsplit' : List.finRange 4 = pre ++ [col] ++ post := by rw [hsplit]; simp
    refine ih hsplit' ?_ hun' hok
    rw [List.length_append, List.length_singleton, ← hcol]
    exact hrows.step hle hne

/-- `solve4` returns the only solution. The reduced system says what the solution is, and that
there is no other one. -/
theorem solve4_exact {e : String} {a : Fin 4 → Fin 4 → K} {b : Fin 4 → K} {x : Fin 4 → Extended K}
    (hun : unskipped (List.finRange 4) (fun r j => fin (a r j), fun r => fin (b r)) = true)
    (hok : solve4 e (fun r j => fin (a r j)) (fun r => fin (b r)) = .ok x) :
    ∃ p : Fin 4 → K, x = (fun i => fin (p i)) ∧
      ∀ q : Fin 4 → K, (∀ r, ∑ j, a r j * q j = b r) ↔ q = p := by
  have hstart : (fun r j => fin (a r j), fun r => fin (b r)) =
      exactSystem (fun r => (Fin.snoc (a r) (b r) : Fin (4 + 1) → K)) := by
    simp only [exactSystem, Fin.snoc_castSucc, Fin.snoc_last]
  unfold solve4 at hok
  obtain ⟨system, hloop, hok⟩ := bind_eq_ok.mp hok
  cases hok
  rw [hstart] at hun hloop
  have hnone : List.finRange 4 = [] ++ List.finRange 4 := rfl
  obtain ⟨rows, rfl, hrows⟩ := reduced_of_foldlM hnone GaussJordan.reduced_start hun hloop
  refine ⟨fun r => rows r (Fin.last 4), rfl, fun q => ?_⟩
  rw [hrows.solution, funext_iff]

end Solver

/-! ## The normal equations -/

/-- The numbers of five points. -/
def numbers (points : Fin 5 → Point2f (Extended K)) (i : Fin 5) : Point2f K :=
  ⟨(points i).x.number, (points i).y.number⟩

/-- The two equations of each landmark for `a`, `b`, `tx` and `ty`. -/
def landmarkRows (landmarks : Fin 5 → Point2f K) (k : Fin 5 × Fin 2) : Fin 4 → K :=
  if k.2 = 0 then ![(landmarks k.1).x, -(landmarks k.1).y, 1, 0]
  else ![(landmarks k.1).y, (landmarks k.1).x, 0, 1]

/-- The coordinates of the template. -/
def templateValues (points : Fin 5 → Point2f K) (k : Fin 5 × Fin 2) : K :=
  if k.2 = 0 then (points k.1).x else (points k.1).y

/-- All coordinates are numbers. -/
def FinitePoints (points : Fin 5 → Point2f (Extended K)) : Prop :=
  ∀ i, isFinite (points i).x = true ∧ isFinite (points i).y = true

/-- The normal equations are those of the two equations of each landmark. The loop adds up the two
rows of each landmark, without rounding here. -/
theorem normalEquations_exact {points landmarks : Fin 5 → Point2f (Extended K)}
    (hpoints : FinitePoints points) (hlandmarks : FinitePoints landmarks) :
    normalEquations points landmarks =
      (fun i j => fin (normalMatrix (landmarkRows (numbers landmarks)) i j),
        fun i => fin (normalTarget (landmarkRows (numbers landmarks))
          (templateValues (numbers points)) i)) := by
  set rows := landmarkRows (numbers landmarks) with hrows
  set values := templateValues (numbers points) with hvalues
  have hstep : ∀ (M : Fin 4 → Fin 4 → K) (v : Fin 4 → K) (i : Fin 5),
      accumulateRow ![widen (landmarks i).y, widen (landmarks i).x, lit 0, lit 1]
        (widen (points i).y)
        (accumulateRow ![widen (landmarks i).x, -widen (landmarks i).y, lit 1, lit 0]
          (widen (points i).x) (fun r c => fin (M r c), fun r => fin (v r))) =
      ((fun r c => fin (M r c + (rows (i, 0) r * rows (i, 0) c + rows (i, 1) r * rows (i, 1) c)),
        fun r => fin (v r + (rows (i, 0) r * values (i, 0) + rows (i, 1) r * values (i, 1)))) :
        (Fin 4 → Fin 4 → Extended K) × (Fin 4 → Extended K)) := by
    intro M v i
    have hfirst : ![widen (landmarks i).x, -widen (landmarks i).y, lit 1, lit 0] =
        fun r => (fin (rows (i, 0) r) : Extended K) := by
      rw [← fin_number (hlandmarks i).1, ← fin_number (hlandmarks i).2]
      funext r
      fin_cases r <;> simp [hrows, landmarkRows, numbers, lit_def]
    have hsecond : ![widen (landmarks i).y, widen (landmarks i).x, lit 0, lit 1] =
        fun r => (fin (rows (i, 1) r) : Extended K) := by
      rw [← fin_number (hlandmarks i).1, ← fin_number (hlandmarks i).2]
      funext r
      fin_cases r <;> simp [hrows, landmarkRows, numbers, lit_def]
    have hx : widen (points i).x = (fin (values (i, 0)) : Extended K) :=
      (fin_number (hpoints i).1).symm
    have hy : widen (points i).y = (fin (values (i, 1)) : Extended K) :=
      (fin_number (hpoints i).2).symm
    rw [hfirst, hsecond, hx, hy]
    simp only [accumulateRow, fin_mul, fin_add, add_assoc]
  have hfold : ∀ (indices : List (Fin 5)) (M : Fin 4 → Fin 4 → K) (v : Fin 4 → K),
      indices.foldl (fun system i =>
        accumulateRow ![widen (landmarks i).y, widen (landmarks i).x, lit 0, lit 1]
          (widen (points i).y)
          (accumulateRow ![widen (landmarks i).x, -widen (landmarks i).y, lit 1, lit 0]
            (widen (points i).x) system)) (fun r c => fin (M r c), fun r => fin (v r)) =
      ((fun r c => fin (M r c + (indices.map fun i =>
          rows (i, 0) r * rows (i, 0) c + rows (i, 1) r * rows (i, 1) c).sum),
        fun r => fin (v r + (indices.map fun i =>
          rows (i, 0) r * values (i, 0) + rows (i, 1) r * values (i, 1)).sum)) :
        (Fin 4 → Fin 4 → Extended K) × (Fin 4 → Extended K)) := by
    intro indices
    induction indices with
    | nil =>
      intro M v
      simp
    | cons i indices ih =>
      intro M v
      rw [List.foldl_cons, hstep, ih]
      simp only [List.map_cons, List.sum_cons, add_assoc]
  unfold normalEquations
  have hzero : ((fun _ _ => lit 0, fun _ => lit 0) :
      (Fin 4 → Fin 4 → Extended K) × (Fin 4 → Extended K)) =
        (fun _ _ => fin 0, fun _ => fin 0) := by
    simp only [lit_def, Rat.cast_zero]
  rw [hzero, hfold]
  unfold normalMatrix normalTarget
  simp only [Fintype.sum_prod_type, Fin.sum_univ_two, zero_add]
  simp only [Fin.sum_univ_def]

/-- Sum of the squared distances of the landmarks to the template. -/
def fitError (points landmarks : Fin 5 → Point2f K) (p : Fin 4 → K) : K :=
  ∑ i, ((p 0 * (landmarks i).x - p 1 * (landmarks i).y + p 2 - (points i).x) ^ 2 +
    (p 1 * (landmarks i).x + p 0 * (landmarks i).y + p 3 - (points i).y) ^ 2)

omit [LinearOrder K] [RootOps K] in
/-- The error of a fit is the residual of its normal equations. Each landmark has one row for
either coordinate. -/
theorem fitError_eq_residual (points landmarks : Fin 5 → Point2f K) (p : Fin 4 → K) :
    fitError points landmarks p =
      LeastSquares.residual (landmarkRows landmarks) (templateValues points) p := by
  unfold fitError LeastSquares.residual value landmarkRows templateValues
  rw [Fintype.sum_prod_type]
  apply Finset.sum_congr rfl
  intro i _
  simp only [Fin.sum_univ_two, Fin.sum_univ_four, if_true, Fin.one_eq_zero_iff]
  simp
  ring

/-! ## The transform -/

/-- The map with the parameters `a`, `b`, `tx` and `ty`, by rows. -/
def similarity (p : Fin 4 → K) : Fin 6 → K := ![p 0, -p 1, p 2, p 1, p 0, p 3]

/-- The inverse map, by rows. -/
def inverseMap (p : Fin 4 → K) : Fin 6 → K :=
  let denom := p 0 * p 0 + p 1 * p 1
  ![p 0 / denom, p 1 / denom, -(p 0 / denom * p 2 + p 1 / denom * p 3),
    -p 1 / denom, p 0 / denom, -(-p 1 / denom * p 2 + p 0 / denom * p 3)]

/-- A map applied to a point. -/
def applyMap (m : Fin 6 → K) (z : Point2f K) : Point2f K :=
  ⟨m 0 * z.x + m 1 * z.y + m 2, m 3 * z.x + m 4 * z.y + m 5⟩

omit [LinearOrder K] [RootOps K] in
/-- The inverse of a similarity undoes it on both sides, unless the similarity maps everything to
one point. -/
theorem applyMap_inverse {p : Fin 4 → K} (hp : p 0 * p 0 + p 1 * p 1 ≠ 0) (z : Point2f K) :
    applyMap (inverseMap p) (applyMap (similarity p) z) = z ∧
      applyMap (similarity p) (applyMap (inverseMap p) z) = z := by
  obtain ⟨x, y⟩ := z
  simp only [applyMap, inverseMap, similarity, Matrix.cons_val, Point2f.mk.injEq]
  generalize hd : p 0 * p 0 + p 1 * p 1 = d at hp
  refine ⟨⟨?_, ?_⟩, ?_, ?_⟩
  · field_simp
    linear_combination x * hd
  · field_simp
    linear_combination y * hd
  · field_simp
    linear_combination (x - p 2) * hd
  · field_simp
    linear_combination (y - p 3) * hd

/-- The root is exact. -/
def ExactRoot (K : Type) [Field K] [LinearOrder K] [RootOps K] : Prop :=
  ∀ x : K, 0 ≤ x → RootOps.root x * RootOps.root x = x

/-- The root of the reals is exact. -/
theorem exactRoot_real : ExactRoot ℝ := fun _ hx => Real.mul_self_sqrt hx

/-- A transform is the least-squares similarity of landmarks to a template. The fields say that
the residual is least, and that the two maps are inverse to each other. -/
structure FaceFit (points landmarks : Fin 5 → Point2f K) (p : Fin 4 → K)
    (t : SimilarityTransform2D (Extended K)) : Prop where
  /-- The transform is a similarity. -/
  srcToDst : t.srcToDst = fun i => fin (similarity p i)
  /-- Any other similarity has a larger error. -/
  least : ∀ q, q ≠ p → fitError points landmarks p < fitError points landmarks q
  /-- Its inverse is written out. -/
  dstToSrc : t.dstToSrc = fun i => fin (inverseMap p i)
  /-- It is an inverse on both sides. -/
  inverse : ∀ z, applyMap (inverseMap p) (applyMap (similarity p) z) = z ∧
    applyMap (similarity p) (applyMap (inverseMap p) z) = z
  /-- The residual is the root of a fifth of the least error. -/
  rmse : t.rmse = fin (RootOps.root (fitError points landmarks p / 5))
  /-- Its square is a fifth of the least error. -/
  rmse_sq : ExactRoot K → t.rmse * t.rmse = fin (fitError points landmarks p / 5)

/-- What a run that returns has calculated. Every check of the source has been passed then. -/
theorem estimateTransform_ok {target : AlignmentTarget (Extended K)}
    {observation : FaceDetection (Extended K)} {W H : ℕ} {t : SimilarityTransform2D (Extended K)}
    (h : estimateTransform (D := Extended K) target observation W H = .ok t) :
    FinitePoints target.points ∧ FinitePoints observation.landmarks ∧
      ∃ p : Fin 4 → Extended K,
        solve4 target.degenerateError
          (normalEquations target.points observation.landmarks).1
          (normalEquations target.points observation.landmarks).2 = .ok p ∧
        ¬ p 0 * p 0 + p 1 * p 1 < lit 1e-12 ∧
        t.srcToDst = ![p 0, -p 1, p 2, p 1, p 0, p 3] ∧
        t.dstToSrc = ![p 0 / (p 0 * p 0 + p 1 * p 1), p 1 / (p 0 * p 0 + p 1 * p 1),
          -(p 0 / (p 0 * p 0 + p 1 * p 1) * p 2 + p 1 / (p 0 * p 0 + p 1 * p 1) * p 3),
          -p 1 / (p 0 * p 0 + p 1 * p 1), p 0 / (p 0 * p 0 + p 1 * p 1),
          -(-p 1 / (p 0 * p 0 + p 1 * p 1) * p 2 + p 0 / (p 0 * p 0 + p 1 * p 1) * p 3)] ∧
        t.rmse = Basis.sqrt ((List.finRange 5).foldl (fun sq i => sq +
          ((p 0 * (observation.landmarks i).x - p 1 * (observation.landmarks i).y + p 2 -
              (target.points i).x) *
            (p 0 * (observation.landmarks i).x - p 1 * (observation.landmarks i).y + p 2 -
              (target.points i).x) +
          (p 1 * (observation.landmarks i).x + p 0 * (observation.landmarks i).y + p 3 -
              (target.points i).y) *
            (p 1 * (observation.landmarks i).x + p 0 * (observation.landmarks i).y + p 3 -
              (target.points i).y))) (lit 0) / lit 5) := by
  unfold estimateTransform at h
  split at h
  · cases h
  obtain ⟨system, hsystem, h⟩ := bind_eq_ok.mp h
  obtain ⟨hfinite, rfl⟩ := (@foldlM_guarded _ _ _ (fun i =>
    isFinite (widen (observation.landmarks i).x : Extended K) &&
      isFinite (widen (observation.landmarks i).y : Extended K) &&
      isFinite (widen (target.points i).x : Extended K) &&
      isFinite (widen (target.points i).y : Extended K)) _ _ _ _ _).mp hsystem
  obtain ⟨p, hp, h⟩ := bind_eq_ok.mp h
  dsimp only at h
  split at h
  · cases h
  rename_i hdenom
  cases h
  have hall : ∀ i, (isFinite (observation.landmarks i).x = true ∧
      isFinite (observation.landmarks i).y = true) ∧ isFinite (target.points i).x = true ∧
        isFinite (target.points i).y = true := by
    intro i
    have hi := hfinite i (List.mem_finRange i)
    simp only [widen_eq, Bool.and_eq_true] at hi
    exact ⟨hi.1.1, hi.1.2, hi.2⟩
  exact ⟨fun i => (hall i).2, fun i => (hall i).1, p, hp, hdenom, rfl, rfl, rfl⟩

/-- When a run returns. Each hypothesis is one of the checks of the source. -/
theorem estimateTransform_returns {target : AlignmentTarget (Extended K)}
    {observation : FaceDetection (Extended K)} {p : Fin 4 → Extended K}
    (hpoints : FinitePoints target.points) (hlandmarks : FinitePoints observation.landmarks)
    (hsolve : solve4 target.degenerateError
      (normalEquations target.points observation.landmarks).1
      (normalEquations target.points observation.landmarks).2 = .ok p)
    (hdenom : ¬ p 0 * p 0 + p 1 * p 1 < lit 1e-12) :
    ∃ t, estimateTransform (D := Extended K) target observation target.side target.side =
      .ok t := by
  unfold estimateTransform
  rw [if_neg (by simp)]
  have hfinite : ∀ i ∈ List.finRange 5,
      (isFinite (widen (observation.landmarks i).x : Extended K) &&
      isFinite (widen (observation.landmarks i).y : Extended K) &&
      isFinite (widen (target.points i).x : Extended K) &&
      isFinite (widen (target.points i).y : Extended K)) = true := by
    intro i _
    simp only [widen_eq, Bool.and_eq_true]
    exact ⟨⟨hlandmarks i, (hpoints i).1⟩, (hpoints i).2⟩
  refine exists_ok_bind (foldlM_guarded.mpr ⟨hfinite, rfl⟩) (exists_ok_bind hsolve ?_)
  dsimp only
  rw [if_neg hdenom]
  exact ⟨_, rfl⟩

variable [IsStrictOrderedRing K]

/-- What a run that skips no factor returns is the least-squares similarity, and the normal
equations have no other solution. -/
theorem faceFit_of_ok {target : AlignmentTarget (Extended K)}
    {observation : FaceDetection (Extended K)} {W H : ℕ} {t : SimilarityTransform2D (Extended K)}
    (hun : unskipped (List.finRange 4)
      (normalEquations (D := Extended K) target.points observation.landmarks) = true)
    (hok : estimateTransform (D := Extended K) target observation W H = .ok t) :
    ∃ p, FaceFit (numbers target.points) (numbers observation.landmarks) p t ∧
      (∀ q, Solves (landmarkRows (numbers observation.landmarks))
        (templateValues (numbers target.points)) q ↔ q = p) ∧
      1e-12 ≤ p 0 * p 0 + p 1 * p 1 := by
  obtain ⟨hpoints, hlandmarks, _, hsolve, hdenom, hsrc, hdst, hrmse⟩ := estimateTransform_ok hok
  rw [normalEquations_exact hpoints hlandmarks] at hsolve hun
  obtain ⟨p, rfl, hunique⟩ := solve4_exact hun hsolve
  have hlimit : (1e-12 : K) ≤ p 0 * p 0 + p 1 * p 1 := by
    rw [fin_mul, fin_mul, fin_add, lit_def, fin_lt, not_lt] at hdenom
    refine le_trans (le_of_eq ?_) hdenom
    norm_num
  have hpos : p 0 * p 0 + p 1 * p 1 ≠ 0 := by
    intro hzero
    rw [hzero] at hlimit
    norm_num at hlimit
  have hx : ∀ i, (observation.landmarks i).x = fin (numbers observation.landmarks i).x :=
    fun i => (fin_number (hlandmarks i).1).symm
  have hy : ∀ i, (observation.landmarks i).y = fin (numbers observation.landmarks i).y :=
    fun i => (fin_number (hlandmarks i).2).symm
  have hu : ∀ i, (target.points i).x = fin (numbers target.points i).x :=
    fun i => (fin_number (hpoints i).1).symm
  have hv : ∀ i, (target.points i).y = fin (numbers target.points i).y :=
    fun i => (fin_number (hpoints i).2).symm
  have herror : 0 ≤ fitError (numbers target.points) (numbers observation.landmarks) p / 5 := by
    unfold fitError
    positivity
  have hroot : t.rmse = fin (RootOps.root
      (fitError (numbers target.points) (numbers observation.landmarks) p / 5)) := by
    rw [hrmse, ← sqrt_fin herror]
    simp only [hx, hy, hu, hv, fin_mul, fin_sub, fin_add, lit_def, Rat.cast_zero]
    rw [foldl_add_fin, zero_add, Rat.cast_ofNat, fin_div _ (by norm_num)]
    unfold fitError
    simp only [sq]
  refine ⟨p, ⟨?_, fun q hq => ?_, ?_, fun z => applyMap_inverse hpos z, hroot, fun hexact => ?_⟩,
    hunique, hlimit⟩
  · rw [hsrc]
    funext i
    fin_cases i <;> rfl
  · rw [fitError_eq_residual, fitError_eq_residual]
    exact Solves.lt_residual ((hunique p).mpr rfl) (fun q hq => (hunique q).mp hq) hq
  · rw [hdst]
    funext i
    simp only [fin_mul, fin_add, fin_neg, fin_div _ hpos]
    fin_cases i <;> rfl
  · rw [hroot, fin_mul, hexact _ herror]

omit [LinearOrder K] [RootOps K] [IsStrictOrderedRing K] in
/-- Landmarks that coincide do not see a rotation about them with an enlargement. -/
theorem landmarkRows_coincident {landmarks : Fin 5 → Point2f K}
    (h : ∀ i, landmarks i = landmarks 0) (k : Fin 5 × Fin 2) :
    value (landmarkRows landmarks k) ![1, 0, -(landmarks 0).x, -(landmarks 0).y] = 0 := by
  unfold value landmarkRows
  rw [h k.1, Fin.sum_univ_four]
  split <;> simp

/-- Landmarks that coincide are refused by a run that skips no factor. Their normal equations have
no single solution, so that a pivot must be too small. -/
theorem coincident_refused {target : AlignmentTarget (Extended K)}
    {observation : FaceDetection (Extended K)} {W H : ℕ}
    (hun : unskipped (List.finRange 4)
      (normalEquations (D := Extended K) target.points observation.landmarks) = true)
    (hcoincide : ∀ i, observation.landmarks i = observation.landmarks 0) :
    ∃ e, estimateTransform (D := Extended K) target observation W H = .error e := by
  cases hok : estimateTransform (D := Extended K) target observation W H with
  | error e => exact ⟨e, rfl⟩
  | ok t =>
    exfalso
    obtain ⟨p, -, hunique, -⟩ := faceFit_of_ok hun hok
    have hsame : ∀ i, numbers observation.landmarks i = numbers observation.landmarks 0 := by
      intro i
      unfold numbers
      rw [hcoincide i]
    have hother := ((hunique p).mpr rfl).add (landmarkRows_coincident hsame)
    have hfirst := congrFun ((hunique _).mp hother) 0
    simp at hfirst

/-! ## Both alignments -/

/-- What exact arithmetic gives for a template: a transform that is returned is the only
least-squares similarity, with its inverse and its residual; landmarks that coincide are
refused. Both as long as no factor is skipped that is not zero. -/
structure AlignsExactly (points landmarks : Fin 5 → Point2f (Extended K))
    (estimate : Except String (SimilarityTransform2D (Extended K))) : Prop where
  /-- A transform that is returned is a fit. -/
  fit : unskipped (List.finRange 4) (normalEquations (D := Extended K) points landmarks) = true →
    ∀ t, estimate = .ok t → ∃ p, FaceFit (numbers points) (numbers landmarks) p t
  /-- Landmarks that coincide are refused. -/
  refused : unskipped (List.finRange 4)
      (normalEquations (D := Extended K) points landmarks) = true →
    (∀ i, landmarks i = landmarks 0) → ∃ e, estimate = .error e

/-- Alignment for recognition and for liveness is the exact least-squares similarity. Both targets
share the calculation, in which no factor may have been skipped. -/
theorem alignments_exact (observation : FaceDetection (Extended K)) (W H : ℕ) :
    AlignsExactly arcFaceTarget.points observation.landmarks
        (estimateArcfaceTransform (Extended K) observation W H) ∧
      AlignsExactly livenessTarget.points observation.landmarks
        (estimateLivenessTransform (Extended K) observation W H) := by
  refine ⟨⟨fun hun t hok => ?_, fun hun hcoincide => coincident_refused hun hcoincide⟩,
    ⟨fun hun t hok => ?_, fun hun hcoincide => coincident_refused hun hcoincide⟩⟩
  · obtain ⟨p, hfit, -⟩ := faceFit_of_ok hun hok
    exact ⟨p, hfit⟩
  · obtain ⟨p, hfit, -⟩ := faceFit_of_ok hun hok
    exact ⟨p, hfit⟩

/-- A face in the middle of a camera frame. -/
def sampleObservation : FaceDetection (Extended ℚ) where
  x1 := fin 600
  y1 := fin 300
  x2 := fin 800
  y2 := fin 560
  score := fin (9 / 10)
  landmarks := ![⟨fin 650, fin 390⟩, ⟨fin 745, fin 385⟩, ⟨fin 700, fin 440⟩, ⟨fin 662, fin 492⟩,
    ⟨fin 738, fin 490⟩]

/-- The face is aligned for both models, without a skipped factor. The landmarks are those of an
upright face. -/
theorem alignments_exact_sample :
    (∃ t p, estimateArcfaceTransform (Extended ℚ) sampleObservation = .ok t ∧
        FaceFit (numbers arcFaceTarget.points) (numbers sampleObservation.landmarks) p t) ∧
      ∃ t p, estimateLivenessTransform (Extended ℚ) sampleObservation = .ok t ∧
        FaceFit (numbers livenessTarget.points) (numbers sampleObservation.landmarks) p t := by
  obtain ⟨harc, -⟩ := alignments_exact sampleObservation 112 112
  have harcOk : (estimateArcfaceTransform (Extended ℚ) sampleObservation).toOption.isSome =
      true := by
    decide +kernel
  have hliveOk : (estimateLivenessTransform (Extended ℚ) sampleObservation).toOption.isSome =
      true := by
    decide +kernel
  obtain ⟨t, ht⟩ := Option.isSome_iff_exists.mp harcOk
  obtain ⟨t', ht'⟩ := Option.isSome_iff_exists.mp hliveOk
  obtain ⟨p, hp⟩ := harc.fit (by decide +kernel) t (eq_ok_of_toOption ht)
  obtain ⟨p', hp'⟩ := (alignments_exact sampleObservation 80 80).2.fit (by decide +kernel) t'
    (eq_ok_of_toOption ht')
  exact ⟨⟨t, p, eq_ok_of_toOption ht, hp⟩, t', p', eq_ok_of_toOption ht', hp'⟩

/-- Landmarks that coincide and are accepted. -/
def coincidentObservation : FaceDetection (Extended ℚ) where
  x1 := fin 0
  y1 := fin 0
  x2 := fin 1
  y2 := fin 1
  score := fin 1
  landmarks := fun _ => ⟨fin 1e-10, fin 1e-19⟩

/-- A skipped factor lets landmarks pass that coincide. -/
theorem coincident_landmarks_accepted :
    (∀ i, coincidentObservation.landmarks i = coincidentObservation.landmarks 0) ∧
      ∃ t, estimateArcfaceTransform (Extended ℚ) coincidentObservation = .ok t := by
  refine ⟨fun _ => rfl, ?_⟩
  have hok : (estimateArcfaceTransform (Extended ℚ) coincidentObservation).toOption.isSome =
      true := by
    decide +kernel
  obtain ⟨t, ht⟩ := Option.isSome_iff_exists.mp hok
  exact ⟨t, eq_ok_of_toOption ht⟩

end EdgeClient.Vision
