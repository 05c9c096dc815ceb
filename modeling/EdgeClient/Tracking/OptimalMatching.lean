import EdgeClient.Basis.OptimalAssignment
import EdgeClient.Tracking.AssignmentSearch

/-!
# The assignment is optimal

A pair that may be assigned costs less than a dummy column, and every other pair more. The
columns of the rows are a cheapest assignment of the augmented matrix, so the pairs that are
extracted from them cost least among all choices that a caller could make.
-/

namespace EdgeClient.Tracking

open Basis Basis.Extended

variable {K : Type} [Field K] [LinearOrder K] [RootOps K]

variable {costs : List (Extended K)} {rows cols : ℕ} {x : K}

/-- The entry of the cost matrix. -/
def entry (costs : List (Extended K)) (cols row col : ℕ) : Extended K :=
  costs.getD (row * cols + col) (lit 0)

/-- Whether a pair may be assigned. -/
def Admissible (costs : List (Extended K)) (cols : ℕ) (x : K) (row col : ℕ) : Prop :=
  isFinite (entry costs cols row col) = true ∧ entry costs cols row col ≤ fin x

/-- Whether a pair is admissible is computed from the cost and the threshold. -/
instance decidableAdmissible (costs : List (Extended K)) (cols : ℕ) (x : K) (row col : ℕ) :
    Decidable (Admissible costs cols x row col) := instDecidableAnd

/-- Pairs that a caller could choose: distinct rows and columns, at costs within the limit. -/
structure Eligible (costs : List (Extended K)) (rows cols : ℕ) (x : K) (pairs : List Match) :
    Prop where
  row_lt : ∀ m ∈ pairs, m.row < rows
  col_lt : ∀ m ∈ pairs, m.col < cols
  rows_nodup : (pairs.map (·.row)).Nodup
  cols_nodup : (pairs.map (·.col)).Nodup
  admissible : ∀ m ∈ pairs, Admissible costs cols x m.row m.col

/-- The price of a dummy column. -/
def dummyCost (x : K) : K := x + ((1e-6 : ℚ) : K)

/-- What the pairs cost beyond dummy columns. -/
def excess (costs : List (Extended K)) (cols : ℕ) (x : K) (pairs : List Match) : K :=
  (pairs.map fun m => (entry costs cols m.row m.col).number - dummyCost x).sum

/-- The cost of a pair, by row and column from zero. -/
def limitedCost (costs : List (Extended K)) (cols : ℕ) (x : K) (row col : ℕ) : K :=
  if Admissible costs cols x row col then (entry costs cols row col).number
  else dummyCost x + ((1e6 : ℚ) : K)

/-- The cost of a row and a column of the augmented matrix. -/
def numberCost (costs : List (Extended K)) (cols : ℕ) (x : K) (r j : ℕ) : K :=
  if cols ≤ j - 1 then dummyCost x else limitedCost costs cols x (r - 1) (j - 1)

/-- To match nothing is always possible. -/
theorem Eligible.nil : Eligible costs rows cols x [] := ⟨nofun, nofun, .nil, .nil, nofun⟩

/-- All costs are finite. Costs that are not finite or above the limit are replaced by one that is
too high to be chosen. -/
theorem augmentedCost_exact :
    augmentedCost (Extended K) costs cols (fin x) = exactCost (numberCost costs cols x) := by
  funext r j
  have hdummy : (widen (fin x) + lit 1e-6 : Extended K) = fin (dummyCost x) := by
    rw [widen_eq, lit_def, fin_add]
    rfl
  unfold augmentedCost exactCost numberCost
  dsimp only
  rw [hdummy]
  split
  · rfl
  · have htest : (isFinite (costs.getD ((r - 1) * cols + (j - 1)) (lit 0)) = false ∨
        fin x < costs.getD ((r - 1) * cols + (j - 1)) (lit 0)) ↔
        ¬ Admissible costs cols x (r - 1) (j - 1) := by
      unfold Admissible entry
      cases costs.getD ((r - 1) * cols + (j - 1)) (lit 0) with
      | fin y =>
        rw [isFinite_fin, fin_lt, fin_le]
        simp
      | nan | negInf | posInf => exact iff_of_true (Or.inl rfl) fun h => by cases h.1
    unfold limitedCost
    by_cases hadmissible : Admissible costs cols x (r - 1) (j - 1)
    · rw [if_neg (htest.not.mpr (not_not.mpr hadmissible)), if_pos hadmissible, widen_eq]
      exact (fin_number hadmissible.1).symm
    · rw [if_pos (htest.mpr hadmissible), if_neg hadmissible, lit_def, fin_add]

/-- A pair over the limit costs more than a dummy column. -/
theorem dummyCost_le_limitedCost [IsStrictOrderedRing K] {row col : ℕ}
    (hdear : ¬ Admissible costs cols x row col) :
    dummyCost x ≤ limitedCost costs cols x row col := by
  rw [limitedCost, if_neg hdear]
  have hpos : (0 : K) ≤ ((1e6 : ℚ) : K) := by norm_num
  linarith

/-- An admissible pair costs less. The dummies cost a little more than the limit. -/
theorem entry_lt_dummyCost [IsStrictOrderedRing K] {row col : ℕ}
    (hadmissible : Admissible costs cols x row col) :
    (entry costs cols row col).number < dummyCost x := by
  obtain ⟨y, hy⟩ := isFinite_iff.mp hadmissible.1
  have hle := hadmissible.2
  rw [hy, fin_le] at hle
  rw [hy, number_fin, dummyCost]
  have hpos : (0 : K) < ((1e-6 : ℚ) : K) := by norm_num
  linarith

/-! ## Columns and dummy columns -/

/-- The number of a column of the augmented matrix. -/
def columnNumber : Fin cols ⊕ Fin rows → ℕ := Sum.elim (fun j => j + 1) fun k => cols + k + 1

/-- The numbers of the columns start at one, as the code counts them, and leave none out. -/
theorem columnNumber_bounds (q : Fin cols ⊕ Fin rows) :
    1 ≤ columnNumber q ∧ columnNumber q ≤ cols + rows := by
  cases q with
  | inl j => exact ⟨Nat.le_add_left 1 _, by simp only [columnNumber, Sum.elim_inl]; omega⟩
  | inr k => exact ⟨Nat.le_add_left 1 _, by simp only [columnNumber, Sum.elim_inr]; omega⟩

/-- Different columns have different numbers. -/
theorem columnNumber_injective :
    Function.Injective (columnNumber : Fin cols ⊕ Fin rows → ℕ) := by
  intro q q' h
  cases q <;> cases q' <;> simp only [columnNumber, Sum.elim_inl, Sum.elim_inr] at h <;>
    first | omega | (congr 1; omega)

/-- Every column of the augmented matrix is a column or a dummy column. -/
theorem exists_columnNumber {j : ℕ} (h1 : 1 ≤ j) (hle : j ≤ cols + rows) :
    ∃ q : Fin cols ⊕ Fin rows, columnNumber q = j := by
  rcases Nat.lt_or_ge (j - 1) cols with hlt | hge
  · exact ⟨.inl ⟨j - 1, hlt⟩, by simp only [columnNumber, Sum.elim_inl]; omega⟩
  · exact ⟨.inr ⟨j - 1 - cols, by omega⟩, by simp only [columnNumber, Sum.elim_inr]; omega⟩

/-- The cost of a row and a column, or dummy column. -/
def augmented (costs : List (Extended K)) (rows cols : ℕ) (x : K) :
    Fin rows → Fin cols ⊕ Fin rows → K :=
  OptimalAssignment.withDummies (fun i j => limitedCost costs cols x i j) (dummyCost x)

/-- The cost that the code reads by the numbers is the entry of the augmented matrix. A column
beyond those of the detections stands for leaving its row without a match. -/
theorem numberCost_eq (i : Fin rows) (q : Fin cols ⊕ Fin rows) :
    numberCost costs cols x (i + 1) (columnNumber q) = augmented costs rows cols x i q := by
  cases q with
  | inl j =>
    have hreal : ¬ cols ≤ columnNumber (.inl j : Fin cols ⊕ Fin rows) - 1 := by
      change ¬ cols ≤ (j : ℕ) + 1 - 1
      omega
    rw [numberCost, if_neg hreal]
    rfl
  | inr k =>
    have hdummy : cols ≤ columnNumber (.inr k : Fin cols ⊕ Fin rows) - 1 := by
      change cols ≤ cols + (k : ℕ) + 1 - 1
      omega
    rw [numberCost, if_pos hdummy]
    rfl

/-- The columns of the rows are an assignment that the prices support. Prices that leave no slack
at the assigned pairs prove that nothing costs less. -/
theorem Assigned.exists_supported [IsStrictOrderedRing K] {assigned : Matching (Extended K)}
    {U V : ℕ → K}
    (h : Assigned (numberCost costs cols x) (cols + rows) rows assigned U V) :
    ∃ σ : Fin rows → Fin cols ⊕ Fin rows,
      (∀ i q, σ i = q ↔ assigned.p (columnNumber q) = i + 1) ∧
      ∀ τ : Fin rows → Fin cols ⊕ Fin rows, Function.Injective τ →
        ∑ i, augmented costs rows cols x i (σ i) ≤ ∑ i, augmented costs rows cols x i (τ i) := by
  have hcolumn : ∀ i : Fin rows, ∃ q : Fin cols ⊕ Fin rows,
      assigned.p (columnNumber q) = i + 1 := by
    intro i
    obtain ⟨j, hj, hrow⟩ := h.rows (i + 1) (Nat.le_add_left 1 i) i.isLt
    obtain ⟨q, rfl⟩ := exists_columnNumber hj (h.range j (by omega))
    exact ⟨q, hrow⟩
  choose σ hσ using hcolumn
  have hiff : ∀ i q, σ i = q ↔ assigned.p (columnNumber q) = i + 1 := by
    intro i q
    refine ⟨fun hq => hq ▸ hσ i, fun hrow => columnNumber_injective ?_⟩
    by_contra hne
    have hzero := h.holds.inj _ _ hne ((hσ i).trans hrow.symm) (by rw [hσ i]; omega)
    have hpos := (columnNumber_bounds (σ i)).1
    have hpos' := (columnNumber_bounds q).1
    omega
  have hinjective : Function.Injective σ := by
    intro i i' heq
    have hrow := (hiff i' (σ i)).mp heq.symm
    rw [hσ i] at hrow
    exact Fin.ext (by omega)
  have hsupports : OptimalAssignment.Supports (augmented costs rows cols x)
      (fun i => U (i + 1)) (fun q => V (columnNumber q)) σ := by
    refine ⟨fun i q => ?_, fun i => ?_, fun q => ?_, fun q hq => ?_⟩
    · obtain ⟨h1, hle⟩ := columnNumber_bounds q
      rw [← numberCost_eq]
      exact h.prices.feasible (i + 1) ⟨Nat.le_add_left 1 i, i.isLt⟩ _ h1 hle
    · obtain ⟨h1, hle⟩ := columnNumber_bounds (σ i)
      have htight := h.prices.tight _ h1 hle (by rw [hσ i]; omega)
      rw [slack, hσ i, numberCost_eq] at htight
      linarith
    · obtain ⟨h1, hle⟩ := columnNumber_bounds q
      exact h.prices.nonpos _ h1 hle
    · obtain ⟨h1, hle⟩ := columnNumber_bounds q
      refine h.prices.free _ h1 hle ?_
      by_contra hrow
      have hlast := h.holds.le (columnNumber q)
      exact hq ⟨⟨assigned.p (columnNumber q) - 1, by omega⟩,
        (hiff _ q).mpr (by dsimp only; omega)⟩
  exact ⟨σ, hiff, fun τ hτ => hsupports.optimal hinjective hτ⟩

/-! ## Lists of pairs -/

/-- The row of a pair within the matrix. -/
def rowOf [NeZero rows] (m : Match) : Fin rows := Fin.ofNat rows m.row

/-- The column of a pair within the matrix. -/
def colOf [NeZero cols] (m : Match) : Fin cols := Fin.ofNat cols m.col

variable {pairs : List Match}

/-- The row of a pair is one of the rows. -/
theorem Eligible.val_rowOf [NeZero rows] (h : Eligible costs rows cols x pairs) {m : Match}
    (hm : m ∈ pairs) :
    ((rowOf m : Fin rows) : ℕ) = m.row := Nat.mod_eq_of_lt (h.row_lt m hm)

/-- The column of a pair is one of the columns. -/
theorem Eligible.val_colOf [NeZero cols] (h : Eligible costs rows cols x pairs) {m : Match}
    (hm : m ∈ pairs) :
    ((colOf m : Fin cols) : ℕ) = m.col := Nat.mod_eq_of_lt (h.col_lt m hm)

/-- No row is matched twice. -/
theorem Eligible.rowOf_nodup [NeZero rows] (h : Eligible costs rows cols x pairs) :
    (pairs.map (rowOf : Match → Fin rows)).Nodup :=
  List.Nodup.map_on (fun m hm m' hm' heq => List.inj_on_of_nodup_map h.rows_nodup hm hm' (by
    rw [← h.val_rowOf hm, ← h.val_rowOf hm', heq])) (List.Nodup.of_map _ h.rows_nodup)

/-- No column is matched twice. -/
theorem Eligible.colOf_nodup [NeZero cols] (h : Eligible costs rows cols x pairs) :
    (pairs.map (colOf : Match → Fin cols)).Nodup :=
  List.Nodup.map_on (fun m hm m' hm' heq => List.inj_on_of_nodup_map h.cols_nodup hm hm' (by
    rw [← h.val_colOf hm, ← h.val_colOf hm', heq])) (List.Nodup.of_map _ h.cols_nodup)

/-- The excess of eligible pairs is that of the matching they describe. -/
theorem Eligible.excess_eq [NeZero rows] [NeZero cols]
    (h : Eligible costs rows cols x pairs) :
    excess costs cols x pairs = OptimalAssignment.excess
      (fun (i : Fin rows) (j : Fin cols) => limitedCost costs cols x i j) (dummyCost x)
      (OptimalAssignment.lookup rowOf colOf pairs) := by
  rw [OptimalAssignment.excess_lookup h.rowOf_nodup]
  refine congrArg List.sum (List.map_congr_left fun m hm => ?_)
  rw [h.val_rowOf hm, h.val_colOf hm, limitedCost, if_pos (h.admissible m hm)]

/-- The extracted pairs are the admissible ones of the assignment. A row whose column is a padding
one, or too expensive, has no pair. -/
theorem lookup_extractPairs [NeZero rows] [NeZero cols] {p : ℕ → ℕ}
    {σ : Fin rows → Fin cols ⊕ Fin rows} (hσ : ∀ i q, σ i = q ↔ p (columnNumber q) = i + 1)
    (h : Eligible costs rows cols x (extractPairs costs cols (cols + rows) (fin x) p)) :
    OptimalAssignment.lookup rowOf colOf (extractPairs costs cols (cols + rows) (fin x) p) =
      OptimalAssignment.admitted
        (fun (i : Fin rows) (j : Fin cols) => Admissible costs cols x i j) σ := by
  funext i
  ext j
  rw [OptimalAssignment.lookup_eq_some_iff h.rowOf_nodup]
  have hadmitted : OptimalAssignment.admitted
      (fun (i : Fin rows) (j : Fin cols) => Admissible costs cols x i j) σ i = some j ↔
      σ i = .inl j ∧ Admissible costs cols x i j := by
    unfold OptimalAssignment.admitted
    cases hq : σ i with
    | inr k => simp
    | inl j' =>
      by_cases hadmissible : Admissible costs cols x i j'
      · simp only [hadmissible, if_true, Option.some.injEq, Sum.inl.injEq]
        exact ⟨fun heq => ⟨heq, heq ▸ hadmissible⟩, fun h => h.1⟩
      · simp only [hadmissible, if_false, Sum.inl.injEq]
        exact ⟨nofun, fun h => absurd (h.1 ▸ h.2) hadmissible⟩
  rw [hadmitted, hσ]
  constructor
  · rintro ⟨m, hm, rfl, rfl⟩
    obtain ⟨-, -, hrow, hcost⟩ := mem_extractPairs.mp hm
    refine ⟨?_, ?_⟩
    · change p (((colOf m : Fin cols) : ℕ) + 1) = _
      rw [h.val_colOf hm, h.val_rowOf hm, hrow]
    · rw [h.val_rowOf hm, h.val_colOf hm]
      exact hcost
  · rintro ⟨hrow, hadmissible⟩
    have hmem : (⟨i, j⟩ : Match) ∈ extractPairs costs cols (cols + rows) (fin x) p :=
      mem_extractPairs.mpr ⟨by dsimp only; omega, j.isLt, hrow, hadmissible⟩
    exact ⟨_, hmem, Fin.ext (h.val_rowOf hmem), Fin.ext (h.val_colOf hmem)⟩

/-! ## The result -/

/-- Adding a pair adds its cost. -/
theorem excess_cons (m : Match) : excess costs cols x (m :: pairs) =
    (entry costs cols m.row m.col).number - dummyCost x + excess costs cols x pairs := by
  rw [excess, List.map_cons, List.sum_cons]
  rfl

/-- The pairs of a result are eligible. -/
theorem eligible_of_wellFormed {p : ℕ → ℕ} {augCols : ℕ}
    (h : (AssignmentResult.ofPairs rows cols (extractPairs costs cols augCols (fin x) p)).WellFormed
      rows cols) : Eligible costs rows cols x (extractPairs costs cols augCols (fin x) p) where
  row_lt := h.row_lt
  col_lt := h.col_lt
  rows_nodup := h.rows_nodup
  cols_nodup := h.cols_nodup
  admissible _ hm := (mem_extractPairs.mp hm).2.2.2

/-- What the assignment promises: eligible pairs that cost least beyond dummy columns, so that no
admissible pair is left over. -/
structure IsOptimal (costs : List (Extended K)) (rows cols : ℕ) (x : K) (r : AssignmentResult) :
    Prop where
  eligible : Eligible costs rows cols x r.pairs
  least : ∀ pairs, Eligible costs rows cols x pairs →
    excess costs cols x r.pairs ≤ excess costs cols x pairs
  maximal : ∀ row ∈ r.unmatchedRows, ∀ col ∈ r.unmatchedCols, ¬ Admissible costs cols x row col

/-- Pairs that cost least leave no admissible pair over. An admissible pair of two unmatched
entries could be added and would lower the excess. -/
theorem isOptimal_of_least [IsStrictOrderedRing K] {r : AssignmentResult}
    (hformed : r.WellFormed rows cols) (heligible : Eligible costs rows cols x r.pairs)
    (hleast : ∀ pairs, Eligible costs rows cols x pairs →
      excess costs cols x r.pairs ≤ excess costs cols x pairs) :
    IsOptimal costs rows cols x r := by
  refine ⟨heligible, hleast, fun row hrow col hcol hadmissible => ?_⟩
  rw [hformed.unmatchedRows_eq, List.mem_filter, List.mem_range, decide_eq_true_iff] at hrow
  rw [hformed.unmatchedCols_eq, List.mem_filter, List.mem_range, decide_eq_true_iff] at hcol
  have hmore : Eligible costs rows cols x (⟨row, col⟩ :: r.pairs) := by
    refine ⟨?_, ?_, ?_, ?_, ?_⟩
    · exact List.forall_mem_cons.mpr ⟨hrow.1, heligible.row_lt⟩
    · exact List.forall_mem_cons.mpr ⟨hcol.1, heligible.col_lt⟩
    · exact List.nodup_cons.mpr ⟨hrow.2, heligible.rows_nodup⟩
    · exact List.nodup_cons.mpr ⟨hcol.2, heligible.cols_nodup⟩
    · exact List.forall_mem_cons.mpr ⟨hadmissible, heligible.admissible⟩
  have hle := hleast _ hmore
  rw [excess_cons] at hle
  have hless := entry_lt_dummyCost hadmissible
  dsimp only at hle
  linarith

/-- With enough fuel for its rows the assignment returns, and its pairs cost least. Weak duality
compares the sum of the costs with that of the prices. -/
theorem linearAssignment_least [IsStrictOrderedRing K] {fuel : ℕ}
    (hlength : costs.length = rows * cols) (hfuel : rows ≤ fuel) :
    ∃ r, linearAssignment (Extended K) fuel costs rows cols (fin x) = .ok r ∧
      Eligible costs rows cols x r.pairs ∧ ∀ pairs, Eligible costs rows cols x pairs →
        excess costs cols x r.pairs ≤ excess costs cols x pairs := by
  by_cases hempty : rows = 0 ∨ cols = 0
  · refine ⟨.ofPairs rows cols [], ?_, Eligible.nil, fun pairs hpairs => ?_⟩
    · unfold linearAssignment
      rw [if_neg (not_not.mpr hlength), if_pos hempty]
      rfl
    · -- There is no other choice.
      have hnone : pairs = [] := by
        refine List.eq_nil_iff_forall_not_mem.mpr fun m hm => ?_
        have hrow := hpairs.row_lt m hm
        have hcol := hpairs.col_lt m hm
        omega
      rw [hnone]
      exact le_rfl
  obtain ⟨hrows, hcols⟩ := not_or.mp hempty
  have : NeZero rows := ⟨hrows⟩
  have : NeZero cols := ⟨hcols⟩
  have hcolumns : rows ≤ cols + rows := Nat.le_add_left rows cols
  obtain ⟨assigned, U, V, hfold, hassigned⟩ :=
    assigned_all (numberCost costs cols x) rows hcolumns hfuel
  have hok : linearAssignment (Extended K) fuel costs rows cols (fin x) =
      .ok (.ofPairs rows cols (extractPairs costs cols (cols + rows) (fin x) assigned.p)) := by
    unfold linearAssignment
    dsimp only
    rw [if_neg (not_not.mpr hlength), if_neg hempty, augmentedCost_exact, hfold]
    rfl
  have heligible := eligible_of_wellFormed (wellFormed_linearAssignment hok)
  refine ⟨_, hok, heligible, fun pairs hpairs => ?_⟩
  obtain ⟨σ, hσ, hbest⟩ := hassigned.exists_supported
  have hextracted := heligible.excess_eq
  rw [lookup_extractPairs hσ heligible] at hextracted
  change excess costs cols x (extractPairs costs cols (cols + rows) (fin x) assigned.p) ≤ _
  rw [hextracted, hpairs.excess_eq]
  exact OptimalAssignment.excess_admitted_optimal (fun i j => dummyCost_le_limitedCost) hbest
    (OptimalAssignment.matching_lookup hpairs.colOf_nodup)

/-- In exact arithmetic the assignment is optimal. -/
theorem linearAssignment_optimal [IsStrictOrderedRing K] {fuel : ℕ}
    (hlength : costs.length = rows * cols) (hfuel : rows ≤ fuel) :
    ∃ r, linearAssignment (Extended K) fuel costs rows cols (fin x) = .ok r ∧
      r.WellFormed rows cols ∧ IsOptimal costs rows cols x r := by
  obtain ⟨r, hr, heligible, hleast⟩ := linearAssignment_least hlength hfuel
  have hformed := wellFormed_linearAssignment hr
  exact ⟨r, hr, hformed, isOptimal_of_least hformed heligible hleast⟩

/-- Two rows that prefer the same column. -/
theorem linearAssignment_optimal_sample : ∃ r, linearAssignment (Extended ℚ) 2
    [fin (0.1 : ℚ), fin 0.2, fin 0.1, fin 0.9] 2 2 (fin (0.5 : ℚ)) = .ok r ∧ r.WellFormed 2 2 ∧
      IsOptimal [fin (0.1 : ℚ), fin 0.2, fin 0.1, fin 0.9] 2 2 0.5 r :=
  linearAssignment_optimal rfl le_rfl

end EdgeClient.Tracking
