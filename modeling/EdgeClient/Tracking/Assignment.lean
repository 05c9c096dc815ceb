import EdgeClient.Basis.FloatArithmetic
import EdgeClient.Basis.StatefulPrograms

/-!
# Assignment with a cost limit

Rows are assigned to columns by the Hungarian algorithm on a matrix with one dummy
column for each row. Whether its loops end depends on the arithmetic, so they run
on fuel; a result does not depend on how much is left. Whatever the arithmetic
does, a result pairs distinct rows with distinct columns: each pass moves the rows
along a chain of columns, and only the column that is about to be overwritten can
share its row with another one.
-/

namespace EdgeClient.Tracking

open Basis

/-- Why a computation of the tracker has no result. -/
inductive Abort where
  /-- It threw an exception. -/
  | thrown (message : String)
  /-- A loop did not end within the fuel. -/
  | outOfFuel
  deriving DecidableEq

/-- A pair of a row and a column. -/
structure Match where
  /-- The row. -/
  row : ℕ
  /-- The column. -/
  col : ℕ
  deriving DecidableEq

/-- The pairs of an assignment and what they leave over. -/
structure AssignmentResult where
  /-- Assigned pairs. -/
  pairs : List Match
  /-- Rows without a column. -/
  unmatchedRows : List ℕ
  /-- Columns without a row. -/
  unmatchedCols : List ℕ
  deriving DecidableEq

variable {F D : Type} [FloatOps F] [FloatOps D] [FloatPair F D]

/-- The state of the algorithm between two rows. Column 0 holds the row that is being
inserted. -/
structure Matching (D : Type) where
  /-- Potentials of the rows. -/
  u : ℕ → D
  /-- Potentials of the columns. -/
  v : ℕ → D
  /-- Row in each column; zero for none. -/
  p : ℕ → ℕ
  /-- Column from which each column was reached. -/
  way : ℕ → ℕ

/-- The state of the search for a free column. -/
structure Search (D : Type) where
  /-- Potentials of the rows. -/
  u : ℕ → D
  /-- Potentials of the columns. -/
  v : ℕ → D
  /-- Smallest reduced cost of each column so far. -/
  minv : ℕ → D
  /-- Column from which each column was reached. -/
  way : ℕ → ℕ
  /-- Columns already visited. -/
  used : ℕ → Bool
  /-- The column being visited. -/
  j0 : ℕ

/-- What one pass over the columns computes. -/
structure Scan (D : Type) where
  /-- Smallest reduced cost of each column so far. -/
  minv : ℕ → D
  /-- Column from which each column was reached. -/
  way : ℕ → ℕ
  /-- Smallest reduced cost of the unvisited columns. -/
  delta : D
  /-- The column with that cost; zero before the first. -/
  j1 : ℕ

/-- Visit one column in a pass. The reduced cost may lower the distance of the column, and the
smallest distance so far is kept. -/
def Scan.visit (a : ℕ → ℕ → D) (used : ℕ → Bool) (u v : ℕ → D) (i0 j0 : ℕ) (scan : Scan D)
    (j : ℕ) : Scan D :=
  if used j then scan
  else
    let cur := a i0 j - u i0 - v j
    let scan := if cur < scan.minv j then
        { scan with
          minv := Function.update scan.minv j cur
          way := Function.update scan.way j j0 }
      else scan
    if scan.minv j < scan.delta then { scan with delta := scan.minv j, j1 := j } else scan

/-- One round of the search: visit the current column and move to the closest one. The potentials
of the visited rows and columns and the distances of the others change by the same amount. -/
def Search.step (a : ℕ → ℕ → D) (augCols : ℕ) (p : ℕ → ℕ) (s : Search D) : Search D :=
  let used := Function.update s.used s.j0 true
  let scan := (List.range' 1 augCols).foldl (Scan.visit a used s.u s.v (p s.j0) s.j0)
    ⟨s.minv, s.way, infinity, 0⟩
  { u := ((List.range (augCols + 1)).filter used).foldl
      (fun u j => Function.update u (p j) (u (p j) + scan.delta)) s.u
    v := fun j => if used j then s.v j - scan.delta else s.v j
    minv := fun j => if used j then scan.minv j else scan.minv j - scan.delta
    way := scan.way
    used
    j0 := scan.j1 }

/-- Search until a column without a row is reached. -/
def Search.run (a : ℕ → ℕ → D) (augCols : ℕ) (p : ℕ → ℕ) : ℕ → Search D → Except Abort (Search D)
  | 0, _ => throw .outOfFuel
  | fuel + 1, s =>
    let s := s.step a augCols p
    if p s.j0 ≠ 0 then Search.run a augCols p fuel s else return s

/-- Move the rows along the chain that leads from a free column back to column 0. -/
def augment (way : ℕ → ℕ) : ℕ → (ℕ → ℕ) → ℕ → Except Abort (ℕ → ℕ)
  | 0, _, _ => throw .outOfFuel
  | fuel + 1, p, j0 =>
    let j1 := way j0
    let p := Function.update p j0 (p j1)
    if j1 ≠ 0 then augment way fuel p j1 else return p

/-- Insert one row. -/
def insertRow (a : ℕ → ℕ → D) (augCols fuel : ℕ) (m : Matching D) (i : ℕ) :
    Except Abort (Matching D) := do
  let p := Function.update m.p 0 i
  let s ← Search.run a augCols p fuel
    ⟨m.u, m.v, fun _ => infinity, m.way, fun _ => false, 0⟩
  let p ← augment s.way fuel p s.j0
  return { u := s.u, v := s.v, p, way := s.way }

/-- The cost of a row and a column, both counted from one. -/
def augmentedCost (D : Type) [FloatOps D] [FloatPair F D] (costs : List F) (cols : ℕ) (maxCost : F)
    (i1 j1 : ℕ) : D :=
  let dummyCost : D := widen maxCost + lit 1e-6
  let invalidCost := dummyCost + lit 1e6
  if cols ≤ j1 - 1 then dummyCost
  else
    let c := costs.getD ((i1 - 1) * cols + (j1 - 1)) (lit 0)
    if isFinite c = false ∨ maxCost < c then invalidCost else widen c

/-- The assignment that the columns describe. -/
def extractPairs (costs : List F) (cols augCols : ℕ) (maxCost : F) (p : ℕ → ℕ) : List Match :=
  (List.range augCols).filterMap fun col =>
    if p (col + 1) = 0 ∨ cols ≤ col then none
    else
      let row := p (col + 1) - 1
      let c := costs.getD (row * cols + col) (lit 0)
      if isFinite c ∧ c ≤ maxCost then some ⟨row, col⟩ else none

/-- The rows and columns that the pairs leave over. -/
def AssignmentResult.ofPairs (rows cols : ℕ) (pairs : List Match) : AssignmentResult where
  pairs
  unmatchedRows := (List.range rows).filter fun i => decide (i ∉ pairs.map (·.row))
  unmatchedCols := (List.range cols).filter fun j => decide (j ∉ pairs.map (·.col))

/-- Assign rows to columns at the smallest total cost. The matrix is extended by as many columns
as there are rows, slightly above the cost limit, so that every row may stay alone. -/
def linearAssignment (D : Type) [FloatOps D] [FloatPair F D] (fuel : ℕ) (costs : List F)
    (rows cols : ℕ) (maxCost : F) : Except Abort AssignmentResult := do
  if costs.length ≠ rows * cols then
    throw (.thrown "linear_assignment: cost matrix size mismatch")
  else if rows = 0 ∨ cols = 0 then return .ofPairs rows cols []
  else
    let augCols := cols + rows
    let m ← (List.range' 1 rows).foldlM
      (insertRow (augmentedCost D costs cols maxCost) augCols fuel)
      (⟨fun _ => lit 0, fun _ => lit 0, fun _ => 0, fun _ => 0⟩ : Matching D)
    return .ofPairs rows cols (extractPairs costs cols augCols maxCost m.p)

/-! ## Distinct rows and columns -/

/-- Columns hold rows up to `i`, and two columns share a row only if one of them is
`stale`. -/
structure HoldsRows (i : ℕ) (stale : ℕ) (p : ℕ → ℕ) : Prop where
  le : ∀ j, p j ≤ i
  inj : ∀ j j', j ≠ j' → p j = p j' → p j ≠ 0 → j = stale ∨ j' = stale

/-- Moving a row along the chain makes its old column the stale one. All other columns keep their
rows, so that the rows stay distinct. -/
theorem HoldsRows.move {i j0 : ℕ} {p : ℕ → ℕ} (hp : HoldsRows i j0 p) (j1 : ℕ) :
    HoldsRows i j1 (Function.update p j0 (p j1)) where
  le j := by
    by_cases hj : j = j0
    · rw [hj, Function.update_self]
      exact hp.le j1
    · rw [Function.update_of_ne hj]
      exact hp.le j
  inj j j' hne heq hzero := by
    by_cases hself : j1 = j0
    · subst hself
      rw [Function.update_eq_self] at heq hzero
      exact hp.inj j j' hne heq hzero
    · by_cases hj : j = j0
      · subst hj
        rw [Function.update_self, Function.update_of_ne hne.symm] at heq
        rw [Function.update_self] at hzero
        by_cases hj' : j' = j1
        · exact Or.inr hj'
        · rcases hp.inj j1 j' (Ne.symm hj') heq hzero with h | h
          · exact absurd h hself
          · exact absurd h hne.symm
      · rw [Function.update_of_ne hj] at heq hzero
        by_cases hj' : j' = j0
        · subst hj'
          rw [Function.update_self] at heq
          by_cases hj1 : j = j1
          · exact Or.inl hj1
          · rcases hp.inj j j1 hj1 heq hzero with h | h
            · exact absurd h hne
            · exact absurd h hself
        · rw [Function.update_of_ne hj'] at heq
          rcases hp.inj j j' hne heq hzero with h | h
          · exact absurd h hj
          · exact absurd h hj'

/-- At the end of the chain only column 0 is stale. Each round of the loop moves one row, and the
fuel bounds the rounds. -/
theorem HoldsRows.augment {way : ℕ → ℕ} {i fuel j0 : ℕ} {p p' : ℕ → ℕ} (hp : HoldsRows i j0 p)
    (hok : augment way fuel p j0 = .ok p') : HoldsRows i 0 p' := by
  induction fuel generalizing p j0 with
  | zero => cases hok
  | succ fuel ih =>
    unfold Tracking.augment at hok
    have hmoved := hp.move (way j0)
    by_cases hlast : way j0 = 0
    · rw [if_neg (not_not.mpr hlast)] at hok
      cases hok
      rw [hlast] at hmoved ⊢
      exact hmoved
    · rw [if_pos hlast] at hok
      exact ih hmoved hok

/-- Inserting the next row keeps the rows distinct. The search itself does not touch the rows, it
only prepares the chain. -/
theorem HoldsRows.insertRow {a : ℕ → ℕ → D} {augCols fuel i : ℕ} {m m' : Matching D}
    (hm : HoldsRows i 0 m.p) (hok : insertRow a augCols fuel m (i + 1) = .ok m') :
    HoldsRows (i + 1) 0 m'.p := by
  have hinserted : ∀ stale, HoldsRows (i + 1) stale (Function.update m.p 0 (i + 1)) := by
    intro stale
    have hfresh : ∀ j, j ≠ 0 → m.p j ≠ i + 1 := fun j _ h => by have := hm.le j; omega
    refine ⟨fun j => ?_, fun j j' hne heq hzero => ?_⟩
    · by_cases hj : j = 0
      · rw [hj, Function.update_self]
      · rw [Function.update_of_ne hj]
        have := hm.le j
        omega
    · by_cases hj : j = 0
      · rw [hj, Function.update_self, Function.update_of_ne (fun h => hne (hj.trans h.symm))] at heq
        exact absurd heq.symm (hfresh j' fun h => hne (hj.trans h.symm))
      · by_cases hj' : j' = 0
        · rw [hj', Function.update_self, Function.update_of_ne hj] at heq
          exact absurd heq (hfresh j hj)
        · rw [Function.update_of_ne hj] at heq hzero
          rw [Function.update_of_ne hj'] at heq
          rcases hm.inj j j' hne heq hzero with h | h
          · exact absurd h hj
          · exact absurd h hj'
  unfold Tracking.insertRow at hok
  obtain ⟨s, -, hok⟩ := bind_eq_ok.mp hok
  obtain ⟨p, hp, hok⟩ := bind_eq_ok.mp hok
  cases hok
  exact (hinserted s.j0).augment hp

/-- The pairs have distinct rows and columns in range, and the rest is what they leave. -/
structure AssignmentResult.WellFormed (rows cols : ℕ) (r : AssignmentResult) : Prop where
  row_lt : ∀ m ∈ r.pairs, m.row < rows
  col_lt : ∀ m ∈ r.pairs, m.col < cols
  rows_nodup : (r.pairs.map (·.row)).Nodup
  cols_nodup : (r.pairs.map (·.col)).Nodup
  unmatchedRows_eq : r.unmatchedRows =
    (List.range rows).filter fun i => decide (i ∉ r.pairs.map (·.row))
  unmatchedCols_eq : r.unmatchedCols =
    (List.range cols).filter fun j => decide (j ∉ r.pairs.map (·.col))

/-- What an extracted pair says about the columns. The padding columns and the pairs that cost too
much are left out. -/
theorem mem_extractPairs {costs : List F} {cols augCols : ℕ} {maxCost : F} {p : ℕ → ℕ} {m : Match} :
    m ∈ extractPairs costs cols augCols maxCost p ↔
      m.col < augCols ∧ m.col < cols ∧ p (m.col + 1) = m.row + 1 ∧
        isFinite (costs.getD (m.row * cols + m.col) (lit 0)) = true ∧
        costs.getD (m.row * cols + m.col) (lit 0) ≤ maxCost := by
  unfold extractPairs
  rw [List.mem_filterMap]
  constructor
  · rintro ⟨col, hcol, hm⟩
    split at hm
    · cases hm
    · rename_i hfree
      dsimp only at hm
      split at hm
      · rename_i hcost
        cases hm
        exact ⟨List.mem_range.mp hcol, by dsimp only; omega, by dsimp only; omega, hcost⟩
      · cases hm
  · rintro ⟨haug, hcol, hrow, hcost⟩
    refine ⟨m.col, List.mem_range.mpr haug, ?_⟩
    rw [if_neg (by omega)]
    simp only [hrow, Nat.add_sub_cancel]
    rw [if_pos hcost]

/-- Extraction visits the columns in order. Each column gives one pair at most. -/
theorem extractPairs_cols_nodup (costs : List F) (cols augCols : ℕ) (maxCost : F) (p : ℕ → ℕ) :
    ((extractPairs costs cols augCols maxCost p).map (·.col)).Nodup := by
  unfold extractPairs
  rw [List.map_filterMap]
  refine List.Nodup.filterMap ?_ List.nodup_range
  intro col col' c hc hc'
  have hcol : ∀ col : ℕ, c ∈ Option.map (·.col)
      (if p (col + 1) = 0 ∨ cols ≤ col then none
      else
        let row := p (col + 1) - 1
        let c := costs.getD (row * cols + col) (lit 0)
        if isFinite c ∧ c ≤ maxCost then some (⟨row, col⟩ : Match) else none) → c = col := by
    intro col h
    obtain ⟨m, hm, rfl⟩ := Option.mem_map.mp h
    split at hm
    · cases hm
    · dsimp only at hm
      split at hm
      · cases hm
        rfl
      · cases hm
  exact (hcol col hc).symm.trans (hcol col' hc')

/-- A result of the algorithm is well formed, in every arithmetic and with any fuel. The invariant
of the outer loop is that the columns hold distinct rows, those inserted so far. -/
theorem wellFormed_linearAssignment {fuel : ℕ} {costs : List F} {rows cols : ℕ} {maxCost : F}
    {r : AssignmentResult} (hok : linearAssignment D fuel costs rows cols maxCost = .ok r) :
    r.WellFormed rows cols := by
  unfold linearAssignment at hok
  split at hok
  · cases hok
  split at hok
  · cases hok
    exact ⟨nofun, nofun, .nil, .nil, rfl, rfl⟩
  obtain ⟨m, hm, hok⟩ := bind_eq_ok.mp hok
  cases hok
  have hp : HoldsRows rows 0 m.p := by
    have hlast := foldlM_ok (fun (pre : List ℕ) (m : Matching D) => HoldsRows pre.length 0 m.p)
      ⟨fun _ => le_rfl, fun _ _ _ _ h => absurd rfl h⟩ ?_ hm
    · rwa [List.length_range'] at hlast
    · intro pre x post m m' hsplit hinv hrow
      have hx : x = pre.length + 1 := by
        obtain ⟨k, hk, hpre, hrest⟩ := List.range'_eq_append_iff.mp hsplit
        rw [hpre, List.length_range']
        have hhead := (List.range'_eq_cons_iff.mp hrest.symm).1
        omega
      rw [List.length_append, List.length_singleton]
      exact hinv.insertRow (hx ▸ hrow)
  refine ⟨fun m hm => ?_, fun m hm => (mem_extractPairs.mp hm).2.1, ?_,
    extractPairs_cols_nodup .., rfl, rfl⟩
  · have hrow := (mem_extractPairs.mp hm).2.2.1
    have hle := hp.le (m.col + 1)
    omega
  · refine List.Nodup.map_on ?_ (List.Nodup.of_map _ (extractPairs_cols_nodup ..))
    intro m hm m' hm' heq
    have hrow := (mem_extractPairs.mp hm).2.2.1
    have hrow' := (mem_extractPairs.mp hm').2.2.1
    have hcol : m.col = m'.col := by
      by_contra hne
      have hshared : _ := hp.inj (m.col + 1) (m'.col + 1) (by omega) (by omega) (by omega)
      omega
    cases m
    cases m'
    simp_all

end EdgeClient.Tracking
