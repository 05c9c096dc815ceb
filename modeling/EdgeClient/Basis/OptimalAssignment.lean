import EdgeClient.Basis.Literals

/-!
# Optimal assignments

Rows are assigned to distinct columns. Prices of the rows and of the columns that never
exceed a cost, and that meet it at every assigned pair, prove an assignment cheapest. An
assignment in which rows may stay without a column is one in which every row has a dummy
column of its own.
-/

namespace Basis

namespace OptimalAssignment

variable {ι κ K : Type*} [Fintype ι] [AddCommGroup K] [LinearOrder K] [IsOrderedAddMonoid K]

section Prices

variable {a : ι → κ → K} {u : ι → K} {v : κ → K} {σ τ : ι → κ}

/-- Prices of rows and columns that support an assignment. -/
structure Supports (a : ι → κ → K) (u : ι → K) (v : κ → K) (σ : ι → κ) : Prop where
  /-- No pair is cheaper than its prices. -/
  feasible : ∀ i j, u i + v j ≤ a i j
  /-- Assigned pairs cost their prices. -/
  tight : ∀ i, u i + v (σ i) = a i (σ i)
  /-- Columns have no positive price. -/
  nonpos : ∀ j, v j ≤ 0
  /-- Columns without a row have none. -/
  free : ∀ j, j ∉ Set.range σ → v j = 0

variable [Fintype κ]

/-- The prices of all columns are at most those of the assigned ones. -/
theorem Supports.sum_le (hsupports : Supports a u v σ) (hτ : Function.Injective τ) :
    ∑ j, v j ≤ ∑ i, v (τ i) := by
  classical
  rw [← Finset.sum_image (f := v) (g := τ) fun _ _ _ _ h => hτ h]
  exact Finset.sum_le_sum_of_subset_of_nonpos' (Finset.subset_univ _)
    fun j _ _ => hsupports.nonpos j

omit [IsOrderedAddMonoid K] in
/-- Columns without a row do not contribute to the prices. -/
theorem Supports.sum_eq (hsupports : Supports a u v σ) (hσ : Function.Injective σ) :
    ∑ j, v j = ∑ i, v (σ i) := by
  classical
  rw [← Finset.sum_image (f := v) (g := σ) fun _ _ _ _ h => hσ h]
  refine (Finset.sum_subset (Finset.subset_univ _) fun j _ hj => hsupports.free j ?_).symm
  rintro ⟨i, rfl⟩
  exact hj (Finset.mem_image_of_mem σ (Finset.mem_univ i))

/-- A supported assignment is cheapest. Its cost is the sum of all prices, and no other assignment
falls below it. -/
theorem Supports.optimal (hsupports : Supports a u v σ) (hσ : Function.Injective σ)
    (hτ : Function.Injective τ) : ∑ i, a i (σ i) ≤ ∑ i, a i (τ i) :=
  calc ∑ i, a i (σ i)
      = ∑ i, (u i + v (σ i)) := Finset.sum_congr rfl fun i _ => (hsupports.tight i).symm
    _ = ∑ i, u i + ∑ j, v j := by rw [Finset.sum_add_distrib, hsupports.sum_eq hσ]
    _ ≤ ∑ i, u i + ∑ i, v (τ i) := by
      have hle := hsupports.sum_le hτ
      gcongr
    _ = ∑ i, (u i + v (τ i)) := Finset.sum_add_distrib.symm
    _ ≤ ∑ i, a i (τ i) := Finset.sum_le_sum fun i _ => hsupports.feasible i (τ i)

end Prices

/-! ## Rows without a column -/

/-- The costs with one more column for each row, at the price of the limit. -/
def withDummies (c : ι → κ → K) (limit : K) (i : ι) : κ ⊕ ι → K :=
  Sum.elim (c i) fun _ => limit

/-- What the assigned pairs cost over the limit. -/
def excess (c : ι → κ → K) (limit : K) (μ : ι → Option κ) : K :=
  ∑ i, (μ i).elim 0 fun j => c i j - limit

/-- No two rows have the same column. -/
def Matching (μ : ι → Option κ) : Prop := ∀ i i' j, μ i = some j → μ i' = some j → i = i'

variable {c : ι → κ → K} {limit : K} {μ : ι → Option κ}

/-- Every row with a column, and its dummy column for every other row. -/
def total (μ : ι → Option κ) (i : ι) : κ ⊕ ι := (μ i).elim (Sum.inr i) Sum.inl

omit [Fintype ι] in
/-- A matching that is filled up with the remaining columns uses no column twice. A row without a
match takes the column that was added for it alone. -/
theorem total_injective (hμ : Matching μ) : Function.Injective (total μ) := by
  intro i i' h
  unfold total at h
  cases hi : μ i with
  | none =>
    cases hi' : μ i' with
    | none => simpa [hi, hi'] using h
    | some j' => simp [hi, hi'] at h
  | some j =>
    cases hi' : μ i' with
    | none => simp [hi, hi'] at h
    | some j' =>
      obtain rfl : j = j' := by simpa [hi, hi'] using h
      exact hμ i i' j hi hi'

omit [LinearOrder K] [IsOrderedAddMonoid K] in
/-- The cost of an assignment with dummies. -/
theorem sum_total : ∑ i, withDummies c limit i (total μ i) =
    excess c limit μ + ∑ _i : ι, limit := by
  rw [excess, ← Finset.sum_add_distrib]
  refine Finset.sum_congr rfl fun i _ => ?_
  unfold total withDummies
  cases μ i with
  | none => simp
  | some j => simp

/-- The admissible pairs of an assignment with dummies. -/
def admitted (admissible : ι → κ → Prop) [∀ i j, Decidable (admissible i j)] (σ : ι → κ ⊕ ι)
    (i : ι) : Option κ :=
  match σ i with
  | .inl j => if admissible i j then some j else none
  | .inr _ => none

variable {admissible : ι → κ → Prop} [∀ i j, Decidable (admissible i j)] {σ : ι → κ ⊕ ι}

/-- Dropping the pairs that cost at least the limit does not raise the cost. A pair that is
dropped is replaced by a dummy at the limit. -/
theorem excess_admitted_le (hdear : ∀ i j, ¬ admissible i j → limit ≤ c i j) :
    excess c limit (admitted admissible σ) + ∑ _i : ι, limit ≤
      ∑ i, withDummies c limit i (σ i) := by
  rw [excess, ← Finset.sum_add_distrib]
  refine Finset.sum_le_sum fun i _ => ?_
  unfold admitted withDummies
  cases σ i with
  | inr k => simp
  | inl j =>
    by_cases hadmissible : admissible i j
    · simp [hadmissible]
    · simpa [hadmissible] using hdear i j hadmissible

/-- The admissible pairs of a cheapest assignment with dummies exceed the limit least, among all
matchings. -/
theorem excess_admitted_optimal (hdear : ∀ i j, ¬ admissible i j → limit ≤ c i j)
    (hσ : ∀ τ, Function.Injective τ →
      ∑ i, withDummies c limit i (σ i) ≤ ∑ i, withDummies c limit i (τ i))
    (hμ : Matching μ) : excess c limit (admitted admissible σ) ≤ excess c limit μ := by
  have hle := (excess_admitted_le hdear).trans (hσ (total μ) (total_injective hμ))
  rw [sum_total] at hle
  exact le_of_add_le_add_right hle

/-! ## Assignments as lists -/

/-- The column that a list of pairs assigns to a row. -/
def lookup {α : Type*} [DecidableEq ι] (row : α → ι) (col : α → κ) (pairs : List α) (i : ι) :
    Option κ := (pairs.find? fun m => row m = i).map col

variable {α : Type*} [DecidableEq ι] {row : α → ι} {col : α → κ} {pairs : List α}

omit [Fintype ι] in
/-- What is found for a row comes from a pair of the list. -/
theorem exists_of_lookup {i : ι} {j : κ} (h : lookup row col pairs i = some j) :
    ∃ m ∈ pairs, row m = i ∧ col m = j := by
  obtain ⟨m, hm, rfl⟩ := Option.map_eq_some_iff.mp h
  exact ⟨m, List.mem_of_find?_eq_some hm, by simpa using List.find?_some hm, rfl⟩

omit [Fintype ι] in
/-- Pairs with distinct rows are found. With distinct rows the first pair of a row is the only
one. -/
theorem lookup_eq_some_iff (hrows : (pairs.map row).Nodup) {i : ι} {j : κ} :
    lookup row col pairs i = some j ↔ ∃ m ∈ pairs, row m = i ∧ col m = j := by
  refine ⟨exists_of_lookup, ?_⟩
  rintro ⟨m, hm, rfl, rfl⟩
  have hsome : (pairs.find? fun m' => row m' = row m).isSome = true :=
    List.find?_isSome.mpr ⟨m, hm, decide_eq_true rfl⟩
  obtain ⟨m', hm'⟩ := Option.isSome_iff_exists.mp hsome
  have hsame : m' = m := List.inj_on_of_nodup_map hrows (List.mem_of_find?_eq_some hm') hm
    (by simpa using List.find?_some hm')
  rw [lookup, hm', hsame, Option.map_some]

omit [Fintype ι] in
/-- Pairs with distinct columns are a matching. -/
theorem matching_lookup (hcols : (pairs.map col).Nodup) : Matching (lookup row col pairs) := by
  intro i i' j h h'
  obtain ⟨m, hm, rfl, hcol⟩ := exists_of_lookup h
  obtain ⟨m', hm', rfl, hcol'⟩ := exists_of_lookup h'
  rw [List.inj_on_of_nodup_map hcols hm hm' (hcol.trans hcol'.symm)]

omit [LinearOrder K] [IsOrderedAddMonoid K] in
/-- The excess of pairs with distinct rows is added up pair by pair. Every row is looked up once,
and only the pair of this row contributes to its term. -/
theorem excess_lookup (hrows : (pairs.map row).Nodup) :
    excess c limit (lookup row col pairs) = (pairs.map fun m => c (row m) (col m) - limit).sum := by
  induction pairs with
  | nil => simp [excess, lookup]
  | cons m pairs ih =>
    rw [List.map_cons, List.nodup_cons] at hrows
    rw [List.map_cons, List.sum_cons, ← ih hrows.2, excess, excess,
      ← Finset.add_sum_erase _ _ (Finset.mem_univ (row m)),
      ← Finset.add_sum_erase (a := row m) _ _ (Finset.mem_univ (row m))]
    have hnone : lookup row col pairs (row m) = none := by
      rw [lookup, Option.map_eq_none_iff, List.find?_eq_none]
      intro m' hm' hrow
      exact hrows.1 ((of_decide_eq_true hrow) ▸ List.mem_map_of_mem (f := row) hm')
    have hfirst : lookup row col (m :: pairs) (row m) = some (col m) := by simp [lookup]
    rw [hnone, hfirst, Option.elim_some, Option.elim_none, zero_add]
    congr 1
    refine Finset.sum_congr rfl fun i hi => ?_
    have hne : ¬ row m = i := fun h => (Finset.mem_erase.mp hi).1 h.symm
    rw [lookup, lookup, List.find?_cons_of_neg (by simpa using hne)]

end OptimalAssignment

end Basis
