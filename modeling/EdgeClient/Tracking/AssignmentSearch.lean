import EdgeClient.Basis.ExactArithmetic
import EdgeClient.Tracking.Assignment

/-!
# The search for a free column

In exact arithmetic the search keeps prices of the rows and columns that never exceed a
cost. They meet the cost at every pair that is assigned, and along the way back from each
visited column. When a free column is reached, the rows move along that way, so that one
more row is assigned and the prices support the new assignment. The search ends
because every visited column holds a row of its own.
-/

namespace EdgeClient.Tracking

open Basis Basis.Extended

variable {K : Type} [Field K] [LinearOrder K] [RootOps K]

/-! ## One pass over the columns -/

section Pass

variable {a : ℕ → ℕ → Extended K} {used : ℕ → Bool} {u v : ℕ → Extended K} {i0 j0 : ℕ}
  {before : Scan (Extended K)} {μ : ℕ → K} {columns : List ℕ}

/-- The distance of a column after a pass, from the distance before. -/
def relaxed (a : ℕ → ℕ → Extended K) (u v : ℕ → Extended K) (i0 : ℕ) (minv : ℕ → Extended K)
    (j : ℕ) : Extended K :=
  if a i0 j - u i0 - v j < minv j then a i0 j - u i0 - v j else minv j

/-- What a pass over some columns has found, when `μ` are the new distances. -/
structure Scanned (a : ℕ → ℕ → Extended K) (used : ℕ → Bool) (u v : ℕ → Extended K) (i0 j0 : ℕ)
    (before : Scan (Extended K)) (μ : ℕ → K) (columns : List ℕ) (scan : Scan (Extended K)) :
    Prop where
  /-- Unvisited columns of the pass have new distances. -/
  minv : ∀ j, scan.minv j = if j ∈ columns ∧ used j = false then fin (μ j) else before.minv j
  /-- They are reached from the current column where that is closer. -/
  way : ∀ j, scan.way j = if j ∈ columns ∧ used j = false ∧ a i0 j - u i0 - v j < before.minv j
    then j0 else before.way j
  /-- The closest unvisited column is known, if there is one. -/
  closest : ((∀ j ∈ columns, used j = true) ∧ scan.delta = infinity ∧ scan.j1 = 0) ∨
    (scan.j1 ∈ columns ∧ used scan.j1 = false ∧ scan.delta = fin (μ scan.j1) ∧
      ∀ j ∈ columns, used j = false → μ scan.j1 ≤ μ j)

/-- A pass visits its columns one by one. The distances of the visited columns are left alone, and
the first least one of the others is kept. -/
theorem scanned (hdelta : before.delta = infinity) (hj1 : before.j1 = 0) (hnodup : columns.Nodup)
    (hμ : ∀ j ∈ columns, used j = false → relaxed a u v i0 before.minv j = fin (μ j)) :
    Scanned a used u v i0 j0 before μ columns
      (columns.foldl (Scan.visit a used u v i0 j0) before) := by
  induction columns using List.reverseRecOn with
  | nil => exact ⟨by simp, by simp, Or.inl ⟨nofun, hdelta, hj1⟩⟩
  | append_singleton columns x ih =>
    obtain ⟨hcolumns, -, hfresh⟩ := List.nodup_append.mp hnodup
    have hx : x ∉ columns := fun h => hfresh x h x (List.mem_singleton_self x) rfl
    have hold := ih hcolumns fun j hj => hμ j (List.mem_append_left _ hj)
    obtain ⟨scan, hscan⟩ : ∃ scan, scan = columns.foldl (Scan.visit a used u v i0 j0) before :=
      ⟨_, rfl⟩
    rw [List.foldl_append, List.foldl_cons, List.foldl_nil]
    rw [← hscan] at hold ⊢
    obtain ⟨hminv, hway, hclosest⟩ := hold
    have hmem : ∀ j, j ≠ x → (j ∈ columns ++ [x] ↔ j ∈ columns) := by
      intro j hne
      simp [hne]
    unfold Scan.visit
    by_cases hused : used x = true
    · rw [if_pos hused]
      have hsame : ∀ j, (j ∈ columns ++ [x] ∧ used j = false) ↔ (j ∈ columns ∧ used j = false) := by
        intro j
        by_cases hj : j = x
        · simp [hj, hused]
        · rw [hmem j hj]
      refine ⟨fun j => ?_, fun j => ?_, ?_⟩
      · simp only [hsame, hminv]
      · simp only [← and_assoc, hsame, hway]
      · rcases hclosest with ⟨hall, hrest⟩ | ⟨hfound, hfree, heq, hle⟩
        · refine Or.inl ⟨fun j hj => ?_, hrest⟩
          by_cases hjx : j = x
          · rw [hjx]
            exact hused
          · exact hall j ((hmem j hjx).mp hj)
        · refine Or.inr ⟨List.mem_append_left _ hfound, hfree, heq, fun j hj hjfree => ?_⟩
          exact hle j ((hsame j).mp ⟨hj, hjfree⟩).1 hjfree
    · have hfree : used x = false := Bool.eq_false_iff.mpr hused
      have hxmem : x ∈ columns ++ [x] := List.mem_append_right _ (List.mem_singleton_self x)
      have hminvx : scan.minv x = before.minv x := by rw [hminv, if_neg fun h => hx h.1]
      have hwayx : scan.way x = before.way x := by rw [hway, if_neg fun h => hx h.1]
      have hμx := hμ x hxmem hfree
      rw [if_neg hused]
      dsimp only
      rw [hminvx]
      -- The pass with the new distance of the column.
      obtain ⟨scan', hscan'⟩ : ∃ scan' : Scan (Extended K), scan' =
          if a i0 x - u i0 - v x < before.minv x then
            { scan with
              minv := Function.update scan.minv x (a i0 x - u i0 - v x)
              way := Function.update scan.way x j0 }
          else scan := ⟨_, rfl⟩
      rw [← hscan']
      have hminv' : ∀ j, scan'.minv j =
          if j ∈ columns ++ [x] ∧ used j = false then fin (μ j) else before.minv j := by
        intro j
        by_cases hj : j = x
        · rw [hj, if_pos ⟨hxmem, hfree⟩, ← hμx, hscan', relaxed]
          split
          · exact Function.update_self ..
          · exact hminvx
        · simp only [hmem j hj]
          rw [← hminv, hscan']
          split
          · exact Function.update_of_ne hj ..
          · rfl
      have hway' : ∀ j, scan'.way j = if j ∈ columns ++ [x] ∧ used j = false ∧
          a i0 j - u i0 - v j < before.minv j then j0 else before.way j := by
        intro j
        by_cases hj : j = x
        · rw [hj, hscan']
          by_cases hcloser : a i0 x - u i0 - v x < before.minv x
          · rw [if_pos hcloser, if_pos ⟨hxmem, hfree, hcloser⟩]
            exact Function.update_self ..
          · rw [if_neg hcloser, if_neg fun h => hcloser h.2.2]
            exact hwayx
        · simp only [hmem j hj]
          rw [← hway, hscan']
          split
          · exact Function.update_of_ne hj ..
          · rfl
      have hdelta' : scan'.delta = scan.delta := by
        rw [hscan']
        split <;> rfl
      have hj1' : scan'.j1 = scan.j1 := by
        rw [hscan']
        split <;> rfl
      have hnew : scan'.minv x = fin (μ x) := by rw [hminv', if_pos ⟨hxmem, hfree⟩]
      rw [hnew]
      split
      · rename_i hless
        refine ⟨hminv', hway', Or.inr ⟨hxmem, hfree, rfl, fun j hj hjfree => ?_⟩⟩
        by_cases hjx : j = x
        · rw [hjx]
        · have hj := (hmem j hjx).mp hj
          rcases hclosest with ⟨hall, -⟩ | ⟨-, -, heq, hle⟩
          · rw [hall j hj] at hjfree
            cases hjfree
          · rw [hdelta', heq, fin_lt] at hless
            exact hless.le.trans (hle j hj hjfree)
      · rename_i hless
        refine ⟨hminv', hway', Or.inr ?_⟩
        rw [hdelta', hj1']
        rcases hclosest with ⟨-, hinfinite, -⟩ | ⟨hfound, hjfree, heq, hle⟩
        · rw [hdelta', hinfinite] at hless
          exact absurd rfl hless
        · rw [hdelta', heq, fin_lt, not_lt] at hless
          refine ⟨List.mem_append_left _ hfound, hjfree, heq, fun j hj hjfree => ?_⟩
          by_cases hjx : j = x
          · rw [hjx]
            exact hless
          · exact hle j ((hmem j hjx).mp hj) hjfree

end Pass

/-! ## The search for a free column -/

section Searching

variable {A : ℕ → ℕ → K} {U V : ℕ → K} {m i : ℕ} {p way : ℕ → ℕ} {seen : List ℕ}
  {s : Search (Extended K)}

/-- What the pair of the row in column `j'` and column `j` costs over its prices. -/
def slack (A : ℕ → ℕ → K) (U V : ℕ → K) (p : ℕ → ℕ) (j' j : ℕ) : K :=
  A (p j') j - U (p j') - V j

/-- Prices of the rows that are `priced`, and of the columns from 1 to `m`. -/
structure Prices (A : ℕ → ℕ → K) (m : ℕ) (priced : ℕ → Prop) (p : ℕ → ℕ) (U V : ℕ → K) :
    Prop where
  /-- No pair is cheaper than its prices. -/
  feasible : ∀ r, priced r → ∀ j, 1 ≤ j → j ≤ m → U r + V j ≤ A r j
  /-- Assigned pairs cost their prices. -/
  tight : ∀ j, 1 ≤ j → j ≤ m → p j ≠ 0 → slack A U V p j j = 0
  /-- Columns have no positive price. -/
  nonpos : ∀ j, 1 ≤ j → j ≤ m → V j ≤ 0
  /-- Columns without a row have none. -/
  free : ∀ j, 1 ≤ j → j ≤ m → p j = 0 → V j = 0

/-- The rows in the columns while row `i` is inserted. -/
structure Inserting (i m : ℕ) (p : ℕ → ℕ) : Prop where
  /-- The row is in column 0. -/
  zero : p 0 = i
  /-- It is the last one. -/
  le : ∀ j, p j ≤ i
  /-- No row is in two columns. -/
  inj : ∀ j j', p j = p j' → p j ≠ 0 → j = j'
  /-- Columns beyond the last one are empty. -/
  range : ∀ j, p j ≠ 0 → j ≤ m
  /-- Rows count from 1. -/
  pos : 0 < i
  /-- There are enough columns. -/
  le_columns : i ≤ m

/-- From every column of the list the way leads over later ones back to column 0, and the row of
the next column meets the prices at the column. -/
def LeadsBack (A : ℕ → ℕ → K) (U V : ℕ → K) (p way : ℕ → ℕ) : List ℕ → Prop
  | [] => True
  | j :: rest => ((rest = [] ∧ j = 0) ∨
      (j ≠ 0 ∧ way j ∈ rest ∧ slack A U V p (way j) j = 0)) ∧ LeadsBack A U V p way rest

omit [LinearOrder K] [RootOps K] in
/-- The way back ends at the column zero, in which the search started. -/
theorem LeadsBack.zero_mem {j : ℕ} {rest : List ℕ} (h : LeadsBack A U V p way (j :: rest)) :
    0 ∈ j :: rest := by
  induction rest generalizing j with
  | nil =>
    rcases h.1 with ⟨-, rfl⟩ | ⟨-, hmem, -⟩
    · exact List.mem_singleton_self 0
    · cases hmem
  | cons j' rest ih => exact List.mem_cons_of_mem _ (ih h.2)

/-- The state of the search when the columns `seen`, the last one first, have been visited. The
fields are those of the textbook: prices, distances over the visited rows, and the way back. -/
structure Searching (A : ℕ → ℕ → K) (m i : ℕ) (p : ℕ → ℕ) (s : Search (Extended K))
    (seen : List ℕ) (U V : ℕ → K) : Prop where
  u_eq : s.u = fun r => fin (U r)
  v_eq : s.v = fun j => fin (V j)
  used_iff : ∀ j, s.used j = true ↔ j ∈ seen
  /-- The current column is new. -/
  fresh : s.j0 ∉ seen
  range : s.j0 ≤ m
  nodup : seen.Nodup
  /-- Visited columns hold rows. -/
  rows : ∀ j ∈ seen, j ≤ m ∧ p j ≠ 0
  /-- The new row has a price as soon as column 0 has been visited. -/
  prices : Prices A m (fun r => 1 ≤ r ∧ (r < i ∨ (r = i ∧ seen ≠ []))) p U V
  back : LeadsBack A U V p s.way (s.j0 :: seen)
  /-- The distance of a column is its least slack over the visited columns. -/
  minv : ∀ j, 1 ≤ j → j ≤ m → j ∉ seen → (seen = [] ∧ s.minv j = infinity) ∨
    (s.minv j = fin (slack A U V p (s.way j) j) ∧ s.way j ∈ seen ∧
      ∀ j' ∈ seen, slack A U V p (s.way j) j ≤ slack A U V p j' j)

/-- The cost matrix in exact arithmetic. -/
abbrev exactCost (A : ℕ → ℕ → K) (r j : ℕ) : Extended K := fin (A r j)

/-- The distance of a column that has not been visited, when the current one has been. It is the
slack over the best visited row, whose column is where the way back goes on. -/
theorem Searching.relaxed_eq (hs : Searching A m i p s seen U V) {j : ℕ} (hpos : 1 ≤ j)
    (hle : j ≤ m) (hfree : j ∉ s.j0 :: seen) {next : ℕ}
    (hnext : next = if exactCost A (p s.j0) j - s.u (p s.j0) - s.v j < s.minv j then s.j0
      else s.way j) :
    relaxed (exactCost A) s.u s.v (p s.j0) s.minv j = fin (slack A U V p next j) ∧
      next ∈ s.j0 :: seen ∧ ∀ j' ∈ s.j0 :: seen, slack A U V p next j ≤ slack A U V p j' j := by
  have hcur : exactCost A (p s.j0) j - s.u (p s.j0) - s.v j = fin (slack A U V p s.j0 j) := by
    rw [hs.u_eq, hs.v_eq, fin_sub, fin_sub]
    rfl
  unfold relaxed
  rw [hcur] at hnext ⊢
  rcases hs.minv j hpos hle fun h => hfree (List.mem_cons_of_mem _ h) with
    ⟨hnone, hinfinite⟩ | ⟨hminv, hway, hleast⟩
  · have hless : (fin (slack A U V p s.j0 j) : Extended K) < s.minv j := by
      rw [hinfinite]
      rfl
    rw [if_pos hless] at hnext ⊢
    rw [hnext, hnone]
    refine ⟨rfl, List.mem_singleton_self _, fun j' hj' => ?_⟩
    rw [List.mem_singleton.mp hj']
  · by_cases hless : (fin (slack A U V p s.j0 j) : Extended K) < s.minv j
    · rw [if_pos hless] at hnext ⊢
      rw [hminv, fin_lt] at hless
      rw [hnext]
      refine ⟨rfl, List.mem_cons_self .., fun j' hj' => ?_⟩
      rcases List.mem_cons.mp hj' with rfl | hseen
      · exact le_rfl
      · exact hless.le.trans (hleast j' hseen)
    · rw [if_neg hless] at hnext ⊢
      rw [hminv, fin_lt, not_lt] at hless
      rw [hnext]
      refine ⟨hminv, List.mem_cons_of_mem _ hway, fun j' hj' => ?_⟩
      rcases List.mem_cons.mp hj' with rfl | hseen
      · exact hless
      · exact hleast j' hseen

omit [LinearOrder K] [RootOps K] in
/-- Adding to the prices of the rows of distinct columns. No row is raised twice, because the
columns hold distinct rows. -/
theorem foldl_raise {F : Type} [FloatOps F] (d : F) (columns : List ℕ)
    (hnodup : (columns.map p).Nodup) (u : ℕ → F) :
    columns.foldl (fun u j => Function.update u (p j) (u (p j) + d)) u =
      fun r => if r ∈ columns.map p then u r + d else u r := by
  induction columns generalizing u with
  | nil => simp
  | cons j columns ih =>
    rw [List.map_cons, List.nodup_cons] at hnodup
    rw [List.foldl_cons, ih hnodup.2]
    funext r
    by_cases hr : r = p j
    · rw [hr, if_neg hnodup.1, Function.update_self, if_pos (by simp)]
    · rw [Function.update_of_ne hr]
      simp [hr]

/-- Visited columns hold distinct rows, so one of the columns has not been visited. There are more
columns than assigned rows, the padding included. -/
theorem Inserting.exists_free (hp : Inserting i m p) (hnodup : seen.Nodup)
    (hrows : ∀ j ∈ seen, j ≤ m ∧ p j ≠ 0) : seen.length ≤ i ∧
      (0 ∈ seen → ∃ j, 1 ≤ j ∧ j ≤ m ∧ j ∉ seen) := by
  have hdistinct : (seen.map p).Nodup :=
    hnodup.map_on fun j hj j' _ heq => hp.inj j j' heq (hrows j hj).2
  have hlength : seen.length ≤ i := by
    rw [← List.length_map p, ← List.toFinset_card_of_nodup hdistinct]
    calc (seen.map p).toFinset.card
        ≤ (Finset.Icc 1 i).card := Finset.card_le_card fun r hr => by
          obtain ⟨j, hj, rfl⟩ := List.mem_map.mp (List.mem_toFinset.mp hr)
          exact Finset.mem_Icc.mpr ⟨Nat.pos_of_ne_zero (hrows j hj).2, hp.le j⟩
      _ = i := by rw [Nat.card_Icc, Nat.add_sub_cancel]
  refine ⟨hlength, fun hzero => ?_⟩
  by_contra hnone
  have hall : Finset.range (m + 1) ⊆ seen.toFinset := by
    intro j hj
    rw [List.mem_toFinset]
    by_contra hj'
    have hne : j ≠ 0 := fun h => hj' (h ▸ hzero)
    exact hnone ⟨j, by omega, by have := Finset.mem_range.mp hj; omega, hj'⟩
  have hcard := Finset.card_le_card hall
  rw [Finset.card_range, List.toFinset_card_of_nodup hnodup] at hcard
  have := hp.le_columns
  omega

/-- The prices of the rows in some columns raised, and those of the columns lowered. -/
def raisedRow (p : ℕ → ℕ) (columns : List ℕ) (U : ℕ → K) (δ : K) (r : ℕ) : K :=
  if r ∈ columns.map p then U r + δ else U r

/-- The prices of the columns lowered. -/
def loweredColumn (columns : List ℕ) (V : ℕ → K) (δ : K) (j : ℕ) : K :=
  if j ∈ columns then V j - δ else V j

section Raised

variable {columns : List ℕ} {δ : K}

omit [LinearOrder K] [RootOps K] in
/-- Changing the potentials by `δ` keeps the slack inside the tree and lowers it by `δ` at the
other columns. -/
theorem slack_raised {j' j : ℕ} (hj' : j' ∈ columns) :
    slack A (raisedRow p columns U δ) (loweredColumn columns V δ) p j' j =
      if j ∈ columns then slack A U V p j' j else slack A U V p j' j - δ := by
  have hrow : p j' ∈ columns.map p := List.mem_map_of_mem hj'
  unfold slack raisedRow loweredColumn
  rw [if_pos hrow]
  split <;> ring

omit [LinearOrder K] [RootOps K] in
/-- The way back stays at the prices. Its edges have no slack, and prices of visited rows and
columns are changed by the same amount. -/
theorem LeadsBack.raise {l : List ℕ} (hsub : ∀ j ∈ l, j ∈ columns)
    (h : LeadsBack A U V p way l) {way' : ℕ → ℕ} (hway : ∀ j ∈ l, way' j = way j) :
    LeadsBack A (raisedRow p columns U δ) (loweredColumn columns V δ) p way' l := by
  induction l with
  | nil => trivial
  | cons j rest ih =>
    refine ⟨?_, ih (fun k hk => hsub k (List.mem_cons_of_mem _ hk)) h.2 fun k hk =>
      hway k (List.mem_cons_of_mem _ hk)⟩
    rcases h.1 with hlast | ⟨hne, hmem, hslack⟩
    · exact Or.inl hlast
    · right
      rw [hway j (List.mem_cons_self ..), slack_raised (hsub _ (List.mem_cons_of_mem _ hmem)),
        if_pos (hsub j (List.mem_cons_self ..))]
      exact ⟨hne, hmem, hslack⟩

variable [IsStrictOrderedRing K]

omit [RootOps K] in
/-- Raising the rows of visited columns by the least slack keeps the prices, and gives the new row
a price. -/
theorem Prices.raise (hp : Inserting i m p)
    (hprices : Prices A m (fun r => 1 ≤ r ∧ (r < i ∨ (r = i ∧ columns ≠ [0]))) p U V)
    (hrows : ∀ j ∈ columns, j ≤ m ∧ p j ≠ 0) (hzero : 0 ∈ columns)
    (hleast : ∀ j' ∈ columns, ∀ j, 1 ≤ j → j ≤ m → j ∉ columns → δ ≤ slack A U V p j' j)
    (hpos : columns ≠ [0] → 0 ≤ δ) :
    Prices A m (fun r => 1 ≤ r ∧ r ≤ i) p (raisedRow p columns U δ)
      (loweredColumn columns V δ) := by
  have hmem : ∀ j, p j ≠ 0 → (p j ∈ columns.map p ↔ j ∈ columns) := by
    intro j hj
    refine ⟨fun h => ?_, fun h => List.mem_map_of_mem h⟩
    obtain ⟨j', hj', heq⟩ := List.mem_map.mp h
    exact hp.inj j' j heq (hrows j' hj').2 ▸ hj'
  have hsingle : ∀ j ∈ columns, 1 ≤ j → columns ≠ [0] := by
    rintro j hj hj1 h
    rw [h, List.mem_singleton] at hj
    omega
  refine ⟨?_, ?_, ?_, ?_⟩
  · rintro r ⟨hr1, hri⟩ j hj1 hjm
    by_cases hraised : r ∈ columns.map p
    · obtain ⟨j', hj', rfl⟩ := List.mem_map.mp hraised
      rw [raisedRow, if_pos hraised, loweredColumn]
      split
      · rename_i hj
        have hold := hprices.feasible (p j') ⟨hr1, by
          have := hp.le j'
          rcases Nat.lt_or_ge (p j') i with h | h
          · exact Or.inl h
          · exact Or.inr ⟨by omega, hsingle j hj hj1⟩⟩ j hj1 hjm
        linarith
      · rename_i hj
        have hslack := hleast j' hj' j hj1 hjm hj
        unfold slack at hslack
        linarith
    · have hlt : r < i := by
        refine lt_of_le_of_ne hri fun h => hraised ?_
        rw [h, ← hp.zero]
        exact List.mem_map_of_mem hzero
      have hold := hprices.feasible r ⟨hr1, Or.inl hlt⟩ j hj1 hjm
      rw [raisedRow, if_neg hraised, loweredColumn]
      split
      · rename_i hj
        have := hpos (hsingle j hj hj1)
        linarith
      · exact hold
  · intro j hj1 hjm hj
    have hold := hprices.tight j hj1 hjm hj
    by_cases hmemj : j ∈ columns
    · rw [slack_raised hmemj, if_pos hmemj]
      exact hold
    · unfold slack raisedRow loweredColumn
      rw [if_neg fun h => hmemj ((hmem j hj).mp h), if_neg hmemj]
      exact hold
  · intro j hj1 hjm
    have hold := hprices.nonpos j hj1 hjm
    unfold loweredColumn
    split
    · rename_i hj
      have := hpos (hsingle j hj hj1)
      linarith
    · exact hold
  · intro j hj1 hjm hj
    rw [loweredColumn, if_neg fun h => (hrows j h).2 hj]
    exact hprices.free j hj1 hjm hj

end Raised

/-- What the pass of one round finds, when the columns `seen` have been visited: new distances of
the other columns, and the closest one of them at distance `δ`. -/
structure Passed (A : ℕ → ℕ → K) (m : ℕ) (p : ℕ → ℕ) (way : ℕ → ℕ) (seen : List ℕ) (U V : ℕ → K)
    (scan : Scan (Extended K)) (δ : K) : Prop where
  /-- Visited columns keep their way. -/
  way_eq : ∀ j ∈ seen, scan.way j = way j
  minv : ∀ j, 1 ≤ j → j ≤ m → j ∉ seen → scan.minv j = fin (slack A U V p (scan.way j) j)
  way_mem : ∀ j, 1 ≤ j → j ≤ m → j ∉ seen → scan.way j ∈ seen
  least : ∀ j, 1 ≤ j → j ≤ m → j ∉ seen → ∀ j' ∈ seen,
    slack A U V p (scan.way j) j ≤ slack A U V p j' j
  /-- The closest column is new. -/
  fresh : 1 ≤ scan.j1 ∧ scan.j1 ≤ m ∧ scan.j1 ∉ seen
  delta : scan.delta = fin δ
  delta_eq : δ = slack A U V p (scan.way scan.j1) scan.j1
  closest : ∀ j, 1 ≤ j → j ≤ m → j ∉ seen → δ ≤ slack A U V p (scan.way j) j

/-- The pass of one round, after which the current column is visited. The least distance belongs
to a column that was not visited, and there is one. -/
theorem Searching.pass (hp : Inserting i m p) (hs : Searching A m i p s seen U V)
    (hrow : p s.j0 ≠ 0) {used : ℕ → Bool} (hused : ∀ j, used j = true ↔ j ∈ s.j0 :: seen) :
    ∃ δ, Passed A m p s.way (s.j0 :: seen) U V ((List.range' 1 m).foldl
      (Scan.visit (exactCost A) used s.u s.v (p s.j0) s.j0) ⟨s.minv, s.way, infinity, 0⟩) δ := by
  obtain ⟨seen', hseen'⟩ : ∃ l, l = s.j0 :: seen := ⟨_, rfl⟩
  rw [← hseen'] at hused ⊢
  obtain ⟨next, hnext⟩ : ∃ next : ℕ → ℕ, next = fun j =>
      if exactCost A (p s.j0) j - s.u (p s.j0) - s.v j < s.minv j then s.j0 else s.way j := ⟨_, rfl⟩
  have hrelaxed : ∀ j, 1 ≤ j → j ≤ m → j ∉ seen' →
      relaxed (exactCost A) s.u s.v (p s.j0) s.minv j = fin (slack A U V p (next j) j) ∧
        next j ∈ seen' ∧ ∀ j' ∈ seen', slack A U V p (next j) j ≤ slack A U V p j' j := by
    intro j hj1 hjm hj
    rw [hseen'] at *
    exact hs.relaxed_eq hj1 hjm hj (by rw [hnext])
  have hpass : ∀ j, (j ∈ List.range' 1 m ∧ used j = false) ↔ 1 ≤ j ∧ j ≤ m ∧ j ∉ seen' := by
    intro j
    rw [List.mem_range'_1, ← hused, Bool.not_eq_true]
    constructor
    · rintro ⟨h, hj⟩
      exact ⟨h.1, by omega, hj⟩
    · rintro ⟨h1, hm, hj⟩
      exact ⟨by omega, hj⟩
  have hscanned : Scanned (exactCost A) used s.u s.v (p s.j0) s.j0 ⟨s.minv, s.way, infinity, 0⟩
      (fun j => slack A U V p (next j) j) (List.range' 1 m) ((List.range' 1 m).foldl
        (Scan.visit (exactCost A) used s.u s.v (p s.j0) s.j0) ⟨s.minv, s.way, infinity, 0⟩) := by
    refine scanned rfl rfl List.nodup_range' fun j hj hfree => ?_
    obtain ⟨h1, hm, hnew⟩ := (hpass j).mp ⟨hj, hfree⟩
    exact (hrelaxed j h1 hm hnew).1
  obtain ⟨hminv, hway, hclosest⟩ := hscanned
  obtain ⟨scan, hscan⟩ : ∃ scan, scan = (List.range' 1 m).foldl
      (Scan.visit (exactCost A) used s.u s.v (p s.j0) s.j0) ⟨s.minv, s.way, infinity, 0⟩ := ⟨_, rfl⟩
  rw [← hscan] at hminv hway hclosest ⊢
  dsimp only at hminv hway hclosest
  have hwaynext : ∀ j, 1 ≤ j → j ≤ m → j ∉ seen' → scan.way j = next j := by
    intro j h1 hm hj
    obtain ⟨hmem, hfree⟩ := (hpass j).mpr ⟨h1, hm, hj⟩
    rw [hway, hnext]
    simp only [hmem, hfree, true_and]
  rcases hclosest with ⟨hall, -⟩ | ⟨hmem, hfree, hdelta, hleast⟩
  · -- Some column has not been visited.
    have hrows' : ∀ j ∈ seen', j ≤ m ∧ p j ≠ 0 :=
      hseen' ▸ List.forall_mem_cons.mpr ⟨⟨hs.range, hrow⟩, hs.rows⟩
    have hnodup' : seen'.Nodup := hseen' ▸ List.nodup_cons.mpr ⟨hs.fresh, hs.nodup⟩
    obtain ⟨j, hj1, hjm, hj⟩ :=
      (hp.exists_free hnodup' hrows').2 (hseen' ▸ hs.back.zero_mem)
    obtain ⟨hmem, hfree⟩ := (hpass j).mpr ⟨hj1, hjm, hj⟩
    rw [hall j hmem] at hfree
    cases hfree
  obtain ⟨hj1, hjm, hjnew⟩ := (hpass scan.j1).mp ⟨hmem, hfree⟩
  refine ⟨slack A U V p (next scan.j1) scan.j1, ?_, ?_, ?_, ?_, ⟨hj1, hjm, hjnew⟩, hdelta, ?_, ?_⟩
  · intro j hj
    rw [hway, if_neg fun h => ((hpass j).mp ⟨h.1, h.2.1⟩).2.2 hj]
  · intro j h1 hm hj
    rw [hminv, if_pos ((hpass j).mpr ⟨h1, hm, hj⟩), hwaynext j h1 hm hj]
  · intro j h1 hm hj
    rw [hwaynext j h1 hm hj]
    exact (hrelaxed j h1 hm hj).2.1
  · intro j h1 hm hj
    rw [hwaynext j h1 hm hj]
    exact (hrelaxed j h1 hm hj).2.2
  · rw [hwaynext _ hj1 hjm hjnew]
  · intro j h1 hm hj
    obtain ⟨hmem', hfree'⟩ := (hpass j).mpr ⟨h1, hm, hj⟩
    rw [hwaynext j h1 hm hj]
    exact hleast j hmem' hfree'

/-- One round of the search visits the current column. The prices are raised by the least
distance, which makes one more edge free of slack. -/
theorem Searching.step [IsStrictOrderedRing K] (hp : Inserting i m p)
    (hs : Searching A m i p s seen U V) (hrow : p s.j0 ≠ 0) :
    ∃ U' V', Searching A m i p (s.step (exactCost A) m p) (s.j0 :: seen) U' V' := by
  obtain ⟨seen', hseen'⟩ : ∃ l, l = s.j0 :: seen := ⟨_, rfl⟩
  have hrows' : ∀ j ∈ seen', j ≤ m ∧ p j ≠ 0 :=
    hseen' ▸ List.forall_mem_cons.mpr ⟨⟨hs.range, hrow⟩, hs.rows⟩
  have hnodup' : seen'.Nodup := hseen' ▸ List.nodup_cons.mpr ⟨hs.fresh, hs.nodup⟩
  have hzero : 0 ∈ seen' := hseen' ▸ hs.back.zero_mem
  obtain ⟨used, hused⟩ : ∃ used, used = Function.update s.used s.j0 true := ⟨_, rfl⟩
  have hused_iff : ∀ j, used j = true ↔ j ∈ seen' := by
    intro j
    rw [hused, hseen']
    by_cases hj : j = s.j0
    · simp [hj]
    · rw [Function.update_of_ne hj, hs.used_iff]
      simp [hj]
  obtain ⟨δ, hpassed⟩ := hs.pass hp hrow (hseen' ▸ hused_iff)
  obtain ⟨scan, hscan⟩ : ∃ scan, scan = (List.range' 1 m).foldl
      (Scan.visit (exactCost A) used s.u s.v (p s.j0) s.j0) ⟨s.minv, s.way, infinity, 0⟩ := ⟨_, rfl⟩
  rw [← hscan, ← hseen'] at hpassed
  obtain ⟨hj1, hjm, hjnew⟩ := hpassed.fresh
  have hnext := hpassed.way_mem _ hj1 hjm hjnew
  -- The new row has a price unless column 0 is the first one to be visited.
  have hstart : seen' ≠ [0] → seen ≠ [] := by
    rintro hne rfl
    rcases hs.back.1 with ⟨-, hj0⟩ | ⟨-, hmem, -⟩
    · exact hne (by rw [hseen', hj0])
    · cases hmem
  have hprices : Prices A m (fun r => 1 ≤ r ∧ (r < i ∨ (r = i ∧ seen' ≠ [0]))) p U V :=
    { hs.prices with
      feasible := fun r hr j h1 hm => hs.prices.feasible r
        ⟨hr.1, hr.2.imp_right fun h => ⟨h.1, hstart h.2⟩⟩ j h1 hm }
  have hnonneg : seen' ≠ [0] → 0 ≤ δ := by
    intro hne
    have hold := hprices.feasible (p (scan.way scan.j1))
      ⟨Nat.pos_of_ne_zero (hrows' _ hnext).2, by
        have := hp.le (scan.way scan.j1)
        rcases Nat.lt_or_ge (p (scan.way scan.j1)) i with h | h
        · exact Or.inl h
        · exact Or.inr ⟨by omega, hne⟩⟩ scan.j1 hj1 hjm
    rw [hpassed.delta_eq]
    unfold slack
    linarith
  have hraised := hprices.raise hp hrows' hzero (fun j' hj' j h1 hm hj =>
    (hpassed.closest j h1 hm hj).trans (hpassed.least j h1 hm hj j' hj')) hnonneg
  have hrowset : ∀ r, r ∈ ((List.range (m + 1)).filter used).map p ↔ r ∈ seen'.map p := by
    intro r
    rw [List.mem_map, List.mem_map]
    refine exists_congr fun j => and_congr_left fun _ => ?_
    rw [List.mem_filter, List.mem_range, hused_iff]
    exact ⟨fun h => h.2, fun h => ⟨Nat.lt_succ_of_le (hrows' j h).1, h⟩⟩
  have hdistinct : (((List.range (m + 1)).filter used).map p).Nodup := by
    refine (List.nodup_range.filter _).map_on fun j hj j' _ heq => ?_
    exact hp.inj j j' heq (hrows' j ((hused_iff j).mp (List.mem_filter.mp hj).2)).2
  refine ⟨raisedRow p seen' U δ, loweredColumn seen' V δ, ?_⟩
  rw [← hseen']
  unfold Search.step
  rw [← hused]
  dsimp only
  rw [← hscan]
  refine ⟨?_, ?_, hused_iff, hjnew, hjm, hnodup', hrows', ?_, ⟨?_, ?_⟩, ?_⟩
  · dsimp only
    rw [foldl_raise _ _ hdistinct, hpassed.delta]
    funext r
    rw [hs.u_eq]
    unfold raisedRow
    simp only [hrowset]
    split <;> rfl
  · funext j
    dsimp only
    rw [hpassed.delta, hs.v_eq]
    unfold loweredColumn
    simp only [hused_iff]
    split
    · exact fin_sub ..
    · rfl
  · exact { hraised with
      feasible := fun r hr => hraised.feasible r ⟨hr.1, hr.2.elim le_of_lt fun h => h.1.le⟩ }
  · right
    dsimp only
    rw [slack_raised hnext, if_neg hjnew, ← hpassed.delta_eq, sub_self]
    exact ⟨by omega, hnext, rfl⟩
  · exact LeadsBack.raise (fun j hj => hj) (hseen' ▸ hs.back) hpassed.way_eq
  · intro j h1 hm hj
    have hmem := hpassed.way_mem j h1 hm hj
    have hfree : used j = false := Bool.eq_false_iff.mpr fun h => hj ((hused_iff j).mp h)
    right
    dsimp only
    rw [hfree, if_neg Bool.false_ne_true, hpassed.minv j h1 hm hj, hpassed.delta,
      slack_raised hmem, if_neg hj, fin_sub]
    refine ⟨rfl, hmem, fun j' hj' => ?_⟩
    rw [slack_raised hj', if_neg hj]
    exact sub_le_sub_right (hpassed.least j h1 hm hj j' hj') δ

/-- The search ends at a column without a row. Every round visits one more column, so that the
fuel of the rows is enough. -/
theorem Searching.run [IsStrictOrderedRing K] (hp : Inserting i m p) {fuel : ℕ}
    (hs : Searching A m i p s seen U V) (hrow : p s.j0 ≠ 0) (hfuel : i ≤ fuel + seen.length) :
    ∃ s' seen' U' V', Search.run (exactCost A) m p fuel s = .ok s' ∧
      Searching A m i p s' seen' U' V' ∧ seen' ≠ [] ∧ p s'.j0 = 0 := by
  induction fuel generalizing s seen U V with
  | zero =>
    have hrows' : ∀ j ∈ s.j0 :: seen, j ≤ m ∧ p j ≠ 0 :=
      List.forall_mem_cons.mpr ⟨⟨hs.range, hrow⟩, hs.rows⟩
    have hlength := (hp.exists_free (List.nodup_cons.mpr ⟨hs.fresh, hs.nodup⟩) hrows').1
    rw [List.length_cons] at hlength
    omega
  | succ fuel ih =>
    obtain ⟨U', V', hnext⟩ := hs.step hp hrow
    unfold Search.run
    dsimp only
    by_cases hlast : p (s.step (exactCost A) m p).j0 = 0
    · rw [if_neg (not_not.mpr hlast)]
      exact ⟨_, _, U', V', rfl, hnext, List.cons_ne_nil _ _, hlast⟩
    · rw [if_pos hlast]
      exact ih hnext hlast (by rw [List.length_cons]; omega)

/-! ## Moving the rows -/

omit [LinearOrder K] [RootOps K] in
/-- The end of a way back is a way back. -/
theorem LeadsBack.of_append {pre l : List ℕ} (h : LeadsBack A U V p way (pre ++ l)) :
    LeadsBack A U V p way l := by
  induction pre with
  | nil => exact h
  | cons j pre ih => exact ih h.2

omit [LinearOrder K] [RootOps K] in
/-- The way back depends on the rows of its columns. The slack of a step is that of the row of the
column before. -/
theorem LeadsBack.congr {l : List ℕ} {p' : ℕ → ℕ} (h : LeadsBack A U V p way l)
    (heq : ∀ j ∈ l, p' j = p j) : LeadsBack A U V p' way l := by
  induction l with
  | nil => trivial
  | cons j rest ih =>
    refine ⟨?_, ih h.2 fun k hk => heq k (List.mem_cons_of_mem _ hk)⟩
    rcases h.1 with hlast | ⟨hne, hmem, hslack⟩
    · exact Or.inl hlast
    · refine Or.inr ⟨hne, hmem, ?_⟩
      unfold slack at hslack ⊢
      rw [heq _ (List.mem_cons_of_mem _ hmem)]
      exact hslack

/-- What moving the rows along a way that begins at column `j0` leaves behind. -/
structure Moved (A : ℕ → ℕ → K) (U V : ℕ → K) (m j0 : ℕ) (p p' : ℕ → ℕ) : Prop where
  /-- The rows meet the prices of their columns if they did so before. -/
  tight : (∀ j, 1 ≤ j → j ≤ m → p j ≠ 0 → slack A U V p j j = 0) →
    ∀ j, 1 ≤ j → j ≤ m → p' j ≠ 0 → slack A U V p' j j = 0
  /-- Every row but that of the first column keeps a column, other than column 0. -/
  rows : ∀ j, j ≠ j0 → ∃ j', j' ≠ 0 ∧ p' j' = p j
  /-- No column is emptied. -/
  free : ∀ j, p' j = 0 → p j = 0
  /-- No column beyond the last one is filled. -/
  range : (∀ j, p j ≠ 0 → j ≤ m) → ∀ j, p' j ≠ 0 → j ≤ m

omit [LinearOrder K] [RootOps K] in
/-- The rows move along the way back, and the way ends. The induction is on the fuel, along the
columns of the way back. -/
theorem moved_augment {fuel j0 : ℕ} {rest : List ℕ} (hback : LeadsBack A U V p way (j0 :: rest))
    (hne : j0 ≠ 0) (hnodup : (j0 :: rest).Nodup) (hle : ∀ j ∈ j0 :: rest, j ≤ m)
    (hrows : ∀ j ∈ rest, p j ≠ 0) (hfuel : rest.length ≤ fuel) :
    ∃ p', augment way fuel p j0 = .ok p' ∧ Moved A U V m j0 p p' := by
  induction fuel generalizing p j0 rest with
  | zero =>
    obtain rfl := List.length_eq_zero_iff.mp (Nat.le_zero.mp hfuel)
    rcases hback.1 with ⟨-, h⟩ | ⟨-, hmem, -⟩
    · exact absurd h hne
    · cases hmem
  | succ fuel ih =>
    rcases hback.1 with ⟨-, h⟩ | ⟨-, hmem, hslack⟩
    · exact absurd h hne
    obtain ⟨hfresh, hrest⟩ := List.nodup_cons.mp hnodup
    have hother : way j0 ≠ j0 := fun h => hfresh (h ▸ hmem)
    obtain ⟨q, hq⟩ : ∃ q, q = Function.update p j0 (p (way j0)) := ⟨_, rfl⟩
    have hqself : q j0 = p (way j0) := by rw [hq, Function.update_self]
    have hqother : ∀ j, j ≠ j0 → q j = p j := fun j hj => by rw [hq, Function.update_of_ne hj]
    -- One move.
    have htight : (∀ j, 1 ≤ j → j ≤ m → p j ≠ 0 → slack A U V p j j = 0) →
        ∀ j, 1 ≤ j → j ≤ m → q j ≠ 0 → slack A U V q j j = 0 := by
      intro hold j h1 hm hj
      by_cases hj0 : j = j0
      · rw [hj0]
        unfold slack at hslack ⊢
        rw [hqself]
        exact hslack
      · rw [hqother j hj0] at hj
        have hsame := hold j h1 hm hj
        unfold slack at hsame ⊢
        rw [hqother j hj0]
        exact hsame
    have hkept : ∀ j, j ≠ j0 → ∃ j', j' ≠ way j0 ∧ q j' = p j := by
      intro j hj
      by_cases hnext : j = way j0
      · exact ⟨j0, hother.symm, by rw [hqself, hnext]⟩
      · exact ⟨j, hnext, hqother j hj⟩
    have hfree : ∀ j, q j = 0 → p j = 0 := by
      intro j hj
      by_cases hj0 : j = j0
      · rw [hj0, hqself] at hj
        exact absurd hj (hrows _ hmem)
      · rw [← hqother j hj0]
        exact hj
    have hrange : (∀ j, p j ≠ 0 → j ≤ m) → ∀ j, q j ≠ 0 → j ≤ m := by
      intro hold j hj
      by_cases hj0 : j = j0
      · rw [hj0]
        exact hle j0 (List.mem_cons_self ..)
      · exact hold j (hqother j hj0 ▸ hj)
    unfold augment
    dsimp only
    rw [← hq]
    by_cases hlast : way j0 = 0
    · rw [if_neg (not_not.mpr hlast)]
      rw [hlast] at hkept
      exact ⟨q, rfl, htight, hkept, hfree, hrange⟩
    · rw [if_pos hlast]
      obtain ⟨pre, post, hsplit⟩ := List.append_of_mem hmem
      have hsuffix : ∀ j ∈ way j0 :: post, j ∈ rest := fun j hj =>
        hsplit ▸ List.mem_append_right pre hj
      have hback' : LeadsBack A U V q way (way j0 :: post) := by
        have hold := hback.2
        rw [hsplit] at hold
        exact hold.of_append.congr fun j hj => hqother j fun h => hfresh (h ▸ hsuffix j hj)
      obtain ⟨p', hp', hmoved⟩ := ih hback' hlast
        ((hsplit ▸ hrest : (pre ++ way j0 :: post).Nodup).sublist (List.sublist_append_right ..))
        (fun j hj => hle j (List.mem_cons_of_mem _ (hsuffix j hj)))
        (fun j hj => by
          have hj := hsuffix j (List.mem_cons_of_mem _ hj)
          rw [hqother j fun h => hfresh (h ▸ hj)]
          exact hrows j hj)
        (by
          have hlength := congrArg List.length hsplit
          rw [List.length_append, List.length_cons] at hlength
          omega)
      refine ⟨p', hp', fun h => hmoved.tight (htight h), fun j hj => ?_,
        fun j hj => hfree j (hmoved.free j hj), fun h => hmoved.range (hrange h)⟩
      obtain ⟨j', hj', heq⟩ := hkept j hj
      rw [← heq]
      exact hmoved.rows j' hj'

/-! ## Inserting the rows -/

/-- The first `i` rows are assigned, and prices support their columns. -/
structure Assigned (A : ℕ → ℕ → K) (m i : ℕ) (assigned : Matching (Extended K)) (U V : ℕ → K) :
    Prop where
  u_eq : assigned.u = fun r => fin (U r)
  v_eq : assigned.v = fun j => fin (V j)
  prices : Prices A m (fun r => 1 ≤ r ∧ r ≤ i) assigned.p U V
  holds : HoldsRows i 0 assigned.p
  /-- Every row has a column. -/
  rows : ∀ r, 1 ≤ r → r ≤ i → ∃ j, 1 ≤ j ∧ assigned.p j = r
  range : ∀ j, assigned.p j ≠ 0 → j ≤ m

variable {assigned : Matching (Extended K)}

omit [RootOps K] in
/-- An assignment of the first rows is where the search for the next one starts. The new row is
put into column 0, which belongs to no row otherwise. -/
theorem Assigned.inserting (h : Assigned A m i assigned U V) (hle : i < m) :
    Inserting (i + 1) m (Function.update assigned.p 0 (i + 1)) := by
  have hnew : ∀ j, j ≠ 0 → assigned.p j ≠ i + 1 := by
    intro j _ heq
    have := h.holds.le j
    omega
  refine ⟨Function.update_self .., fun j => ?_, fun j j' heq hrow => ?_, fun j hj => ?_,
    Nat.succ_pos i, hle⟩
  · by_cases hj : j = 0
    · rw [hj, Function.update_self]
    · rw [Function.update_of_ne hj]
      exact (h.holds.le j).trans (Nat.le_succ i)
  · by_contra hne
    by_cases hj : j = 0
    · rw [hj, Function.update_self, Function.update_of_ne fun h => hne (hj.trans h.symm)] at heq
      exact hnew j' (fun h => hne (hj.trans h.symm)) heq.symm
    · by_cases hj' : j' = 0
      · rw [hj', Function.update_self, Function.update_of_ne hj] at heq
        exact hnew j hj heq
      · rw [Function.update_of_ne hj] at heq hrow
        rw [Function.update_of_ne hj'] at heq
        exact (h.holds.inj j j' hne heq hrow).elim hj hj'
  · by_cases hj0 : j = 0
    · omega
    · rw [Function.update_of_ne hj0] at hj
      exact h.range j hj

/-- One more row is assigned. The search finds a free column, and the rows move along the way back
to it. -/
theorem Assigned.insertRow [IsStrictOrderedRing K] {fuel : ℕ}
    (h : Assigned A m i assigned U V) (hle : i < m) (hfuel : i + 1 ≤ fuel) :
    ∃ assigned' U' V', insertRow (exactCost A) m fuel assigned (i + 1) = .ok assigned' ∧
      Assigned A m (i + 1) assigned' U' V' := by
  obtain ⟨p, hp⟩ : ∃ p, p = Function.update assigned.p 0 (i + 1) := ⟨_, rfl⟩
  have hinserting : Inserting (i + 1) m p := hp ▸ h.inserting hle
  have hother : ∀ j, j ≠ 0 → p j = assigned.p j := fun j hj => by
    rw [hp, Function.update_of_ne hj]
  have hstart : Searching A m (i + 1) p
      ⟨assigned.u, assigned.v, fun _ => infinity, assigned.way, fun _ => false, 0⟩ [] U V := by
    refine ⟨h.u_eq, h.v_eq, by simp, nofun, Nat.zero_le m, .nil, nofun, ⟨?_, ?_, ?_, ?_⟩,
      ⟨Or.inl ⟨rfl, rfl⟩, trivial⟩, fun _ _ _ _ => Or.inl ⟨rfl, rfl⟩⟩
    · rintro r ⟨h1, hlt | ⟨-, hnone⟩⟩
      · exact h.prices.feasible r ⟨h1, by omega⟩
      · exact absurd rfl hnone
    · intro j h1 hm hj
      have hold := hother j (by omega)
      rw [hold] at hj
      have hslack := h.prices.tight j h1 hm hj
      unfold slack at hslack ⊢
      rw [hold]
      exact hslack
    · exact h.prices.nonpos
    · intro j h1 hm hj
      exact h.prices.free j h1 hm (hother j (by omega) ▸ hj)
  have hsteps : i + 1 ≤ fuel + ([] : List ℕ).length := hfuel
  obtain ⟨s, seen, U', V', hrun, hs, hseen, hlast⟩ :=
    hstart.run hinserting (by rw [hinserting.zero]; omega) hsteps
  have hne : s.j0 ≠ 0 := by
    intro h0
    rw [h0, hinserting.zero] at hlast
    omega
  have hlength := (hinserting.exists_free hs.nodup hs.rows).1
  have hcolumns : ∀ j ∈ s.j0 :: seen, j ≤ m :=
    List.forall_mem_cons.mpr ⟨hs.range, fun j hj => (hs.rows j hj).1⟩
  obtain ⟨p', haugment, hmoved⟩ := moved_augment hs.back hne
    (List.nodup_cons.mpr ⟨hs.fresh, hs.nodup⟩) hcolumns (fun j hj => (hs.rows j hj).2)
    (hlength.trans hfuel)
  have hok : Tracking.insertRow (exactCost A) m fuel assigned (i + 1) =
      .ok { u := s.u, v := s.v, p := p', way := s.way } := by
    unfold Tracking.insertRow
    dsimp only
    rw [← hp, hrun]
    change (augment s.way fuel p s.j0 >>= fun p => _) = _
    rw [haugment]
    rfl
  refine ⟨_, U', V', hok, hs.u_eq, hs.v_eq, ⟨?_, hmoved.tight hs.prices.tight, hs.prices.nonpos,
    fun j h1 hm hj => hs.prices.free j h1 hm (hmoved.free j hj)⟩, h.holds.insertRow hok, ?_,
    hmoved.range hinserting.range⟩
  · rintro r ⟨h1, hr⟩
    refine hs.prices.feasible r ⟨h1, ?_⟩
    rcases Nat.lt_or_ge r (i + 1) with hlt | hge
    · exact Or.inl hlt
    · exact Or.inr ⟨by omega, hseen⟩
  · intro r h1 hr
    -- The row was in some column before the rows moved.
    have hold : ∃ j, j ≠ s.j0 ∧ p j = r := by
      rcases Nat.lt_or_ge i r with hnew | hr
      · exact ⟨0, hne.symm, by rw [hinserting.zero]; omega⟩
      · obtain ⟨j, hj, hpj⟩ := h.rows r h1 hr
        have hpj : p j = r := (hother j (by omega)).trans hpj
        refine ⟨j, ?_, hpj⟩
        rintro rfl
        omega
    obtain ⟨j, hj, rfl⟩ := hold
    obtain ⟨j', hj', heq⟩ := hmoved.rows j hj
    exact ⟨j', Nat.pos_of_ne_zero hj', heq⟩

/-- All rows are assigned. The induction is on the rows, from the empty assignment with prices of
zero. -/
theorem assigned_all [IsStrictOrderedRing K] {fuel : ℕ} (A : ℕ → ℕ → K) (n : ℕ) (hle : n ≤ m)
    (hfuel : n ≤ fuel) : ∃ assigned U V,
      (List.range' 1 n).foldlM (Tracking.insertRow (exactCost A) m fuel)
        (⟨fun _ => lit 0, fun _ => lit 0, fun _ => 0, fun _ => 0⟩ : Matching (Extended K)) =
          .ok assigned ∧ Assigned A m n assigned U V := by
  induction n with
  | zero =>
    have hzero : (lit 0 : Extended K) = fin 0 := by rw [lit_def, Rat.cast_zero]
    refine ⟨_, fun _ => 0, fun _ => 0, rfl, funext fun _ => hzero, funext fun _ => hzero,
      ⟨fun r hr => by omega, fun j _ _ hj => absurd rfl hj, fun _ _ _ => le_rfl,
        fun _ _ _ _ => rfl⟩,
      ⟨fun _ => le_rfl, fun _ _ _ _ hj => absurd rfl hj⟩, fun r hr hr' => by omega,
      fun _ hj => absurd rfl hj⟩
  | succ n ih =>
    obtain ⟨assigned, U, V, hfold, hassigned⟩ := ih (by omega) (by omega)
    obtain ⟨assigned', U', V', hinsert, hassigned'⟩ :=
      hassigned.insertRow (by omega) (by omega : n + 1 ≤ fuel)
    refine ⟨assigned', U', V', ?_, hassigned'⟩
    rw [List.range'_1_concat, List.foldlM_append, hfold, Nat.add_comm 1 n]
    change (Tracking.insertRow (exactCost A) m fuel assigned (n + 1) >>= fun b => pure b) = _
    rw [hinsert]
    rfl

end Searching

end EdgeClient.Tracking
