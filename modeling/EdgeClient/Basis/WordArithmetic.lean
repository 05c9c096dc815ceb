import EdgeClient.Basis.Literals

/-!
# Sums and fixed-point numbers in machine words

Machine words wrap around, and their operations agree with those on integers as long as
the results fit. A signed word splits into a quotient and a remainder by an arithmetic
shift and a mask, below zero as well. A pairwise reduction in place adds every entry of an
array once. Rounding to the nearest integer moves a number by at most one half.
-/

namespace Basis

/-! ## Rounding -/

section Rounding

variable {K : Type} [Field K] [LinearOrder K] [FloorRing K]

/-- The nearest integer, and the even one in the middle between two. -/
def roundEven (x : K) : ℤ :=
  if x - ⌊x⌋ < 1 / 2 then ⌊x⌋
  else if 1 / 2 < x - ⌊x⌋ then ⌊x⌋ + 1
  else if ⌊x⌋ % 2 = 0 then ⌊x⌋ else ⌊x⌋ + 1

variable [IsStrictOrderedRing K]

/-- Rounding moves a number by at most one half. In each case the result is a neighbour of the
number that is close enough. -/
theorem abs_roundEven_sub_le (x : K) : |(roundEven x : K) - x| ≤ 1 / 2 := by
  have hlow := Int.floor_le x
  have hhigh := Int.lt_floor_add_one x
  unfold roundEven
  rw [abs_le]
  split_ifs with h₁ h₂ h₃
  · constructor <;> linarith
  · push_cast
    constructor <;> linarith
  · constructor <;> linarith
  · push_cast
    constructor <;> linarith

/-- A bound of a number is one of the rounded number, up to one half. -/
theorem abs_roundEven_le {x : K} {c : K} (hx : |x| ≤ c) : |(roundEven x : K)| ≤ c + 1 / 2 := by
  calc |(roundEven x : K)| = |(roundEven x - x) + x| := by ring_nf
    _ ≤ |(roundEven x : K) - x| + |x| := abs_add_le _ _
    _ ≤ 1 / 2 + c := add_le_add (abs_roundEven_sub_le x) hx
    _ = c + 1 / 2 := add_comm _ _

end Rounding

/-! ## Words -/

/-- A sum of integers that fits is computed in words without wrapping. -/
theorem toInt_ofInt_add {w : ℕ} (hw : 0 < w) {a b c : ℤ} (hlow : -2 ^ (w - 1) ≤ a + b + c)
    (hhigh : a + b + c < 2 ^ (w - 1)) :
    (BitVec.ofInt w a + BitVec.ofInt w b + BitVec.ofInt w c).toInt = a + b + c := by
  rw [← BitVec.ofInt_add, ← BitVec.ofInt_add]
  exact BitVec.toInt_ofInt_eq_self hw hlow hhigh

/-- A signed word is its shifted part and its masked part. The arithmetic shift rounds towards
minus infinity, so that the masked part is never negative. -/
theorem toInt_split {w : ℕ} (x : BitVec w) {k : ℕ} (hk : k < w) :
    x.toInt = 2 ^ k * (x.sshiftRight k).toInt + ((x &&& BitVec.ofNat w (2 ^ k - 1)).toNat : ℤ) ∧
      (x &&& BitVec.ofNat w (2 ^ k - 1)).toNat < 2 ^ k := by
  have hpow : 2 ^ k * 2 ^ (w - k) = 2 ^ w := by rw [← pow_add, Nat.add_sub_cancel' hk.le]
  have hmask : (x &&& BitVec.ofNat w (2 ^ k - 1)).toNat = x.toNat % 2 ^ k := by
    have hsmall : 2 ^ k - 1 < 2 ^ w :=
      lt_of_le_of_lt (Nat.sub_le _ _) (Nat.pow_lt_pow_right (by decide) hk)
    rw [BitVec.toNat_and, BitVec.toNat_ofNat, Nat.mod_eq_of_lt hsmall,
      Nat.and_two_pow_sub_one_eq_mod]
  have hrest : (x.toInt : ℤ) % 2 ^ k = ((x.toNat % 2 ^ k : ℕ) : ℤ) := by
    rw [BitVec.toInt_eq_toNat_cond]
    push_cast
    split
    · rfl
    · have hwrap : (2 : ℤ) ^ w = 2 ^ k * 2 ^ (w - k) := by exact_mod_cast hpow.symm
      rw [hwrap, Int.sub_mul_emod_self_left]
  refine ⟨?_, hmask ▸ Nat.mod_lt _ (by positivity)⟩
  rw [BitVec.toInt_sshiftRight, Int.shiftRight_eq_div_pow, hmask, ← hrest]
  push_cast
  exact (Int.mul_ediv_add_emod _ _).symm

/-- Sums of words whose total fits do not wrap. -/
theorem toNat_sum {ι : Type*} {w : ℕ} (s : Finset ι) (f : ι → BitVec w)
    (hsum : ∑ i ∈ s, (f i).toNat < 2 ^ w) : (∑ i ∈ s, f i).toNat = ∑ i ∈ s, (f i).toNat := by
  classical
  induction s using Finset.induction_on with
  | empty => simp
  | insert i s hi ih =>
    rw [Finset.sum_insert hi] at hsum ⊢
    rw [Finset.sum_insert hi, BitVec.toNat_add, ih (by omega), Nat.mod_eq_of_lt hsum]

/-! ## Pairwise reduction -/

section Reduction

variable {M : Type*} [AddCommMonoid M]

/-- One pass: the entries below the stride take in those one stride above. -/
def reducePass (stride : ℕ) (entries : ℕ → M) : ℕ → M := fun i =>
  if i < stride then entries i + entries (i + stride) else entries i

/-- Passes with the strides `2 ^ (k - 1)`, …, 2, 1. -/
def treeReduce : ℕ → (ℕ → M) → ℕ → M
  | 0, entries => entries
  | k + 1, entries => treeReduce k (reducePass (2 ^ k) entries)

/-- The first entry ends up with the sum of all entries. By induction on the number of passes: one
pass adds the upper half to the lower one. -/
theorem treeReduce_zero (k : ℕ) (entries : ℕ → M) :
    treeReduce k entries 0 = ∑ i ∈ Finset.range (2 ^ k), entries i := by
  induction k generalizing entries with
  | zero => simp [treeReduce]
  | succ k ih =>
    rw [treeReduce, ih]
    have hpass : ∀ i ∈ Finset.range (2 ^ k),
        reducePass (2 ^ k) entries i = entries i + entries (2 ^ k + i) := by
      intro i hi
      rw [reducePass, if_pos (Finset.mem_range.mp hi), Nat.add_comm]
    rw [Finset.sum_congr rfl hpass, Finset.sum_add_distrib, pow_succ, Nat.mul_two,
      Finset.sum_range_add]

/-- A sum in blocks. -/
theorem sum_range_blocks (m n : ℕ) (f : ℕ → M) :
    ∑ i ∈ Finset.range (m * n), f i =
      ∑ j ∈ Finset.range m, ∑ k ∈ Finset.range n, f (j * n + k) := by
  induction m with
  | zero => simp
  | succ m ih => rw [Nat.succ_mul, Finset.sum_range_add, ih, Finset.sum_range_succ]

/-- A sum over the squares of a board, square by square or row by row of its blocks. -/
theorem sum_range_tiles (m n : ℕ) (f : ℕ → ℕ → M) :
    ∑ i ∈ Finset.range (m * n), f (i % n) (i / n) =
      ∑ j ∈ Finset.range m, ∑ k ∈ Finset.range n, f k j := by
  rw [sum_range_blocks]
  refine Finset.sum_congr rfl fun j _ => Finset.sum_congr rfl fun k hk => ?_
  have hk := Finset.mem_range.mp hk
  rw [Nat.mul_comm j n, Nat.mul_add_mod, Nat.mod_eq_of_lt hk, Nat.mul_add_div (by omega),
    Nat.div_eq_of_lt hk, Nat.add_zero]

end Reduction

end Basis
