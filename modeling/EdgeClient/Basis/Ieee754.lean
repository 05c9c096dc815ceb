import EdgeClient.Basis.FloatArithmetic

/-!
# The IEEE 754 reading

Lean's `Float32` and `Float` carry a logical model of binary32 and binary64.
This file adds the conversions between the two formats, which have no model of
their own, and proves the laws of `LawfulFloat` for both. The arguments only
need to know which operations can produce a NaN.
-/

namespace Basis

open Float.Model (Format UnpackedFloat)
open Float.Model.UnpackedFloat

/-- Round an unpacked datum to another format. -/
def reformat (spec : Format) : UnpackedFloat → UnpackedFloat
  | .finite s m e _ => UnpackedFloat.round spec s m e
  | x => x

/-- Conversion from binary32 to binary64, which is exact. -/
def float32ToFloat (x : Float32) : Float :=
  .ofModel (.pack (reformat Format.binary64 x.toModel.unpack))

/-- Conversion from binary64 to binary32, rounding to nearest. -/
def floatToFloat32 (x : Float) : Float32 :=
  .ofModel (.pack (reformat Format.binary32 x.toModel.unpack))

/-- The two formats of the code, with the conversions between them. -/
instance : FloatPair Float32 Float where
  widen := float32ToFloat
  narrow := floatToFloat32

/-- Double precision, with the operations of the machine. -/
instance : FloatOps Float where
  ltb := Float.lt
  leb := Float.le
  lit q := Float.ofInt q.num / Float.ofNat q.den
  infinity := .ofModel (.pack (.infinity .positive))
  isFinite := Float.isFinite
  sqrt := Float.sqrt
  hypot x y := (x * x + y * y).sqrt
  truncate x := x.toModel.unpack.toInt 0 0

/-- The intermediate squares of `hypot` are formed in the wider format. -/
instance : FloatOps Float32 where
  ltb := Float32.lt
  leb := Float32.le
  lit q := Float32.ofInt q.num / Float32.ofNat q.den
  infinity := .ofModel (.pack (.infinity .positive))
  isFinite := Float32.isFinite
  sqrt := Float32.sqrt
  hypot x y := floatToFloat32 (FloatOps.hypot (float32ToFloat x) (float32ToFloat y))
  truncate x := x.toModel.unpack.toInt 0 0

/-! ## Data that are not NaN -/

/-- Rounding a number never produces a NaN. -/
theorem isNaN_roundWithAccuracy (spec : Format) (s : Sign) (m : ℕ) (e : ℤ) (a : Accuracy) :
    (roundWithAccuracy spec s m e a).isNaN = false := by
  unfold roundWithAccuracy
  dsimp only
  split <;> rfl

/-- Normalizing an integer mantissa never produces a NaN. -/
theorem isNaN_normalize (spec : Format) (m e : ℤ) (s : Sign) :
    (UnpackedFloat.normalize spec m e s).isNaN = false := by
  unfold UnpackedFloat.normalize
  split
  · exact isNaN_roundWithAccuracy _ _ _ _ _
  · rfl
  · exact isNaN_roundWithAccuracy _ _ _ _ _

/-- The sum of two finite data is not NaN. The only sums that are not numbers are those of
opposite infinities. -/
theorem isNaN_add {spec : Format} {a b : UnpackedFloat} (ha : a.isFinite = true)
    (hb : b.isFinite = true) : (UnpackedFloat.add spec a b).isNaN = false := by
  cases a with
  | notANumber | infinity => cases ha
  | zero s =>
    cases b with
    | notANumber | infinity => cases hb
    | zero t =>
      simp only [UnpackedFloat.add]
      split <;> rfl
    | finite => rfl
  | finite =>
    cases b with
    | notANumber | infinity => cases hb
    | zero => rfl
    | finite => exact isNaN_normalize _ _ _ _

/-- A nonzero finite datum divided by a datum other than NaN is not NaN. -/
theorem isNaN_div {spec : Format} {s : Sign} {m : ℕ} {e : ℤ} {hm : 0 < m} {b : UnpackedFloat}
    (hb : b.isNaN = false) : (UnpackedFloat.div spec (.finite s m e hm) b).isNaN = false := by
  cases b with
  | notANumber => cases hb
  | infinity | zero => rfl
  | finite => exact isNaN_roundWithAccuracy _ _ _ _ _

/-- A bit pattern whose exponent field is not all ones, or whose mantissa field
is zero, does not encode a NaN. -/
theorem isNaN_unpack {spec : Format} {b : BitVec spec.numBits}
    (h : unpackExponent b ≠ -1#_ ∨ unpackMantissa b = 0#_) :
    (UnpackedFloat.unpack spec b).isNaN = false := by
  unfold UnpackedFloat.unpack
  dsimp only
  split
  · rename_i hexp
    rw [if_pos (h.resolve_left (not_not_intro hexp))]
    rfl
  · split
    · split <;> rfl
    · rfl

/-- The exponent field of zero is not that of the special values. -/
theorem zero_ne_allOnes (spec : Format) : (0 : BitVec spec.exponentBits) ≠ -1#_ := by
  intro heq
  have hval := congrArg BitVec.toNat heq
  have hpow : 2 ^ 1 ≤ 2 ^ spec.exponentBits := Nat.pow_le_pow_right (by decide) spec.he
  rw [BitVec.neg_one_eq_allOnes, BitVec.toNat_allOnes] at hval
  simp only [BitVec.ofNat_eq_ofNat, BitVec.toNat_zero] at hval
  omega

/-- Packing a datum other than NaN does not encode a NaN. The exponent of all ones with a mantissa
other than zero is not among the encodings of a number. -/
theorem isNaN_unpack_pack {spec : Format} {a : UnpackedFloat} (ha : a.isNaN = false) :
    (UnpackedFloat.unpack spec (UnpackedFloat.pack spec a)).isNaN = false := by
  apply isNaN_unpack
  cases a with
  | notANumber => cases ha
  | infinity s => exact Or.inr (by simp [UnpackedFloat.pack, packedInfinity])
  | zero s => exact Or.inr (by simp [UnpackedFloat.pack, packedZero])
  | finite s m e hm =>
    unfold UnpackedFloat.pack
    dsimp only
    split
    · exact Or.inr (by simp [packedInfinity])
    · rename_i hsmall
      left
      split
      · rw [unpackExponent_packComponents]
        intro heq
        have := congrArg BitVec.toNat heq
        rw [BitVec.neg_one_eq_allOnes, BitVec.toNat_allOnes, BitVec.toNat_ofNat,
          Nat.mod_eq_of_lt (by omega)] at this
        omega
      · rw [unpackExponent_packComponents]
        exact zero_ne_allOnes spec

/-! ## Comparisons -/

/-- Position among negative infinity, negative numbers, zero, positive numbers
and positive infinity. -/
def rank : UnpackedFloat → ℤ
  | .infinity .negative => -2
  | .finite .negative .. => -1
  | .zero _ | .notANumber => 0
  | .finite .positive .. => 1
  | .infinity .positive => 2

/-- Signed exponent. -/
def signedExponent : UnpackedFloat → ℤ
  | .finite s _ e _ => s.apply e
  | _ => 0

/-- Signed mantissa. -/
def signedMantissa : UnpackedFloat → ℤ
  | .finite s m _ _ => s.apply m
  | _ => 0

/-- Strict comparison is lexicographic in rank, signed exponent and signed
mantissa. -/
theorem lt_iff {a b : UnpackedFloat} : a.lt b = true ↔ a.isNaN = false ∧ b.isNaN = false ∧
    (rank a < rank b ∨ rank a = rank b ∧ (signedExponent a < signedExponent b ∨
      signedExponent a = signedExponent b ∧ signedMantissa a < signedMantissa b)) := by
  cases a with
  | notANumber => cases b <;> simp [UnpackedFloat.lt, UnpackedFloat.compare, isNaN]
  | infinity s | zero s =>
    cases b with
    | infinity t | zero t | finite t =>
      cases s <;> cases t <;>
        simp [UnpackedFloat.lt, UnpackedFloat.compare, isNaN, rank, signedExponent,
          signedMantissa, compare]
    | notANumber => cases s <;> simp [UnpackedFloat.lt, UnpackedFloat.compare, isNaN]
  | finite s m e =>
    cases b with
    | infinity t | zero t =>
      cases s <;> cases t <;>
        simp [UnpackedFloat.lt, UnpackedFloat.compare, isNaN, rank]
    | notANumber => cases s <;> simp [UnpackedFloat.lt, UnpackedFloat.compare, isNaN]
    | finite t m' e' =>
      cases s <;> cases t <;>
        simp [UnpackedFloat.lt, UnpackedFloat.compare, isNaN, rank, signedExponent,
          signedMantissa, Sign.apply, Ordering.then_eq_lt, Ordering.then_eq_gt,
          Int.compare_eq_lt, Int.compare_eq_gt, Nat.compare_eq_lt, Nat.compare_eq_gt]

/-- Weak comparison is lexicographic in rank, signed exponent and signed
mantissa. -/
theorem le_iff {a b : UnpackedFloat} : a.le b = true ↔ a.isNaN = false ∧ b.isNaN = false ∧
    (rank a < rank b ∨ rank a = rank b ∧ (signedExponent a < signedExponent b ∨
      signedExponent a = signedExponent b ∧ signedMantissa a ≤ signedMantissa b)) := by
  cases a with
  | notANumber => cases b <;> simp [UnpackedFloat.le, UnpackedFloat.compare, isNaN]
  | infinity s | zero s =>
    cases b with
    | infinity t | zero t | finite t =>
      cases s <;> cases t <;>
        simp [UnpackedFloat.le, UnpackedFloat.compare, isNaN, rank, signedExponent,
          signedMantissa, compare, Ordering.isLE]
    | notANumber => cases s <;> simp [UnpackedFloat.le, UnpackedFloat.compare, isNaN]
  | finite s m e =>
    cases b with
    | infinity t | zero t =>
      cases s <;> cases t <;>
        simp [UnpackedFloat.le, UnpackedFloat.compare, isNaN, rank, Ordering.isLE]
    | notANumber => cases s <;> simp [UnpackedFloat.le, UnpackedFloat.compare, isNaN]
    | finite t m' e' =>
      cases s <;> cases t <;>
        simp [UnpackedFloat.le, UnpackedFloat.compare, isNaN, rank, signedExponent,
          signedMantissa, Sign.apply, Ordering.isLE_iff_eq_lt_or_eq_eq,
          Ordering.isGE_iff_eq_gt_or_eq_eq, Ordering.then_eq_lt, Ordering.then_eq_gt,
          Int.compare_eq_lt, Int.compare_eq_gt, Nat.compare_eq_lt, Nat.compare_eq_gt] <;> omega

/-- A datum is at most itself exactly when it is not NaN. -/
theorem le_self_iff {a : UnpackedFloat} : a.le a = true ↔ a.isNaN = false := by
  rw [le_iff]
  simp

/-- Of two data other than NaN, one is at most the other or above it. -/
theorem lt_of_not_le {a b : UnpackedFloat} (ha : a.le a = true) (hb : b.le b = true)
    (h : ¬ a.le b = true) : b.lt a = true := by
  rw [le_self_iff] at ha hb
  rw [le_iff] at h
  rw [lt_iff]
  refine ⟨hb, ha, ?_⟩
  simp only [ha, hb, true_and] at h
  omega

/-- The two comparisons exclude each other. -/
theorem not_le_of_lt {a b : UnpackedFloat} (h : a.lt b = true) : ¬ b.le a = true := by
  rw [lt_iff] at h
  rw [le_iff]
  omega

/-- A datum not below one of two ordered data is above the other. -/
theorem lt_of_lt_of_not_lt {a b c : UnpackedFloat} (h : a.lt b = true) (hc : c.le c = true)
    (hcb : ¬ c.lt b = true) : a.lt c = true := by
  rw [lt_iff] at h hcb ⊢
  rw [le_self_iff] at hc
  refine ⟨h.1, hc, ?_⟩
  simp only [hc, h.2.1, true_and] at hcb
  omega

/-- A positive finite datum has a nonzero mantissa. -/
theorem exists_finite_of_pos {z a : UnpackedFloat} (hz : ∃ s, z = .zero s)
    (ha : a.isFinite = true) (h : z.lt a = true) : ∃ s m e hm, a = .finite s m e hm := by
  obtain ⟨s, rfl⟩ := hz
  cases a with
  | notANumber | infinity => cases ha
  | zero => cases h
  | finite s m e hm => exact ⟨s, m, e, hm, rfl⟩

/-- Every finite datum is not NaN. -/
theorem isNaN_of_isFinite {a : UnpackedFloat} (h : a.isFinite = true) : a.isNaN = false := by
  cases a with
  | notANumber => cases h
  | _ => rfl

/-- The comparison `<=` in single precision is that of the unpacked numbers. -/
theorem float32_le_iff {a b : Float32} :
    a ≤ b ↔ a.toModel.unpack.le b.toModel.unpack = true := decide_eq_true_iff

/-- The comparison `<` in single precision is that of the unpacked numbers. -/
theorem float32_lt_iff {a b : Float32} :
    FloatOps.ltb a b = true ↔ a.toModel.unpack.lt b.toModel.unpack = true := decide_eq_true_iff

/-- The comparison `<=` in double precision is that of the unpacked numbers. -/
theorem float_le_iff {a b : Float} :
    FloatOps.leb a b = true ↔ a.toModel.unpack.le b.toModel.unpack = true := decide_eq_true_iff

/-- The comparison `<` in double precision is that of the unpacked numbers. -/
theorem float_lt_iff {a b : Float} :
    FloatOps.ltb a b = true ↔ a.toModel.unpack.lt b.toModel.unpack = true := decide_eq_true_iff

/-- Single precision obeys the laws of comparison. Each law is one of the unpacked numbers,
carried through packing. -/
instance : LawfulFloat Float32 where
  le_refl_of_isFinite h := float32_le_iff.mpr (le_self_iff.mpr (isNaN_of_isFinite h))
  lt_of_not_le ha hb h := by
    apply float32_lt_iff.mpr
    exact lt_of_not_le (float32_le_iff.mp ha) (float32_le_iff.mp hb) (mt float32_le_iff.mpr h)
  not_le_of_lt h := mt float32_le_iff.mp (not_le_of_lt (float32_lt_iff.mp h))
  lt_of_lt_of_not_lt h hc hcb := by
    apply float32_lt_iff.mpr
    exact lt_of_lt_of_not_lt (float32_lt_iff.mp h) (float32_le_iff.mp hc)
      (mt float32_lt_iff.mpr hcb)
  isFinite_zero := by decide +kernel
  isFinite_one := by decide +kernel
  add_not_nan ha hb :=
    float32_le_iff.mpr (le_self_iff.mpr (isNaN_unpack_pack (isNaN_add ha hb)))
  div_not_nan ha hpos hb := by
    obtain ⟨s, m, e, hm, heq⟩ :=
      exists_finite_of_pos (z := (lit 0 : Float32).toModel.unpack) ⟨.positive, by rfl⟩ ha
        (float32_lt_iff.mp hpos)
    apply float32_le_iff.mpr
    apply le_self_iff.mpr
    apply isNaN_unpack_pack
    rw [heq]
    exact isNaN_div (le_self_iff.mp (float32_le_iff.mp hb))

/-- Double precision obeys the laws of comparison. Each law is one of the unpacked numbers,
carried through packing. -/
instance : LawfulFloat Float where
  le_refl_of_isFinite h := float_le_iff.mpr (le_self_iff.mpr (isNaN_of_isFinite h))
  lt_of_not_le ha hb h := by
    apply float_lt_iff.mpr
    exact lt_of_not_le (float_le_iff.mp ha) (float_le_iff.mp hb) (mt float_le_iff.mpr h)
  not_le_of_lt h := mt float_le_iff.mp (not_le_of_lt (float_lt_iff.mp h))
  lt_of_lt_of_not_lt h hc hcb := by
    apply float_lt_iff.mpr
    exact lt_of_lt_of_not_lt (float_lt_iff.mp h) (float_le_iff.mp hc) (mt float_lt_iff.mpr hcb)
  isFinite_zero := by decide +kernel
  isFinite_one := by decide +kernel
  add_not_nan ha hb :=
    float_le_iff.mpr (le_self_iff.mpr (isNaN_unpack_pack (isNaN_add ha hb)))
  div_not_nan ha hpos hb := by
    obtain ⟨s, m, e, hm, heq⟩ :=
      exists_finite_of_pos (z := (lit 0 : Float).toModel.unpack) ⟨.positive, by rfl⟩ ha
        (float_lt_iff.mp hpos)
    apply float_le_iff.mpr
    apply le_self_iff.mpr
    apply isNaN_unpack_pack
    rw [heq]
    exact isNaN_div (le_self_iff.mp (float_le_iff.mp hb))

end Basis
