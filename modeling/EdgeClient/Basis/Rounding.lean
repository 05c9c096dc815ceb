import EdgeClient.Basis.Ieee754

/-!
# Signs and exact results

Rounding, packing and the operations respect signs: results of data that are not
negative are not negative, without any bound on the error. Where a result has few
enough bits, it is exact, and it survives the way into and out of the encoding.
-/

namespace Basis

open Float.Model (Format UnpackedFloat)
open Float.Model.UnpackedFloat

/-! ## Signs -/

/-- The datum has the given sign; a zero and NaN have both. -/
def HasSign (s : Sign) : UnpackedFloat → Prop
  | .finite t _ _ _ | .infinity t => t = s
  | _ => True

/-- Rounding keeps the sign, also where the result is zero or infinite. -/
theorem hasSign_roundWithAccuracy (spec : Format) (s : Sign) (m : ℕ) (e : ℤ) (a : Accuracy) :
    HasSign s (roundWithAccuracy spec s m e a) := by
  unfold roundWithAccuracy
  dsimp only
  split
  · trivial
  · rfl

/-- Rounding a number that is not negative. -/
theorem hasSign_normalize_positive (spec : Format) {m : ℤ} (hm : 0 ≤ m) (e : ℤ) (z : Sign) :
    HasSign .positive (UnpackedFloat.normalize spec m e z) := by
  unfold UnpackedFloat.normalize
  split
  · rename_i hlt
    exact absurd (Int.compare_eq_lt.mp hlt) (not_lt.mpr hm)
  · trivial
  · exact hasSign_roundWithAccuracy ..

/-- Rounding a number that is not positive. -/
theorem hasSign_normalize_negative (spec : Format) {m : ℤ} (hm : m ≤ 0) (e : ℤ) (z : Sign) :
    HasSign .negative (UnpackedFloat.normalize spec m e z) := by
  unfold UnpackedFloat.normalize
  split
  · exact hasSign_roundWithAccuracy ..
  · trivial
  · rename_i hgt
    exact absurd (Int.compare_eq_gt.mp hgt) (not_lt.mpr hm)

/-- The sign bit of a packed datum. -/
theorem unpackSign_packComponents {spec : Format} {sign : Sign} {exponent mantissa} :
    unpackSign (packComponents spec sign exponent mantissa) = sign.toBitVec := by
  ext i hi
  obtain rfl : i = 0 := by omega
  simp only [unpackSign, packComponents, BitVec.getElem_cast, BitVec.getElem_extract,
    BitVec.getLsbD_append, Nat.add_zero]
  rw [if_neg (by omega), if_neg (by omega), Nat.add_sub_cancel_left, Nat.sub_self,
    BitVec.getLsbD_eq_getElem]

/-- A datum has the sign of its bit pattern. The class of the datum is found in the other bits. -/
theorem hasSign_unpack {spec : Format} {b : BitVec spec.numBits} {s : Sign}
    (hsign : unpackSign b = s.toBitVec) : HasSign s (UnpackedFloat.unpack spec b) := by
  have hbit : Sign.ofBitVec (unpackSign b) = s := by
    rw [hsign]
    cases s <;> rfl
  unfold UnpackedFloat.unpack
  dsimp only
  rw [hbit]
  split
  · split <;> trivial
  · split
    · split <;> trivial
    · rfl

/-- Packing keeps the sign. Packing may round to zero or to an infinity, and both of them carry
the sign as well. -/
theorem hasSign_unpack_pack {spec : Format} {s : Sign} {a : UnpackedFloat} (ha : HasSign s a) :
    HasSign s (UnpackedFloat.unpack spec (UnpackedFloat.pack spec a)) := by
  cases a with
  | notANumber =>
    have hmantissa : unpackMantissa (UnpackedFloat.pack spec .notANumber) ≠ 0#_ := by
      have hm := spec.hm
      change unpackMantissa (packedNaN spec) ≠ _
      unfold packedNaN
      rw [unpackMantissa_packComponents]
      intro hzero
      have hval := congrArg BitVec.toNat hzero
      rw [BitVec.toNat_shiftLeft, BitVec.toNat_ofNat, Nat.mod_eq_of_lt (Nat.one_lt_two_pow hm.ne'),
        Nat.one_shiftLeft, Nat.mod_eq_of_lt (Nat.pow_lt_pow_right (by decide) (by omega))] at hval
      exact absurd hval (by positivity)
    unfold UnpackedFloat.unpack
    dsimp only
    have hexponent : unpackExponent (UnpackedFloat.pack spec .notANumber) = -1#_ :=
      unpackExponent_packComponents
    rw [if_pos hexponent, if_neg hmantissa]
    trivial
  | infinity t =>
    cases ha
    exact hasSign_unpack unpackSign_packComponents
  | zero t =>
    have hexponent : unpackExponent (UnpackedFloat.pack spec (.zero t)) = 0#_ :=
      unpackExponent_packComponents
    have hmantissa : unpackMantissa (UnpackedFloat.pack spec (.zero t)) = 0#_ :=
      unpackMantissa_packComponents
    unfold UnpackedFloat.unpack
    dsimp only
    rw [if_neg (by rw [hexponent]; exact zero_ne_allOnes spec), if_pos hexponent,
      dif_pos hmantissa]
    trivial
  | finite t m e hm =>
    cases ha
    apply hasSign_unpack
    unfold UnpackedFloat.pack
    dsimp only
    split
    · exact unpackSign_packComponents
    · split <;> exact unpackSign_packComponents

/-! ### Operations on data that are not negative -/

/-- The product of positive numbers is positive, or rounds to a positive zero. The proof goes by
the kinds of the factors. -/
theorem hasSign_mul {spec : Format} {a b : UnpackedFloat} (ha : HasSign .positive a)
    (hb : HasSign .positive b) : HasSign .positive (UnpackedFloat.mul spec a b) := by
  cases a with
  | notANumber => trivial
  | zero => cases b <;> trivial
  | infinity s =>
    cases ha
    cases b with
    | notANumber | zero => trivial
    | infinity | finite =>
      cases hb
      rfl
  | finite s m e hm =>
    cases ha
    cases b with
    | notANumber | zero => trivial
    | infinity =>
      cases hb
      rfl
    | finite =>
      cases hb
      exact hasSign_roundWithAccuracy ..

/-- Dividing by a positive number keeps the sign. A quotient is rounded with its sign, and the
special cases keep it too. -/
theorem hasSign_div {spec : Format} {a b : UnpackedFloat} (ha : HasSign .positive a)
    (hb : ∃ m e hm, b = .finite .positive m e hm) :
    HasSign .positive (UnpackedFloat.div spec a b) := by
  obtain ⟨m, e, hm, rfl⟩ := hb
  cases a with
  | notANumber | zero => trivial
  | infinity =>
    cases ha
    rfl
  | finite =>
    cases ha
    exact hasSign_roundWithAccuracy ..

/-- Data that are not negative are truncated to natural numbers. The special values are truncated
to zero, and the others by their mantissa. -/
theorem toInt_nonneg {a : UnpackedFloat} (ha : HasSign .positive a) : 0 ≤ a.toInt 0 0 := by
  cases a with
  | notANumber | zero => exact le_rfl
  | infinity =>
    cases ha
    exact le_rfl
  | finite =>
    cases ha
    exact Int.natCast_nonneg _

/-- A decimal literal without a sign is read as a positive number. Each branch multiplies or
divides positive numbers. -/
theorem hasSign_ofScientific (spec : Format) (m : ℕ) (e : ℤ) :
    HasSign .positive (UnpackedFloat.ofScientific spec m e) := by
  unfold UnpackedFloat.ofScientific
  split
  · trivial
  split
  · rfl
  split
  · trivial
  split
  · exact hasSign_mul rfl rfl
  · exact hasSign_div rfl ⟨_, _, _, rfl⟩

/-- Natural numbers are not negative as floating-point numbers. Large numbers are read in two
parts, both of which are positive. -/
theorem hasSign_ofNat (n : ℕ) : HasSign .positive (Float.ofNat n).toModel.unpack := by
  change HasSign .positive (Float.ofScientific n false 0).toModel.unpack
  unfold Float.ofScientific
  split
  · have hone : ∃ m e hm, (Float.ofBits 0x3FF0000000000000).toModel.unpack =
        .finite .positive m e hm := ⟨_, _, _, rfl⟩
    obtain ⟨m, e, hm, hone⟩ := hone
    refine hasSign_unpack_pack (hasSign_mul ?_ ?_)
    · exact hasSign_unpack_pack (hasSign_normalize_positive _ (Int.natCast_nonneg _) _ _)
    · change HasSign .positive (Float.ofBits 0x3FF0000000000000).toModel.unpack
      rw [hone]
      rfl
  · exact hasSign_unpack_pack (hasSign_ofScientific ..)

/-- Literals of natural numbers are not negative. -/
theorem hasSign_lit {n : ℤ} (hn : 0 ≤ n) : HasSign .positive (lit n : Float).toModel.unpack := by
  have hlit : (lit n : Float) = Float.ofInt n / Float.ofNat 1 := by
    change Float.ofInt (n : ℚ).num / Float.ofNat (n : ℚ).den = _
    rw [Rat.num_intCast, Rat.den_intCast]
  rw [hlit]
  obtain ⟨k, rfl⟩ := Int.eq_ofNat_of_zero_le hn
  refine hasSign_unpack_pack (hasSign_div (hasSign_ofNat k) ?_)
  exact ⟨_, _, _, rfl⟩

/-- A positive number is above every datum that is not. -/
theorem not_le_of_hasSign_negative {m : ℕ} {e : ℤ} {hm : 0 < m} {a : UnpackedFloat}
    (ha : HasSign .negative a) : ¬ (UnpackedFloat.finite .positive m e hm).le a = true := by
  cases a with
  | notANumber | zero => exact nofun
  | infinity | finite =>
    cases ha
    exact nofun

/-! ## Exact results -/

/-- A shifted mantissa is longer by as many bits. -/
theorem log2_shiftLeft {m : ℕ} (hm : 0 < m) (k : ℕ) : (m <<< k).log2 = m.log2 + k := by
  rw [Nat.shiftLeft_eq, Nat.log2_eq_iff (by positivity), pow_add, add_right_comm, pow_add]
  exact ⟨Nat.mul_le_mul_right _ (Nat.log2_self_le hm.ne'),
    (Nat.mul_lt_mul_right (by positivity)).mpr Nat.lt_log2_self⟩

/-- A mantissa with all its bits is not shifted. -/
theorem shiftToTargetExponent_eq {spec : Format} {m : ℕ} {e : ℤ}
    (htarget : spec.targetExponent (Float.Model.totalExponent m e) = e) :
    shiftToTargetExponent spec m e .exact = (⟨m, false, false⟩, e) := by
  unfold shiftToTargetExponent shiftToExponent
  dsimp only
  rw [htarget, sub_self, Int.toNat_zero, Nat.cast_zero, add_zero]
  rfl

/-- A number with a short mantissa is represented exactly. There is nothing to cut off, so that
rounding only shifts the mantissa to its place. -/
theorem round_eq {spec : Format} {s : Sign} {m : ℕ} {e : ℤ} (hm : 0 < m)
    (hbits : m.log2 + 1 ≤ spec.mantissaBits)
    (hmin : spec.minExponent ≤ m.log2 + 1 + e - spec.mantissaBits) :
    UnpackedFloat.round spec s m e = .finite s (m <<< (spec.mantissaBits - (m.log2 + 1)))
      (m.log2 + 1 + e - spec.mantissaBits) (by rw [Nat.shiftLeft_eq]; positivity) := by
  have htarget : spec.targetExponent (Float.Model.totalExponent m e) =
      m.log2 + 1 + e - spec.mantissaBits := max_eq_left hmin
  have hshift : (e - (m.log2 + 1 + e - spec.mantissaBits)).toNat =
      spec.mantissaBits - (m.log2 + 1) := by omega
  have hlog : (m <<< (spec.mantissaBits - (m.log2 + 1))).log2 + 1 = spec.mantissaBits := by
    rw [log2_shiftLeft hm]
    omega
  have hexponent : e - ((spec.mantissaBits - (m.log2 + 1) : ℕ) : ℤ) =
      m.log2 + 1 + e - spec.mantissaBits := by omega
  have hagain : spec.targetExponent (Float.Model.totalExponent
      (m <<< (spec.mantissaBits - (m.log2 + 1))) (m.log2 + 1 + e - spec.mantissaBits)) =
      m.log2 + 1 + e - spec.mantissaBits := by
    unfold Float.Model.Format.targetExponent Float.Model.totalExponent
    rw [max_eq_left (by omega)]
    omega
  unfold UnpackedFloat.round decreaseExponent
  dsimp only
  rw [htarget, hshift, hexponent]
  unfold roundWithAccuracy
  rw [shiftToTargetExponent_eq hagain]
  dsimp only [ExtendedMantissa.roundedMantissa, ExtendedMantissa.accuracy,
    Accuracy.roundToNearestEven]
  rw [shiftToTargetExponent_eq hagain]
  exact dif_neg (by rw [Nat.shiftLeft_eq]; positivity)

/-- The implicit bit in front of a mantissa. -/
theorem toNat_implicit {p : ℕ} (mantissa : BitVec p) :
    (1#1 ++ mantissa).toNat = 2 ^ p + mantissa.toNat := by
  have hor := Nat.two_pow_add_eq_or_of_lt mantissa.isLt 1
  rw [Nat.mul_one] at hor
  rw [BitVec.toNat_append, BitVec.toNat_ofNat, Nat.shiftLeft_eq, Nat.pow_one, Nat.one_mod,
    Nat.one_mul, hor]

/-- Encoded numbers have all bits of the mantissa or the smallest exponent. The first is the case
of a normal number, the second one that of a subnormal number. -/
theorem unpack_bounds {spec : Format} {b : BitVec spec.numBits} {s : Sign} {m : ℕ} {e : ℤ}
    {hm : 0 < m} (h : UnpackedFloat.unpack spec b = .finite s m e hm) :
    2 ^ spec.mantissaBitsWithoutImplicit ≤ m ∧ m < 2 ^ (spec.mantissaBitsWithoutImplicit + 1) ∨
      e = 1 - (spec.exponentBias + spec.mantissaBitsWithoutImplicit : ℤ) := by
  unfold UnpackedFloat.unpack at h
  dsimp only at h
  split at h
  · split at h <;> cases h
  · split at h
    · rename_i hexponent
      split at h
      · cases h
      · cases h
        right
        rw [hexponent]
        simp
        omega
    · cases h
      left
      rw [toNat_implicit]
      have hlt := (unpackMantissa b).isLt
      rw [pow_succ]
      omega

/-- A number with all bits of the mantissa and an exponent in range is encoded exactly. Both
fields of the encoding are in range, and the leading bit of the mantissa is restored. -/
theorem unpack_pack {spec : Format} {s : Sign} {m : ℕ} {e : ℤ} {hm : 0 < m}
    (hbits : m.log2 + 1 = spec.mantissaBits)
    (hlow : 0 < e + spec.exponentBias + spec.mantissaBitsWithoutImplicit)
    (hhigh : (e + spec.exponentBias + spec.mantissaBitsWithoutImplicit).toNat + 1 <
      2 ^ spec.exponentBits) :
    UnpackedFloat.unpack spec (UnpackedFloat.pack spec (.finite s m e hm)) = .finite s m e hm := by
  have hlog : m.log2 = spec.mantissaBitsWithoutImplicit := by
    unfold Format.mantissaBits at hbits
    omega
  obtain ⟨hle, hlt⟩ := (Nat.log2_eq_iff hm.ne').mp hlog
  have hpack : UnpackedFloat.pack spec (.finite s m e hm) = packComponents spec s
      (BitVec.ofNat _ (e + spec.exponentBias + spec.mantissaBitsWithoutImplicit).toNat)
      (BitVec.ofNat _ m) := by
    unfold UnpackedFloat.pack
    dsimp only
    rw [if_neg (by omega), if_pos hbits]
  have hexponent : ∀ c : BitVec spec.exponentBits,
      c.toNat ≠ (e + spec.exponentBias + spec.mantissaBitsWithoutImplicit).toNat →
      BitVec.ofNat spec.exponentBits
        (e + spec.exponentBias + spec.mantissaBitsWithoutImplicit).toNat ≠ c := by
    rintro c hc rfl
    rw [BitVec.toNat_ofNat, Nat.mod_eq_of_lt (by omega)] at hc
    exact hc rfl
  have hsign : Sign.ofBitVec s.toBitVec = s := by cases s <;> rfl
  have hmantissa : 2 ^ spec.mantissaBitsWithoutImplicit +
      m % 2 ^ spec.mantissaBitsWithoutImplicit = m := by
    rw [pow_succ] at hlt
    rw [Nat.mod_eq_sub_mod hle, Nat.mod_eq_of_lt (by omega)]
    omega
  rw [hpack]
  unfold UnpackedFloat.unpack
  simp only [unpackExponent_packComponents, unpackMantissa_packComponents,
    unpackSign_packComponents, hsign]
  rw [if_neg (hexponent _ ?_), if_neg (hexponent _ ?_)]
  · simp only [toNat_implicit, BitVec.toNat_ofNat, hmantissa]
    congr 1
    rw [Nat.mod_eq_of_lt (by omega)]
    omega
  · rw [BitVec.toNat_ofNat, Nat.zero_mod]
    omega
  · rw [BitVec.neg_one_eq_allOnes, BitVec.toNat_allOnes]
    omega

end Basis
