import EdgeClient.Basis.Rounding

/-!
# The arithmetic of the tracker

Two facts about rounding enter the properties of the tracker: the cost of a strong
overlap is below the limit for duplicates, and the buffer is not negative. They hold
in exact arithmetic and in the two formats of the program.
-/

namespace EdgeClient.Tracking

open Basis
open Float.Model (Format UnpackedFloat)
open Float.Model.UnpackedFloat

/-- The facts about the arithmetic that the tracker relies on. -/
class LawfulTracker (F D : Type) [FloatOps F] [FloatOps D] : Prop where
  /-- One minus an overlap above 0.85 is below 0.15. -/
  cost_of_overlap {a : F} : lit 0.85 < a → ¬ lit 0.15 ≤ lit 1 - a
  /-- The number of frames to keep a track is not negative. -/
  buffer_nonneg {rate buffer : ℤ} : 0 ≤ rate → 0 ≤ buffer →
    0 ≤ truncate (lit rate / lit 30 * lit buffer : D)

/-! ## Exact arithmetic -/

/-- On rational numbers, a detection that overlaps a track enough costs less than the threshold.
The cases are those of the special values. -/
instance : LawfulTracker (Extended ℚ) (Extended ℚ) where
  cost_of_overlap {a} h := by
    cases a with
    | nan | negInf => cases h
    | posInf => exact nofun
    | fin x =>
      have hx : (0.85 : ℚ) < x := of_decide_eq_true h
      change ¬ decide (((0.15 : ℚ) : ℚ) ≤ ((1 : ℚ) : ℚ) + -x) = true
      rw [decide_eq_true_iff]
      linarith
  buffer_nonneg {rate buffer} hrate hbuffer := by
    have hvalue : (lit rate / lit 30 * lit buffer : Extended ℚ) =
        .fin ((rate : ℚ) / 30 * buffer) := by
      rfl
    have hnonneg : (0 : ℚ) ≤ (rate : ℚ) / 30 * buffer := by positivity
    rw [hvalue]
    change 0 ≤ ((rate : ℚ) / 30 * buffer).num.tdiv ((rate : ℚ) / 30 * buffer).den
    exact Int.tdiv_nonneg (Rat.num_nonneg.mpr hnonneg) (Int.natCast_nonneg _)

/-! ## The formats of the program -/

/-- The number of frames to keep a track, in binary64. -/
theorem float_buffer_nonneg {rate buffer : ℤ} (hrate : 0 ≤ rate) (hbuffer : 0 ≤ buffer) :
    0 ≤ truncate (lit rate / lit 30 * lit buffer : Float) := by
  apply toInt_nonneg
  apply hasSign_unpack_pack
  apply hasSign_mul _ (hasSign_lit hbuffer)
  apply hasSign_unpack_pack
  exact hasSign_div (hasSign_lit hrate) ⟨_, _, _, rfl⟩

/-- The literal 0.85 in binary32. -/
theorem unpack_overlapLimit : ∃ hm, (lit 0.85 : Float32).toModel.unpack =
    .finite .positive 14260634 (-24) hm := by
  have hbits : (lit 0.85 : Float32).toModel = (Float32.ofBits 0x3F59999A).toModel := by
    decide +kernel
  rw [hbits]
  exact ⟨by decide, rfl⟩

/-- The literal 0.15 in binary32. -/
theorem unpack_costLimit : ∃ hm, (lit 0.15 : Float32).toModel.unpack =
    .finite .positive 10066330 (-26) hm := by
  have hbits : (lit 0.15 : Float32).toModel = (Float32.ofBits 0x3E19999A).toModel := by
    decide +kernel
  rw [hbits]
  exact ⟨by decide, rfl⟩

/-- The literal one in binary32. -/
theorem unpack_one : ∃ hm, (lit 1 : Float32).toModel.unpack =
    .finite .positive 8388608 (-23) hm := ⟨by decide, rfl⟩

/-- The largest cost of a strong overlap: below one, the difference from one is exact. The bound
on `k` says that the overlap is above its limit. -/
theorem le_costLimit_false {k : ℕ} (hk : 0 < k) (hlt : k < 2516582) :
    ¬ (UnpackedFloat.finite .positive 10066330 (-26) (by decide)).le
      (UnpackedFloat.unpack .binary32 (UnpackedFloat.pack .binary32
        (UnpackedFloat.round .binary32 .positive k (-24)))) = true := by
  have hlog : k.log2 ≤ 21 := by
    have := (Nat.log2_lt hk.ne').mpr (show k < 2 ^ 22 by omega)
    omega
  have hbits : Format.binary32.mantissaBits = 24 := rfl
  have hmin : Format.binary32.minExponent = -149 := rfl
  have hbias : Format.binary32.exponentBias = 127 := rfl
  have hround : UnpackedFloat.round .binary32 .positive k (-24) = _ :=
    round_eq hk (by omega) (by omega)
  rw [hround, unpack_pack]
  · intro hle
    obtain ⟨-, -, hle⟩ := le_iff.mp hle
    simp only [rank, signedExponent, signedMantissa, Sign.apply, lt_self_iff_false, true_and,
      false_or, hbits] at hle
    have hlog' : k.log2 = 21 := by omega
    rw [hlog', Nat.shiftLeft_eq] at hle
    omega
  · rw [log2_shiftLeft hk]
    omega
  · omega
  · change _ < 256
    change (_ + (127 : ℤ) + 23).toNat + 1 < 256
    omega

/-- In single precision, an overlap above 0.85 costs less than 0.15, rounding included. Both
limits are decimal numbers that are rounded when they are read, and the cost is rounded once
more. -/
theorem float32_cost_of_overlap {a : Float32} (h : lit 0.85 < a) : ¬ lit 0.15 ≤ lit 1 - a := by
  obtain ⟨hm₁, hoverlap⟩ := unpack_overlapLimit
  obtain ⟨hm₂, hcost⟩ := unpack_costLimit
  obtain ⟨hm₃, hone⟩ := unpack_one
  have hlt := float32_lt_iff.mp h
  intro hle
  have hle := float32_le_iff.mp hle
  have hsub : (lit 1 - a : Float32).toModel.unpack = UnpackedFloat.unpack .binary32
      (UnpackedFloat.pack .binary32 (UnpackedFloat.sub .binary32
        (lit 1 : Float32).toModel.unpack a.toModel.unpack)) := rfl
  rw [hsub, hcost, hone] at hle
  rw [hoverlap] at hlt
  cases ha : a.toModel.unpack with
  | notANumber | zero =>
    rw [ha] at hlt
    cases hlt
  | infinity s =>
    rw [ha] at hlt hle
    cases s with
    | negative => cases hlt
    | positive =>
      exact not_le_of_hasSign_negative (hasSign_unpack_pack (a := .infinity .negative) rfl) hle
  | finite s m e hm =>
    rw [ha] at hlt hle
    cases s with
    | negative => cases hlt
    | positive =>
      obtain ⟨-, -, hlt⟩ := lt_iff.mp hlt
      simp only [rank, signedExponent, signedMantissa, Sign.apply, lt_self_iff_false, true_and,
        false_or] at hlt
      have hbounds : 2 ^ 23 ≤ m ∧ m < 2 ^ 24 := by
        refine (unpack_bounds ha).resolve_right fun hsmall => ?_
        change e = 1 - ((127 : ℤ) + 23) at hsmall
        omega
      by_cases hexponent : e = -24
      · subst hexponent
        have hdiff : UnpackedFloat.sub .binary32 (.finite .positive 8388608 (-23) hm₃)
            (.finite .positive m (-24) hm) = .round .binary32 .positive (16777216 - m) (-24) := by
          change UnpackedFloat.normalize _ ((16777216 : ℤ) - ((m : ℕ) : ℤ)) (-24) _ = _
          unfold UnpackedFloat.normalize
          rw [Int.compare_eq_gt.mpr (by omega)]
          dsimp only
          congr 1
          omega
        rw [hdiff] at hle
        exact le_costLimit_false (by omega) (by omega) hle
      · have hdiff : HasSign .negative (UnpackedFloat.sub .binary32
            (.finite .positive 8388608 (-23) hm₃) (.finite .positive m e hm)) := by
          unfold UnpackedFloat.sub decreaseExponent
          dsimp only
          refine hasSign_normalize_negative _ ?_ _ _
          rw [min_eq_left (by omega), sub_self]
          change (8388608 : ℤ) - (m <<< _ : ℕ) ≤ 0
          rw [Nat.shiftLeft_eq]
          have hpos : 1 ≤ 2 ^ (e - -23).toNat := Nat.one_le_two_pow
          have hmul : m * 1 ≤ m * 2 ^ (e - -23).toNat := Nat.mul_le_mul_left m hpos
          omega
        exact not_le_of_hasSign_negative (hasSign_unpack_pack hdiff) hle

/-- The arithmetic of the machine is good enough for the tracker: rounding keeps the signs and the
comparisons that its lists rely on. -/
instance : LawfulTracker Float32 Float where
  cost_of_overlap := float32_cost_of_overlap
  buffer_nonneg := float_buffer_nonneg

end EdgeClient.Tracking
