import EdgeClient.Basis.Literals

/-!
# Floating-point arithmetic as an interface

A program that computes with `float` and `double` is written once, over any two
types that provide the operations of a floating-point format. Two readings are
given here: the IEEE 754 formats binary32 and binary64 of Lean's own `Float32`
and `Float`, and exact arithmetic extended by the special values NaN and ±∞.
-/

namespace Basis

/-- The operations of one floating-point format. The code calls nothing else of a format, so that
one model serves exact numbers and machine numbers. -/
class FloatOps (F : Type) extends Add F, Sub F, Mul F, Div F, Neg F where
  /-- Strict comparison, false when an operand is NaN. -/
  ltb : F → F → Bool
  /-- Weak comparison, false when an operand is NaN. -/
  leb : F → F → Bool
  /-- A rational literal, converted to the format. -/
  lit : ℚ → F
  /-- Positive infinity. -/
  infinity : F
  /-- Neither NaN nor an infinity. -/
  isFinite : F → Bool
  /-- The square root. -/
  sqrt : F → F
  /-- The length of a vector with the two given components. -/
  hypot : F → F → F
  /-- Conversion to an integer, dropping the fraction. -/
  truncate : F → ℤ

/-- The comparison `<` of a format, as a proposition. -/
instance (priority := low) {F : Type} [FloatOps F] : LT F := ⟨fun a b => FloatOps.ltb a b = true⟩

/-- The comparison `<=` of a format, as a proposition. -/
instance (priority := low) {F : Type} [FloatOps F] : LE F := ⟨fun a b => FloatOps.leb a b = true⟩

/-- Whether a datum is below another one is computed. -/
instance (priority := low) decidableLT {F : Type} [FloatOps F] : DecidableLT F :=
  fun a b => inferInstanceAs (Decidable (FloatOps.ltb a b = true))

/-- Whether a datum is at most another one is computed. -/
instance (priority := low) decidableLE {F : Type} [FloatOps F] : DecidableLE F :=
  fun a b => inferInstanceAs (Decidable (FloatOps.leb a b = true))

/-- Conversions between a narrow format `F` and a wide format `D`. -/
class FloatPair (F D : Type) where
  /-- The wide datum with the value of a narrow one. -/
  widen : F → D
  /-- The narrow datum closest to a wide one. -/
  narrow : D → F

export FloatOps (lit infinity isFinite sqrt hypot truncate)
export FloatPair (widen narrow)

section Derived

variable {F : Type} [FloatOps F]

/-- `std::max`: the first argument unless it is smaller than the second. -/
def stdMax (a b : F) : F := if a < b then b else a

/-- `std::min`: the first argument unless the second is smaller. -/
def stdMin (a b : F) : F := if b < a then b else a

/-- `std::clamp`: the bound that the value exceeds, and otherwise the value. -/
def stdClamp (v lo hi : F) : F := if v < lo then lo else if hi < v then hi else v

/-- `std::abs`. -/
def stdAbs (a : F) : F := if a < lit 0 then -a else a

/-- The row from `col` on whose entry in a column is largest in absolute value, and
that value; the first one when there are several. -/
def pivotRow (column : Fin 4 → F) (col : Fin 4) : Fin 4 × F :=
  ((List.finRange 4).filter (fun row => col < row)).foldl
    (fun best row => if best.2 < stdAbs (column row) then (row, stdAbs (column row)) else best)
    (col, stdAbs (column col))

/-- `std::max` returns one of its arguments. -/
theorem stdMax_eq_or (a b : F) : stdMax a b = a ∨ stdMax a b = b := by
  unfold stdMax
  split
  · exact Or.inr rfl
  · exact Or.inl rfl

/-- `std::min` returns one of its arguments. -/
theorem stdMin_eq_or (a b : F) : stdMin a b = a ∨ stdMin a b = b := by
  unfold stdMin
  split
  · exact Or.inr rfl
  · exact Or.inl rfl

end Derived

/-- The facts about comparison and special values that hold in every IEEE 754
format as well as in exact arithmetic. A datum other than NaN is one that is
at most itself. -/
class LawfulFloat (F : Type) [FloatOps F] : Prop where
  /-- A finite datum is not NaN. -/
  le_refl_of_isFinite {a : F} : isFinite a = true → a ≤ a
  /-- Data other than NaN are comparable. -/
  lt_of_not_le {a b : F} : a ≤ a → b ≤ b → ¬ a ≤ b → b < a
  /-- The two comparisons never contradict each other. -/
  not_le_of_lt {a b : F} : a < b → ¬ b ≤ a
  /-- Strict comparison extends to every datum that is not smaller. -/
  lt_of_lt_of_not_lt {a b c : F} : a < b → c ≤ c → ¬ c < b → a < c
  /-- The literal zero is finite. -/
  isFinite_zero : isFinite (lit 0 : F) = true
  /-- The literal one is finite. -/
  isFinite_one : isFinite (lit 1 : F) = true
  /-- The sum of two finite data may overflow, but is not NaN. -/
  add_not_nan {a b : F} : isFinite a = true → isFinite b = true → a + b ≤ a + b
  /-- A positive finite datum divided by a datum other than NaN is not NaN. -/
  div_not_nan {a b : F} : isFinite a = true → lit 0 < a → b ≤ b → a / b ≤ a / b

/-! ## Exact arithmetic with special values -/

/-- The numbers of a field together with the special values of IEEE 754. Zero has one sign
only. -/
inductive Extended (K : Type) where
  /-- Not a number. -/
  | nan
  /-- Negative infinity. -/
  | negInf
  /-- Positive infinity. -/
  | posInf
  /-- A number of the field. -/
  | fin (x : K)
  deriving DecidableEq

/-- The two operations on a field that have no algebraic definition. -/
class RootOps (K : Type) where
  /-- The square root of a nonnegative number. -/
  root : K → K
  /-- The integer part, rounded towards zero. -/
  integerPart : K → ℤ

namespace Extended

variable {K : Type} [Field K] [LinearOrder K]

/-- An infinity with the sign of `x`. -/
def infinityOf (x : K) : Extended K := if x < 0 then negInf else posInf

/-- Exact addition of numbers; opposite infinities have no sum. -/
def add : Extended K → Extended K → Extended K
  | nan, _ | _, nan | posInf, negInf | negInf, posInf => nan
  | posInf, _ | _, posInf => posInf
  | negInf, _ | _, negInf => negInf
  | fin x, fin y => fin (x + y)

/-- Exact negation. -/
def neg : Extended K → Extended K
  | nan => nan
  | negInf => posInf
  | posInf => negInf
  | fin x => fin (-x)

/-- Exact multiplication; zero times an infinity is NaN. -/
def mul : Extended K → Extended K → Extended K
  | nan, _ | _, nan => nan
  | posInf, posInf | negInf, negInf => posInf
  | posInf, negInf | negInf, posInf => negInf
  | posInf, fin x | fin x, posInf => if x = 0 then nan else infinityOf x
  | negInf, fin x | fin x, negInf => if x = 0 then nan else infinityOf (-x)
  | fin x, fin y => fin (x * y)

/-- Exact division; a nonzero number divided by zero is an infinity. -/
def div : Extended K → Extended K → Extended K
  | nan, _ | _, nan => nan
  | posInf, posInf | negInf, negInf | posInf, negInf | negInf, posInf => nan
  | posInf, fin x => infinityOf x
  | negInf, fin x => infinityOf (-x)
  | fin _, posInf | fin _, negInf => fin 0
  | fin x, fin y => if y = 0 then (if x = 0 then nan else infinityOf x) else fin (x / y)

/-- Strict comparison, false on NaN. -/
def ltb : Extended K → Extended K → Bool
  | nan, _ | _, nan => false
  | negInf, negInf | posInf, posInf => false
  | negInf, _ | _, posInf => true
  | _, negInf | posInf, _ => false
  | fin x, fin y => decide (x < y)

/-- Weak comparison, false on NaN. -/
def leb : Extended K → Extended K → Bool
  | nan, _ | _, nan => false
  | negInf, _ | _, posInf => true
  | _, negInf | posInf, _ => false
  | fin x, fin y => decide (x ≤ y)

/-- The numbers of the field are the finite data. -/
def finite : Extended K → Bool
  | fin _ => true
  | _ => false

variable [RootOps K]

/-- The square root; NaN on negative numbers. -/
def sqrt : Extended K → Extended K
  | nan | negInf => nan
  | posInf => posInf
  | fin x => if x < 0 then nan else fin (RootOps.root x)

/-- The length of a vector; infinite as soon as one component is. -/
def hypot : Extended K → Extended K → Extended K
  | posInf, _ | negInf, _ | _, posInf | _, negInf => posInf
  | nan, _ | _, nan => nan
  | fin x, fin y => fin (RootOps.root (x * x + y * y))

/-- Conversion to an integer; the special values, for which the conversion is
undefined, go to zero. -/
def truncate : Extended K → ℤ
  | fin x => RootOps.integerPart x
  | _ => 0

/-- The operations of the code on numbers and special values, without rounding. Every comparison
with a value that is not a number is false. -/
instance : FloatOps (Extended K) where
  add := add
  sub a b := add a (neg b)
  mul := mul
  div := div
  neg := neg
  ltb := ltb
  leb := leb
  lit q := fin (q : K)
  infinity := posInf
  isFinite := finite
  sqrt := sqrt
  hypot := hypot
  truncate := truncate

/-- In exact arithmetic a narrow and a wide number are the same. -/
instance : FloatPair (Extended K) (Extended K) where
  widen := id
  narrow := id

/-- A comparison is what the format computes. -/
theorem lt_def {a b : Extended K} : a < b ↔ ltb a b = true := Iff.rfl

/-- A comparison is what the format computes, also where equality is allowed. -/
theorem le_def {a b : Extended K} : a ≤ b ↔ leb a b = true := Iff.rfl

/-- A value is finite if it is a number. -/
theorem isFinite_def {a : Extended K} : isFinite a = finite a := rfl

/-- A literal is its number. -/
theorem lit_def (q : ℚ) : (lit q : Extended K) = fin (q : K) := rfl

/-- A finite datum is a number of the field. -/
theorem exists_fin_of_isFinite {a : Extended K} (h : isFinite a = true) : ∃ x, a = fin x := by
  cases a with
  | fin x => exact ⟨x, rfl⟩
  | _ => cases h

/-- Numbers and special values obey the laws of comparison that the code relies on. The cases are
those of the special values; between numbers the laws are those of the order. -/
instance : LawfulFloat (Extended K) where
  le_refl_of_isFinite h := by
    obtain ⟨x, rfl⟩ := exists_fin_of_isFinite h
    simp [le_def, leb]
  lt_of_not_le {a b} ha hb h := by
    cases a <;> cases b <;> simp_all [le_def, lt_def, leb, ltb]
  not_le_of_lt {a b} h := by
    cases a <;> cases b <;> simp_all [le_def, lt_def, leb, ltb]
  lt_of_lt_of_not_lt {a b c} h hc hcb := by
    cases a <;> cases b <;> cases c <;> simp_all [le_def, lt_def, leb, ltb]
    exact lt_of_lt_of_le h hcb
  isFinite_zero := rfl
  isFinite_one := rfl
  add_not_nan {a b} ha hb := by
    obtain ⟨x, rfl⟩ := exists_fin_of_isFinite ha
    obtain ⟨y, rfl⟩ := exists_fin_of_isFinite hb
    change leb (fin (x + y)) (fin (x + y)) = true
    simp [leb]
  div_not_nan {a b} ha hpos hb := by
    obtain ⟨x, rfl⟩ := exists_fin_of_isFinite ha
    have hx : x ≠ 0 := by
      rintro rfl
      simp [lt_def, lit_def, ltb] at hpos
    change leb (div (fin x) b) (div (fin x) b) = true
    cases b with
    | nan => simp [le_def, leb] at hb
    | negInf => simp [div, leb]
    | posInf => simp [div, leb]
    | fin y =>
      by_cases hy : y = 0
      · by_cases hneg : x < 0 <;> simp [div, hy, hx, infinityOf, hneg, leb]
      · simp [div, hy, leb]

end Extended

/-- Rational numbers with the square root computed to twelve decimals. -/
instance : RootOps ℚ where
  root x := (Nat.sqrt (x.num.toNat * x.den * 10 ^ 24) : ℚ) / (x.den * 10 ^ 12)
  integerPart x := x.num.tdiv x.den

end Basis
