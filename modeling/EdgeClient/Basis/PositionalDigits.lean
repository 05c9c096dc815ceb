import EdgeClient.Basis.Literals

/-!
# Digits of a fixed width

A number below a power of the base is written with as many digits as the power says, the
most significant first. Reading the digits gives the number back, the digits of two numbers
are in the order of the numbers, and in a base that is a power of two each digit shows bits
of the number. The characters of the digits below sixteen keep all of this.
-/

namespace Basis

/-! ## Numbers and their digits -/

/-- The number that a list of digits stands for. -/
def digitsValue (b : ℕ) (digits : List ℕ) : ℕ := digits.foldl (fun n d => b * n + d) 0

/-- The `w` digits of a number. -/
def fixedDigits (b : ℕ) : ℕ → ℕ → List ℕ
  | 0, _ => []
  | w + 1, n => n / b ^ w % b :: fixedDigits b w n

/-- No digits stand for zero. -/
@[simp] theorem digitsValue_nil (b : ℕ) : digitsValue b [] = 0 := rfl

/-- Reading on from a number shifts it by the digits read. By induction on the digits, for every
number to start from. -/
theorem digitsValue_foldl (b start : ℕ) (digits : List ℕ) :
    digits.foldl (fun n d => b * n + d) start =
      b ^ digits.length * start + digitsValue b digits := by
  induction digits generalizing start with
  | nil => simp
  | cons d digits ih =>
    have hvalue : digitsValue b (d :: digits) = _ := ih (b * 0 + d)
    rw [List.foldl_cons, ih, hvalue, List.length_cons]
    ring

/-- Digits in front are worth more by one power of the base for each digit behind them. -/
theorem digitsValue_append (b : ℕ) (left right : List ℕ) :
    digitsValue b (left ++ right) =
      b ^ right.length * digitsValue b left + digitsValue b right := by
  rw [digitsValue, List.foldl_append, digitsValue_foldl]
  rfl

/-- The first digit is worth the power of the base that the number of the others gives. -/
theorem digitsValue_cons (b d : ℕ) (digits : List ℕ) :
    digitsValue b (d :: digits) = b ^ digits.length * d + digitsValue b digits := by
  rw [digitsValue, List.foldl_cons, digitsValue_foldl, Nat.mul_zero, Nat.zero_add]

/-- Digits below the base stand for a number below the power. The first digit counts a power of
the base, and the rest stays below it. -/
theorem digitsValue_lt {b : ℕ} {digits : List ℕ} (hdigits : ∀ d ∈ digits, d < b) :
    digitsValue b digits < b ^ digits.length := by
  induction digits with
  | nil => simp
  | cons d digits ih =>
    have hd : d + 1 ≤ b := hdigits d List.mem_cons_self
    have hrest := ih fun d' hd' => hdigits d' (List.mem_cons_of_mem d hd')
    rw [digitsValue_cons, List.length_cons]
    calc b ^ digits.length * d + digitsValue b digits
        < b ^ digits.length * d + b ^ digits.length := by omega
      _ = b ^ digits.length * (d + 1) := by ring
      _ ≤ b ^ digits.length * b := Nat.mul_le_mul_left _ hd
      _ = b ^ (digits.length + 1) := (pow_succ _ _).symm

/-- A number of fixed width has that many digits. -/
@[simp] theorem length_fixedDigits (b w n : ℕ) : (fixedDigits b w n).length = w := by
  induction w with
  | zero => rfl
  | succ w ih => simp [fixedDigits, ih]

/-- The digits of a number stand for it, up to the power. -/
theorem digitsValue_fixedDigits (b w n : ℕ) : digitsValue b (fixedDigits b w n) = n % b ^ w := by
  induction w with
  | zero => simp [fixedDigits, Nat.mod_one]
  | succ w ih =>
    rw [fixedDigits, digitsValue_cons, length_fixedDigits, ih, pow_succ, Nat.mod_mul]
    omega

/-- The digits of numbers are in the order of the numbers. The first digit in which they differ
decides, and the induction is on the number of digits. -/
theorem fixedDigits_lt {b m n : ℕ} (w : ℕ) (hb : 0 < b) (hlt : m % b ^ w < n % b ^ w) :
    fixedDigits b w m < fixedDigits b w n := by
  induction w with
  | zero => simp [Nat.mod_one] at hlt
  | succ w ih =>
    rw [pow_succ, Nat.mod_mul, Nat.mod_mul] at hlt
    rw [fixedDigits, fixedDigits, List.cons_lt_cons_iff]
    have hn := Nat.mod_lt n (Nat.pow_pos hb : 0 < b ^ w)
    generalize n % b ^ w = low at *
    generalize m % b ^ w = low' at *
    rcases lt_trichotomy (m / b ^ w % b) (n / b ^ w % b) with hdigit | hdigit | hdigit
    · exact Or.inl hdigit
    · rw [hdigit] at hlt
      exact Or.inr ⟨hdigit, ih (by omega)⟩
    · have hstep : b ^ w * (n / b ^ w % b) + b ^ w ≤ b ^ w * (m / b ^ w % b) := by
        calc b ^ w * (n / b ^ w % b) + b ^ w = b ^ w * (n / b ^ w % b + 1) := by ring
          _ ≤ b ^ w * (m / b ^ w % b) := Nat.mul_le_mul_left _ hdigit
      omega

/-- In a base that is a power of two, a digit shows its bits at its place. The digits in front are
multiples of the place, and the digits behind stay below it. -/
theorem testBit_digitsValue {w i j : ℕ} {digits : List ℕ} (hdigits : ∀ d ∈ digits, d < 2 ^ w)
    (hi : i < digits.length) (hj : j < w) :
    (digitsValue (2 ^ w) digits).testBit (w * (digits.length - 1 - i) + j) =
      digits[i].testBit j := by
  have hsplit : digits = (digits.take i ++ [digits[i]]) ++ digits.drop (i + 1) := by simp
  have hlow := digitsValue_lt fun d hd => hdigits d (List.mem_of_mem_drop (i := i + 1) hd)
  have hplace : digits.length - 1 - i = (digits.drop (i + 1)).length := by
    rw [List.length_drop]
    omega
  rw [← pow_mul] at hlow
  nth_rewrite 1 [hsplit]
  rw [hplace, digitsValue_append, ← pow_mul, Nat.testBit_two_pow_mul_add _ hlow,
    if_neg (by omega), Nat.add_sub_cancel_left, digitsValue_append, List.length_singleton, pow_one,
    Nat.testBit_two_pow_mul_add, if_pos hj]
  · simp [digitsValue]
  · simpa [digitsValue] using hdigits _ (List.getElem_mem hi)

/-! ## Characters -/

/-- The value of a digit below sixteen. -/
def hexValue (c : Char) : Option ℕ :=
  if 48 ≤ c.toNat ∧ c.toNat ≤ 57 then some (c.toNat - 48)
  else if 97 ≤ c.toNat ∧ c.toNat ≤ 102 then some (c.toNat - 87)
  else none

/-- A hexadecimal digit is read back from its character. -/
theorem hexValue_digitChar {d : ℕ} (hd : d < 16) : hexValue (Nat.digitChar d) = some d := by
  interval_cases d <;> decide

/-- The characters of digits are in the order of the digits. -/
theorem digitChar_lt {d d' : ℕ} (hlt : d < d') (hd' : d' < 16) :
    Nat.digitChar d < Nat.digitChar d' := by
  interval_cases d' <;> interval_cases d <;> decide

/-- Read digits of a base on from a number. -/
def readDigits (b : ℕ) : ℕ → List Char → Option ℕ
  | n, [] => some n
  | n, c :: text => (hexValue c).bind fun d => if d < b then readDigits b (b * n + d) text else none

/-- The text of digits reads as the number they stand for. Each digit is written as one character
and read back below the base. -/
theorem readDigits_map {b n : ℕ} {digits : List ℕ} (hb : b ≤ 16) (hdigits : ∀ d ∈ digits, d < b) :
    readDigits b n (digits.map Nat.digitChar) =
      some (digits.foldl (fun n d => b * n + d) n) := by
  induction digits generalizing n with
  | nil => rfl
  | cons d digits ih =>
    have hd : d < b := hdigits d List.mem_cons_self
    rw [List.map_cons, readDigits, hexValue_digitChar (lt_of_lt_of_le hd hb), Option.bind_some,
      if_pos hd, ih fun d' hd' => hdigits d' (List.mem_cons_of_mem d hd'), List.foldl_cons]

/-- A text is read from left to right: what is read from its first part goes into the second. So a
text made of parts can be read part by part. -/
theorem readDigits_append (b n : ℕ) (left right : List Char) :
    readDigits b n (left ++ right) =
      (readDigits b n left).bind fun n => readDigits b n right := by
  induction left generalizing n with
  | nil => rfl
  | cons c left ih =>
    rw [List.cons_append, readDigits, readDigits]
    cases hexValue c with
    | none => rfl
    | some d =>
      simp only [Option.bind_some]
      split
      · exact ih _
      · rfl

/-- The decimal text of a number reads as the number. The induction is on the decimal digits, with
the last one split off. -/
theorem readDigits_toString (n : ℕ) : readDigits 10 0 (toString n).toList = some n := by
  rw [Nat.toString_eq_repr, Nat.toList_repr]
  induction n using Nat.base_induction 10 (by decide) with
  | single d hd =>
    rw [Nat.toDigits_of_lt_base hd]
    simpa using @readDigits_map 10 0 [d] (by decide) (by simpa using hd)
  | digit n d hd hn ih =>
    rw [← Nat.toDigits_append_toDigits (by decide) hn hd, Nat.toDigits_of_lt_base hd,
      readDigits_append, ih, Option.bind_some]
    simpa using @readDigits_map 10 n [d] (by decide) (by simpa using hd)

/-! ## Fields of a fixed width -/

/-- The decimal text of a number with a fixed width. -/
def fixedText (w n : ℕ) : List Char := (fixedDigits 10 w n).map Nat.digitChar

/-- A text of fixed width has that many characters. -/
@[simp] theorem length_fixedText (w n : ℕ) : (fixedText w n).length = w := by simp [fixedText]

/-- Numbers of given widths, each with a character behind it. -/
def writeFields : List (ℕ × Char) → List ℕ → List Char
  | (w, stop) :: fields, n :: values => fixedText w n ++ stop :: writeFields fields values
  | _, _ => []

/-- Read numbers of given widths, each with its character behind it. -/
def readFields : List (ℕ × Char) → List Char → Option (List ℕ × List Char)
  | [], text => some ([], text)
  | (w, stop) :: fields, text =>
    (readDigits 10 0 (text.take w)).bind fun n =>
      if (text.drop w).head? = some stop then
        (readFields fields (text.drop (w + 1))).map fun (values, rest) => (n :: values, rest)
      else none

/-- Each digit is below the base. -/
theorem fixedDigits_lt_base {b : ℕ} (hb : 0 < b) (w n : ℕ) : ∀ d ∈ fixedDigits b w n, d < b := by
  induction w with
  | zero => simp [fixedDigits]
  | succ w ih => simpa [fixedDigits] using ⟨Nat.mod_lt _ hb, ih⟩

/-- A text of fixed width reads as its number. -/
theorem readDigits_fixedText {w n : ℕ} (hn : n < 10 ^ w) :
    readDigits 10 0 (fixedText w n) = some n := by
  rw [fixedText, readDigits_map (by decide) (fixedDigits_lt_base (by decide) w n)]
  refine congrArg some ((digitsValue_fixedDigits 10 w n).trans ?_)
  exact Nat.mod_eq_of_lt hn

/-- Fields read back as the numbers they were written from. Each field is followed by its own
separator, and the induction is on the fields. -/
theorem readFields_writeFields {fields : List (ℕ × Char)} {values : List ℕ}
    (hvalues : List.Forall₂ (fun field n => n < 10 ^ field.1) fields values) (rest : List Char) :
    readFields fields (writeFields fields values ++ rest) = some (values, rest) := by
  induction hvalues with
  | nil => rfl
  | @cons field n fields values hn _ ih =>
    obtain ⟨w, stop⟩ := field
    have htext : writeFields ((w, stop) :: fields) (n :: values) ++ rest =
        fixedText w n ++ stop :: (writeFields fields values ++ rest) := by simp [writeFields]
    rw [htext, readFields, List.take_left' (length_fixedText w n), readDigits_fixedText hn,
      Option.bind_some, List.drop_left' (length_fixedText w n), List.head?_cons,
      if_pos rfl, ← List.drop_drop,
      List.drop_left' (length_fixedText w n), List.drop_one, List.tail_cons, ih]
    rfl

/-! ## Order of texts -/

/-- Of two texts whose first parts are as long, the first parts decide. The comparison is that of
the alphabet, character by character. -/
theorem append_lt_append {α : Type*} [LT α] {left left' right right' : List α}
    (hlt : left < left') (hlength : left.length = left'.length) :
    left ++ right < left' ++ right' := by
  induction left generalizing left' with
  | nil =>
    cases left' with
    | nil => cases hlt
    | cons a left' => simp at hlength
  | cons a left ih =>
    cases left' with
    | nil => simp at hlength
    | cons a' left' =>
      rw [List.cons_lt_cons_iff] at hlt
      rw [List.cons_append, List.cons_append, List.cons_lt_cons_iff]
      rcases hlt with hlt | ⟨heq, hlt⟩
      · exact Or.inl hlt
      · exact Or.inr ⟨heq, ih hlt (by simpa using hlength)⟩

end Basis
