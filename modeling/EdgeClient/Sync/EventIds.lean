import EdgeClient.Basis.PositionalDigits
import EdgeClient.Sync.WireFormat

/-!
# Identifiers of events

The identifier of an event is the text of sixteen bytes: six of the time of the event, then
random bytes in which six bits are fixed. The time and the random bits can be read from the
text, and the texts of two times are in the order of the times. The outbox sorts by time
and then by identifier, which is the order of the identifiers alone.
-/

namespace EdgeClient.Sync

open Basis Storage

/-! ## The bytes -/

/-- The bytes of an identifier are the digits of its time and ten more. -/
theorem uuidBytes_toNat (random : Fin 16 → UInt8) (ms : ℕ) :
    ∃ tail : List ℕ, (uuidBytes random ms).map UInt8.toNat = fixedDigits 256 6 ms ++ tail ∧
      tail.length = 10 := by
  refine ⟨((uuidBytes random ms).map UInt8.toNat).drop 6, ?_, by simp [uuidBytes]⟩
  simp [uuidBytes, List.finRange, fixedDigits]

/-- The low bits of a byte below fixed ones. -/
theorem low_bits_or (n : ℕ) {w high : ℕ} :
    n &&& (2 ^ w - 1) ||| 2 ^ w * high = n % 2 ^ w + 2 ^ w * high := by
  rw [Nat.and_two_pow_sub_one_eq_mod, Nat.or_comm,
    ← Nat.two_pow_add_eq_or_of_lt (Nat.mod_lt n (by positivity)), Nat.add_comm]

/-- The low bits of a number do not change when something is written above them. -/
theorem testBit_low_bits (n : ℕ) {w high j : ℕ} (hj : j < w) :
    (n % 2 ^ w + 2 ^ w * high).testBit j = n.testBit j := by
  rw [Nat.add_comm, Nat.testBit_two_pow_mul_add _ (Nat.mod_lt n (by positivity)), if_pos hj,
    Nat.testBit_mod_two_pow, decide_eq_true hj, Bool.true_and]

/-- The seventh byte: the version over random bits. -/
theorem version_byte (b : UInt8) : (b &&& 15 ||| 0x70).toNat = b.toNat % 16 + 112 := by
  rw [UInt8.toNat_or, UInt8.toNat_and]
  exact @low_bits_or b.toNat 4 7

/-- The ninth byte: the variant over random bits. -/
theorem variant_byte (b : UInt8) : (b &&& 63 ||| 0x80).toNat = b.toNat % 64 + 128 := by
  rw [UInt8.toNat_or, UInt8.toNat_and]
  exact @low_bits_or b.toNat 6 2

/-! ## The text -/

/-- The text of bytes: hyphens stand in front of the fifth, seventh, ninth and eleventh. -/
def uuidText (bytes : List UInt8) : List Char :=
  ((bytes.map hexByte).zipIdx.map fun (d, i) =>
    if i = 4 ∨ i = 6 ∨ i = 8 ∨ i = 10 then '-' :: d else d).flatten

/-- An identifier is made for a time in range if random bytes are at hand, and it is their text.
The two failures are a time out of range and a generator that does not deliver. -/
theorem uuidV7_ok {random : Option (Fin 16 → UInt8)} {ms : ℤ} {s : String} :
    uuidV7 random ms = .ok s ↔ (0 ≤ ms ∧ ms ≤ maxUuidMs) ∧
      ∃ bytes, random = some bytes ∧ s = String.ofList (uuidText (uuidBytes bytes ms.toNat)) := by
  unfold uuidV7
  split
  · rename_i hrange
    refine iff_of_false (by simp [throw, throwThe, MonadExceptOf.throw]) ?_
    rintro ⟨⟨hlow, hhigh⟩, -⟩
    omega
  · rename_i hrange
    rw [not_or, not_lt, not_lt] at hrange
    cases random with
    | none => simp [throw, throwThe, MonadExceptOf.throw]
    | some bytes =>
      simp only [pure, Except.pure, Except.ok.injEq, hrange, and_self, true_and, Option.some.injEq,
        exists_eq_left', uuidText]
      exact eq_comm

/-- The digits of a byte are in the order of the byte. The upper digit decides, and the lower one
where the upper ones are equal. -/
theorem hexByte_lt {b b' : UInt8} (hlt : b.toNat < b'.toNat) : hexByte b < hexByte b' := by
  have hb := b.toNat_lt
  have hb' := b'.toNat_lt
  rw [hexByte, hexByte, List.cons_lt_cons_iff]
  rcases Nat.lt_or_ge (b.toNat / 16) (b'.toNat / 16) with hhigh | hhigh
  · exact Or.inl (digitChar_lt hhigh (by omega))
  · have heq : b.toNat / 16 = b'.toNat / 16 := by omega
    rw [heq, List.cons_lt_cons_iff]
    exact Or.inr ⟨rfl, Or.inl (digitChar_lt (by omega) (by omega))⟩

/-- The two characters of a byte are hexadecimal digits. -/
theorem hexValue_of_mem_hexByte {b : UInt8} {c : Char} (hc : c ∈ hexByte b) :
    ∃ v, hexValue c = some v := by
  have hb := b.toNat_lt
  simp only [hexByte, List.mem_cons, List.not_mem_nil, or_false] at hc
  rcases hc with rfl | rfl
  · exact ⟨_, hexValue_digitChar (by omega)⟩
  · exact ⟨_, hexValue_digitChar (by omega)⟩

/-- Where two lists of bytes are as long, their texts are in the order of the bytes. Each byte
takes two digits, and the digits are in the order of their values. -/
theorem uuidText_lt {bytes bytes' : List UInt8} (hlength : bytes.length = bytes'.length)
    (hlt : bytes.map UInt8.toNat < bytes'.map UInt8.toNat) : uuidText bytes < uuidText bytes' := by
  suffices hfrom : ∀ k, ((((bytes.map hexByte).zipIdx k).map fun (d, i) =>
      if i = 4 ∨ i = 6 ∨ i = 8 ∨ i = 10 then '-' :: d else d).flatten) <
        ((((bytes'.map hexByte).zipIdx k).map fun (d, i) =>
          if i = 4 ∨ i = 6 ∨ i = 8 ∨ i = 10 then '-' :: d else d).flatten) from hfrom 0
  induction bytes generalizing bytes' with
  | nil => cases bytes' <;> simp at hlt hlength
  | cons b bytes ih =>
    cases bytes' with
    | nil => simp at hlength
    | cons b' bytes' =>
      intro k
      rw [List.map_cons, List.map_cons, List.cons_lt_cons_iff] at hlt
      rw [List.map_cons, List.map_cons, List.zipIdx_cons, List.zipIdx_cons, List.map_cons,
        List.map_cons, List.flatten_cons, List.flatten_cons]
      rcases hlt with hlt | ⟨heq, hlt⟩
      · refine append_lt_append ?_ (by dsimp only; split <;> rfl)
        have hhex := hexByte_lt hlt
        dsimp only
        split
        · exact List.cons_lt_cons_iff.mpr (Or.inr ⟨rfl, hhex⟩)
        · exact hhex
      · rw [UInt8.toNat_inj.mp heq]
        exact List.append_left_lt (ih (by simpa using hlength) hlt (k + 1))

/-- The number that a text of hexadecimal digits and hyphens stands for. -/
def uuidValue (s : String) : Option ℕ := readDigits 16 0 (s.toList.filter (· ≠ '-'))

/-- Without its hyphens the text is the digits of the bytes. No digit of a byte is a hyphen, so
that only the four separators go. -/
theorem filter_uuidText (bytes : List UInt8) :
    (uuidText bytes).filter (· ≠ '-') = bytes.flatMap hexByte := by
  suffices hfrom : ∀ k, ((((bytes.map hexByte).zipIdx k).map fun (d, i) =>
      if i = 4 ∨ i = 6 ∨ i = 8 ∨ i = 10 then '-' :: d else d).flatten).filter (· ≠ '-') =
        bytes.flatMap hexByte from hfrom 0
  induction bytes with
  | nil => intro k; rfl
  | cons b bytes ih =>
    intro k
    have hdigits : (hexByte b).filter (· ≠ '-') = hexByte b := by
      rw [List.filter_eq_self]
      intro c hc
      obtain ⟨v, hv⟩ := hexValue_of_mem_hexByte hc
      have hne : c ≠ '-' := by
        rintro rfl
        simp [hexValue] at hv
      simpa using hne
    rw [List.map_cons, List.zipIdx_cons, List.map_cons, List.flatten_cons, List.filter_append, ih,
      List.flatMap_cons]
    dsimp only
    split
    · rw [List.filter_cons_of_neg (by simp), hdigits]
    · rw [hdigits]

/-- Reading the halves of bytes is reading the bytes. Two steps in base 16 are one step in base
256. -/
theorem foldl_halves (bytes : List UInt8) (n : ℕ) :
    (bytes.flatMap fun b => [b.toNat / 16, b.toNat % 16]).foldl (fun n d => 16 * n + d) n =
      (bytes.map UInt8.toNat).foldl (fun n d => 256 * n + d) n := by
  induction bytes generalizing n with
  | nil => rfl
  | cons b bytes ih =>
    have hb : 16 * (16 * n + b.toNat / 16) + b.toNat % 16 = 256 * n + b.toNat := by omega
    simp only [List.flatMap_cons, List.cons_append, List.nil_append, List.foldl_cons,
      List.map_cons, hb]
    exact ih _

/-- The text stands for the number of its bytes. Each pair of digits is a byte in base 256. -/
theorem uuidValue_uuidText (bytes : List UInt8) :
    uuidValue (String.ofList (uuidText bytes)) =
      some (digitsValue 256 (bytes.map UInt8.toNat)) := by
  have hdigits : bytes.flatMap hexByte =
      (bytes.flatMap fun b => [b.toNat / 16, b.toNat % 16]).map Nat.digitChar := by
    rw [List.map_flatMap]
    rfl
  have hsmall : ∀ d ∈ bytes.flatMap fun b => [b.toNat / 16, b.toNat % 16], d < 16 := by
    intro d hd
    obtain ⟨b, -, hd⟩ := List.mem_flatMap.mp hd
    have hb := b.toNat_lt
    simp only [List.mem_cons, List.not_mem_nil, or_false] at hd
    omega
  rw [uuidValue, String.toList_ofList, filter_uuidText, hdigits, readDigits_map le_rfl hsmall,
    foldl_halves]
  rfl

/-! ## What an identifier says -/

/-- The bits of the random bytes that an identifier keeps: those below the version and below
the variant, and all bits of the other bytes after the time. Bits count from the lowest. -/
def FreeBit (i j : ℕ) : Prop := 6 ≤ i ∧ (i = 6 → j < 4) ∧ (i = 8 → j < 6)

/-- Whether a bit is free is decided by its place. -/
instance (i j : ℕ) : Decidable (FreeBit i j) := inferInstanceAs (Decidable (_ ∧ _))

example : (Finset.univ.filter fun p : Fin 16 × Fin 8 => FreeBit p.1 p.2).card = 74 := by decide

/-- What the text of an identifier says of its time and its random bytes. The fields are what a
reader can find in the text without knowing how it was made. -/
structure Encodes (s : String) (random : Fin 16 → UInt8) (ms : ℤ) : Prop where
  /-- It has thirty-six characters. -/
  length : s.length = 36
  /-- Hyphens at four places, lower-case hexadecimal digits elsewhere. -/
  layout : ∀ i c, s.toList[i]? = some c →
    if i ∈ [8, 13, 18, 23] then c = '-' else ∃ d, hexValue c = some d
  /-- The digit of the version. -/
  version : s.toList[14]? = some '7'
  /-- The digit of the variant. -/
  variant : ∃ c ∈ ['8', '9', 'a', 'b'], s.toList[19]? = some c
  /-- The first forty-eight bits are the time. -/
  time : ∃ n, uuidValue s = some n ∧ (n / 2 ^ 80 : ℕ) = ms
  /-- The free bits are those of the random bytes. -/
  free : ∃ n, uuidValue s = some n ∧ ∀ (i : Fin 16) (j : Fin 8), FreeBit i j →
    n.testBit (8 * (15 - i) + j) = (random i).toNat.testBit j

/-- The digits of the variant. -/
theorem variant_digit {d : ℕ} (hlow : 8 ≤ d) (hhigh : d < 12) :
    Nat.digitChar d ∈ ['8', '9', 'a', 'b'] := by
  interval_cases d <;> decide

/-- The characters of an identifier. -/
theorem uuidText_uuidBytes (random : Fin 16 → UInt8) (ms : ℕ) :
    uuidText (uuidBytes random ms) =
      ([0, 1, 2, 3].flatMap fun i => hexByte (UInt8.ofNat (ms / 256 ^ (5 - i)))) ++ '-' ::
      ([4, 5].flatMap fun i => hexByte (UInt8.ofNat (ms / 256 ^ (5 - i)))) ++ '-' ::
      hexByte ((random 6 &&& 15) ||| 0x70) ++ hexByte (random 7) ++ '-' ::
      hexByte ((random 8 &&& 63) ||| 0x80) ++ hexByte (random 9) ++ '-' ::
      ([10, 11, 12, 13, 14, 15].flatMap fun i => hexByte (random i)) := rfl

/-- Each character is a hyphen or a digit. There are sixteen bytes, and the positions are looked
at one by one. -/
theorem uuidText_layout (random : Fin 16 → UInt8) (ms i : ℕ) (c : Char)
    (hc : (uuidText (uuidBytes random ms))[i]? = some c) :
    if i ∈ [8, 13, 18, 23] then c = '-' else ∃ d, hexValue c = some d := by
  have hbound : i < 36 := (List.getElem?_eq_some_iff.mp hc).1
  have hhigh : ∀ b : UInt8, ∃ d, hexValue (Nat.digitChar (b.toNat / 16)) = some d :=
    fun b => hexValue_of_mem_hexByte (b := b) (by simp [hexByte])
  have hlow : ∀ b : UInt8, ∃ d, hexValue (Nat.digitChar (b.toNat % 16)) = some d :=
    fun b => hexValue_of_mem_hexByte (b := b) (by simp [hexByte])
  rw [uuidText_uuidBytes] at hc
  simp only [List.flatMap_cons, List.flatMap_nil, hexByte, List.cons_append, List.nil_append] at hc
  split
  · rename_i hdash
    simp only [List.mem_cons, List.not_mem_nil, or_false] at hdash
    rcases hdash with rfl | rfl | rfl | rfl <;> exact (Option.some.inj hc).symm
  · rename_i hdash
    interval_cases i <;> cases hc
    all_goals first | exact hhigh _ | exact hlow _ | exact absurd (by decide) hdash

/-- The bytes of an identifier are digits in base 256. -/
theorem digits_lt {bytes : List UInt8} : ∀ d ∈ bytes.map UInt8.toNat, d < 2 ^ 8 := by
  intro d hd
  obtain ⟨b, -, rfl⟩ := List.mem_map.mp hd
  exact b.toNat_lt

/-- The first six bytes of an identifier are its time. The other ten bytes stay below the
eightieth power of two. -/
theorem uuidBytes_time (random : Fin 16 → UInt8) {ms : ℕ} (hms : ms < 2 ^ 48) :
    digitsValue 256 ((uuidBytes random ms).map UInt8.toNat) / 2 ^ 80 = ms := by
  obtain ⟨tail, hsplit, htail⟩ := uuidBytes_toNat random ms
  have hlow : digitsValue (2 ^ 8) tail < (2 ^ 8) ^ tail.length := digitsValue_lt fun d hd =>
    @digits_lt (uuidBytes random ms) d (by simp [hsplit, hd])
  rw [htail] at hlow
  rw [hsplit, digitsValue_append, digitsValue_fixedDigits, htail, Nat.mod_eq_of_lt (by omega)]
  norm_num at hlow ⊢
  omega

/-- The free bits of the bytes are those of the random bytes. The bytes of version and variant
keep their low bits, the others all of them. -/
theorem uuidBytes_free (random : Fin 16 → UInt8) (ms : ℕ) (i : Fin 16) (j : Fin 8)
    (hfree : FreeBit i j) :
    (digitsValue 256 ((uuidBytes random ms).map UInt8.toNat)).testBit (8 * (15 - i) + j) =
      (random i).toNat.testBit j := by
  have hlength : ((uuidBytes random ms).map UInt8.toNat).length = 16 := by simp [uuidBytes]
  have hi : i.val < ((uuidBytes random ms).map UInt8.toNat).length := by omega
  have hplace := testBit_digitsValue (w := 8) digits_lt hi j.isLt
  rw [hlength] at hplace
  refine hplace.trans ?_
  obtain ⟨hlate, hversion, hvariant⟩ := hfree
  simp only [uuidBytes, List.getElem_map, List.getElem_finRange, Fin.cast_mk, Fin.eta]
  rw [if_neg (by omega)]
  split
  · rename_i hsix
    rw [version_byte]
    exact @testBit_low_bits _ 4 7 j (hversion hsix)
  · split
    · rename_i height
      rw [variant_byte]
      exact @testBit_low_bits _ 6 2 j (hvariant height)
    · rfl

/-! ## The order of identifiers -/

/-- The identifier of the earlier event is the smaller text. The time stands in front with a fixed
width, so that the random bytes do not matter. -/
theorem uuidV7_lt {random random' : Option (Fin 16 → UInt8)} {ms ms' : ℤ} {s s' : String}
    (hs : uuidV7 random ms = .ok s) (hs' : uuidV7 random' ms' = .ok s') (hlt : ms < ms') :
    s < s' := by
  obtain ⟨⟨hlow, -⟩, bytes, -, rfl⟩ := uuidV7_ok.mp hs
  obtain ⟨⟨-, hhigh⟩, bytes', -, rfl⟩ := uuidV7_ok.mp hs'
  rw [maxUuidMs] at hhigh
  obtain ⟨tail, htail, -⟩ := uuidBytes_toNat bytes ms.toNat
  obtain ⟨tail', htail', -⟩ := uuidBytes_toNat bytes' ms'.toNat
  rw [String.lt_iff_toList_lt, String.toList_ofList, String.toList_ofList]
  refine uuidText_lt (by simp [uuidBytes]) ?_
  rw [htail, htail']
  refine append_lt_append (fixedDigits_lt 6 (by decide) ?_) (by simp)
  rw [Nat.mod_eq_of_lt (by omega), Nat.mod_eq_of_lt (by omega)]
  omega

/-- Rows whose identifiers are made from their times are sorted by identifier. The time is in
front of the random part, so it decides first. -/
theorem before_iff_id_le {random random' : Option (Fin 16 → UInt8)} {row row' : OutboxRow}
    (hrow : uuidV7 random row.occurredMs = .ok row.eventId)
    (hrow' : uuidV7 random' row'.occurredMs = .ok row'.eventId) :
    OutboxRepository.Before row row' ↔ row.eventId ≤ row'.eventId := by
  rcases lt_trichotomy row.occurredMs row'.occurredMs with hlt | heq | hgt
  · exact iff_of_true (Or.inl hlt) (le_of_lt (uuidV7_lt hrow hrow' hlt))
  · simp [OutboxRepository.Before, heq]
  · refine iff_of_false ?_ (not_le.mpr (uuidV7_lt hrow' hrow hgt))
    simp [OutboxRepository.Before, not_lt.mpr hgt.le, hgt.ne']

/-- The text of an identifier says its time and its free bits. Each field is read off the number
that the text stands for. -/
theorem encodes_uuidV7 {random : Fin 16 → UInt8} {ms : ℤ} {s : String}
    (hs : uuidV7 (some random) ms = .ok s) : Encodes s random ms := by
  obtain ⟨⟨hlow, hhigh⟩, bytes, hrandom, rfl⟩ := uuidV7_ok.mp hs
  obtain rfl := Option.some.inj hrandom
  rw [maxUuidMs] at hhigh
  have hvalue := uuidValue_uuidText (uuidBytes random ms.toNat)
  have height := (random 8).toNat_lt
  exact {
    length := String.length_ofList.trans rfl
    layout := by
      rw [String.toList_ofList]
      exact uuidText_layout random ms.toNat
    version := by
      rw [String.toList_ofList, uuidText_uuidBytes]
      have hseven : (random 6 &&& 15 ||| 0x70).toNat / 16 = 7 := by
        rw [version_byte]
        omega
      exact congrArg some (congrArg Nat.digitChar hseven)
    variant := by
      refine ⟨_, ?_, by rw [String.toList_ofList, uuidText_uuidBytes]; rfl⟩
      rw [variant_byte]
      exact variant_digit (by omega) (by omega)
    time := ⟨_, hvalue, by rw [uuidBytes_time random (by omega)]; omega⟩
    free := ⟨_, hvalue, uuidBytes_free random ms.toNat⟩ }

/-- An identifier is made for every time in range and all random bytes. It encodes both, and
the identifiers of two times are in the order of the times, whatever the random bytes. The
order of the outbox is then the order of identifiers: ties never contradict the time. -/
theorem uuidV7_reversible_ordered (random : Fin 16 → UInt8) (ms : ℤ) (hlow : 0 ≤ ms)
    (hhigh : ms ≤ maxUuidMs) :
    ∃ s, uuidV7 (some random) ms = .ok s ∧ Encodes s random ms ∧
      (∀ random' ms' s', uuidV7 random' ms' = .ok s' →
        (ms < ms' → s < s') ∧ (ms' < ms → s' < s)) ∧
      ∀ random' (row row' : OutboxRow), row.occurredMs = ms → row.eventId = s →
        uuidV7 random' row'.occurredMs = .ok row'.eventId →
        (OutboxRepository.Before row row' ↔ row.eventId ≤ row'.eventId) := by
  have hmade := uuidV7_ok.mpr ⟨⟨hlow, hhigh⟩, random, rfl, rfl⟩
  refine ⟨_, hmade, encodes_uuidV7 hmade, ?_, ?_⟩
  · intro random' ms' s' hs'
    exact ⟨uuidV7_lt hmade hs', uuidV7_lt hs' hmade⟩
  · intro random' row row' hms hid hrow'
    refine @before_iff_id_le (some random) random' row row' ?_ hrow'
    rw [hms, hid]
    exact hmade

/-- An identifier of the last time in range. -/
theorem uuidV7_reversible_ordered_sample :
    ∃ s, uuidV7 (some fun _ => 0xff) maxUuidMs = .ok s ∧ Encodes s (fun _ => 0xff) maxUuidMs := by
  obtain ⟨s, hs, hencodes, -⟩ :=
    uuidV7_reversible_ordered (fun _ => 0xff) maxUuidMs (by decide) (by decide)
  exact ⟨s, hs, hencodes⟩

end EdgeClient.Sync
