import EdgeClient.Sync.WireFormat

/-!
# When to try again

A failed delivery is tried again after a delay that doubles with every attempt, after
the delay the server asks for, whichever is longer, and a random part of at most half a
second.
-/

namespace EdgeClient.Sync

open Basis

variable {D : Type} (w : Wire D)

/-- `std::min<std::int64_t>(300000, 1000LL << std::clamp(attempts, 0, 9))`. -/
def backoffDelay (attempts : ℤ) : ℤ := min 300000 (1000 * 2 ^ (max 0 (min attempts 9)).toNat)

/-- The header is a number of seconds: at most ten digits, each of which is one byte. -/
def isDelaySeconds (header : String) : Bool :=
  header.toList.length ≤ 10 ∧ header.toList.all fun c => 48 ≤ c.toNat ∧ c.toNat ≤ 57

/-- `std::stoll` for digits. -/
def digitsValue (digits : List Char) : ℕ := digits.foldl (fun n c => 10 * n + (c.toNat - 48)) 0

/-- The delay that the header `Retry-After` asks for. -/
def serverDelay (now : ℤ) (header : String) : ℤ :=
  if header = "" then 0
  else if isDelaySeconds header then digitsValue header.toList * 1000
  else match w.httpDate header with
    | none => 0
    | some sec => if 0 < sec then max 0 (sec * 1000 - now) else 0

/-- `retry_at`. -/
def retryAt (now attempts : ℤ) (header : String) (jitterMs : ℕ) : ℤ :=
  now + max (backoffDelay attempts) (serverDelay w now header) + min jitterMs 500

/-- The delay is between one second and five minutes, whatever the number of attempts. -/
theorem backoffDelay_bounds (attempts : ℤ) :
    1000 ≤ backoffDelay attempts ∧ backoffDelay attempts ≤ 300000 := by
  unfold backoffDelay
  have hpow : 1 ≤ (2 : ℤ) ^ (max 0 (min attempts 9)).toNat := one_le_pow₀ (by norm_num)
  omega

/-- A retry is planned no earlier than both delays ask for: that of the attempts, and that of the
server. -/
theorem le_retryAt {w : Wire D} {now attempts : ℤ} {header : String} {jitterMs : ℕ} :
    now + max (backoffDelay attempts) (serverDelay w now header) ≤
      retryAt w now attempts header jitterMs := by
  unfold retryAt
  omega

/-- A delay is asked for from the time the answer came. The delay of the server is one of the two
whose maximum is taken. -/
theorem retryAt_seconds {w : Wire D} {now attempts : ℤ} {header : String} {jitterMs : ℕ}
    (hheader : header ≠ "") (hdigits : isDelaySeconds header = true) :
    now + digitsValue header.toList * 1000 ≤ retryAt w now attempts header jitterMs := by
  have hserver : serverDelay w now header = digitsValue header.toList * 1000 := by
    rw [serverDelay, if_neg hheader, if_pos hdigits]
  have hle : now + max (backoffDelay attempts) (serverDelay w now header) ≤
      retryAt w now attempts header jitterMs := le_retryAt
  rw [hserver] at hle
  omega

/-! ## Without overflow -/

/-- The range of `std::int64_t`. -/
def FitsInt64 (x : ℤ) : Prop := -2 ^ 63 ≤ x ∧ x < 2 ^ 63

/-- Whether a number fits is decided by its two bounds. -/
instance (x : ℤ) : Decidable (FitsInt64 x) := inferInstanceAs (Decidable (_ ∧ _))

/-- The result of a signed operation; none when it overflows. -/
def checkedInt64 (x : ℤ) : Option ℤ := if FitsInt64 x then some x else none

/-- `serverDelay` with every operation checked. It has no result where an operation on the 64 bits
of the source would overflow. -/
def serverDelayInt64 (now : ℤ) (header : String) : Option ℤ :=
  if header = "" then some 0
  else if isDelaySeconds header then do
    let seconds ← checkedInt64 (digitsValue header.toList)
    checkedInt64 (seconds * 1000)
  else match w.httpDate header with
    | none => some 0
    | some sec =>
      if 0 < sec then do
        let date ← checkedInt64 (sec * 1000)
        let rest ← checkedInt64 (date - now)
        return max 0 rest
      else some 0

/-- `retry_at` with every operation checked. -/
def retryAtInt64 (now attempts : ℤ) (header : String) (jitterMs : ℕ) : Option ℤ := do
  let shifted ← checkedInt64 (1000 * 2 ^ (max 0 (min attempts 9)).toNat)
  let server ← serverDelayInt64 w now header
  let delayed ← checkedInt64 (now + max (min 300000 shifted) server)
  checkedInt64 (delayed + min jitterMs 500)

/-- 23:59:59 on 31 December 3000: the last time that `_mkgmtime64` can represent. -/
def maxHttpDate : ℤ := 32535215999

/-- A number in range is kept. -/
theorem checkedInt64_eq {x : ℤ} (hlow : -2 ^ 63 ≤ x) (hhigh : x < 2 ^ 63) :
    checkedInt64 x = some x := if_pos ⟨hlow, hhigh⟩

/-- A text of digits has less than ten to the power of its length. The induction is on the last
digit. -/
theorem digitsValue_lt {digits : List Char} (h : ∀ c ∈ digits, 48 ≤ c.toNat ∧ c.toNat ≤ 57) :
    digitsValue digits < 10 ^ digits.length := by
  induction digits using List.reverseRecOn with
  | nil => exact Nat.one_pos
  | append_singleton digits c ih =>
    have hdigits := ih fun c' hc' => h c' (List.mem_append_left _ hc')
    obtain ⟨hlow, hhigh⟩ := h c (List.mem_append_right _ (List.mem_singleton_self c))
    rw [digitsValue, List.foldl_append, List.length_append, List.length_singleton, pow_succ]
    change 10 * digitsValue digits + (c.toNat - 48) < _
    omega

/-- A delay in seconds has at most ten digits, as the code allows no more. -/
theorem digitsValue_bound {header : String} (h : isDelaySeconds header = true) :
    digitsValue header.toList < 10 ^ 10 := by
  simp only [isDelaySeconds, decide_eq_true_eq, List.all_eq_true] at h
  obtain ⟨hlength, hdigits⟩ := h
  exact (digitsValue_lt hdigits).trans_le (Nat.pow_le_pow_right (by norm_num) hlength)

variable {w}

/-- No operation of `serverDelay` overflows, and the delay is bounded. The cases are those of the
header: none, a number of seconds, and a date. -/
theorem serverDelayInt64_eq {now : ℤ} (hnow : 0 ≤ now) (hmax : now ≤ 2 ^ 62)
    (hdate : ∀ s sec, w.httpDate s = some sec → sec ≤ maxHttpDate) (header : String) :
    serverDelayInt64 w now header = some (serverDelay w now header) ∧
      0 ≤ serverDelay w now header ∧ serverDelay w now header ≤ 32535215999000 := by
  unfold serverDelayInt64 serverDelay
  split
  · exact ⟨rfl, le_rfl, by norm_num⟩
  split
  · rename_i hdigits
    have hbound : (digitsValue header.toList : ℤ) < 10 ^ 10 := by
      exact_mod_cast digitsValue_bound hdigits
    rw [checkedInt64_eq (by omega) (by omega), Option.bind_eq_bind, Option.bind_some,
      checkedInt64_eq (by omega) (by omega)]
    exact ⟨rfl, by omega, by omega⟩
  · cases hsec : w.httpDate header with
    | none => exact ⟨rfl, le_rfl, by norm_num⟩
    | some sec =>
      have hlast : sec ≤ 32535215999 := hdate header sec hsec
      dsimp only
      split
      · rw [checkedInt64_eq (by omega) (by omega), Option.bind_eq_bind, Option.bind_some,
          checkedInt64_eq (by omega) (by omega), Option.bind_some]
        exact ⟨rfl, by omega, by omega⟩
      · exact ⟨rfl, le_rfl, by norm_num⟩

/-- No operation of `retry_at` overflows. The sums are taken in the order of the source, and each
of them stays in range. -/
theorem retryAtInt64_eq {now : ℤ} (hnow : 0 ≤ now) (hmax : now ≤ 2 ^ 62)
    (hdate : ∀ s sec, w.httpDate s = some sec → sec ≤ maxHttpDate) (attempts : ℤ) (header : String)
    (jitterMs : ℕ) :
    retryAtInt64 w now attempts header jitterMs =
      some (retryAt w now attempts header jitterMs) := by
  obtain ⟨hserver, hlow, hhigh⟩ := serverDelayInt64_eq hnow hmax hdate header
  obtain ⟨hdelay, hdelay'⟩ := backoffDelay_bounds attempts
  have hpow : (2 : ℤ) ^ (max 0 (min attempts 9)).toNat ≤ 2 ^ 9 :=
    pow_le_pow_right₀ (by norm_num) (by omega)
  have hpos : 0 < (2 : ℤ) ^ (max 0 (min attempts 9)).toNat := by positivity
  unfold retryAtInt64
  rw [checkedInt64_eq (by omega) (by omega), hserver, Option.bind_eq_bind, Option.bind_some,
    Option.bind_some, ← backoffDelay, checkedInt64_eq (by omega) (by omega), Option.bind_some,
    checkedInt64_eq (by omega) (by omega), retryAt]

end EdgeClient.Sync
