import EdgeClient.Basis.PositionalDigits

/-!
# Moments of the civil calendar

A moment is a date of the Gregorian calendar with a time of the day. It counts the seconds
since the start of 1970, and its text has fields of fixed width.
-/

namespace Basis

/-- Whether a year has a leap day. -/
def leapYear (year : ℕ) : Bool := year % 4 = 0 ∧ (year % 100 ≠ 0 ∨ year % 400 = 0)

/-- The days of a month. -/
def daysInMonth (year month : ℕ) : ℕ :=
  if month = 2 then (if leapYear year then 29 else 28)
  else if month ∈ [4, 6, 9, 11] then 30 else 31

/-- The days from 1970 to the start of a year. -/
def daysBeforeYear (year : ℕ) : ℕ :=
  ((List.range' 1970 (year - 1970)).map fun y => if leapYear y then 366 else 365).sum

/-- The days of a year in front of a month. -/
def daysBeforeMonth (year month : ℕ) : ℕ :=
  ((List.range' 1 (month - 1)).map (daysInMonth year)).sum

/-- The seconds from the start of 1970 to a date and a time of the day. -/
def epochSeconds (year month day hour minute second : ℕ) : ℕ :=
  (((daysBeforeYear year + daysBeforeMonth year month + (day - 1)) * 24 + hour) * 60 + minute) * 60
    + second

example : epochSeconds 2000 2 29 23 59 59 = 951868799 := by decide

/-- A moment, to the second. The fields are those of the calendar and carry their own bounds, so
that only moments that exist can be written. -/
structure CivilTime where
  /-- The year. -/
  year : ℕ
  /-- The month, from one. -/
  month : ℕ
  /-- The day of the month, from one. -/
  day : ℕ
  /-- The hour. -/
  hour : ℕ
  /-- The minute. -/
  minute : ℕ
  /-- The second. -/
  second : ℕ
  /-- Counting starts in 1970, and a year has four digits. -/
  year_mem : 1970 ≤ year ∧ year ≤ 9999
  /-- A year has twelve months. -/
  month_mem : 1 ≤ month ∧ month ≤ 12
  /-- The month has this day. -/
  day_mem : 1 ≤ day ∧ day ≤ daysInMonth year month
  /-- A day has twenty-four hours. -/
  hour_lt : hour < 24
  /-- An hour has sixty minutes. -/
  minute_lt : minute < 60
  /-- A minute has sixty seconds. -/
  second_lt : second < 60

/-- No month has more than 31 days. -/
theorem daysInMonth_le (year month : ℕ) : daysInMonth year month ≤ 31 := by
  unfold daysInMonth
  split
  · split <;> omega
  · split <;> omega

namespace CivilTime

/-- The seconds since the start of 1970. -/
def seconds (t : CivilTime) : ℕ := epochSeconds t.year t.month t.day t.hour t.minute t.second

/-- The fields of the text of a moment but the last. -/
def textFields : List (ℕ × Char) := [(4, '-'), (2, '-'), (2, 'T'), (2, ':'), (2, ':')]

/-- The text of a moment, as `%Y-%m-%dT%H:%M:%S` writes it. -/
def text (t : CivilTime) : List Char :=
  writeFields textFields [t.year, t.month, t.day, t.hour, t.minute] ++ fixedText 2 t.second

/-- The fields of the text of a moment with milliseconds in UTC. -/
def utcFields : List (ℕ × Char) := textFields ++ [(2, '.'), (3, 'Z')]

/-- The milliseconds since the start of 1970 that a text of a moment in UTC says. -/
def readUtc (s : String) : Option ℕ :=
  match readFields utcFields s.toList with
  | some ([year, month, day, hour, minute, second, ms], []) =>
    some (epochSeconds year month day hour minute second * 1000 + ms)
  | _ => none

/-- A moment and milliseconds in their text. -/
theorem text_append (t : CivilTime) (ms : ℕ) :
    t.text ++ '.' :: (fixedText 3 ms ++ ['Z']) =
      writeFields utcFields [t.year, t.month, t.day, t.hour, t.minute, t.second, ms] := by
  simp [text, utcFields, textFields, writeFields]

/-- The text of a moment with milliseconds reads as the moment. The fields have fixed width, so
that each is read up to its own separator and nothing else. -/
theorem readUtc_text (t : CivilTime) {ms : ℕ} (hms : ms < 1000) :
    readUtc (String.ofList (t.text ++ '.' :: (fixedText 3 ms ++ ['Z']))) =
      some (t.seconds * 1000 + ms) := by
  have hday := t.day_mem.2.trans (daysInMonth_le t.year t.month)
  have hfields : List.Forall₂ (fun field n => n < 10 ^ field.1) utcFields
      [t.year, t.month, t.day, t.hour, t.minute, t.second, ms] := by
    have hyear := t.year_mem
    have hmonth := t.month_mem
    have hhour := t.hour_lt
    have hminute := t.minute_lt
    have hsecond := t.second_lt
    simp only [utcFields, textFields, List.cons_append, List.nil_append, List.forall₂_cons,
      List.forall₂_nil_left_iff, and_true]
    omega
  have hread := readFields_writeFields hfields []
  rw [List.append_nil] at hread
  rw [readUtc, String.toList_ofList, text_append, hread]
  rfl

end CivilTime

end Basis
