import InfiTracing.Framework.Calendar
import InfiTracing.Framework.Numerals
import Mathlib.Data.Rat.Defs

/-!
# Times as text

The `date-time` of RFC 3339 in UTC: `YYYY-MM-DDThh:mm:ss`, a decimal fraction of a second if
there is one, and `Z`.  `readTime` reads it, as the seconds since the beginning of 1970: the
digits behind the point count as tenths, hundredths and so on, however many there are.

`readTime_text` is the law of the reader: whatever stands behind the seconds, the time it finds
before that is the one that was printed.
-/

namespace InfiTracing.Framework

/-- A time without the fraction and the zone. -/
def UtcTime.text (u : UtcTime) : List UInt8 :=
  paddedDecimal 4 u.date.year ++ 45 :: (paddedDecimal 2 u.date.month ++
    45 :: (paddedDecimal 2 u.date.day ++ 84 :: (paddedDecimal 2 u.hour ++
      58 :: (paddedDecimal 2 u.minute ++ 58 :: paddedDecimal 2 u.second))))

lemma UtcTime.length_text {u : UtcTime} (hyear : u.date.year ≤ 9999) : u.text.length = 19 := by
  have hmonth := u.date.month_le
  have hday := u.date.day_le_thirtyOne
  have hhour := u.hour_lt
  have hminute := u.minute_lt
  have hsecond := u.second_lt
  simp only [text, List.length_append, List.length_cons]
  rw [length_paddedDecimal (by omega) (by omega), length_paddedDecimal (by omega) (by omega),
    length_paddedDecimal (by omega) (by omega), length_paddedDecimal (by omega) (by omega),
    length_paddedDecimal (by omega) (by omega), length_paddedDecimal (by omega) (by omega)]

/-- No byte of a time is below the hyphen. -/
lemma UtcTime.le_of_mem_text {u : UtcTime} {c : UInt8} (h : c ∈ u.text) : 45 ≤ c.toNat := by
  have hdigit {width n : ℕ} (hc : c ∈ paddedDecimal width n) : 45 ≤ c.toNat := by
    have hbound := (isDigit_of_mem_paddedDecimal hc).1
    omega
  simp only [text, List.mem_append, List.mem_cons] at h
  obtain h | rfl | h | rfl | h | rfl | h | rfl | h | rfl | h := h
  all_goals first
    | exact hdigit h
    | decide

/-! ## The reader -/

/-- Reads one byte off the front. -/
def readByte (c : UInt8) : List UInt8 → Option (List UInt8)
  | [] => none
  | b :: rest => if b = c then some rest else none

@[simp] lemma readByte_cons (c : UInt8) (rest : List UInt8) :
    readByte c (c :: rest) = some rest := if_pos rfl

/-- The end of a time: `Z`, or a point, digits and `Z`. -/
def readFraction (bytes : List UInt8) : Option ℚ :=
  if bytes = [90] then
    some 0
  else do
    let bytes ← readByte 46 bytes
    let digits := bytes.takeWhile IsDigit
    if digits ≠ [] ∧ bytes = digits ++ [90] then
      some (digitsValue digits / 10 ^ digits.length)
    else
      none

/-- Reads a number of `k` digits and the separator behind it. -/
def readNumber (k : ℕ) (c : UInt8) (bytes : List UInt8) : Option (ℕ × List UInt8) := do
  let (n, bytes) ← readDigits k bytes
  let bytes ← readByte c bytes
  some (n, bytes)

/-- Reads a time, as seconds since the beginning of 1970. -/
def readTime (bytes : List UInt8) : Option ℚ := do
  let (year, bytes) ← readNumber 4 45 bytes
  let (month, bytes) ← readNumber 2 45 bytes
  let (day, bytes) ← readNumber 2 84 bytes
  let (hour, bytes) ← readNumber 2 58 bytes
  let (minute, bytes) ← readNumber 2 58 bytes
  let (second, bytes) ← readDigits 2 bytes
  let fraction ← readFraction bytes
  let time ← UtcTime.ofFields year month day hour minute second
  some (time.seconds + fraction)

/-! ## Reading what was printed -/

lemma readNumber_bind {β : Type*} {k n : ℕ} (hpos : 0 < k) (h : n < 10 ^ k) (c : UInt8)
    (rest : List UInt8) (f : ℕ × List UInt8 → Option β) :
    (readNumber k c (paddedDecimal k n ++ c :: rest)).bind f = f (n, rest) := by
  rw [readNumber, readDigits_paddedDecimal hpos h]
  exact congrArg (fun r => Option.bind (Option.bind r fun b => some (n, b)) f)
    (readByte_cons c rest)

lemma readFraction_digits {digits : List UInt8} (hne : digits ≠ []) (h : ∀ c ∈ digits, IsDigit c) :
    readFraction (46 :: (digits ++ [90])) = some (digitsValue digits / 10 ^ digits.length : ℚ) := by
  have hdigits : (digits ++ [90]).takeWhile IsDigit = digits := by
    rw [List.takeWhile_append_of_pos (by simpa using h), List.takeWhile_cons_of_neg (by decide),
      List.append_nil]
  have hlong : (46 : UInt8) :: (digits ++ [90]) ≠ [90] := by simp
  rw [readFraction, if_neg hlong, readByte_cons, Option.bind_eq_bind, Option.bind_some, hdigits,
    if_pos ⟨hne, rfl⟩]

/-- **A printed time is read back**, and what follows it is read as the fraction. -/
theorem readTime_text {u : UtcTime} (hyear : u.date.year ≤ 9999) (bytes : List UInt8) :
    readTime (u.text ++ bytes) =
      (readFraction bytes).map fun fraction => (u.seconds : ℚ) + fraction := by
  have hmonth := u.date.month_le
  have hday := u.date.day_le_thirtyOne
  have hhour := u.hour_lt
  have hminute := u.minute_lt
  have hsecond := u.second_lt
  have hread : readTime (u.text ++ bytes) = (readFraction bytes).bind fun fraction =>
      (UtcTime.ofFields u.date.year u.date.month u.date.day u.hour u.minute u.second).bind
        fun time => some (time.seconds + fraction) := by
    simp only [readTime, UtcTime.text, List.append_assoc, List.cons_append]
    refine (readNumber_bind (by omega) (by omega) _ _ _).trans ?_
    refine (readNumber_bind (by omega) (by omega) _ _ _).trans ?_
    refine (readNumber_bind (by omega) (by omega) _ _ _).trans ?_
    refine (readNumber_bind (by omega) (by omega) _ _ _).trans ?_
    refine (readNumber_bind (by omega) (by omega) _ _ _).trans ?_
    exact congrArg (Option.bind · _) (readDigits_paddedDecimal (by omega) (by omega) bytes)
  rw [hread, UtcTime.ofFields_self]
  cases readFraction bytes with
  | none => rfl
  | some fraction => rfl

end InfiTracing.Framework
