import InfiTracing.TraceMessage.Format
import InfiTracing.Framework.Rfc3339
import InfiTracing.Framework.Fields
import Mathlib.Tactic.FieldSimp

/-!
# The time of a message as text

`FileTraceDump::process` and the RFC 5424 branch of `SyslogTraceDump::format_message` print the
timestamp of a message, in milliseconds since the beginning of 1970, with the same code: the
date and the time of day that `gmtime_r` gives for its seconds, and its milliseconds behind a
point, if there are any.

The milliseconds are printed at a width of six digits, which are microseconds to a reader of
the time.  `readTime_isoTime` says what such a reader makes of it.
-/

namespace InfiTracing

open Framework

namespace CString

/-- `%04d` and the like. -/
def paddedDecimal (width : ℕ) (z : ℤ) : CString :=
  ⟨Framework.paddedDecimal width z, zero_notMem_paddedDecimal width z⟩

/-- The text of a message, as `%s` prints it. -/
def ofMessage (m : TraceMessage) : CString := ofBuffer m.buffer

lemma ofMessage_val (m : TraceMessage) : (ofMessage m).1 = m.text := rfl

end CString

/-! ## The printers -/

/-- `struct tm`. -/
structure Tm where
  tmYear : ℤ
  tmMon : ℤ
  tmMday : ℤ
  tmHour : ℤ
  tmMin : ℤ
  tmSec : ℤ
  deriving Repr, DecidableEq

/-- `gmtime_r(&t, ..)`. -/
def gmtimeR (t : ℕ) : Tm where
  tmYear := (UtcTime.ofSeconds t).date.year - 1900
  tmMon := (UtcTime.ofSeconds t).date.month - 1
  tmMday := (UtcTime.ofSeconds t).date.day
  tmHour := (UtcTime.ofSeconds t).hour
  tmMin := (UtcTime.ofSeconds t).minute
  tmSec := (UtcTime.ofSeconds t).second

/-- `sprintf(iso_time, "%04d-%02d-%02dT%02d:%02d:%02d", ..)`. -/
def Tm.print (tm : Tm) : CString :=
  .paddedDecimal 4 (tm.tmYear + 1900) ++ .literal "-" ++ .paddedDecimal 2 (tm.tmMon + 1) ++
    .literal "-" ++ .paddedDecimal 2 tm.tmMday ++ .literal "T" ++ .paddedDecimal 2 tm.tmHour ++
    .literal ":" ++ .paddedDecimal 2 tm.tmMin ++ .literal ":" ++ .paddedDecimal 2 tm.tmSec

/-- The array `iso_time` for the timestamp `ts`. -/
def isoTime (ts : ℕ) : CString :=
  if ts % 1000 ≠ 0 then
    (gmtimeR (ts / 1000)).print ++ .literal "." ++ .paddedDecimal 6 (ts % 1000 : ℕ)
  else
    (gmtimeR (ts / 1000)).print

/-- What `FileTraceDump::process` prints for a message: `"%sZ\t%s\n"`. -/
def FileTraceDump.line (m : TraceMessage) : CString :=
  isoTime m.timestamp ++ .literal "Z\t" ++ .ofMessage m ++ .literal "\n"

/-- The time in a line of a trace file: what stands before the tab. -/
def FileTraceDump.readLineTime (line : List UInt8) : Option ℚ := do
  let (time, _) ← cut 9 line
  readTime time

/-! ## Reading the time back -/

/-- The year of a timestamp. -/
def utcYear (ts : ℕ) : ℕ := (UtcTime.ofSeconds (ts / 1000)).date.year

lemma print_gmtimeR (t : ℕ) : (gmtimeR t).print.1 = (UtcTime.ofSeconds t).text := by
  have hdash : (CString.literal "-").1 = [45] := by decide
  have hletter : (CString.literal "T").1 = [84] := by decide
  have hcolon : (CString.literal ":").1 = [58] := by decide
  simp only [Tm.print, gmtimeR, CString.append_val, CString.paddedDecimal, sub_add_cancel, hdash,
    hletter, hcolon, UtcTime.text, List.append_assoc, List.cons_append, List.nil_append]

/-- The fraction of the second, as it is printed. -/
def fractionText (ts : ℕ) : List UInt8 :=
  if ts % 1000 ≠ 0 then 46 :: Framework.paddedDecimal 6 (ts % 1000 : ℕ) else []

lemma isoTime_val (ts : ℕ) :
    (isoTime ts).1 = (UtcTime.ofSeconds (ts / 1000)).text ++ fractionText ts := by
  have hpoint : (CString.literal ".").1 = [46] := by decide
  unfold isoTime fractionText
  split_ifs with hfrac
  · simp only [CString.append_val, print_gmtimeR, hpoint, CString.paddedDecimal,
      List.append_assoc, List.singleton_append]
  · rw [print_gmtimeR, List.append_nil]

lemma length_isoTime_le {ts : ℕ} (hyear : utcYear ts ≤ 9999) : (isoTime ts).1.length ≤ 26 := by
  have hfraction : (fractionText ts).length ≤ 7 := by
    unfold fractionText
    split_ifs
    · rw [List.length_cons, length_paddedDecimal (by norm_num) (by omega)]
    · exact Nat.zero_le _
  rw [isoTime_val, List.length_append, UtcTime.length_text hyear]
  omega

lemma le_of_mem_isoTime {ts : ℕ} {c : UInt8} (h : c ∈ (isoTime ts).1) : 45 ≤ c.toNat := by
  rw [isoTime_val, List.mem_append] at h
  rcases h with htime | hfraction
  · exact UtcTime.le_of_mem_text htime
  · unfold fractionText at hfraction
    split_ifs at hfraction
    · rcases List.mem_cons.mp hfraction with rfl | hdigit
      · decide
      · have hbound := (isDigit_of_mem_paddedDecimal hdigit).1
        omega
    · exact absurd hfraction List.not_mem_nil

/-- A printed time ends at the first byte that is not in it. -/
lemma cut_isoTime {sep : UInt8} (h : sep.toNat < 45) (ts : ℕ) (rest : List UInt8) :
    cut sep ((isoTime ts).1 ++ 90 :: sep :: rest) = some ((isoTime ts).1 ++ [90], rest) := by
  have hsep : sep ∉ (isoTime ts).1 ++ [90] := by
    rw [List.mem_append, List.mem_singleton]
    rintro (htime | rfl)
    · exact absurd (le_of_mem_isoTime htime) (by omega)
    · exact absurd h (by decide)
  rw [← cut_append hsep, List.append_assoc, List.singleton_append]

/-- The six digits are read as millionths. -/
lemma readFraction_fractionText (ts : ℕ) :
    readFraction (fractionText ts ++ [90]) = some ((ts % 1000 : ℕ) / 10 ^ 6 : ℚ) := by
  unfold fractionText
  split_ifs with hfrac
  · have hlen : (Framework.paddedDecimal 6 (ts % 1000 : ℕ)).length = 6 :=
      length_paddedDecimal (by norm_num) (by omega)
    have hne : Framework.paddedDecimal 6 (ts % 1000 : ℕ) ≠ [] :=
      List.ne_nil_of_length_pos (by omega)
    rw [List.cons_append, readFraction_digits hne fun c => isDigit_of_mem_paddedDecimal,
      digitsValue_paddedDecimal, hlen]
  · rw [not_not.mp hfrac, List.nil_append, readFraction, if_pos rfl]
    simp

/-- **What a reader makes of the printed time**: the seconds, and as many microseconds as the
timestamp has milliseconds. -/
theorem readTime_isoTime {ts : ℕ} (hyear : utcYear ts ≤ 9999) :
    readTime ((isoTime ts).1 ++ [90]) =
      some ((ts / 1000 : ℕ) + (ts % 1000 : ℕ) / 10 ^ 6 : ℚ) := by
  rw [isoTime_val, List.append_assoc, readTime_text hyear, readFraction_fractionText,
    UtcTime.seconds_ofSeconds, Option.map_some, Int.cast_natCast]

/-- The time in a line of the file is the printed one. -/
lemma readLineTime_line (m : TraceMessage) :
    FileTraceDump.readLineTime (FileTraceDump.line m).1 =
      readTime ((isoTime m.timestamp).1 ++ [90]) := by
  have htab : (CString.literal "Z\t").1 = [90, 9] := by decide
  have hcut := cut_isoTime (by decide : (9 : UInt8).toNat < 45) m.timestamp
    (m.text ++ (CString.literal "\n").1)
  simp only [FileTraceDump.readLineTime, FileTraceDump.line, CString.append_val, htab,
    CString.ofMessage_val, List.append_assoc, List.cons_append, List.nil_append, hcut]
  rfl

/-- The time that is read is the timestamp when that is a whole number of seconds. -/
lemma seconds_add_micros_eq_iff (ts : ℕ) :
    ((ts / 1000 : ℕ) + (ts % 1000 : ℕ) / 10 ^ 6 : ℚ) = ts / 1000 ↔ ts % 1000 = 0 := by
  have hsplit : (ts : ℚ) = 1000 * (ts / 1000 : ℕ) + (ts % 1000 : ℕ) := by
    exact_mod_cast (Nat.div_add_mod ts 1000).symm
  constructor
  · intro h
    have hzero : ((ts % 1000 : ℕ) : ℚ) = 0 := by linarith
    exact_mod_cast hzero
  · intro h
    rw [hsplit, h]
    norm_num

end InfiTracing
