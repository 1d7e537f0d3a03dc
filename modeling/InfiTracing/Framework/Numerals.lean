import Mathlib.Data.Nat.Digits.Defs
import Mathlib.Tactic.IntervalCases

/-!
# Numerals as bytes

`numeral b n` is the text `printf` prints for the number `n` in base `b`: the characters of
`Nat.toDigits`, one byte each.  The two equations `numeral_of_lt` and `numeral_of_le` follow
the digits from the last one up, so a property of the text of every number is an induction on
the number.
-/

namespace InfiTracing.Framework

/-- The byte of one digit. -/
def digitByte (d : ℕ) : UInt8 := UInt8.ofNat (Nat.digitChar d).toNat

/-- The text of `n` in base `b`. -/
def numeral (b n : ℕ) : List UInt8 := (Nat.toDigits b n).map fun c => UInt8.ofNat c.toNat

variable {b n : ℕ}

lemma numeral_of_lt (h : n < b) : numeral b n = [digitByte n] := by
  simp [numeral, Nat.toDigits_of_lt_base h, digitByte]

lemma numeral_of_le (hb : 1 < b) (h : b ≤ n) :
    numeral b n = numeral b (n / b) ++ [digitByte (n % b)] := by
  simp [numeral, Nat.toDigits_of_base_le hb h, digitByte]

lemma length_numeral_le_iff {k : ℕ} (hb : 1 < b) (hk : 0 < k) :
    (numeral b n).length ≤ k ↔ n < b ^ k := by
  simpa [numeral] using Nat.length_toDigits_le_iff hb hk

lemma digitByte_ne_zero {d : ℕ} (h : d < 16) : digitByte d ≠ 0 := by
  interval_cases d <;> decide

/-- A numeral has no NUL in it. -/
lemma zero_notMem_numeral (hb : 1 < b) (hb' : b ≤ 16) : 0 ∉ numeral b n := by
  induction n using Nat.strong_induction_on with
  | _ n ih =>
      rcases lt_or_ge n b with hlt | hge
      · rw [numeral_of_lt hlt, List.mem_singleton]
        exact (digitByte_ne_zero (hlt.trans_le hb')).symm
      · have hmod : n % b < 16 := (Nat.mod_lt n (by omega)).trans_le hb'
        rw [numeral_of_le hb hge, List.mem_append, List.mem_singleton, not_or]
        exact ⟨ih _ (Nat.div_lt_self (by omega) hb), (digitByte_ne_zero hmod).symm⟩

/-- The decimal text of an integer. -/
def decimal (z : ℤ) : List UInt8 :=
  if z < 0 then 45 :: numeral 10 z.natAbs else numeral 10 z.natAbs

lemma decimal_natCast (n : ℕ) : decimal n = numeral 10 n := by
  rw [decimal, if_neg (Int.natCast_nonneg n).not_gt, Int.natAbs_natCast]

lemma zero_notMem_decimal (z : ℤ) : 0 ∉ decimal z := by
  have hdigits : 0 ∉ numeral 10 z.natAbs := zero_notMem_numeral (by norm_num) (by norm_num)
  unfold decimal
  split
  · simpa using hdigits
  · exact hdigits

/-- An integer of fewer than `k` decimal digits takes at most one more byte. -/
lemma length_decimal_le {z : ℤ} {k : ℕ} (hk : 0 < k) (h : z.natAbs < 10 ^ k) :
    (decimal z).length ≤ k + 1 := by
  have hdigits : (numeral 10 z.natAbs).length ≤ k :=
    (length_numeral_le_iff (by norm_num) hk).mpr h
  unfold decimal
  split
  · simpa using hdigits
  · omega

lemma toNat_digitByte {d : ℕ} (h : d < 10) : (digitByte d).toNat = 48 + d := by
  interval_cases d <;> rfl

/-! ## Reading a numeral back -/

lemma mem_numeral {c : UInt8} (h : c ∈ numeral 10 n) : 48 ≤ c.toNat ∧ c.toNat < 58 := by
  induction n using Nat.strong_induction_on with
  | _ n ih =>
      rcases lt_or_ge n 10 with hlt | hge
      · rw [numeral_of_lt hlt, List.mem_singleton] at h
        rw [h, toNat_digitByte hlt]
        omega
      · rw [numeral_of_le (by norm_num) hge, List.mem_append, List.mem_singleton] at h
        rcases h with h | h
        · exact ih _ (Nat.div_lt_self (by omega) (by norm_num)) h
        · have hmod : n % 10 < 10 := Nat.mod_lt n (by norm_num)
          rw [h, toNat_digitByte hmod]
          omega

lemma mem_decimal {c : UInt8} {z : ℤ} (h : c ∈ decimal z) :
    c = 45 ∨ (48 ≤ c.toNat ∧ c.toNat < 58) := by
  unfold decimal at h
  split at h
  · rcases List.mem_cons.mp h with rfl | h
    · exact .inl rfl
    · exact .inr (mem_numeral h)
  · exact .inr (mem_numeral h)

/-- Different numbers have different numerals, by induction on the digits from the last one up. -/
lemma numeral_injective {n' : ℕ} (h : numeral 10 n = numeral 10 n') : n = n' := by
  induction n using Nat.strong_induction_on generalizing n' with
  | _ n ih =>
      have hlast {d d' : ℕ} (hd : d < 10) (hd' : d' < 10) (heq : digitByte d = digitByte d') :
          d = d' := by
        have hnat := congrArg UInt8.toNat heq
        rw [toNat_digitByte hd, toNat_digitByte hd'] at hnat
        omega
      have hlong {k : ℕ} (hk : 10 ≤ k) {d : UInt8} : numeral 10 k ≠ [d] := by
        intro heq
        have hshort := (length_numeral_le_iff (by norm_num : 1 < 10) one_pos).mp
          (congrArg List.length heq).le
        omega
      rcases lt_or_ge n 10 with hlt | hge
      · rw [numeral_of_lt hlt] at h
        rcases lt_or_ge n' 10 with hlt' | hge'
        · rw [numeral_of_lt hlt'] at h
          exact hlast hlt hlt' (List.singleton_inj.mp h)
        · exact absurd h.symm (hlong hge')
      · rcases lt_or_ge n' 10 with hlt' | hge'
        · rw [numeral_of_lt hlt'] at h
          exact absurd h (hlong hge)
        · rw [numeral_of_le (by norm_num) hge, numeral_of_le (by norm_num) hge'] at h
          obtain ⟨hinit, hdigit⟩ := List.append_inj' h rfl
          have hquot := ih _ (Nat.div_lt_self (by omega) (by norm_num)) hinit
          have hmod := hlast (Nat.mod_lt n (by norm_num)) (Nat.mod_lt n' (by norm_num))
            (List.singleton_inj.mp hdigit)
          omega

/-- A text is the decimal text of one natural number at most, and then of no other integer. -/
lemma eq_of_decimal_eq {z : ℤ} (h : decimal z = decimal n) : z = n := by
  rw [decimal_natCast] at h
  unfold decimal at h
  split at h
  · have hminus : (45 : UInt8) ∈ numeral 10 n := h ▸ List.mem_cons_self
    exact absurd (mem_numeral hminus).1 (by decide)
  · have habs := numeral_injective h
    omega

/-! ## Numerals of a fixed width -/

/-- The decimal text of an integer, filled up to the width with zeros behind the sign. -/
def paddedDecimal (width : ℕ) (z : ℤ) : List UInt8 :=
  (if z < 0 then [45] else []) ++
    (List.replicate (width - (decimal z).length) 48 ++ numeral 10 z.natAbs)

lemma zero_notMem_paddedDecimal (width : ℕ) (z : ℤ) : 0 ∉ paddedDecimal width z := by
  have hdigits : 0 ∉ numeral 10 z.natAbs := zero_notMem_numeral (by norm_num) (by norm_num)
  have hzeros : (0 : UInt8) ∉ List.replicate (width - (decimal z).length) 48 :=
    fun h => absurd (List.eq_of_mem_replicate h) (by decide)
  unfold paddedDecimal
  split <;> simp [hdigits, hzeros]

lemma paddedDecimal_natCast (width n : ℕ) : paddedDecimal width n =
    List.replicate (width - (numeral 10 n).length) 48 ++ numeral 10 n := by
  rw [paddedDecimal, decimal_natCast, if_neg (Int.natCast_nonneg n).not_gt, Int.natAbs_natCast,
    List.nil_append]

lemma length_paddedDecimal {width : ℕ} (hpos : 0 < width) (h : n < 10 ^ width) :
    (paddedDecimal width n).length = width := by
  have hle : (numeral 10 n).length ≤ width :=
    (length_numeral_le_iff (by norm_num) hpos).mpr h
  rw [paddedDecimal_natCast, List.length_append, List.length_replicate]
  omega

/-- The byte of a decimal digit. -/
def IsDigit (c : UInt8) : Prop := 48 ≤ c.toNat ∧ c.toNat < 58

instance : DecidablePred IsDigit := fun _ => inferInstanceAs (Decidable (_ ∧ _))

lemma isDigit_of_mem_paddedDecimal {width : ℕ} {c : UInt8} (h : c ∈ paddedDecimal width n) :
    IsDigit c := by
  rw [paddedDecimal_natCast, List.mem_append] at h
  rcases h with hzero | hdigit
  · rw [List.eq_of_mem_replicate hzero]
    decide
  · exact mem_numeral hdigit

/-- The number that digits write. -/
def digitsValue (digits : List UInt8) : ℕ :=
  digits.foldl (fun n c => 10 * n + (c.toNat - 48)) 0

lemma digitsValue_numeral (n : ℕ) : digitsValue (numeral 10 n) = n := by
  induction n using Nat.strong_induction_on with
  | _ n ih =>
      rcases lt_or_ge n 10 with hlt | hge
      · rw [numeral_of_lt hlt]
        simp [digitsValue, toNat_digitByte hlt]
      · have hinit := ih _ (Nat.div_lt_self (by omega) (by norm_num : 1 < 10))
        have hmod : n % 10 < 10 := Nat.mod_lt n (by norm_num)
        rw [digitsValue] at hinit
        rw [numeral_of_le (by norm_num) hge, digitsValue, List.foldl_append, hinit,
          List.foldl_cons, List.foldl_nil, toNat_digitByte hmod]
        omega

lemma digitsValue_paddedDecimal (width n : ℕ) : digitsValue (paddedDecimal width n) = n := by
  have hzeros (k : ℕ) : digitsValue (List.replicate k 48) = 0 := by
    induction k with
    | zero => rfl
    | succ k ih =>
        rw [List.replicate_succ, digitsValue, List.foldl_cons]
        exact ih
  rw [paddedDecimal_natCast, digitsValue, List.foldl_append, ← digitsValue, hzeros, ← digitsValue,
    digitsValue_numeral]

/-- Reads an integer: digits, and a minus before them if it is negative. -/
def readDecimal (bytes : List UInt8) : Option ℤ :=
  match bytes with
  | [] => none
  | c :: digits =>
      if c = 45 then if digits ≠ [] ∧ digits.all IsDigit then some (-digitsValue digits) else none
      else if (c :: digits).all IsDigit then some (digitsValue (c :: digits)) else none

lemma all_isDigit_numeral (n : ℕ) : (numeral 10 n).all IsDigit = true := by
  rw [List.all_eq_true]
  exact fun c hc => decide_eq_true (mem_numeral hc)

lemma numeral_ne_nil (n : ℕ) : numeral 10 n ≠ [] := by
  rcases lt_or_ge n 10 with hlt | hge
  · simp [numeral_of_lt hlt]
  · simp [numeral_of_le (by norm_num) hge]

/-- The decimal text of an integer is read back. -/
lemma readDecimal_decimal (z : ℤ) : readDecimal (decimal z) = some z := by
  unfold decimal
  split
  · next hneg =>
      rw [readDecimal, if_pos rfl, if_pos ⟨numeral_ne_nil _, all_isDigit_numeral _⟩,
        digitsValue_numeral]
      congr 1
      omega
  · next hnonneg =>
      have hall := all_isDigit_numeral z.natAbs
      obtain ⟨c, digits, hnumeral⟩ := List.exists_cons_of_ne_nil (numeral_ne_nil z.natAbs)
      have hdigit : IsDigit c := mem_numeral (hnumeral ▸ List.mem_cons_self)
      have hminus : c ≠ 45 := by
        rintro rfl
        exact absurd hdigit.1 (by decide)
      rw [hnumeral] at hall ⊢
      rw [readDecimal, if_neg hminus, if_pos hall, ← hnumeral, digitsValue_numeral]
      congr 1
      omega

/-- Reads a number of exactly `k` digits off the front. -/
def readDigits (k : ℕ) (bytes : List UInt8) : Option (ℕ × List UInt8) :=
  if k ≤ bytes.length ∧ (bytes.take k).all IsDigit then
    some (digitsValue (bytes.take k), bytes.drop k)
  else
    none

/-- A number printed at a width it fits in is read back. -/
lemma readDigits_paddedDecimal {k : ℕ} (hpos : 0 < k) (h : n < 10 ^ k) (rest : List UInt8) :
    readDigits k (paddedDecimal k n ++ rest) = some (n, rest) := by
  have hlen : (paddedDecimal k n).length = k := length_paddedDecimal hpos h
  have htake : (paddedDecimal k n ++ rest).take k = paddedDecimal k n := List.take_left' hlen
  have hall : (paddedDecimal k n).all IsDigit = true := by
    rw [List.all_eq_true]
    intro c hc
    exact decide_eq_true (isDigit_of_mem_paddedDecimal hc)
  rw [readDigits, htake, List.drop_left' hlen, digitsValue_paddedDecimal, if_pos]
  refine ⟨?_, hall⟩
  rw [List.length_append]
  omega

end InfiTracing.Framework
