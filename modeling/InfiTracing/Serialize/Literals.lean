import InfiTracing.Serialize.Strings

/-!
# String literals

Whether a truncated string is still a string literal.  `literalRest` reads a literal of Python 2
off the front of a text, one byte at a time: an optional `u`, the opening quote, whole characters
and whole escape sequences, and the same quote.

The `repr`s are those of CPython 2.7, `PyString_Repr` without smart quotes and
`unicodeescape_string` with quotes, in a build with wide or with narrow characters.  Both are
quotes around one piece for each character, and a piece is a character or an escape sequence
(`Piece`).  A literal that is cut between two pieces and closed with its own quote is a literal
again; any other cut is none (`literalRest_cut`).
-/

namespace InfiTracing.Serialize

open Framework

/-! ## Reading a literal -/

/-- Inside a literal: between characters, behind a backslash, or with a number of hexadecimal
digits to come. -/
inductive Scan
  | chars
  | backslash
  | hex (left : ℕ)
  deriving DecidableEq, Repr

def isHexDigit (c : UInt8) : Bool := (48 ≤ c && c ≤ 57) || (97 ≤ c && c ≤ 102) || (65 ≤ c && c ≤ 70)

/-- Where the reader is behind the character after a backslash; `\u` and `\U` are escape sequences
in `unicode` literals only.  Named characters, `\N{..}`, are in no `repr`, and no state is kept for
them. -/
def Scan.afterBackslash (isUnicode : Bool) (c : UInt8) : Scan :=
  if c = 120 then .hex 2
  else if isUnicode && c == 117 then .hex 4
  else if isUnicode && c == 85 then .hex 8
  else .chars

/-- What follows the closing quote, if there is one. -/
def scan (isUnicode : Bool) (quote : UInt8) : Scan → List UInt8 → Option (List UInt8)
  | _, [] => none
  | .chars, c :: rest =>
      if c = quote then some rest
      else if c = 92 then scan isUnicode quote .backslash rest
      else if c = 10 then none
      else scan isUnicode quote .chars rest
  | .backslash, c :: rest => scan isUnicode quote (.afterBackslash isUnicode c) rest
  | .hex left, c :: rest =>
      if isHexDigit c then scan isUnicode quote (if left ≤ 1 then .chars else .hex (left - 1)) rest
      else none

/-- Behind the optional `u`. -/
def quotedRest (isUnicode : Bool) : List UInt8 → Option (List UInt8)
  | [] => none
  | c :: rest => if c = 39 ∨ c = 34 then scan isUnicode c .chars rest else none

/-- What follows the string literal at the front of a text, if there is one. -/
def literalRest (text : List UInt8) : Option (List UInt8) :=
  if text.head? = some 117 then quotedRest true text.tail else quotedRest false text

/-! ## The `repr`s of CPython 2.7 -/

/-- The last `w` hexadecimal digits of a number. -/
def hexDigits : ℕ → ℕ → List UInt8
  | 0, _ => []
  | w + 1, n => hexDigits w (n / 16) ++ [digitByte (n % 16)]

/-- One byte in `PyString_Repr`. -/
def escapeByte (c : UInt8) : List UInt8 :=
  if c = 39 ∨ c = 92 then [92, c]
  else if c = 9 then [92, 116]
  else if c = 10 then [92, 110]
  else if c = 13 then [92, 114]
  else if c < 32 ∨ 127 ≤ c then 92 :: 120 :: hexDigits 2 c.toNat
  else [c]

/-- One character in `unicodeescape_string`, other than a surrogate pair. -/
def escapeUnit (wide : Bool) (quote : UInt8) (u : UInt32) : List UInt8 :=
  if u = quote.toUInt32 ∨ u = 92 then [92, u.toUInt8]
  else if wide && 65536 ≤ u then 92 :: 85 :: hexDigits 8 u.toNat
  else if 256 ≤ u then 92 :: 117 :: hexDigits 4 u.toNat
  else if u = 9 then [92, 116]
  else if u = 10 then [92, 110]
  else if u = 13 then [92, 114]
  else if u < 32 ∨ 127 ≤ u then 92 :: 120 :: hexDigits 2 u.toNat
  else [u.toUInt8]

/-- The escaped characters in `unicodeescape_string`; narrow characters may form surrogate
pairs. -/
def escapeUnits (wide : Bool) (quote : UInt8) : List UInt32 → List (List UInt8)
  | [] => []
  | [u] => [escapeUnit wide quote u]
  | u :: v :: rest =>
      if !wide && 0xD800 ≤ u && u < 0xDC00 && 0xDC00 ≤ v && v ≤ 0xDFFF then
        (92 :: 85 :: hexDigits 8 ((u.toNat % 1024) * 1024 + v.toNat % 1024 + 65536)) ::
          escapeUnits wide quote rest
      else escapeUnit wide quote u :: escapeUnits wide quote (v :: rest)

/-- `u"` only around a text with `'` and without `"`. -/
def unicodeQuote (units : List UInt32) : UInt8 := if 39 ∈ units ∧ 34 ∉ units then 34 else 39

/-- The letter, and quotes around the pieces. -/
def quoted (isUnicode : Bool) (quote : UInt8) (pieces : List (List UInt8)) : List UInt8 :=
  (if isUnicode then [117] else []) ++ quote :: pieces.flatten ++ [quote]

/-! ## Pieces -/

section Reading

variable {isUnicode : Bool} {quote : UInt8}

lemma scan_chars (c : UInt8) (rest : List UInt8) :
    scan isUnicode quote .chars (c :: rest) =
      if c = quote then some rest
      else if c = 92 then scan isUnicode quote .backslash rest
      else if c = 10 then none
      else scan isUnicode quote .chars rest := rfl

/-- A text without the quote closes nothing. -/
lemma scan_eq_none {text : List UInt8} (h : quote ∉ text) (state : Scan) :
    scan isUnicode quote state text = none := by
  induction text generalizing state with
  | nil => cases state <;> rfl
  | cons c rest ih =>
      rw [List.mem_cons, not_or] at h
      obtain ⟨hc, hrest⟩ := h
      cases state with
      | chars =>
          rw [scan_chars, if_neg (Ne.symm hc), ih hrest, ih hrest]
          split
          · rfl
          · exact ite_self none
      | backslash => exact ih hrest _
      | hex left =>
          unfold scan
          rw [ih hrest, ite_self]

/-- What one character becomes in a literal: the reader is through with it at its end and not
before, whatever follows, and there is no NUL in it. -/
structure Piece (isUnicode : Bool) (quote : UInt8) (p : List UInt8) : Prop where
  noNul : 0 ∉ p
  whole : ∀ rest, scan isUnicode quote .chars (p ++ rest) = scan isUnicode quote .chars rest
  cut : ∀ rest, quote ∉ rest → ∀ j, 0 < j → j < p.length →
    scan isUnicode quote .chars (p.take j ++ 39 :: rest) = none

lemma piece_char {c : UInt8} (hnul : c ≠ 0) (hquote : c ≠ quote) (hslash : c ≠ 92)
    (hline : c ≠ 10) :
    Piece isUnicode quote [c] where
  noNul := fun h => hnul (List.mem_singleton.mp h).symm
  whole rest := by
    show scan isUnicode quote .chars (c :: rest) = _
    rw [scan_chars, if_neg hquote, if_neg hslash, if_neg hline]
  cut rest _ j hpos hlt := by
    rw [List.length_singleton] at hlt
    omega

/-- A backslash is no quote. -/
lemma scan_backslash (hquote : quote ≠ 92) (rest : List UInt8) :
    scan isUnicode quote .chars (92 :: rest) = scan isUnicode quote .backslash rest := by
  rw [scan_chars, if_neg hquote.symm, if_pos rfl]

/-- Behind a backslash the quote that closes a cut text is a character. -/
lemma scan_backslash_quote (hquote : quote ≠ 92) {rest : List UInt8} (h : quote ∉ rest) :
    scan isUnicode quote .chars (92 :: 39 :: rest) = none := by
  rw [scan_backslash hquote]
  exact scan_eq_none h _

lemma piece_escape {c : UInt8} (hquote : quote ≠ 92) (hnul : c ≠ 0)
    (hc : Scan.afterBackslash isUnicode c = .chars) : Piece isUnicode quote [92, c] where
  noNul h := by
    rcases List.mem_cons.mp h with h | h
    · cases h
    · exact hnul (List.mem_singleton.mp h).symm
  whole rest := by
    show scan isUnicode quote .chars (92 :: c :: rest) = _
    rw [scan_backslash hquote]
    show scan isUnicode quote (.afterBackslash isUnicode c) rest = _
    rw [hc]
  cut rest h j hpos hlt := by
    obtain rfl : j = 1 := by
      rw [List.length_cons, List.length_singleton] at hlt
      omega
    exact scan_backslash_quote hquote h

/-- All the digits of an escape sequence. -/
lemma scan_hex {digits : List UInt8} (hpos : digits ≠ [])
    (hdigits : ∀ d ∈ digits, isHexDigit d = true) (rest : List UInt8) :
    scan isUnicode quote (.hex digits.length) (digits ++ rest) =
      scan isUnicode quote .chars rest := by
  induction digits with
  | nil => exact absurd rfl hpos
  | cons d digits ih =>
      show (if isHexDigit d = true then
        scan isUnicode quote (if digits.length + 1 ≤ 1 then .chars else .hex digits.length)
          (digits ++ rest) else none) = _
      rw [if_pos (hdigits d List.mem_cons_self)]
      cases digits with
      | nil => rfl
      | cons d' digits =>
          rw [if_neg (by rw [List.length_cons]; omega)]
          exact ih (List.cons_ne_nil _ _) fun x hx => hdigits x (List.mem_cons_of_mem _ hx)

/-- Too few digits, as the quote that closes a cut text is none. -/
lemma scan_hex_cut {digits : List UInt8} (rest : List UInt8) {left : ℕ} (h : digits.length < left) :
    scan isUnicode quote (.hex left) (digits ++ 39 :: rest) = none := by
  induction digits generalizing left with
  | nil => rfl
  | cons d digits ih =>
      rw [List.length_cons] at h
      show (if isHexDigit d = true then
        scan isUnicode quote (if left ≤ 1 then .chars else .hex (left - 1))
          (digits ++ 39 :: rest) else none) = _
      rw [if_neg (by omega : ¬ left ≤ 1), ih (by omega), ite_self]

lemma piece_hex {c : UInt8} {digits : List UInt8} (hquote : quote ≠ 92) (hnul : c ≠ 0)
    (hc : Scan.afterBackslash isUnicode c = .hex digits.length) (hpos : digits ≠ [])
    (hdigits : ∀ d ∈ digits, isHexDigit d = true) :
    Piece isUnicode quote (92 :: c :: digits) where
  noNul h := by
    rcases List.mem_cons.mp h with h | h
    · cases h
    · rcases List.mem_cons.mp h with h | h
      · exact hnul h.symm
      · exact absurd (hdigits 0 h) (by decide)
  whole rest := by
    show scan isUnicode quote .chars (92 :: c :: (digits ++ rest)) = _
    rw [scan_backslash hquote]
    show scan isUnicode quote (.afterBackslash isUnicode c) (digits ++ rest) = _
    rw [hc, scan_hex hpos hdigits]
  cut rest h j hpos' hlt := by
    rw [List.length_cons, List.length_cons] at hlt
    rcases j with - | - | j
    · omega
    · exact scan_backslash_quote hquote h
    · show scan isUnicode quote .chars (92 :: c :: (digits.take j ++ 39 :: rest)) = none
      rw [scan_backslash hquote]
      show scan isUnicode quote (.afterBackslash isUnicode c) (digits.take j ++ 39 :: rest) = none
      rw [hc]
      exact scan_hex_cut rest (by rw [List.length_take]; omega)

end Reading

/-! ## The pieces of a `repr` -/

lemma length_hexDigits (w n : ℕ) : (hexDigits w n).length = w := by
  induction w generalizing n with
  | zero => rfl
  | succ w ih => rw [hexDigits, List.length_append, ih, List.length_singleton]

lemma isHexDigit_digitByte {d : ℕ} (h : d < 16) : isHexDigit (digitByte d) = true := by
  interval_cases d <;> decide

lemma isHexDigit_of_mem {w n : ℕ} {d : UInt8} (h : d ∈ hexDigits w n) : isHexDigit d = true := by
  induction w generalizing n with
  | zero => cases h
  | succ w ih =>
      rcases List.mem_append.mp h with h | h
      · exact ih h
      · rw [List.mem_singleton.mp h]
        exact isHexDigit_digitByte (Nat.mod_lt n (by norm_num))

lemma piece_hexDigits {isUnicode : Bool} {quote c : UInt8} {w : ℕ} (hquote : quote ≠ 92)
    (hnul : c ≠ 0) (hw : 0 < w) (hc : Scan.afterBackslash isUnicode c = .hex w) (n : ℕ) :
    Piece isUnicode quote (92 :: c :: hexDigits w n) := by
  have hlength := length_hexDigits w n
  refine piece_hex hquote hnul (by rw [hlength, hc]) (fun hnil => ?_) fun d => isHexDigit_of_mem
  rw [hnil] at hlength
  exact hw.ne hlength

lemma piece_escapeByte (c : UInt8) : Piece false 39 (escapeByte c) := by
  have hslash : (39 : UInt8) ≠ 92 := by decide
  unfold escapeByte
  split_ifs with hspecial htab hline hreturn hrange
  · rcases hspecial with rfl | rfl
    · exact piece_escape hslash (by decide) rfl
    · exact piece_escape hslash (by decide) rfl
  · exact piece_escape hslash (by decide) rfl
  · exact piece_escape hslash (by decide) rfl
  · exact piece_escape hslash (by decide) rfl
  · exact piece_hexDigits hslash (by decide) (by decide) rfl _
  · rw [not_or] at hspecial hrange
    refine piece_char ?_ hspecial.1 hspecial.2 hline
    rintro rfl
    exact hrange.1 (by decide)

section Unicode

variable {quote : UInt8}

lemma piece_escapeUnit (hquote : quote = 39 ∨ quote = 34) (wide : Bool) (u : UInt32) :
    Piece true quote (escapeUnit wide quote u) := by
  have hslash : quote ≠ 92 := by
    rcases hquote with rfl | rfl <;> decide
  unfold escapeUnit
  split_ifs with hspecial hwide hlong htab hline hreturn hrange
  · rcases hspecial with rfl | rfl
    · rcases hquote with rfl | rfl
      · exact piece_escape hslash (by decide) rfl
      · exact piece_escape hslash (by decide) rfl
    · exact piece_escape hslash (by decide) rfl
  · exact piece_hexDigits hslash (by decide) (by decide) rfl _
  · exact piece_hexDigits hslash (by decide) (by decide) rfl _
  · exact piece_escape hslash (by decide) rfl
  · exact piece_escape hslash (by decide) rfl
  · exact piece_escape hslash (by decide) rfl
  · exact piece_hexDigits hslash (by decide) (by decide) rfl _
  · -- a printable character, which is its own byte
    rw [not_or] at hspecial hrange
    have hlt : u.toNat < (256 : UInt32).toNat := UInt32.lt_iff_toNat_lt.mp (UInt32.not_le.mp hlong)
    have hbyte : u.toUInt8.toUInt32 = u := by
      rw [← UInt32.toNat_inj, UInt8.toNat_toUInt32, UInt32.toNat_toUInt8]
      exact Nat.mod_eq_of_lt hlt
    refine piece_char ?_ ?_ ?_ ?_
    · intro h
      rw [← hbyte, h] at hrange
      exact hrange.1 (by decide)
    · intro h
      rw [← hbyte, h] at hspecial
      exact hspecial.1 rfl
    · intro h
      rw [← hbyte, h] at hspecial
      exact hspecial.2 rfl
    · intro h
      rw [← hbyte, h] at hline
      exact hline rfl

lemma piece_escapeUnits (hquote : quote = 39 ∨ quote = 34) (wide : Bool) (units : List UInt32) :
    ∀ p ∈ escapeUnits wide quote units, Piece true quote p := by
  have hslash : quote ≠ 92 := by
    rcases hquote with rfl | rfl <;> decide
  fun_induction escapeUnits wide quote units with
  | case1 =>
      intro p hp
      cases hp
  | case2 u =>
      intro p hp
      rw [List.mem_singleton.mp hp]
      exact piece_escapeUnit hquote wide u
  | case3 u v rest hpair ih =>
      intro p hp
      rcases List.mem_cons.mp hp with rfl | hp
      · exact piece_hexDigits hslash (by decide) (by decide) rfl _
      · exact ih p hp
  | case4 u v rest hpair ih =>
      intro p hp
      rcases List.mem_cons.mp hp with rfl | hp
      · exact piece_escapeUnit hquote wide u
      · exact ih p hp

lemma unicodeQuote_eq (units : List UInt32) :
    unicodeQuote units = 39 ∨ unicodeQuote units = 34 := by
  unfold unicodeQuote
  split
  · exact .inr rfl
  · exact .inl rfl

end Unicode

/-! ## Whole literals and cut ones -/

/-- The first `j` bytes are whole pieces. -/
def Boundary (pieces : List (List UInt8)) (j : ℕ) : Prop :=
  ∃ i ≤ pieces.length, j = (pieces.take i).flatten.length

/-- The first `k` bytes of the literal are its opening quote and whole pieces, and the quote that
closes what is left of it is its own. -/
def CutsClean (isUnicode : Bool) (quote : UInt8) (pieces : List (List UInt8)) (k : ℕ) : Prop :=
  quote = 39 ∧ ∃ j, k = (if isUnicode then 2 else 1) + j ∧ Boundary pieces j

lemma boundary_zero (pieces : List (List UInt8)) : Boundary pieces 0 := ⟨0, Nat.zero_le _, rfl⟩

lemma boundary_cons {p : List UInt8} {pieces : List (List UInt8)} (j : ℕ) :
    Boundary (p :: pieces) (p.length + j) ↔ Boundary pieces j := by
  constructor
  · rintro ⟨i, hi, hj⟩
    cases i with
    | zero =>
        obtain rfl : j = 0 := by
          rw [List.take_zero, List.flatten_nil, List.length_nil] at hj
          omega
        exact boundary_zero pieces
    | succ i =>
        rw [List.take_succ_cons, List.flatten_cons, List.length_append] at hj
        exact ⟨i, Nat.le_of_succ_le_succ hi, by omega⟩
  · rintro ⟨i, hi, rfl⟩
    refine ⟨i + 1, Nat.succ_le_succ hi, ?_⟩
    rw [List.take_succ_cons, List.flatten_cons, List.length_append]

lemma not_boundary_cons {p : List UInt8} {pieces : List (List UInt8)} {j : ℕ} (hpos : 0 < j)
    (h : j < p.length) : ¬ Boundary (p :: pieces) j := by
  rintro ⟨i, -, hj⟩
  cases i with
  | zero => exact hpos.ne' hj
  | succ i =>
      rw [List.take_succ_cons, List.flatten_cons, List.length_append] at hj
      omega

section Cut

variable {isUnicode : Bool} {quote : UInt8} {pieces : List (List UInt8)}

lemma scan_pieces (hpieces : ∀ p ∈ pieces, Piece isUnicode quote p) (rest : List UInt8) :
    scan isUnicode quote .chars (pieces.flatten ++ rest) = scan isUnicode quote .chars rest := by
  induction pieces with
  | nil => rfl
  | cons p pieces ih =>
      rw [List.flatten_cons, List.append_assoc, (hpieces p List.mem_cons_self).whole]
      exact ih fun q hq => hpieces q (List.mem_cons_of_mem p hq)

/-- The quote that closes a cut text, where no piece is left open. -/
lemma scan_closing (hquote : quote = 39 ∨ quote = 34) {rest : List UInt8} (hrest : quote ∉ rest) :
    (quote = 39 ∧ scan isUnicode quote .chars (39 :: rest) = some rest) ∨
      (quote ≠ 39 ∧ scan isUnicode quote .chars (39 :: rest) = none) := by
  rcases hquote with rfl | rfl
  · exact .inl ⟨rfl, rfl⟩
  · exact .inr ⟨by decide, scan_eq_none hrest .chars⟩

/-- The pieces are cut and closed, by induction on the pieces. -/
lemma scan_cut (hpieces : ∀ p ∈ pieces, Piece isUnicode quote p)
    (hquote : quote = 39 ∨ quote = 34) {rest : List UInt8} (hrest : quote ∉ rest) {j : ℕ}
    (hj : j ≤ pieces.flatten.length) :
    ((quote = 39 ∧ Boundary pieces j) ∧
        scan isUnicode quote .chars (pieces.flatten.take j ++ 39 :: rest) = some rest) ∨
      (¬ (quote = 39 ∧ Boundary pieces j) ∧
        scan isUnicode quote .chars (pieces.flatten.take j ++ 39 :: rest) = none) := by
  induction pieces generalizing j with
  | nil =>
      obtain rfl := Nat.le_zero.mp hj
      exact (scan_closing hquote hrest).imp (fun h => ⟨⟨h.1, boundary_zero []⟩, h.2⟩)
        fun h => ⟨fun hand => h.1 hand.1, h.2⟩
  | cons p pieces ih =>
      have hp := hpieces p List.mem_cons_self
      rw [List.flatten_cons] at hj ⊢
      rcases Nat.lt_or_ge j p.length with hlt | hge
      · rw [List.take_append_of_le_length hlt.le]
        rcases Nat.eq_zero_or_pos j with rfl | hpos
        · exact (scan_closing hquote hrest).imp (fun h => ⟨⟨h.1, boundary_zero _⟩, h.2⟩)
            fun h => ⟨fun hand => h.1 hand.1, h.2⟩
        · exact .inr ⟨fun hand => not_boundary_cons hpos hlt hand.2, hp.cut rest hrest j hpos hlt⟩
      · obtain ⟨j, rfl⟩ := Nat.exists_eq_add_of_le hge
        rw [List.length_append] at hj
        rw [List.take_length_add_append, List.append_assoc, hp.whole, boundary_cons]
        exact ih (fun q hq => hpieces q (List.mem_cons_of_mem p hq)) (by omega)

lemma literalRest_quote (isUnicode : Bool) (hquote : quote = 39 ∨ quote = 34)
    (text : List UInt8) :
    literalRest ((if isUnicode then [117] else []) ++ quote :: text) =
      scan isUnicode quote .chars text := by
  have hletter : some quote ≠ some 117 := by
    rcases hquote with rfl | rfl <;> decide
  cases isUnicode with
  | true => exact if_pos hquote
  | false => exact (if_neg hletter).trans (if_pos hquote)

/-- A whole literal is read to its end. -/
theorem literalRest_quoted (hpieces : ∀ p ∈ pieces, Piece isUnicode quote p)
    (hquote : quote = 39 ∨ quote = 34) (rest : List UInt8) :
    literalRest (quoted isUnicode quote pieces ++ rest) = some rest := by
  have htext : quoted isUnicode quote pieces ++ rest =
      (if isUnicode then [117] else []) ++ quote :: (pieces.flatten ++ quote :: rest) := by
    simp only [quoted, List.append_assoc, List.cons_append, List.nil_append]
  rw [htext, literalRest_quote isUnicode hquote, scan_pieces hpieces, scan_chars, if_pos rfl]

lemma quoted_eq (isUnicode : Bool) (quote : UInt8) (pieces : List (List UInt8)) :
    quoted isUnicode quote pieces =
      ((if isUnicode then [117] else []) ++ [quote]) ++ (pieces.flatten ++ [quote]) := by
  simp only [quoted, List.append_assoc, List.cons_append, List.nil_append]

lemma length_opening (isUnicode : Bool) (quote : UInt8) :
    ((if isUnicode then [117] else []) ++ [quote]).length = if isUnicode then 2 else 1 := by
  cases isUnicode <;> rfl

/-- **A literal that is cut and closed with a single quote** is a literal again exactly when it is
cut behind its opening quote and between two pieces, and that quote is single. -/
theorem literalRest_cut (hpieces : ∀ p ∈ pieces, Piece isUnicode quote p)
    (hquote : quote = 39 ∨ quote = 34) {rest : List UInt8} (hsingle : 39 ∉ rest)
    (hdouble : 34 ∉ rest) {k : ℕ} (hpos : 0 < k)
    (hk : k + 2 ≤ (quoted isUnicode quote pieces).length) :
    (CutsClean isUnicode quote pieces k ∧
        literalRest ((quoted isUnicode quote pieces).take k ++ 39 :: rest) = some rest) ∨
      (¬ CutsClean isUnicode quote pieces k ∧
        literalRest ((quoted isUnicode quote pieces).take k ++ 39 :: rest) = none) := by
  have hopening := length_opening isUnicode quote
  have hrest : quote ∉ rest := by
    rcases hquote with rfl | rfl
    · exact hsingle
    · exact hdouble
  rw [quoted_eq] at hk ⊢
  rw [List.length_append, hopening, List.length_append, List.length_singleton] at hk
  rcases Nat.lt_or_ge k (if isUnicode then 2 else 1) with hlt | hge
  · -- only the `u` is left
    cases isUnicode with
    | false => exact absurd (Nat.lt_one_iff.mp hlt) hpos.ne'
    | true =>
        obtain rfl : k = 1 := Nat.le_antisymm (Nat.le_of_lt_succ hlt) hpos
        refine .inr ⟨?_, (literalRest_quote true (.inl rfl) rest).trans (scan_eq_none hsingle _)⟩
        rintro ⟨-, j, hj, -⟩
        rw [if_pos rfl] at hj
        omega
  · obtain ⟨j, rfl⟩ := Nat.exists_eq_add_of_le hge
    have htake :
        (((if isUnicode then [117] else []) ++ [quote]) ++ (pieces.flatten ++ [quote])).take
          ((if isUnicode then 2 else 1) + j) ++ 39 :: rest =
        (if isUnicode then [117] else []) ++ quote :: (pieces.flatten.take j ++ 39 :: rest) := by
      rw [← hopening, List.take_length_add_append, List.take_append_of_le_length (by omega)]
      simp only [List.append_assoc, List.cons_append, List.nil_append]
    have hclean : CutsClean isUnicode quote pieces ((if isUnicode then 2 else 1) + j) ↔
        quote = 39 ∧ Boundary pieces j := by
      refine and_congr_right fun _ => ⟨?_, fun h => ⟨j, rfl, h⟩⟩
      rintro ⟨j', hj', h⟩
      rwa [Nat.add_left_cancel hj']
    rw [htake, literalRest_quote isUnicode hquote, hclean]
    exact scan_cut hpieces hquote hrest (by omega)

end Cut

end InfiTracing.Serialize
