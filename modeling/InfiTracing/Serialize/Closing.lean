import InfiTracing.Serialize.Literals

/-!
# Truncated string literals

`str_or_unicode_repr` puts a single quote behind a `repr` it has cut, which is to close the
literal.  `strOrUnicodeRepr_closes_iff` says when it does: the literal must have single quotes
and the cut must fall between two pieces of it.  A cut behind the `u`, in an escape sequence or in
a literal with double quotes leaves no literal, and with 2^31 characters or more the marker has
another number than the length.
-/

namespace InfiTracing.Serialize

open Framework

variable {χ : Type} {m m' : TraceMessage} {isUnicode : Bool} {quote : UInt8}
  {pieces : List (List UInt8)}

/-! ## The `repr` of CPython 2.7 as a C string -/

lemma zero_notMem_quoted (hpieces : ∀ p ∈ pieces, Piece isUnicode quote p)
    (hquote : quote = 39 ∨ quote = 34) : 0 ∉ quoted isUnicode quote pieces := by
  have hletter : 0 ∉ (if isUnicode then [117] else []) ++ [quote] := by
    rcases hquote with rfl | rfl <;> cases isUnicode <;> decide
  have hflat : 0 ∉ pieces.flatten := by
    rw [List.mem_flatten]
    rintro ⟨p, hp, hzero⟩
    exact (hpieces p hp).noNul hzero
  intro h
  rw [quoted_eq] at h
  rcases List.mem_append.mp h with h | h
  · exact hletter h
  · rcases List.mem_append.mp h with h | h
    · exact hflat h
    · exact hletter (List.mem_append_right _ h)

lemma piece_bytes (bytes : List UInt8) : ∀ p ∈ bytes.map escapeByte, Piece false 39 p := by
  intro p hp
  obtain ⟨c, -, rfl⟩ := List.mem_map.mp hp
  exact piece_escapeByte c

lemma piece_units (wide : Bool) (units : List UInt32) :
    ∀ p ∈ escapeUnits wide (unicodeQuote units) units, Piece true (unicodeQuote units) p :=
  piece_escapeUnits (unicodeQuote_eq units) wide units

/-- `PyString_Repr(.., 0)`. -/
def pyStringRepr (bytes : List UInt8) : CString :=
  ⟨quoted false 39 (bytes.map escapeByte), zero_notMem_quoted (piece_bytes bytes) (.inl rfl)⟩

/-- `PyObject_Repr` of a `unicode`, in a build with wide or with narrow characters. -/
def pyUnicodeRepr (wide : Bool) (units : List UInt32) : CString :=
  ⟨quoted true (unicodeQuote units) (escapeUnits wide (unicodeQuote units) units),
    zero_notMem_quoted (piece_units wide units) (unicodeQuote_eq units)⟩

/-! ## What is left of a literal -/

/-- A string literal, and behind it nothing or the marker of a string of `len` characters. -/
def ClosedLiteral (len : ℕ) (text : List UInt8) : Prop :=
  literalRest text = some [] ∨ literalRest text = some (marker len).1

/-- The condition for a string to be shown as a closed literal with `a` bytes available: it is
shown in full, or nothing is, or it has less than 2^31 characters and the `repr` is followed by
the marker uncut or after a clean cut. -/
def KeepsClosed (reprOf : List χ → CString) (chars : List χ) (isUnicode : Bool) (quote : UInt8)
    (pieces : List (List UInt8)) (a : ℤ) : Prop :=
  ShownWhole reprOf chars a ∨ a ≤ (intMarker chars.length).1.length + 2 ∨
    (chars.length < 2 ^ 31 ∧
      (((shownRepr reprOf chars).1.length + (intMarker chars.length).1.length : ℤ) < a ∨
        ∃ k, CutsClean isUnicode quote pieces k ∧
          (k + (intMarker chars.length).1.length + 2 : ℤ) = a))

/-- A marker has no quotes. -/
lemma notMem_intMarker {c : UInt8} (hc : c = 39 ∨ c = 34) (len : ℤ) : c ∉ (intMarker len).1 := by
  have hlow : c.toNat < 45 ∧ c ∉ (CString.literal "... <len=").1 ∧ c ∉ (CString.literal ">").1 := by
    rcases hc with rfl | rfl
    · decide
    · decide
  obtain ⟨hlow, hopening, hclosing⟩ := hlow
  simp only [intMarker, CString.append_val, List.mem_append, not_or]
  refine ⟨⟨hopening, fun h => ?_⟩, hclosing⟩
  rcases mem_decimal h with rfl | ⟨h, -⟩
  · exact absurd hlow (by decide)
  · omega

/-- The marker of the source is the true one for an `int` only. -/
lemma intMarker_eq_iff (len : ℕ) : (intMarker len).1 = (marker len).1 ↔ len < 2 ^ 31 := by
  refine ⟨fun h => ?_, fun h => congrArg Subtype.val (intMarker_eq h)⟩
  simp only [intMarker, marker, CString.append_val] at h
  have hdigits (z : ℤ) : (CString.decimal z).1 = decimal z := rfl
  rw [List.append_left_inj, List.append_right_inj, hdigits, hdigits] at h
  have hint : toInt len = len := eq_of_decimal_eq h
  have hhigh := toInt_lt len
  omega

lemma closedLiteral_of_rest {len : ℕ} {text : List UInt8}
    (h : literalRest text = some (intMarker len).1) : ClosedLiteral len text ↔ len < 2 ^ 31 := by
  have hne : (intMarker len).1 ≠ [] := by
    simp only [intMarker, CString.append_val]
    exact List.append_ne_nil_of_right_ne_nil _ (by decide)
  unfold ClosedLiteral
  rw [h, Option.some_inj, Option.some_inj, intMarker_eq_iff]
  exact or_iff_right hne

lemma not_closedLiteral_of_none {len : ℕ} {text : List UInt8} (h : literalRest text = none) :
    ¬ ClosedLiteral len text := by
  rintro (hrest | hrest)
  · rw [h] at hrest
    cases hrest
  · rw [h] at hrest
    cases hrest

/-- A string whose `repr` is a literal made of pieces. -/
lemma renders_closes_iff {reprOf : List χ → CString} {chars : List χ}
    (hrepr : (shownRepr reprOf chars).1 = quoted isUnicode quote pieces)
    (hquote : quote = 39 ∨ quote = 34) (hpieces : ∀ p ∈ pieces, Piece isUnicode quote p)
    (hm : m.writeIndex ≤ m.limitIndex) :
    Renders (strOrUnicodeRepr reprOf chars) m fun ok bs =>
      (ok = true → ClosedLiteral chars.length bs) ↔
        KeepsClosed reprOf chars isUnicode quote pieces m.availSize := by
  have hlength : 2 ≤ (shownRepr reprOf chars).1.length := by
    rw [hrepr, quoted_eq]
    simp only [List.length_append, List.length_singleton]
    omega
  refine (strOrUnicodeRepr_law reprOf chars hm).mono fun ok bs hout => ?_
  cases hout with
  | whole h =>
      refine iff_of_true (fun _ => .inl ?_) (.inl h)
      have hread := literalRest_quoted hpieces hquote []
      rwa [List.append_nil, ← hrepr] at hread
  | marked h hfits =>
      have hread := literalRest_quoted hpieces hquote (intMarker chars.length).1
      rw [← hrepr] at hread
      rw [closedLiteral_of_rest hread, KeepsClosed, or_iff_right h, or_iff_right (by omega)]
      exact ⟨fun hlen => ⟨hlen rfl, .inl hfits⟩, fun hclosed _ => hclosed.1⟩
  | @cut k h hlong hk hfills =>
      have hcut := literalRest_cut hpieces hquote (notMem_intMarker (.inl rfl) chars.length)
        (notMem_intMarker (.inr rfl) chars.length) hk (by rw [← hrepr]; omega)
      rw [← hrepr] at hcut
      have hclean : (∃ k', CutsClean isUnicode quote pieces k' ∧
          (k' + (intMarker chars.length).1.length + 2 : ℤ) = m.availSize) ↔
            CutsClean isUnicode quote pieces k := by
        refine ⟨?_, fun hclean => ⟨k, hclean, hfills⟩⟩
        rintro ⟨k', hclean, hfills'⟩
        obtain rfl : k' = k := by omega
        exact hclean
      rw [KeepsClosed, or_iff_right h, or_iff_right (by omega), or_iff_right (by omega), hclean]
      rcases hcut with ⟨hclean, hread⟩ | ⟨hclean, hread⟩
      · rw [closedLiteral_of_rest hread]
        exact ⟨fun hlen => ⟨hlen rfl, hclean⟩, fun hclosed _ => hclosed.1⟩
      · exact iff_of_false (fun hclosed => not_closedLiteral_of_none hread (hclosed rfl))
          fun hclosed => hclean hclosed.2
  | nothing h hlong hfull =>
      exact iff_of_true (fun hok => by cases hok) (.inr (.inl hfull))

/-- **When truncation keeps string literals closed.**  For every byte or unicode string and every
available space: what `str_or_unicode_repr` appends when it returns `true` is a string literal
followed by nothing or by the marker, if and only if the string is shown in full, or there is no
room for quote, marker and NUL, or it has less than 2^31 characters and the `repr` of the first 64
is followed by the marker, either uncut or cut behind its opening quote and between two pieces
and having single quotes. -/
theorem strOrUnicodeRepr_closes_iff (hm : m.writeIndex ≤ m.limitIndex) :
    (∀ bytes : List UInt8, Renders (strOrUnicodeRepr pyStringRepr bytes) m fun ok bs =>
      (ok = true → ClosedLiteral bytes.length bs) ↔
        KeepsClosed pyStringRepr bytes false 39 ((bytes.take maxStrLen).map escapeByte)
          m.availSize) ∧
      ∀ (wide : Bool) (units : List UInt32),
        Renders (strOrUnicodeRepr (pyUnicodeRepr wide) units) m fun ok bs =>
          (ok = true → ClosedLiteral units.length bs) ↔
            KeepsClosed (pyUnicodeRepr wide) units true (unicodeQuote (units.take maxStrLen))
              (escapeUnits wide (unicodeQuote (units.take maxStrLen)) (units.take maxStrLen))
              m.availSize :=
  ⟨fun _ => renders_closes_iff rfl (.inl rfl) (piece_bytes _) hm,
    fun wide _ => renders_closes_iff rfl (unicodeQuote_eq _) (piece_units wide _) hm⟩

/-- Ten bytes 255 in a message of forty bytes: the cut falls behind a backslash. -/
theorem strOrUnicodeRepr_leaves_open :
    ¬ ∀ m : TraceMessage, m.writeIndex ≤ m.limitIndex →
      (∀ bytes : List UInt8, Renders (strOrUnicodeRepr pyStringRepr bytes) m fun ok bs =>
        ok = true → ClosedLiteral bytes.length bs) ∧
        ∀ (wide : Bool) (units : List UInt32),
          Renders (strOrUnicodeRepr (pyUnicodeRepr wide) units) m fun ok bs =>
            ok = true → ClosedLiteral units.length bs := by
  intro hall
  obtain ⟨ok, m', hrun, bs, happends, hclosed⟩ :=
    (hall (staleMessage 120) (by decide)).1 (List.replicate 10 255)
  have hcut : strOrUnicodeRepr pyStringRepr (List.replicate 10 255) (staleMessage 120) =
      some ((staleMessage 120).printf ((pyStringRepr (List.replicate 10 255)).take 26 ++
        CString.literal "'" ++ intMarker 10)) := rfl
  obtain ⟨rfl, rfl⟩ := Prod.mk.inj (Option.some.inj (hrun.symm.trans hcut))
  obtain rfl : _ = bs := happends.written
  exact not_closedLiteral_of_none (by decide) (hclosed rfl)

/-- Sixty letters, cut between two of them, and a quote that makes its `repr` a literal with double
quotes. -/
theorem strOrUnicodeRepr_closes_iff_cut :
    (Renders (strOrUnicodeRepr pyStringRepr (List.replicate 60 97)) (staleMessage 120) fun ok bs =>
      ok = true → ClosedLiteral 60 bs) ∧
      Renders (strOrUnicodeRepr (pyUnicodeRepr true) [39]) (staleMessage 120) fun ok bs =>
        ok = true → ClosedLiteral 1 bs := by
  obtain ⟨hstring, hunicode⟩ := strOrUnicodeRepr_closes_iff (m := staleMessage 120) (by decide)
  refine ⟨(hstring (List.replicate 60 97)).mono fun ok bs h => h.mpr ?_,
    (hunicode true [39]).mono fun ok bs h => h.mpr (.inl ⟨by decide, by decide⟩)⟩
  have hclean : CutsClean false 39 ((List.replicate 60 97).map escapeByte) 26 :=
    ⟨rfl, 25, rfl, 25, by decide, by decide⟩
  exact .inr (.inr ⟨by decide, .inr ⟨26, hclean, by decide⟩⟩)

end InfiTracing.Serialize
