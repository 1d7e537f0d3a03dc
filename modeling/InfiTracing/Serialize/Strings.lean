import InfiTracing.Serialize.Containers

/-!
# Truncated strings

`str_or_unicode_repr` prints the `repr` of a string, or of its first 64 characters, and puts the
marker behind it when something is missing.  Where even that does not fit, the `repr` is cut so
that a quote, the marker and a NUL fill the space exactly.

`strOrUnicodeRepr_law` gives the four outcomes with their conditions; they are exclusive, and
none of them is `printf`'s exact fit.  It holds of any function in place of `repr`, and of strings
of any length; the marker is `intMarker`, which for less than 2^31 characters is the true one.
-/

namespace InfiTracing.Serialize

open Framework

variable {χ : Type} {m m' : TraceMessage}

/-- The `repr` that `str_or_unicode_repr` asks for: of at most the first 64 characters. -/
def shownRepr (reprOf : List χ → CString) (chars : List χ) : CString :=
  reprOf (chars.take maxStrLen)

/-- The string is shown in full: it has at most 64 characters, and with its NUL the `repr` fits in
the `a` bytes available. -/
def ShownWhole (reprOf : List χ → CString) (chars : List χ) (a : ℤ) : Prop :=
  chars.length ≤ maxStrLen ∧ ((shownRepr reprOf chars).1.length : ℤ) < a

lemma not_shownWhole_iff {reprOf : List χ → CString} {chars : List χ} {a : ℤ} :
    ¬ ShownWhole reprOf chars a ↔
      maxStrLen < chars.length ∨ ((shownRepr reprOf chars).1.length + 1 : ℤ) > a := by
  unfold ShownWhole
  omega

/-- Otherwise there is a marker. -/
lemma marker_of_not_shownWhole {reprOf : List χ → CString} {chars : List χ} {a : ℤ}
    (h : ¬ ShownWhole reprOf chars a) :
    (if maxStrLen < chars.length ∨ (shownRepr reprOf chars).1.length + 1 > a then
        initTruncLenStr 64 chars.length else (0, CString.literal "")) =
      ((intMarker chars.length).1.length, intMarker chars.length) :=
  (if_pos (not_shownWhole_iff.mp h)).trans (initTruncLenStr_intMarker _)

lemma shownRepr_eq (reprOf : List χ → CString) (chars : List χ) :
    reprOf (if maxStrLen < chars.length then chars.take maxStrLen else chars) =
      shownRepr reprOf chars := by
  split
  · rfl
  · rw [shownRepr, List.take_of_length_le (by omega)]

lemma availSize_bind {α : Type} (f : ℤ → Render α) (m : TraceMessage) :
    (availSize >>= f) m = f m.availSize m := rfl

/-- The last test of the function, once the marker is known: `t` is its length, 0 where there is
none. -/
lemma strOrUnicodeRepr_run (reprOf : List χ → CString) (chars : List χ) (t : ℕ) (buffer : CString)
    (h : (if maxStrLen < chars.length ∨ (shownRepr reprOf chars).1.length + 1 > m.availSize then
      initTruncLenStr 64 chars.length else (0, CString.literal "")) = (t, buffer)) :
    strOrUnicodeRepr reprOf chars m =
      (if ((shownRepr reprOf chars).1.length + t + 1 : ℤ) > m.availSize then
        if m.availSize - t - 2 > 0 then
          printf ((shownRepr reprOf chars).take (m.availSize - t - 2).toNat ++
            CString.literal "'" ++ buffer)
        else pure false
      else printf (shownRepr reprOf chars ++ buffer) : Render Bool) m := by
  unfold strOrUnicodeRepr
  rw [shownRepr_eq reprOf chars]
  dsimp only
  simp only [availSize_bind]
  rw [h]
  split
  · rfl
  · rfl

/-- Without room for a quote, the marker and a NUL nothing is done. -/
lemma strOrUnicodeRepr_of_full (reprOf : List χ → CString) {chars : List χ}
    (hwhole : ¬ ShownWhole reprOf chars m.availSize)
    (hlong : m.availSize ≤ (shownRepr reprOf chars).1.length + (intMarker chars.length).1.length)
    (hfull : m.availSize ≤ (intMarker chars.length).1.length + 2) :
    strOrUnicodeRepr reprOf chars m = some (false, m) := by
  have hmarker := marker_of_not_shownWhole hwhole
  rw [strOrUnicodeRepr_run reprOf chars _ _ hmarker, if_pos (by omega), if_neg (by omega)]
  rfl

/-- What a string becomes with `a` bytes available: the value returned and the bytes appended. -/
inductive StringOutcome (repr marker : List UInt8) (whole : Prop) (a : ℤ) :
    Bool → List UInt8 → Prop
  | whole (h : whole) : StringOutcome repr marker whole a true repr
  /-- The marker follows the whole `repr`. -/
  | marked (h : ¬ whole) (hfits : (repr.length + marker.length : ℤ) < a) :
      StringOutcome repr marker whole a true (repr ++ marker)
  /-- The `repr` is cut so that quote, marker and NUL fill the space. -/
  | cut {k : ℕ} (h : ¬ whole) (hlong : a ≤ repr.length + marker.length) (hk : 0 < k)
      (hfills : (k + marker.length + 2 : ℤ) = a) :
      StringOutcome repr marker whole a true (repr.take k ++ 39 :: marker)
  | nothing (h : ¬ whole) (hlong : a ≤ repr.length + marker.length)
      (hfull : a ≤ marker.length + 2) : StringOutcome repr marker whole a false []

/-- **The law of `str_or_unicode_repr`**. -/
theorem strOrUnicodeRepr_law (reprOf : List χ → CString) (chars : List χ)
    (hm : m.writeIndex ≤ m.limitIndex) :
    Renders (strOrUnicodeRepr reprOf chars) m fun ok bs =>
      StringOutcome (shownRepr reprOf chars).1 (intMarker chars.length).1
        (ShownWhole reprOf chars m.availSize) m.availSize ok bs := by
  have havail := TraceMessage.availSize_toNat hm
  by_cases hwhole : ShownWhole reprOf chars m.availSize
  · have htest := mt not_shownWhole_iff.mpr (not_not.mpr hwhole)
    obtain ⟨hshort, hfits⟩ := hwhole
    refine .congr (strOrUnicodeRepr_run reprOf chars 0 (CString.literal "") (if_neg htest)) ?_
    refine .ite (fun hlong => absurd hlong (by push_cast; omega)) fun _ => ?_
    have hempty : (shownRepr reprOf chars ++ CString.literal "").1 = (shownRepr reprOf chars).1 :=
      List.append_nil _
    refine (renders_printf_of_lt hm (by rw [hempty]; exact hfits)).mono ?_
    rintro ok bs ⟨rfl, rfl⟩
    rw [hempty]
    exact .whole ⟨hshort, hfits⟩
  · have hmarker := marker_of_not_shownWhole hwhole
    refine .congr (strOrUnicodeRepr_run reprOf chars _ _ hmarker) ?_
    refine .ite (fun hlong => ?_) fun hfits => ?_
    · refine .ite (fun hroom => ?_) fun hfull => ?_
      · -- one byte for the quote, and one for the NUL
        set k := (m.availSize - (intMarker chars.length).1.length - 2).toNat with hk
        have hbytes : ((shownRepr reprOf chars).take k ++ CString.literal "'" ++
            intMarker chars.length).1 =
              (shownRepr reprOf chars).1.take k ++ 39 :: (intMarker chars.length).1 := by
          rw [CString.append_val, CString.append_val, List.append_assoc]
          rfl
        have hlength : (((shownRepr reprOf chars).take k ++ CString.literal "'" ++
            intMarker chars.length).1.length : ℤ) < m.availSize := by
          rw [hbytes, List.length_append, List.length_take, List.length_cons]
          omega
        refine (renders_printf_of_lt hm hlength).mono ?_
        rintro ok bs ⟨rfl, rfl⟩
        rw [hbytes]
        exact .cut hwhole (by omega) (by omega) (by omega)
      · exact .pure hm (.nothing hwhole (by omega) (by omega))
    · have hlength : ((shownRepr reprOf chars ++ intMarker chars.length).1.length : ℤ) <
          m.availSize := by
        rw [CString.append_val, List.length_append]
        omega
      refine (renders_printf_of_lt hm hlength).mono ?_
      rintro ok bs ⟨rfl, rfl⟩
      exact .marked hwhole (by omega)

/-- **The forms of a truncated string.**  For every string of less than 2^31 characters, whatever
its `repr`, and every amount of available space: `str_or_unicode_repr` returns `false` and leaves
the message alone, or it returns `true` and has appended, in less than the space available, the
whole `repr`, or the whole `repr` of the first 64 characters and the marker, or a proper prefix of
it, a quote and the marker with one byte to spare. -/
theorem strOrUnicodeRepr_forms (reprOf : List χ → CString) {chars : List χ}
    (hlen : chars.length < 2 ^ 31) (hm : m.writeIndex ≤ m.limitIndex) :
    Yields (strOrUnicodeRepr reprOf chars) m fun ok m' => (ok = false ∧ m' = m) ∨
      (ok = true ∧ ∃ bs, m.Appends m' bs ∧ (bs.length : ℤ) < m.availSize ∧
        if chars.length ≤ 64 ∧ ((reprOf chars).1.length + 1 : ℤ) ≤ m.availSize then
          bs = (reprOf chars).1
        else if ((reprOf (chars.take (min 64 chars.length))).1.length +
            (marker chars.length).1.length : ℤ) < m.availSize then
          bs = (reprOf (chars.take (min 64 chars.length))).1 ++ (marker chars.length).1
        else ∃ k < (reprOf (chars.take (min 64 chars.length))).1.length,
          bs = (reprOf (chars.take (min 64 chars.length))).1.take k ++ (CString.literal "'").1 ++
            (marker chars.length).1 ∧ (bs.length : ℤ) = m.availSize - 1) := by
  have htake : reprOf (chars.take (min 64 chars.length)) = shownRepr reprOf chars := by
    refine congrArg reprOf (List.take_eq_take_iff.mpr ?_)
    unfold maxStrLen
    omega
  have hwhole : ShownWhole reprOf chars m.availSize ↔
      chars.length ≤ 64 ∧ ((reprOf chars).1.length + 1 : ℤ) ≤ m.availSize := by
    unfold ShownWhole shownRepr
    refine and_congr_right fun hle => ?_
    rw [List.take_of_length_le hle]
    omega
  obtain ⟨ok, m', hrun, bs, happends, hout⟩ := strOrUnicodeRepr_law reprOf chars hm
  refine ⟨ok, m', hrun, ?_⟩
  rw [htake, ← intMarker_eq hlen]
  cases hout with
  | whole h =>
      have hshown : shownRepr reprOf chars = reprOf chars := by
        rw [shownRepr, List.take_of_length_le h.1]
      refine .inr ⟨rfl, _, happends, h.2, ?_⟩
      rw [if_pos (hwhole.mp h), hshown]
  | marked h hfits =>
      refine .inr ⟨rfl, _, happends, by rw [List.length_append]; exact_mod_cast hfits, ?_⟩
      rw [if_neg (mt hwhole.mpr h), if_pos hfits]
  | @cut k h hlong hk hfills =>
      have hlength : ((shownRepr reprOf chars).1.take k ++ 39 ::
          (intMarker chars.length).1).length = k + 1 + (intMarker chars.length).1.length := by
        rw [List.length_append, List.length_take, List.length_cons]
        omega
      refine .inr ⟨rfl, _, happends, by omega, ?_⟩
      rw [if_neg (mt hwhole.mpr h), if_neg (not_lt.mpr hlong)]
      exact ⟨k, by omega, by rw [List.append_assoc]; rfl, by omega⟩
  | nothing h hlong hfull =>
      have hnothing := strOrUnicodeRepr_of_full reprOf h hlong hfull
      obtain ⟨-, rfl⟩ := Prod.mk.inj (Option.some.inj (hrun.symm.trans hnothing))
      exact .inl ⟨rfl, rfl⟩

/-- A string of seventy letters in forty bytes. -/
theorem strOrUnicodeRepr_forms_cut :
    Yields (strOrUnicodeRepr plainCPython.stringRepr (List.replicate 70 97)) (staleMessage 120)
      fun ok m' => (ok = false ∧ m' = staleMessage 120) ∨
        (ok = true ∧ ∃ bs, (staleMessage 120).Appends m' bs ∧ (bs.length : ℤ) < 40) := by
  refine (strOrUnicodeRepr_forms plainCPython.stringRepr
    (by rw [List.length_replicate]; norm_num) (by decide)).mono ?_
  rintro ok m' (hfalse | ⟨rfl, bs, happends, hlt, -⟩)
  · exact .inl hfalse
  · exact .inr ⟨rfl, bs, happends, hlt⟩

end InfiTracing.Serialize
