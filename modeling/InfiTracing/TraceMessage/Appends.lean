import InfiTracing.TraceMessage.Format

/-!
# What the operations of a message append

The bytes of a message up to its write position (`written`) only grow at their end: `Appends m
m' bs` says that the operations from `m` to `m'`, under one limit, appended `bs`.  Every operation
has its law in these terms.  `write` appends as much of the string as fits, and `printf` the whole
text or nothing, except for a text that fills the space exactly: of that one it stores all but
the last byte and a NUL, and counts it as written.

The visible text is what is written as long as it ends at the write position (`TextEnds`).  Two
operations may break this, and the theorems say when: `printf` and `nprintf` on a text that
reaches the size they are given (`printf_allOrNothing_iff`), and `write` when it stops at a limit
behind which the buffer holds stale bytes (`write_text_iff`).
-/

namespace InfiTracing.TraceMessage

open Framework

variable {m₀ m m' m'' : TraceMessage} {bs cs : List UInt8}

/-! ## The bytes that are written -/

/-- The bytes up to the write position. -/
def written (m : TraceMessage) : List UInt8 := m.buffer.take m.writeIndex

@[simp] lemma length_written (m : TraceMessage) : m.written.length = m.writeIndex := by
  have hwrite := m.writeIndex_le
  have hlen := m.length_buffer
  rw [written, List.length_take]
  omega

lemma take_written {k : ℕ} (hk : k ≤ m.writeIndex) : m.written.take k = m.buffer.take k := by
  rw [written, List.take_take, min_eq_left hk]

/-- From `m` to `m'` the bytes `bs` were appended, below the one limit of both. -/
structure Appends (m m' : TraceMessage) (bs : List UInt8) : Prop where
  capacity : m'.capacity = m.capacity
  limitIndex : m'.limitIndex = m.limitIndex
  written : m'.written = m.written ++ bs
  within : m'.writeIndex ≤ m'.limitIndex

namespace Appends

lemma refl (hm : m.writeIndex ≤ m.limitIndex) : m.Appends m [] :=
  ⟨rfl, rfl, (List.append_nil _).symm, hm⟩

lemma trans (h : m.Appends m' bs) (h' : m'.Appends m'' cs) : m.Appends m'' (bs ++ cs) :=
  ⟨h'.capacity.trans h.capacity, h'.limitIndex.trans h.limitIndex,
    by rw [h'.written, h.written, List.append_assoc], h'.within⟩

lemma writeIndex (h : m.Appends m' bs) : m'.writeIndex = m.writeIndex + bs.length := by
  rw [← length_written, h.written, List.length_append, length_written]

lemma availSize (h : m.Appends m' bs) : m'.availSize = m.availSize - bs.length := by
  have hindex := h.writeIndex
  have hlimit := h.limitIndex
  unfold TraceMessage.availSize
  omega

/-- The messages fix what was appended. -/
lemma unique (h : m.Appends m' bs) (h' : m.Appends m' cs) : bs = cs :=
  List.append_cancel_left (h.written.symm.trans h'.written)

end Appends

lemma Appends.extends (h : m.Appends m' bs) : m.Extends m' := by
  have hindex := h.writeIndex
  have hkept := congrArg (List.take m.writeIndex) h.written
  rw [take_written (by omega), List.take_left' m.length_written] at hkept
  exact ⟨h.capacity, h.limitIndex, by omega, h.within, hkept⟩

lemma Stored.appends {n : ℕ} (h : m.Stored m' bs n) : m.Appends m' (bs.take n) := by
  have hwrite := m.writeIndex_le
  have hlen := m.length_buffer
  refine ⟨h.capacity, h.limitIndex, ?_, ?_⟩
  · rw [written, h.writeIndex, h.buffer, take_overwrite (by omega) h.moved, written]
  · rw [h.writeIndex, h.limitIndex]
    exact h.within

/-! ## The laws of the operations -/

section Laws

lemma availSize_toNat (hm : m.writeIndex ≤ m.limitIndex) :
    (m.availSize.toNat : ℤ) = m.availSize := by
  unfold availSize
  omega

/-- `write` appends as much of the string as fits. -/
theorem write_appends (hm : m.writeIndex ≤ m.limitIndex) (s : CString) :
    m.Appends (m.write s).2 (s.1.take m.availSize.toNat) := by
  have h := (write_stored hm s).appends
  have htake : ((s.1 ++ [0]).take m.availSize.toNat).take (min s.1.length m.availSize.toNat) =
      s.1.take m.availSize.toNat := by
    rw [List.take_take, min_eq_left (min_le_right _ _),
      List.take_append_of_le_length (min_le_left _ _), List.take_eq_take_iff]
    omega
  rwa [htake] at h

lemma write_appends_of_le (hm : m.writeIndex ≤ m.limitIndex) {s : CString}
    (h : (s.1.length : ℤ) ≤ m.availSize) : m.Appends (m.write s).2 s.1 := by
  have happends := write_appends hm s
  rwa [List.take_of_length_le (by omega)] at happends

/-- `printf` appends a text that fits with its NUL. -/
theorem printf_of_lt (hm : m.writeIndex ≤ m.limitIndex) {text : CString}
    (h : (text.1.length : ℤ) < m.availSize) :
    (m.printf text).1 = true ∧ m.Appends (m.printf text).2 text.1 := by
  rcases printf_stored hm text with ⟨hok, -, hstored⟩ | ⟨-, hlong, -⟩
  · refine ⟨hok, ?_⟩
    have happends := hstored.appends
    rwa [printed, if_neg (by omega), List.take_of_length_le (l := text.1) (by omega),
      List.take_left] at happends
  · omega

/-- A text that fills the space exactly loses its last byte to the NUL, and counts in full. -/
theorem printf_of_eq (hm : m.writeIndex ≤ m.limitIndex) {text : CString}
    (h : (text.1.length : ℤ) = m.availSize) :
    (m.printf text).1 = true ∧
      m.Appends (m.printf text).2 (printed text.1.length text.1) := by
  rcases printf_stored hm text with ⟨hok, -, hstored⟩ | ⟨-, hlong, -⟩
  · refine ⟨hok, ?_⟩
    have happends := hstored.appends
    have hsize : m.availSize.toNat = text.1.length := by omega
    rwa [hsize, List.take_of_length_le (length_printed_le _ _)] at happends
  · omega

/-- Of a longer text `printf` appends nothing. -/
theorem printf_of_gt (hm : m.writeIndex ≤ m.limitIndex) {text : CString}
    (h : m.availSize < text.1.length) :
    (m.printf text).1 = false ∧ m.Appends (m.printf text).2 [] := by
  rcases printf_stored hm text with ⟨-, hshort, -⟩ | ⟨hok, -, hstored⟩
  · omega
  · exact ⟨hok, hstored.appends⟩

/-- Back by some of the bytes appended since `m`. -/
lemma Appends.rewind (h : m.Appends m' bs) {k : ℕ} (hk : k ≤ bs.length) :
    m.Appends (m'.rewind (m.writeIndex + k : ℕ)) (bs.take k) := by
  have hindex := h.writeIndex
  have hback : (m'.rewind (m.writeIndex + k : ℕ)).writeIndex = m.writeIndex + k :=
    h.extends.rewind_writeIndex (by omega)
  have hwithin := h.within
  have hlen := m'.length_buffer
  have hcap := m'.writeIndex_le
  refine ⟨h.capacity, h.limitIndex, ?_, ?_⟩
  · rw [TraceMessage.written, hback]
    show (m'.buffer.set (m'.rewind (m.writeIndex + k : ℕ)).writeIndex 0).take _ = _
    rw [hback, List.take_set_of_le le_rfl]
    have hprefix := congrArg (List.take (m.writeIndex + k)) h.written
    rwa [take_written (by omega), List.take_append, length_written,
      List.take_of_length_le (l := m.written) (by simp), Nat.add_sub_cancel_left] at hprefix
  · rw [hback]
    show _ ≤ m'.limitIndex
    omega

end Laws

/-! ## The visible text -/

/-- The visible text ends at the write position. -/
def TextEnds (m : TraceMessage) : Prop := m.text.length = m.writeIndex

section TextEnds

lemma text_congr (h : m'.buffer = m.buffer) : m'.text = m.text := by rw [text, text, h]

lemma text_prefix (m : TraceMessage) : m.text <+: m.buffer := List.takeWhile_prefix _

lemma zero_notMem_text (m : TraceMessage) : 0 ∉ m.text := by
  intro h
  simpa using List.mem_takeWhile_imp h

/-- The visible text is what is written. -/
lemma TextEnds.text_eq (h : m.TextEnds) : m.text = m.written := by
  rw [written, ← h]
  exact List.prefix_iff_eq_take.mp m.text_prefix

/-- Text behind what is written, and a NUL behind it. -/
lemma text_of_overwrite (hends : m.TextEnds) {rest : List UInt8} (hcs : 0 ∉ cs)
    (hbuffer : m'.buffer = overwrite m.buffer m.writeIndex (cs ++ 0 :: rest)) :
    m'.text = m.text ++ cs := by
  have hnul : 0 ∉ m.text ++ cs := by
    rw [List.mem_append, not_or]
    exact ⟨m.zero_notMem_text, hcs⟩
  refine takeWhile_eq_of_prefix hnul ?_
  rw [hbuffer, hends.text_eq]
  exact ⟨rest ++ m.buffer.drop (m.writeIndex + (cs ++ 0 :: rest).length), by
    simp [overwrite, written]⟩

/-- Nothing is shown behind a text exactly if a NUL follows it. -/
lemma takeWhile_append_eq_left_iff {l rest : List UInt8} (hl : 0 ∉ l) (hrest : rest ≠ []) :
    (l ++ rest).takeWhile (· ≠ 0) = l ↔ rest[0]? = some 0 := by
  obtain ⟨c, rest, rfl⟩ := List.exists_cons_of_ne_nil hrest
  rw [List.takeWhile_append_of_pos (fun b hb => by simpa using ne_of_mem_of_not_mem hb hl)]
  by_cases hc : c = 0
  · simp [hc]
  · simp [hc]

end TextEnds

/-! ## `printf` and `nprintf` -/

/-- Of a call's result: either the call returns `true` and the message shows the whole text
behind what it showed before, or it returns `false` and the message shows what it did. -/
def AllOrNothing (m : TraceMessage) (text : CString) (r : Bool × TraceMessage) : Prop :=
  (r.1 = true ∧ r.2.writeIndex = m.writeIndex + text.1.length ∧ r.2.text = m.text ++ text.1) ∨
    (r.1 = false ∧ r.2.writeIndex = m.writeIndex ∧ r.2.text = m.text)

section Printing

/-- What a call that returns `true` leaves visible: it cuts the text to one byte less than the
size it is given. -/
lemma text_vnprintf_of_le (hends : m.TextEnds) {maxSize : ℕ} {text : CString}
    (h : (text.1.length : ℤ) ≤ m.availSize) :
    (m.vnprintf maxSize text).2.text =
      m.text ++ text.1.take ((min m.availSize maxSize).toNat - 1) := by
  obtain ⟨-, -, -, hbuffer, -⟩ := @vnprintf_of_le m maxSize text h
  unfold printed at hbuffer
  split at hbuffer
  · next hzero =>
      rw [overwrite_nil] at hbuffer
      rw [hzero, Nat.zero_sub, List.take_zero, List.append_nil]
      exact text_congr hbuffer
  · exact text_of_overwrite hends (text.zero_notMem_take _) hbuffer

/-- A call that returns `false` leaves the visible text alone. -/
lemma text_vnprintf_of_lt (hends : m.TextEnds) {maxSize : ℕ} {text : CString}
    (h : m.availSize < text.1.length) : (m.vnprintf maxSize text).2.text = m.text := by
  obtain ⟨-, -, -, hbuffer, -⟩ := @vnprintf_of_lt m maxSize text h
  rw [← List.nil_append (0 :: _)] at hbuffer
  simpa using text_of_overwrite hends List.not_mem_nil hbuffer

/-- `vnprintf` is all or nothing exactly if the text is empty, does not fit into the available
space, or fits into the size given together with its NUL. -/
lemma vnprintf_allOrNothing_iff (hends : m.TextEnds) (maxSize : ℕ) (text : CString) :
    m.AllOrNothing text (m.vnprintf maxSize text) ↔
      text.1 = [] ∨ m.availSize < text.1.length ∨
        (text.1.length : ℤ) < min m.availSize maxSize := by
  rcases Int.lt_or_le m.availSize text.1.length with hlt | hle
  · obtain ⟨hok, -, -, -, hwrite⟩ := @vnprintf_of_lt m maxSize text hlt
    exact iff_of_true (.inr ⟨hok, hwrite, text_vnprintf_of_lt hends hlt⟩) (.inr (.inl hlt))
  · obtain ⟨hok, -, -, -, hwrite⟩ := @vnprintf_of_le m maxSize text hle
    have htext := @text_vnprintf_of_le m hends maxSize text hle
    have hwhole : m.AllOrNothing text (m.vnprintf maxSize text) ↔
        text.1.take ((min m.availSize maxSize).toNat - 1) = text.1 := by
      constructor
      · rintro (⟨-, -, hall⟩ | ⟨hfalse, -, -⟩)
        · exact List.append_cancel_left (htext.symm.trans hall)
        · rw [hok] at hfalse
          cases hfalse
      · intro hall
        exact .inl ⟨hok, hwrite, by rw [htext, hall]⟩
    have hempty : text.1 = [] ↔ text.1.length = 0 := List.length_eq_zero_iff.symm
    rw [hwhole, List.take_eq_self_iff, hempty]
    omega

/-- **`printf` and `nprintf` are all or nothing** except on a text that fits the available space
and does not leave room for its NUL in it, or in `max_size`. -/
theorem printf_allOrNothing_iff (hm : m.writeIndex ≤ m.limitIndex) (hends : m.TextEnds)
    (maxSize : ℕ) (text : CString) :
    (m.AllOrNothing text (m.printf text) ↔
        text.1 = [] ∨ (text.1.length : ℤ) ≠ m.availSize) ∧
      (m.AllOrNothing text (m.nprintf maxSize text) ↔
        text.1 = [] ∨ m.availSize < text.1.length ∨
          (text.1.length : ℤ) < min m.availSize maxSize) := by
  refine ⟨?_, vnprintf_allOrNothing_iff hends maxSize text⟩
  have havail := availSize_toNat hm
  have hempty : text.1 = [] ↔ text.1.length = 0 := List.length_eq_zero_iff.symm
  rw [printf, vnprintf_allOrNothing_iff hends, hempty]
  omega

/-- A new message of four bytes. -/
def fourBytes (memory : ℕ → UInt8) : TraceMessage := empty.realloc memory 4

instance (m : TraceMessage) (text : CString) (r : Bool × TraceMessage) :
    Decidable (m.AllOrNothing text r) := inferInstanceAs (Decidable (_ ∨ _))

/-- A text of four bytes printed into them: the call returns `true`, and three are visible. -/
theorem printf_not_allOrNothing :
    ¬ ∀ (m : TraceMessage) (text : CString), m.writeIndex ≤ m.limitIndex → m.TextEnds →
      m.AllOrNothing text (m.printf text) := by
  intro hall
  exact absurd (hall (fourBytes fun _ => 7) (CString.literal "abcd") (by decide) rfl) (by decide)

theorem printf_allOrNothing_iff_three :
    (fourBytes fun _ => 7).AllOrNothing (CString.literal "abc")
      ((fourBytes fun _ => 7).printf (CString.literal "abc")) :=
  ((printf_allOrNothing_iff (m := fourBytes fun _ => 7) (by decide) rfl 0 _).1).mpr
    (.inr (by decide))

end Printing

/-! ## `write` -/

section Writing

/-- **What `write` leaves visible.**  It appends the longest prefix of the string that fits, and
this is all that becomes visible exactly if the string ends before the limit or the buffer has a
NUL at the limit. -/
theorem write_text_iff (hm : m.writeIndex ≤ m.limitIndex) (hends : m.TextEnds) (s : CString) :
    ((m.write s).2.text = m.text ++ s.1.take m.availSize.toNat ∧
        (m.write s).2.writeIndex = m.writeIndex + (s.1.take m.availSize.toNat).length) ↔
      (s.1.length : ℤ) < m.availSize ∨ m.buffer[m.limitIndex]? = some 0 := by
  have hwrite := (write_appends hm s).writeIndex
  have hbuffer := (write_stored hm s).buffer
  have havail := availSize_toNat hm
  rw [and_iff_left hwrite]
  rcases Int.lt_or_le s.1.length m.availSize with hlt | hle
  · -- the NUL of the string is stored
    refine iff_of_true ?_ (.inl hlt)
    rw [List.take_of_length_le (by simp; omega)] at hbuffer
    rw [List.take_of_length_le (by omega)]
    exact text_of_overwrite hends s.2 hbuffer
  · -- the loop ends at the limit, and what stood there ends the text
    rw [or_iff_right (Int.not_lt.mpr hle)]
    set fits := s.1.take m.availSize.toNat with hfits
    have hlen : fits.length = m.availSize.toNat := by
      rw [hfits, List.length_take]
      omega
    rw [List.take_append_of_le_length (by omega), ← hfits] at hbuffer
    have hnul : 0 ∉ m.text ++ fits := by
      rw [List.mem_append, not_or]
      exact ⟨m.zero_notMem_text, s.zero_notMem_take _⟩
    have hlimit : m.writeIndex + fits.length = m.limitIndex := by
      rw [hlen]
      unfold availSize
      omega
    have hmore : m.buffer.drop m.limitIndex ≠ [] := by
      have hcap := m.limitIndex_le
      have hbytes := m.length_buffer
      rw [Ne, List.drop_eq_nil_iff]
      omega
    have hshown : (m.write s).2.text =
        (m.text ++ fits ++ m.buffer.drop m.limitIndex).takeWhile (· ≠ 0) := by
      rw [text, hbuffer, overwrite, hlimit, hends.text_eq, written]
    rw [hshown, takeWhile_append_eq_left_iff hnul hmore, List.getElem?_drop, Nat.add_zero]

/-- Two bytes written under a limit of two bytes, into memory that was used before: the stale
bytes behind the limit are visible. -/
theorem write_shows_stale :
    ¬ ∀ (m : TraceMessage) (s : CString), m.writeIndex ≤ m.limitIndex → m.TextEnds →
      (m.write s).2.text = m.text ++ s.1.take m.availSize.toNat ∧
        (m.write s).2.writeIndex = m.writeIndex + (s.1.take m.availSize.toNat).length := by
  intro hall
  exact absurd (hall ((fourBytes fun _ => 7).limit 2).2 (CString.literal "ab") (by decide) rfl).1
    (by decide)

theorem write_text_iff_full :
    ((fourBytes fun _ => 7).write (CString.literal "abcde")).2.text = [97, 98, 99, 100] ∧
      ((fourBytes fun _ => 7).write (CString.literal "abcde")).2.writeIndex = 4 :=
  (write_text_iff (m := fourBytes fun _ => 7) (by decide) rfl (CString.literal "abcde")).mpr
    (.inr (by decide))

end Writing

end InfiTracing.TraceMessage
