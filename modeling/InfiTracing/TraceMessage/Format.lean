import InfiTracing.TraceMessage
import InfiTracing.Framework.Numerals
import InfiTracing.Framework.Overwrite

/-!
# `TraceMessage`: limits, rewinding and formatted output

The operations of `trace_message.h` that the serializers use besides `write`: `limit` and
`unlimit`, `rewind`, and `printf` with `nprintf` and `vnprintf`.  `vsnprintf` is C99's: it
stores at most `size - 1` bytes and a NUL, nothing for a size of 0, and returns the length of
the whole formatted text.

The texts are C strings, put together from literals and the conversions of `printf`
(`CString.decimal`, `CString.hex`, `CString.take`).

Every operation has its law here.  `write_buffer` and `write_writeIndex` give the closed form
of the write loop; `Extends m m'` says that the operations from `m` to `m'` only added bytes
below the limit; `Agree a b` says that two messages show the same up to their write positions,
with any bytes behind.  Under `Agree` every operation returns the same value and keeps
`Agree`.  At the full capacity, with no limit in force, it even leaves both with one text: it
ends at a terminator, its own or the one at `capacity`.
-/

namespace InfiTracing

open Framework

/-- `clip(n, lower, upper)`. -/
def clip (n lower upper : ℤ) : ℤ := max lower (min n upper)

/-! ## Formatted text -/

namespace CString

/-- A string literal. -/
def literal (s : String) : CString := ofBuffer (s.toList.map fun c => UInt8.ofNat c.toNat)

lemma zero_notMem_append (s t : CString) : 0 ∉ s.1 ++ t.1 := by
  rw [List.mem_append, not_or]
  exact ⟨s.2, t.2⟩

instance : Append CString := ⟨fun s t => ⟨s.1 ++ t.1, zero_notMem_append s t⟩⟩

lemma zero_notMem_take (s : CString) (n : ℕ) : 0 ∉ s.1.take n :=
  fun h => s.2 (List.mem_of_mem_take h)

/-- `%.*s`: the first `n` bytes. -/
def take (s : CString) (n : ℕ) : CString := ⟨s.1.take n, s.zero_notMem_take n⟩

/-- `%d`, `%ld` and `%lu`. -/
def decimal (z : ℤ) : CString := ⟨Framework.decimal z, zero_notMem_decimal z⟩

lemma zero_notMem_hex (n : ℕ) : 0 ∉ numeral 16 n :=
  zero_notMem_numeral (by norm_num) (by norm_num)

/-- `%lx`. -/
def hex (n : ℕ) : CString := ⟨numeral 16 n, zero_notMem_hex n⟩

@[simp] lemma append_val (s t : CString) : (s ++ t).1 = s.1 ++ t.1 := rfl

end CString

namespace TraceMessage

/-! ## The operations -/

/-- `avail_size()`. -/
def availSize (m : TraceMessage) : ℤ := m.limitIndex - m.writeIndex

/-- `limit(size)`, which returns the limit that was in force. -/
def limit (m : TraceMessage) (size : ℤ) : ℕ × TraceMessage :=
  (m.limitIndex,
    { m with
      limitIndex := m.writeIndex + (clip size 0 m.availSize).toNat
      limitIndex_le := by
        have hwrite := m.writeIndex_le
        have hlimit := m.limitIndex_le
        unfold clip availSize
        omega })

/-- `unlimit()`. -/
def unlimit (m : TraceMessage) : TraceMessage :=
  { m with limitIndex := m.capacity, limitIndex_le := le_rfl }

/-- `unlimit(i)`. -/
def unlimitTo (m : TraceMessage) (i : ℤ) : TraceMessage :=
  { m with
    limitIndex := (clip i 0 m.capacity).toNat
    limitIndex_le := by unfold clip; omega }

/-- `rewind(offset)`. -/
def rewind (m : TraceMessage) (offset : ℤ) : TraceMessage :=
  { m with
    writeIndex := (clip offset 0 m.limitIndex).toNat
    buffer := m.buffer.set (clip offset 0 m.limitIndex).toNat 0
    writeIndex_le := by
      have hlimit := m.limitIndex_le
      unfold clip
      omega
    length_buffer := by rw [List.length_set, m.length_buffer]
    terminated := by
      have hlen := m.length_buffer
      rw [List.getElem?_set]
      split
      · rw [if_pos (by omega)]
      · exact m.terminated }

/-- `buffer[write_index] = '\0'`. -/
def terminate (m : TraceMessage) : TraceMessage :=
  { m with
    buffer := m.buffer.set m.writeIndex 0
    length_buffer := by rw [List.length_set, m.length_buffer]
    terminated := by
      have hlen := m.length_buffer
      rw [List.getElem?_set]
      split
      · rw [if_pos (by omega)]
      · exact m.terminated }

/-- The bytes `vsnprintf(.., size, ..)` stores for the formatted text. -/
def printed (size : ℕ) (text : List UInt8) : List UInt8 :=
  if size = 0 then [] else text.take (size - 1) ++ [0]

lemma length_printed_le (size : ℕ) (text : List UInt8) : (printed size text).length ≤ size := by
  unfold printed
  split
  · simp
  · rw [List.length_append, List.length_take, List.length_singleton]
    omega

/-- `vsnprintf(&buffer[write_index], size, ..)`, on the formatted text. -/
def vsnprintf (m : TraceMessage) (size : ℕ) (text : CString)
    (h : m.writeIndex + size ≤ m.capacity) : TraceMessage :=
  { m with
    buffer := overwrite m.buffer m.writeIndex (printed size text.1)
    length_buffer := by
      have hlen := length_printed_le size text.1
      have hbuffer := m.length_buffer
      rw [length_overwrite (by omega), hbuffer]
    terminated := by
      have hlen := length_printed_le size text.1
      have hbuffer := m.length_buffer
      rw [getElem?_overwrite_of_le (by omega) (by omega), m.terminated] }

/-- `vnprintf(max_size, ..)`.  The size handed to `vsnprintf` is not negative as long as the
write position is not past the limit and `max_size` is not negative. -/
def vnprintf (m : TraceMessage) (maxSize : ℕ) (text : CString) : Bool × TraceMessage :=
  let stored := m.vsnprintf (min m.availSize maxSize).toNat text (by
    have hwrite := m.writeIndex_le
    have hlimit := m.limitIndex_le
    unfold availSize
    omega)
  if h : (text.1.length : ℤ) ≤ m.availSize then
    (true, { stored with
      writeIndex := m.writeIndex + text.1.length
      writeIndex_le := by
        have hlimit := m.limitIndex_le
        unfold availSize at h
        show m.writeIndex + text.1.length ≤ m.capacity
        omega })
  else
    -- failed to write everything, so we write nothing
    (false, stored.terminate)

/-- `printf(..)`. -/
def printf (m : TraceMessage) (text : CString) : Bool × TraceMessage :=
  m.vnprintf m.availSize.toNat text

/-- `nprintf(max_size, ..)`. -/
def nprintf (m : TraceMessage) (maxSize : ℕ) (text : CString) : Bool × TraceMessage :=
  m.vnprintf maxSize text

/-! ## What an operation stores -/

/-- From `m` to `m'` the bytes `bs` were stored at the write position, which moved on over the
first `n` of them. -/
structure Stored (m m' : TraceMessage) (bs : List UInt8) (n : ℕ) : Prop where
  capacity : m'.capacity = m.capacity
  limitIndex : m'.limitIndex = m.limitIndex
  buffer : m'.buffer = overwrite m.buffer m.writeIndex bs
  writeIndex : m'.writeIndex = m.writeIndex + n
  room : m.writeIndex + bs.length ≤ m.capacity + 1
  moved : n ≤ bs.length
  within : m.writeIndex + n ≤ m.limitIndex

/-- Nothing happened. -/
lemma stored_nil {m : TraceMessage} (hm : m.writeIndex ≤ m.limitIndex) : m.Stored m [] 0 := by
  have hwrite := m.writeIndex_le
  refine ⟨rfl, rfl, (overwrite_nil _ _).symm, rfl, ?_, le_rfl, by simpa using hm⟩
  simp only [List.length_nil]
  omega

lemma stored_store (m : TraceMessage) (c : UInt8) (h : m.writeIndex < m.limitIndex) :
    m.Stored (m.store c h) [c] 0 := by
  have hlimit := m.limitIndex_le
  have hlen := m.length_buffer
  refine ⟨rfl, rfl, ?_, rfl, ?_, by simp, by simpa using h.le⟩
  · show m.buffer.set m.writeIndex c = _
    rw [← overwrite_set (by omega), overwrite_nil]
  · simp only [List.length_singleton]
    omega

/-- One byte stored and passed, and then the rest. -/
lemma Stored.cons {m m' : TraceMessage} {c : UInt8} {bs : List UInt8} {n : ℕ}
    (h : m.writeIndex < m.limitIndex) (hrest : ((m.store c h).advance h).Stored m' bs n) :
    m.Stored m' (c :: bs) (n + 1) := by
  obtain ⟨hcap, hlimit, hbuffer, hwrite, hroom, hmoved, hwithin⟩ := hrest
  have hlen := m.length_buffer
  have hlimit' := m.limitIndex_le
  simp only [advance, store] at hcap hlimit hbuffer hwrite hroom hwithin
  refine ⟨hcap, hlimit, ?_, by omega, ?_, ?_, by omega⟩
  · rw [hbuffer, overwrite_set (by omega)]
  · simp only [List.length_cons]
    omega
  · simp only [List.length_cons]
    omega

/-- The closed form of the write loop: it stores the string and its NUL, as far as they fit
below the limit. -/
lemma writeLoop_eq (m : TraceMessage) (str : List UInt8) (hm : m.writeIndex ≤ m.limitIndex) :
    (m.writeLoop str).1 = decide (str.length < m.availSize.toNat) ∧
      m.Stored (m.writeLoop str).2 ((str ++ [0]).take m.availSize.toNat)
        (min str.length m.availSize.toNat) := by
  induction str generalizing m with
  | nil =>
      unfold writeLoop
      split
      · next h =>
          have hroom : 0 < m.availSize.toNat := by
            unfold availSize
            omega
          rw [List.nil_append, List.take_of_length_le (Nat.succ_le_of_lt hroom), List.length_nil,
            Nat.zero_min]
          exact ⟨(decide_eq_true hroom).symm, m.stored_store 0 h⟩
      · next h =>
          have hroom : m.availSize.toNat = 0 := by
            unfold availSize
            omega
          rw [hroom, List.take_zero, Nat.min_zero]
          exact ⟨by simp, stored_nil hm⟩
  | cons c str ih =>
      unfold writeLoop
      split
      · next h =>
          set next := (m.store c h).advance h with hnext
          have hroom : m.availSize.toNat = next.availSize.toNat + 1 := by
            simp only [availSize, hnext, advance, store]
            omega
          obtain ⟨hok, hstored⟩ := ih next (Nat.succ_le_of_lt h)
          have hmin : min (c :: str).length m.availSize.toNat =
              min str.length next.availSize.toNat + 1 := by
            rw [hroom, List.length_cons]
            omega
          refine ⟨?_, ?_⟩
          · rw [hok, hroom, List.length_cons]
            exact decide_eq_decide.mpr (Nat.succ_lt_succ_iff.symm)
          · rw [hmin, hroom, List.cons_append, List.take_succ_cons]
            exact hstored.cons h
      · next h =>
          have hroom : m.availSize.toNat = 0 := by
            unfold availSize
            omega
          rw [hroom, List.take_zero, Nat.min_zero]
          exact ⟨by simp, stored_nil hm⟩

/-- **The law of `write`**. -/
theorem write_stored {m : TraceMessage} (hm : m.writeIndex ≤ m.limitIndex) (s : CString) :
    m.Stored (m.write s).2 ((s.1 ++ [0]).take m.availSize.toNat)
      (min s.1.length m.availSize.toNat) := (writeLoop_eq m s.1 hm).2

lemma write_eq_true_iff {m : TraceMessage} (hm : m.writeIndex ≤ m.limitIndex) (s : CString) :
    (m.write s).1 = true ↔ s.1.length < m.availSize.toNat := by
  rw [write, (writeLoop_eq m s.1 hm).1, decide_eq_true_iff]

lemma vnprintf_of_le {m : TraceMessage} {maxSize : ℕ} {text : CString}
    (h : (text.1.length : ℤ) ≤ m.availSize) :
    (m.vnprintf maxSize text).1 = true ∧
      (m.vnprintf maxSize text).2.capacity = m.capacity ∧
      (m.vnprintf maxSize text).2.limitIndex = m.limitIndex ∧
      (m.vnprintf maxSize text).2.buffer = overwrite m.buffer m.writeIndex
        (printed (min m.availSize maxSize).toNat text.1) ∧
      (m.vnprintf maxSize text).2.writeIndex = m.writeIndex + text.1.length := by
  unfold vnprintf
  dsimp only
  rw [dif_pos h]
  exact ⟨rfl, rfl, rfl, rfl, rfl⟩

lemma vnprintf_of_lt {m : TraceMessage} {maxSize : ℕ} {text : CString}
    (h : m.availSize < text.1.length) :
    (m.vnprintf maxSize text).1 = false ∧
      (m.vnprintf maxSize text).2.capacity = m.capacity ∧
      (m.vnprintf maxSize text).2.limitIndex = m.limitIndex ∧
      (m.vnprintf maxSize text).2.buffer = overwrite m.buffer m.writeIndex
        (0 :: (printed (min m.availSize maxSize).toNat text.1).tail) ∧
      (m.vnprintf maxSize text).2.writeIndex = m.writeIndex := by
  have hwrite := m.writeIndex_le
  have hlen := m.length_buffer
  unfold vnprintf
  dsimp only
  rw [dif_neg (Int.not_le.mpr h)]
  exact ⟨rfl, rfl, rfl, set_overwrite (by omega) 0, rfl⟩

/-- **The law of `printf`**: a text that fits is stored and passed; any other leaves a NUL at the
write position. -/
theorem printf_stored {m : TraceMessage} (hm : m.writeIndex ≤ m.limitIndex) (text : CString) :
    ((m.printf text).1 = true ∧ (text.1.length : ℤ) ≤ m.availSize ∧
        m.Stored (m.printf text).2 (printed m.availSize.toNat text.1) text.1.length) ∨
      ((m.printf text).1 = false ∧ m.availSize < text.1.length ∧
        m.Stored (m.printf text).2 (0 :: (printed m.availSize.toNat text.1).tail) 0) := by
  have hsize : (min m.availSize (m.availSize.toNat : ℤ)).toNat = m.availSize.toNat := by omega
  have havail : m.availSize.toNat = m.limitIndex - m.writeIndex := by
    unfold availSize
    omega
  have hlimit := m.limitIndex_le
  have hprinted := length_printed_le m.availSize.toNat text.1
  rcases Int.lt_or_le m.availSize text.1.length with h | h
  · right
    obtain ⟨hok, hcap, hlim, hbuffer, hwrite⟩ := @vnprintf_of_lt m m.availSize.toNat text h
    rw [hsize] at hbuffer
    refine ⟨hok, h, hcap, hlim, hbuffer, hwrite, ?_, Nat.zero_le _, by omega⟩
    rw [List.length_cons, List.length_tail]
    omega
  · left
    obtain ⟨hok, hcap, hlim, hbuffer, hwrite⟩ := @vnprintf_of_le m m.availSize.toNat text h
    rw [hsize] at hbuffer
    have hle : text.1.length ≤ m.availSize.toNat := by omega
    refine ⟨hok, h, hcap, hlim, hbuffer, hwrite, by omega, ?_, by omega⟩
    unfold printed
    split
    · omega
    · rw [List.length_append, List.length_take, List.length_singleton]
      omega

/-! ## Going on from a message -/

/-- `m'` came from `m` by operations under one limit: it goes on below the limit where `m` stood,
and what was written up to there is still there. -/
structure Extends (m m' : TraceMessage) : Prop where
  capacity : m'.capacity = m.capacity
  limitIndex : m'.limitIndex = m.limitIndex
  writeIndex_le : m.writeIndex ≤ m'.writeIndex
  within : m'.writeIndex ≤ m'.limitIndex
  kept : m'.buffer.take m.writeIndex = m.buffer.take m.writeIndex

section Extends

variable {m m' m'' : TraceMessage}

lemma Extends.refl (hm : m.writeIndex ≤ m.limitIndex) : m.Extends m :=
  ⟨rfl, rfl, le_rfl, hm, rfl⟩

lemma Extends.trans (h : m.Extends m') (h' : m'.Extends m'') : m.Extends m'' := by
  refine ⟨h'.capacity.trans h.capacity, h'.limitIndex.trans h.limitIndex,
    h.writeIndex_le.trans h'.writeIndex_le, h'.within, ?_⟩
  have hkept := congrArg (List.take m.writeIndex) h'.kept
  rw [List.take_take, List.take_take, min_eq_left h.writeIndex_le] at hkept
  rw [hkept, h.kept]

lemma Stored.extends {bs : List UInt8} {n : ℕ} (h : m.Stored m' bs n) : m.Extends m' := by
  have hwithin := h.within
  have hwrite := m.writeIndex_le
  have hlen := m.length_buffer
  refine ⟨h.capacity, h.limitIndex, ?_, ?_, ?_⟩
  · rw [h.writeIndex]
    omega
  · rw [h.writeIndex, h.limitIndex]
    exact hwithin
  · rw [h.buffer, take_overwrite_of_le (by omega) le_rfl]

/-- The operations that do not touch the limit keep the space that is left non-negative. -/
lemma Extends.availSize_le (h : m.Extends m') : 0 ≤ m'.availSize ∧ m'.availSize ≤ m.availSize := by
  obtain ⟨-, hlimit, hle, hwithin, -⟩ := h
  unfold availSize
  omega

/-- Back to an offset where the message once stood. -/
lemma Extends.rewind_writeIndex (h : m.Extends m') {k : ℕ} (hk : k ≤ m'.writeIndex) :
    (m'.rewind k).writeIndex = k := by
  have hwithin := h.within
  show (clip k 0 m'.limitIndex).toNat = k
  unfold clip
  omega

lemma Extends.rewind (h : m.Extends m') {k : ℕ} (hmk : m.writeIndex ≤ k)
    (hk : k ≤ m'.writeIndex) : m.Extends (m'.rewind k) := by
  have hindex := h.rewind_writeIndex hk
  have hwithin := h.within
  refine ⟨h.capacity, h.limitIndex, ?_, ?_, ?_⟩
  · rw [hindex]
    exact hmk
  · rw [hindex]
    exact hk.trans hwithin
  · show (m'.buffer.set (m'.rewind k).writeIndex 0).take m.writeIndex = _
    rw [hindex, List.take_set_of_le hmk, h.kept]

/-- The limit that `limit` sets. -/
lemma limit_limitIndex (hm : m.writeIndex ≤ m.limitIndex) (size : ℕ) :
    (m.limit size).2.limitIndex = min (m.writeIndex + size) m.limitIndex := by
  show m.writeIndex + (clip size 0 m.availSize).toNat = _
  unfold clip availSize
  omega

/-- A stretch of operations under a tighter limit, from the outside. -/
lemma Extends.unlimit (hm : m.writeIndex ≤ m.limitIndex) {size : ℕ}
    (h : (m.limit size).2.Extends m') : m.Extends (m'.unlimitTo (m.limit size).1) := by
  have hlimit := h.limitIndex
  have hwithin := h.within
  have hcap := m.limitIndex_le
  rw [limit_limitIndex hm] at hlimit
  have hrestored : (m'.unlimitTo (m.limit size).1).limitIndex = m.limitIndex := by
    show (clip m.limitIndex 0 m'.capacity).toNat = m.limitIndex
    rw [show m'.capacity = m.capacity from h.capacity]
    unfold clip
    omega
  refine ⟨h.capacity, hrestored, h.writeIndex_le, ?_, h.kept⟩
  rw [hrestored]
  show m'.writeIndex ≤ m.limitIndex
  omega

end Extends

/-! ## Two messages that show the same -/

/-- The messages stand at one position under one limit, and hold the same bytes up to there. -/
structure Agree (a b : TraceMessage) : Prop where
  capacity : b.capacity = a.capacity
  limitIndex : b.limitIndex = a.limitIndex
  writeIndex : b.writeIndex = a.writeIndex
  within : a.writeIndex ≤ a.limitIndex
  bytes : b.buffer.take a.writeIndex = a.buffer.take a.writeIndex

section Agree

variable {a b a' b' : TraceMessage}

lemma Agree.availSize_eq (h : Agree a b) : b.availSize = a.availSize := by
  rw [availSize, availSize, h.limitIndex, h.writeIndex]

lemma Agree.within_right (h : Agree a b) : b.writeIndex ≤ b.limitIndex := by
  rw [h.writeIndex, h.limitIndex]
  exact h.within

/-- The same bytes stored in both. -/
lemma Agree.stored (h : Agree a b) {bs : List UInt8} {n : ℕ} (ha : a.Stored a' bs n)
    (hb : b.Stored b' bs n) : Agree a' b' := by
  have hwithin := ha.within
  have hla := a.length_buffer
  have hlb := b.length_buffer
  have hca := a.writeIndex_le
  have hcb := b.writeIndex_le
  have hbytes := h.bytes
  rw [← h.writeIndex] at hbytes
  refine ⟨?_, ?_, ?_, ?_, ?_⟩
  · rw [hb.capacity, ha.capacity, h.capacity]
  · rw [hb.limitIndex, ha.limitIndex, h.limitIndex]
  · rw [hb.writeIndex, ha.writeIndex, h.writeIndex]
  · rw [ha.writeIndex, ha.limitIndex]
    exact hwithin
  · rw [ha.writeIndex, hb.buffer, ha.buffer, h.writeIndex]
    exact take_overwrite_congr (by rw [← h.writeIndex]; omega) (by omega) h.bytes ha.moved

/-- Agreement up to a terminator is agreement on the text. -/
lemma text_eq_of_take {k : ℕ} (h : b.buffer.take k = a.buffer.take k)
    (ha : a.buffer[k]? = some 0) (hb : b.buffer[k]? = some 0) : b.text = a.text :=
  takeWhile_congr h hb ha

/-- The stored bytes end the text. -/
lemma Agree.text_eq_of_stored (h : Agree a b) {bs : List UInt8} {n k : ℕ}
    (ha : a.Stored a' bs n) (hb : b.Stored b' bs n) (hk : bs[k]? = some 0) :
    b'.text = a'.text := by
  have hla := a.length_buffer
  have hlb := b.length_buffer
  have hca := a.writeIndex_le
  have hcb := b.writeIndex_le
  have hlt : k < bs.length := (List.getElem?_eq_some_iff.mp hk).1
  refine text_eq_of_take (k := a.writeIndex + k) ?_ ?_ ?_
  · rw [hb.buffer, ha.buffer, h.writeIndex]
    exact take_overwrite_congr (by rw [← h.writeIndex]; omega) (by omega) h.bytes hlt.le
  · rw [ha.buffer, getElem?_overwrite (by omega) hlt, hk]
  · rw [hb.buffer, ← h.writeIndex, getElem?_overwrite (by omega) hlt, hk]

/-- A full message ends at the terminator behind its capacity. -/
lemma Agree.text_eq_of_full (h : Agree a b) (hfull : a.writeIndex = a.capacity) :
    b.text = a.text := by
  refine text_eq_of_take h.bytes (hfull ▸ a.terminated) ?_
  rw [hfull, ← h.capacity]
  exact b.terminated

/-- **Two writes of one string**: with no limit below the capacity the texts are equal after
them, whatever stale bytes follow. -/
theorem Agree.write (h : Agree a b) (s : CString) :
    (b.write s).1 = (a.write s).1 ∧ Agree (a.write s).2 (b.write s).2 ∧
      (a.limitIndex = a.capacity → (b.write s).2.text = (a.write s).2.text) := by
  have ha := write_stored h.within s
  have hb := write_stored h.within_right s
  have hagree : Agree (a.write s).2 (b.write s).2 := h.stored ha (h.availSize_eq ▸ hb)
  refine ⟨?_, hagree, fun hcap => ?_⟩
  · rw [Bool.eq_iff_iff, write_eq_true_iff h.within, write_eq_true_iff h.within_right,
      h.availSize_eq]
  · rcases Nat.lt_or_ge s.1.length a.availSize.toNat with hlt | hge
    · refine h.text_eq_of_stored ha (h.availSize_eq ▸ hb) (k := s.1.length) ?_
      rw [List.getElem?_take_of_lt hlt, List.getElem?_append_right le_rfl, Nat.sub_self]
      rfl
    · refine hagree.text_eq_of_full ?_
      have hwithin := h.within
      rw [ha.writeIndex, ha.capacity, ← hcap, min_eq_right hge, availSize]
      omega

/-- **Two prints of one text**. -/
theorem Agree.printf (h : Agree a b) (text : CString) :
    (b.printf text).1 = (a.printf text).1 ∧ Agree (a.printf text).2 (b.printf text).2 ∧
      (a.limitIndex = a.capacity → (b.printf text).2.text = (a.printf text).2.text) := by
  have hwithin := h.within
  have ha := printf_stored h.within text
  have hb := printf_stored h.within_right text
  rw [h.availSize_eq] at hb
  rcases ha with ⟨hat, hale, ha⟩ | ⟨haf, halt, ha⟩
  · rcases hb with ⟨hbt, -, hb⟩ | ⟨-, hblt, -⟩
    · have hagree := h.stored ha hb
      refine ⟨hbt.trans hat.symm, hagree, fun hcap => ?_⟩
      rcases Nat.eq_zero_or_pos a.availSize.toNat with hzero | hpos
      · -- nothing was stored, and the message was full before
        refine hagree.text_eq_of_full ?_
        rw [ha.writeIndex, ha.capacity, ← hcap]
        unfold availSize at hzero hale
        omega
      · refine h.text_eq_of_stored ha hb (k := min text.1.length (a.availSize.toNat - 1)) ?_
        rw [printed, if_neg (by omega), List.getElem?_append_right (by simp [min_comm]),
          List.length_take]
        simp [min_comm]
    · omega
  · rcases hb with ⟨-, hble, -⟩ | ⟨hbf, -, hb⟩
    · omega
    · exact ⟨hbf.trans haf.symm, h.stored ha hb,
        fun _ => h.text_eq_of_stored ha hb (k := 0) rfl⟩

/-- **Two rewinds to one offset** below the write position. -/
theorem Agree.rewind (h : Agree a b) {k : ℕ} (hk : k ≤ a.writeIndex) :
    Agree (a.rewind k) (b.rewind k) ∧ (b.rewind k).text = (a.rewind k).text := by
  have hwithin := h.within
  have ha : (a.rewind k).writeIndex = k := (Extends.refl h.within).rewind_writeIndex hk
  have hb : (b.rewind k).writeIndex = k :=
    (Extends.refl h.within_right).rewind_writeIndex (h.writeIndex ▸ hk)
  have hbytes : (b.rewind k).buffer.take k = (a.rewind k).buffer.take k := by
    show (b.buffer.set (b.rewind k).writeIndex 0).take k =
      (a.buffer.set (a.rewind k).writeIndex 0).take k
    have htake := congrArg (List.take k) h.bytes
    rw [List.take_take, List.take_take, min_eq_left hk] at htake
    rw [ha, hb, List.take_set_of_le le_rfl, List.take_set_of_le le_rfl, htake]
  have hnul (m : TraceMessage) (hm : (m.rewind k).writeIndex = k) :
      (m.rewind k).buffer[k]? = some 0 := by
    have hlen := m.length_buffer
    have hcap := (m.rewind k).writeIndex_le
    show (m.buffer.set (m.rewind k).writeIndex 0)[k]? = some 0
    rw [hm] at hcap ⊢
    rw [List.getElem?_set_self]
    have hcapacity : (m.rewind k).capacity = m.capacity := rfl
    omega
  refine ⟨⟨h.capacity, h.limitIndex, hb.trans ha.symm, ?_, ?_⟩,
    text_eq_of_take hbytes (hnul a ha) (hnul b hb)⟩
  · rw [ha]
    exact hk.trans hwithin
  · rw [ha]
    exact hbytes

lemma Agree.limit (h : Agree a b) (size : ℕ) :
    (b.limit size).1 = (a.limit size).1 ∧ Agree (a.limit size).2 (b.limit size).2 := by
  have hwithin := h.within
  refine ⟨h.limitIndex, h.capacity, ?_, h.writeIndex, ?_, h.bytes⟩
  · rw [limit_limitIndex h.within, limit_limitIndex h.within_right, h.writeIndex, h.limitIndex]
  · rw [limit_limitIndex h.within]
    show a.writeIndex ≤ _
    omega

/-- Both limits lifted again. -/
lemma Agree.unlimitTo (h : Agree a b) (i : ℕ)
    (hi : a.writeIndex ≤ (a.unlimitTo i).limitIndex) : Agree (a.unlimitTo i) (b.unlimitTo i) := by
  refine ⟨h.capacity, ?_, h.writeIndex, hi, h.bytes⟩
  show (clip i 0 b.capacity).toNat = (clip i 0 a.capacity).toNat
  rw [h.capacity]

end Agree

end TraceMessage

end InfiTracing
