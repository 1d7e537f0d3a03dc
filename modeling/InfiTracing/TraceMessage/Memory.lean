import InfiTracing.TraceMessage.Format

/-!
# `TraceMessage` on bare memory

The class as C++ runs it: the indices are integers that nothing keeps within the buffer, the
buffer is whatever memory lies around its address, and every byte stored is written down with
its index and with the write position and the limit at that moment.  An `int` here is an
integer without a bound; as long as the indices stay between 0 and the capacity none of the sums
below leaves the range of an `int`.

`MessageMemory.Sound` is the invariant of the class: the positions are in order, no byte was
stored outside the buffer, and none but a NUL at its end.  Every operation keeps it, except that
`unlimit(i)` does so only for an `i` that is not below the write position.

`TraceMessage` carries the invariant in its proof fields.  `Represents` connects the two: from
a sound memory, every operation does on the memory what the operation of `TraceMessage` does
(`Represents.perform`).
-/

namespace InfiTracing

open Framework

/-! ## The operations -/

/-- One byte stored in the buffer: where, which, and where the write position and the limit
stood. -/
structure Store where
  index : ℤ
  byte : UInt8
  writeIndex : ℤ
  limitIndex : ℤ

/-- The class `TraceMessage`, with the memory around `buffer` and all stores so far. -/
structure MessageMemory where
  capacity : ℤ
  buffer : ℤ → UInt8
  writeIndex : ℤ
  limitIndex : ℤ
  severity : ℤ
  timestamp : ℕ
  stores : List Store

/-- An `int` converted to `size_t`. -/
def sizeT (n : ℤ) : ℕ := (n % 2 ^ 64).toNat

/-- What `vsnprintf` returns for a formatted text: its length, if that is an `int`. -/
def vsnprintfResult (text : List UInt8) : ℤ := if text.length < 2 ^ 31 then text.length else -1

namespace MessageMemory

/-- `buffer[i] = c`. -/
def store (m : MessageMemory) (i : ℤ) (c : UInt8) : MessageMemory :=
  { m with
    buffer := Function.update m.buffer i c
    stores := m.stores ++ [⟨i, c, m.writeIndex, m.limitIndex⟩] }

/-- The bytes stored one after the other, from index `i` on. -/
def storeAll (m : MessageMemory) (i : ℤ) : List UInt8 → MessageMemory
  | [] => m
  | c :: bs => (m.store i c).storeAll (i + 1) bs

/-- `recycle()`. -/
def recycle (m : MessageMemory) : MessageMemory :=
  let m := { m with writeIndex := 0, limitIndex := m.capacity }
  let m := (m.store m.capacity 0).store 0 0
  { m with severity := severityNotset, timestamp := 0 }

/-- `realloc(new_capacity)`; `memory` is what lies around the allocated bytes. -/
def realloc (m : MessageMemory) (memory : ℤ → UInt8) (newCapacity : ℤ) : MessageMemory :=
  if 0 < newCapacity then
    recycle { m with capacity := newCapacity, buffer := memory }
  else
    m.recycle

/-- `TraceMessage(_capacity)`. -/
def construct (memory : ℤ → UInt8) (capacity : ℤ) : MessageMemory :=
  let m : MessageMemory :=
    { capacity := 0
      buffer := fun _ => 0
      writeIndex := 0
      limitIndex := 0
      severity := severityNotset
      timestamp := 0
      stores := [] }
  if 0 < capacity then m.realloc memory capacity else m

/-- `avail_size()`. -/
def availSize (m : MessageMemory) : ℤ := m.limitIndex - m.writeIndex

/-- `limit(size)`, which returns the limit that was in force. -/
def limit (m : MessageMemory) (size : ℤ) : ℤ × MessageMemory :=
  (m.limitIndex, { m with limitIndex := m.writeIndex + clip size 0 m.availSize })

/-- `unlimit(i)`. -/
def unlimitTo (m : MessageMemory) (i : ℤ) : MessageMemory :=
  { m with limitIndex := clip i 0 m.capacity }

/-- `rewind(offset)`. -/
def rewind (m : MessageMemory) (offset : ℤ) : MessageMemory :=
  let m := { m with writeIndex := clip offset 0 m.limitIndex }
  m.store m.writeIndex 0

/-- The loop of `write(str)`; the empty list is `str` pointing at the NUL. -/
def writeLoop (m : MessageMemory) : List UInt8 → Bool × MessageMemory
  | [] => if m.writeIndex < m.limitIndex then (true, m.store m.writeIndex 0) else (false, m)
  | c :: str =>
      if m.writeIndex < m.limitIndex then
        { m.store m.writeIndex c with writeIndex := m.writeIndex + 1 }.writeLoop str
      else (false, m)

/-- `write(str)`. -/
def write (m : MessageMemory) (str : CString) : Bool × MessageMemory := m.writeLoop str.1

/-- `vnprintf(max_size, ..)`, on the formatted text. -/
def vnprintf (m : MessageMemory) (maxSize : ℤ) (text : CString) : Bool × MessageMemory :=
  let size := sizeT (min m.availSize maxSize)
  let m := m.storeAll m.writeIndex (TraceMessage.printed size text.1)
  let n := vsnprintfResult text.1
  if n > -1 ∧ n ≤ m.availSize then
    (true, { m with writeIndex := m.writeIndex + n })
  else
    -- failed to write everything, so we write nothing
    (false, m.store m.writeIndex 0)

/-- `printf(..)`. -/
def printf (m : MessageMemory) (text : CString) : Bool × MessageMemory :=
  m.vnprintf m.availSize text

end MessageMemory

/-- An operation with its arguments.  `write_offset()` only reads. -/
inductive MessageOp
  | write (str : CString)
  | printf (text : CString)
  | limit (size : ℤ)
  | unlimit (i : ℤ)
  | rewind (offset : ℤ)
  | recycle
  | writeOffset

/-- The memory after the operation. -/
def MessageMemory.perform (m : MessageMemory) : MessageOp → MessageMemory
  | .write str => (m.write str).2
  | .printf text => (m.printf text).2
  | .limit size => (m.limit size).2
  | .unlimit i => m.unlimitTo i
  | .rewind offset => m.rewind offset
  | .recycle => m.recycle
  | .writeOffset => m

/-- The message after the operation. -/
def TraceMessage.perform (m : TraceMessage) : MessageOp → TraceMessage
  | .write str => (m.write str).2
  | .printf text => (m.printf text).2
  | .limit size => (m.limit size).2
  | .unlimit i => m.unlimitTo i
  | .rewind offset => m.rewind offset
  | .recycle => m.recycle
  | .writeOffset => m

/-! ## The invariant of the class -/

/-- The byte went into the buffer, into its last place only if it is a NUL, at a moment when the
positions were in order. -/
structure Store.Within (capacity : ℤ) (e : Store) : Prop where
  nonneg : 0 ≤ e.index
  le : e.index ≤ capacity
  nul : e.index = capacity → e.byte = 0
  write_nonneg : 0 ≤ e.writeIndex
  write_le : e.writeIndex ≤ e.limitIndex
  limit_le : e.limitIndex ≤ capacity

namespace MessageMemory

/-- The positions are in order, the last byte is NUL, and so it was at every store. -/
structure Sound (m : MessageMemory) : Prop where
  write_nonneg : 0 ≤ m.writeIndex
  write_le : m.writeIndex ≤ m.limitIndex
  limit_le : m.limitIndex ≤ m.capacity
  nul : m.buffer m.capacity = 0
  stores : ∀ e ∈ m.stores, e.Within m.capacity

lemma clip_mem {n upper : ℤ} (h : 0 ≤ upper) : 0 ≤ clip n 0 upper ∧ clip n 0 upper ≤ upper := by
  unfold clip
  omega

section Sound

variable {m : MessageMemory}

/-- A byte below the end of the buffer, or a NUL up to it. -/
lemma Sound.store (hm : m.Sound) {i : ℤ} {c : UInt8} (hi : 0 ≤ i) (hle : i ≤ m.capacity)
    (hc : i = m.capacity → c = 0) : (m.store i c).Sound where
  write_nonneg := hm.write_nonneg
  write_le := hm.write_le
  limit_le := hm.limit_le
  nul := by
    by_cases h : m.capacity = i
    · simp [MessageMemory.store, h, hc h.symm]
    · simpa [MessageMemory.store, h] using hm.nul
  stores e he := by
    rcases List.mem_append.mp he with he | he
    · exact hm.stores e he
    · rw [List.mem_singleton.mp he]
      exact ⟨hi, hle, hc, hm.write_nonneg, hm.write_le, hm.limit_le⟩

/-- A write position up to the limit. -/
lemma Sound.moveTo (hm : m.Sound) {w : ℤ} (hw : 0 ≤ w) (hle : w ≤ m.limitIndex) :
    { m with writeIndex := w }.Sound :=
  ⟨hw, hle, hm.limit_le, hm.nul, hm.stores⟩

/-- A limit between the write position and the capacity. -/
lemma Sound.limitTo (hm : m.Sound) {l : ℤ} (hle : m.writeIndex ≤ l) (hcap : l ≤ m.capacity) :
    { m with limitIndex := l }.Sound :=
  ⟨hm.write_nonneg, hle, hcap, hm.nul, hm.stores⟩

/-- Storing leaves the positions alone. -/
lemma storeAll_frame (m : MessageMemory) (i : ℤ) (bs : List UInt8) :
    (m.storeAll i bs).capacity = m.capacity ∧ (m.storeAll i bs).writeIndex = m.writeIndex ∧
      (m.storeAll i bs).limitIndex = m.limitIndex ∧ (m.storeAll i bs).severity = m.severity ∧
      (m.storeAll i bs).timestamp = m.timestamp := by
  induction bs generalizing m i with
  | nil => exact ⟨rfl, rfl, rfl, rfl, rfl⟩
  | cons c bs ih => exact ih (m.store i c) (i + 1)

/-- Bytes that all go below the end of the buffer. -/
lemma Sound.storeAll (hm : m.Sound) {i : ℤ} {bs : List UInt8} (hi : 0 ≤ i)
    (hle : i + bs.length ≤ m.capacity) : (m.storeAll i bs).Sound := by
  induction bs generalizing m i with
  | nil => exact hm
  | cons c bs ih =>
      rw [List.length_cons, Nat.cast_add, Nat.cast_one] at hle
      have hstored : (m.store i c).Sound := hm.store hi (by omega) (fun heq => by omega)
      exact ih hstored (by omega) (by simp only [MessageMemory.store]; omega)

lemma Sound.recycle (hcap : 0 ≤ m.capacity) (hstores : ∀ e ∈ m.stores, e.Within m.capacity) :
    m.recycle.Sound := by
  have hindices : (0 : ℤ) ≤ 0 ∧ (0 : ℤ) ≤ m.capacity ∧ m.capacity ≤ m.capacity :=
    ⟨le_rfl, hcap, le_rfl⟩
  refine ⟨le_rfl, hcap, le_rfl, ?_, fun e he => ?_⟩
  · simp [MessageMemory.recycle, MessageMemory.store, Function.update_apply]
  · simp only [MessageMemory.recycle, MessageMemory.store, List.append_assoc,
      List.mem_append, List.mem_singleton] at he
    rcases he with he | rfl | rfl
    · exact hstores e he
    · exact ⟨hcap, le_rfl, fun _ => rfl, le_rfl, hcap, le_rfl⟩
    · exact ⟨le_rfl, hcap, fun _ => rfl, le_rfl, hcap, le_rfl⟩

lemma sound_construct (memory : ℤ → UInt8) {capacity : ℤ} (hcap : 1 ≤ capacity) :
    (construct memory capacity).Sound ∧ (construct memory capacity).capacity = capacity := by
  have hpos : 0 < capacity := hcap
  simp only [construct, realloc, if_pos hpos]
  exact ⟨Sound.recycle hpos.le (by simp), rfl⟩

lemma Sound.limit (hm : m.Sound) (size : ℤ) : (m.limit size).2.Sound := by
  have hwrite := hm.write_le
  have hcap := hm.limit_le
  obtain ⟨hnonneg, hle⟩ := @clip_mem size m.availSize (by unfold availSize; omega)
  refine hm.limitTo ?_ ?_ <;> unfold availSize at * <;> omega

lemma Sound.rewind (hm : m.Sound) (offset : ℤ) : (m.rewind offset).Sound := by
  have hcap := hm.limit_le
  obtain ⟨hnonneg, hle⟩ := @clip_mem offset m.limitIndex (hm.write_nonneg.trans hm.write_le)
  exact (hm.moveTo hnonneg hle).store hnonneg (hle.trans hcap) fun _ => rfl

lemma Sound.unlimitTo (hm : m.Sound) {i : ℤ} (hi : m.writeIndex ≤ i) (hcap : i ≤ m.capacity) :
    (m.unlimitTo i).Sound ∧ (m.unlimitTo i).limitIndex = i := by
  have hnonneg := hm.write_nonneg
  have hclip : clip i 0 m.capacity = i := by
    unfold clip
    omega
  unfold MessageMemory.unlimitTo
  rw [hclip]
  exact ⟨hm.limitTo hi hcap, rfl⟩

/-- The write loop stays below the limit. -/
lemma Sound.writeLoop (hm : m.Sound) (str : List UInt8) : (m.writeLoop str).2.Sound := by
  induction str generalizing m with
  | nil =>
      unfold MessageMemory.writeLoop
      split_ifs with h
      · have hcap := hm.limit_le
        exact hm.store hm.write_nonneg (by omega) fun _ => rfl
      · exact hm
  | cons c str ih =>
      unfold MessageMemory.writeLoop
      split_ifs with h
      · have hcap := hm.limit_le
        have hnonneg := hm.write_nonneg
        have hstored : (m.store m.writeIndex c).Sound :=
          hm.store hnonneg (by omega) (fun heq => by omega)
        exact ih (hstored.moveTo (by omega) (by simp only [MessageMemory.store]; omega))
      · exact hm

lemma writeLoop_frame (m : MessageMemory) (str : List UInt8) :
    (m.writeLoop str).2.capacity = m.capacity ∧
      (m.writeLoop str).2.limitIndex = m.limitIndex := by
  induction str generalizing m with
  | nil =>
      unfold writeLoop
      split_ifs <;> exact ⟨rfl, rfl⟩
  | cons c str ih =>
      unfold writeLoop
      split_ifs
      · exact ih _
      · exact ⟨rfl, rfl⟩

/-- The size that `vsnprintf` gets is no more than what is available. -/
lemma sizeT_le {n : ℤ} (h : 0 ≤ n) : (sizeT n : ℤ) ≤ n := by
  unfold sizeT
  omega

lemma Sound.printf (hm : m.Sound) (text : CString) : (m.printf text).2.Sound := by
  have hnonneg := hm.write_nonneg
  have hwrite := hm.write_le
  have hcap := hm.limit_le
  have hsize := @sizeT_le (min m.availSize m.availSize) (by unfold availSize; omega)
  have hprinted := TraceMessage.length_printed_le (sizeT (min m.availSize m.availSize)) text.1
  rw [min_self] at hsize hprinted
  have hroom : m.writeIndex + (TraceMessage.printed (sizeT m.availSize) text.1).length ≤
      m.capacity := by
    unfold availSize at *
    omega
  have hstored := hm.storeAll hnonneg hroom
  obtain ⟨hc, hw, hl, -⟩ := m.storeAll_frame m.writeIndex
    (TraceMessage.printed (sizeT m.availSize) text.1)
  unfold MessageMemory.printf vnprintf
  dsimp only
  rw [min_self]
  split_ifs with hfits
  · rw [availSize, hw, hl] at hfits
    refine hstored.moveTo ?_ ?_ <;> rw [hw]
    · omega
    · rw [hl]
      omega
  · refine hstored.store ?_ ?_ fun _ => rfl <;> rw [hw]
    · exact hnonneg
    · rw [hc]
      omega

/-- **Every operation keeps the invariant**, where the limit that `unlimit` is given is one that
holds the text. -/
theorem Sound.perform (hm : m.Sound) {op : MessageOp}
    (hop : ∀ i, op = .unlimit i → m.writeIndex ≤ i ∧ i ≤ m.capacity) : (m.perform op).Sound := by
  cases op with
  | write str => exact hm.writeLoop str.1
  | printf text => exact hm.printf text
  | limit size => exact hm.limit size
  | unlimit i => exact (hm.unlimitTo (hop i rfl).1 (hop i rfl).2).1
  | rewind offset => exact hm.rewind offset
  | recycle =>
      exact .recycle (hm.write_nonneg.trans (hm.write_le.trans hm.limit_le)) hm.stores
  | writeOffset => exact hm

lemma printf_frame (m : MessageMemory) (text : CString) :
    (m.printf text).2.capacity = m.capacity ∧ (m.printf text).2.limitIndex = m.limitIndex := by
  obtain ⟨hc, -, hl, -⟩ := m.storeAll_frame m.writeIndex
    (TraceMessage.printed (sizeT (min m.availSize m.availSize)) text.1)
  unfold printf vnprintf
  dsimp only
  split_ifs
  · exact ⟨hc, hl⟩
  · exact ⟨hc, hl⟩

@[simp] lemma perform_capacity (m : MessageMemory) (op : MessageOp) :
    (m.perform op).capacity = m.capacity := by
  cases op with
  | write str => exact (m.writeLoop_frame str.1).1
  | printf text => exact (m.printf_frame text).1
  | limit | unlimit | rewind | recycle | writeOffset => rfl

end Sound

end MessageMemory

/-! ## The memory of a `TraceMessage` -/

/-- The first `n` bytes of the memory. -/
def cells (buffer : ℤ → UInt8) (n : ℕ) : List UInt8 := (List.range n).map fun i : ℕ => buffer i

@[simp] lemma length_cells (buffer : ℤ → UInt8) (n : ℕ) : (cells buffer n).length = n := by
  rw [cells, List.length_map, List.length_range]

lemma cells_update (buffer : ℤ → UInt8) (n k : ℕ) (c : UInt8) :
    cells (Function.update buffer k c) n = (cells buffer n).set k c := by
  refine List.ext_getElem (by simp) fun i hi _ => ?_
  rw [List.getElem_set]
  split_ifs with hik
  · simp [cells, hik]
  · simp [cells, Function.update_of_ne (Nat.cast_injective.ne (Ne.symm hik))]

open MessageMemory

/-- The message is what the memory holds. -/
structure Represents (r : MessageMemory) (m : TraceMessage) : Prop where
  capacity : r.capacity = m.capacity
  buffer : m.buffer = cells r.buffer (m.capacity + 1)
  writeIndex : r.writeIndex = m.writeIndex
  limitIndex : r.limitIndex = m.limitIndex
  severity : r.severity = m.severity
  timestamp : r.timestamp = m.timestamp

namespace Represents

variable {r : MessageMemory} {m : TraceMessage}

lemma availSize_eq (h : Represents r m) : r.availSize = m.availSize := by
  rw [MessageMemory.availSize, TraceMessage.availSize, h.writeIndex, h.limitIndex]

lemma limit (h : Represents r m) (hr : r.Sound) (size : ℤ) :
    (r.limit size).1 = (m.limit size).1 ∧ Represents (r.limit size).2 (m.limit size).2 := by
  refine ⟨h.limitIndex, h.capacity, h.buffer, h.writeIndex, ?_, h.severity, h.timestamp⟩
  have hle := hr.write_le
  obtain ⟨hnonneg, -⟩ := @clip_mem size r.availSize (by unfold availSize; omega)
  show r.writeIndex + clip size 0 r.availSize =
    ((m.writeIndex + (clip size 0 m.availSize).toNat : ℕ) : ℤ)
  rw [Nat.cast_add, ← h.availSize_eq, Int.toNat_of_nonneg hnonneg, h.writeIndex]

lemma unlimitTo (h : Represents r m) (i : ℤ) :
    Represents (r.unlimitTo i) (m.unlimitTo i) := by
  refine ⟨h.capacity, h.buffer, h.writeIndex, ?_, h.severity, h.timestamp⟩
  show clip i 0 r.capacity = ((clip i 0 m.capacity).toNat : ℤ)
  obtain ⟨hnonneg, -⟩ := @clip_mem i m.capacity (Int.natCast_nonneg _)
  rw [Int.toNat_of_nonneg hnonneg, h.capacity]

lemma rewind (h : Represents r m) (offset : ℤ) :
    Represents (r.rewind offset) (m.rewind offset) := by
  obtain ⟨hnonneg, -⟩ := @clip_mem offset m.limitIndex (Int.natCast_nonneg _)
  have hindex : clip offset 0 r.limitIndex = ((clip offset 0 m.limitIndex).toNat : ℤ) := by
    rw [Int.toNat_of_nonneg hnonneg, h.limitIndex]
  refine ⟨h.capacity, ?_, hindex, h.limitIndex, h.severity, h.timestamp⟩
  show m.buffer.set _ 0 = cells (Function.update r.buffer (clip offset 0 r.limitIndex) 0) _
  rw [hindex, cells_update, h.buffer]
  rfl

lemma recycle (h : Represents r m) : Represents r.recycle m.recycle := by
  refine ⟨h.capacity, ?_, rfl, h.capacity, rfl, rfl⟩
  show (m.buffer.set 0 0).set m.capacity 0 =
    cells (Function.update (Function.update r.buffer r.capacity 0) ((0 : ℕ) : ℤ) 0)
      (m.capacity + 1)
  rw [h.capacity, cells_update, cells_update, ← h.buffer]
  by_cases hzero : m.capacity = 0
  · rw [hzero]
  · exact List.set_comm 0 0 (Ne.symm hzero)

/-- One byte stored in both, and the write position moved to the same place. -/
lemma stored (h : Represents r m) {k w : ℕ} {c : UInt8} {m' : TraceMessage}
    (hcapacity : m'.capacity = m.capacity) (hbuffer : m'.buffer = m.buffer.set k c)
    (hwrite : m'.writeIndex = w) (hlimit : m'.limitIndex = m.limitIndex)
    (hseverity : m'.severity = m.severity) (htimestamp : m'.timestamp = m.timestamp) :
    Represents { r.store k c with writeIndex := w } m' := by
  refine ⟨h.capacity.trans (by rw [hcapacity]), ?_, congrArg Nat.cast hwrite.symm,
    h.limitIndex.trans (by rw [hlimit]), h.severity.trans hseverity.symm,
    h.timestamp.trans htimestamp.symm⟩
  show m'.buffer = cells (Function.update r.buffer k c) (m'.capacity + 1)
  rw [hbuffer, cells_update, hcapacity, h.buffer]

lemma writeLoop (h : Represents r m) (str : List UInt8) :
    (r.writeLoop str).1 = (m.writeLoop str).1 ∧
      Represents (r.writeLoop str).2 (m.writeLoop str).2 := by
  induction str generalizing r m with
  | nil =>
      unfold MessageMemory.writeLoop TraceMessage.writeLoop
      rw [h.writeIndex, h.limitIndex]
      by_cases hroom : m.writeIndex < m.limitIndex
      · rw [if_pos (by exact_mod_cast hroom), dif_pos hroom]
        refine ⟨rfl, ?_⟩
        have hstored : Represents { r.store m.writeIndex 0 with writeIndex := m.writeIndex }
            (m.store 0 hroom) := h.stored rfl rfl rfl rfl rfl rfl
        rwa [← h.writeIndex] at hstored ⊢
      · rw [if_neg (by exact_mod_cast hroom), dif_neg hroom]
        exact ⟨rfl, h⟩
  | cons c str ih =>
      unfold MessageMemory.writeLoop TraceMessage.writeLoop
      rw [h.writeIndex, h.limitIndex]
      by_cases hroom : m.writeIndex < m.limitIndex
      · rw [if_pos (by exact_mod_cast hroom), dif_pos hroom]
        exact ih (h.stored (w := m.writeIndex + 1) rfl rfl rfl rfl rfl rfl)
      · rw [if_neg (by exact_mod_cast hroom), dif_neg hroom]
        exact ⟨rfl, h⟩

lemma cells_storeAll (r : MessageMemory) {n k : ℕ} {bs : List UInt8} (hle : k + bs.length ≤ n) :
    cells (r.storeAll k bs).buffer n = overwrite (cells r.buffer n) k bs := by
  induction bs generalizing r k with
  | nil => rw [overwrite_nil]; rfl
  | cons c bs ih =>
      rw [List.length_cons] at hle
      have hrest : cells ((r.store k c).storeAll ((k + 1 : ℕ) : ℤ) bs).buffer n =
          overwrite (cells (r.store k c).buffer n) (k + 1) bs := ih _ (by omega)
      have hfirst : cells (r.store k c).buffer n = (cells r.buffer n).set k c :=
        cells_update _ _ _ _
      rw [hfirst, overwrite_set (by rw [length_cells]; omega)] at hrest
      exact hrest

/-- What `vsnprintf` stores, it stores in both. -/
lemma vsnprintf (h : Represents r m) {size : ℕ} (text : CString)
    (hroom : m.writeIndex + size ≤ m.capacity) :
    Represents (r.storeAll r.writeIndex (TraceMessage.printed size text.1))
      (m.vsnprintf size text hroom) := by
  obtain ⟨hcapacity, hwrite, hlimit, hseverity, htimestamp⟩ :=
    r.storeAll_frame r.writeIndex (TraceMessage.printed size text.1)
  refine ⟨hcapacity.trans h.capacity, ?_, hwrite.trans h.writeIndex, hlimit.trans h.limitIndex,
    hseverity.trans h.severity, htimestamp.trans h.timestamp⟩
  have hprinted := TraceMessage.length_printed_le size text.1
  show overwrite m.buffer m.writeIndex (TraceMessage.printed size text.1) =
    cells (r.storeAll r.writeIndex (TraceMessage.printed size text.1)).buffer (m.capacity + 1)
  rw [h.writeIndex, cells_storeAll r (by omega), h.buffer]

lemma terminate (h : Represents r m) : Represents (r.store r.writeIndex 0) m.terminate := by
  have hstored : Represents { r.store m.writeIndex 0 with writeIndex := m.writeIndex }
      m.terminate := h.stored rfl rfl rfl rfl rfl rfl
  rwa [← h.writeIndex] at hstored

/-- A `printf` returns and stores the same, as long as the capacity is an `int`. -/
lemma printf (h : Represents r m) (hr : r.Sound) (hint : m.capacity < 2 ^ 31) (text : CString) :
    (r.printf text).1 = (m.printf text).1 ∧ Represents (r.printf text).2 (m.printf text).2 := by
  have hwrite : m.writeIndex ≤ m.limitIndex := by
    have hle := hr.write_le
    rw [h.writeIndex, h.limitIndex] at hle
    exact_mod_cast hle
  have hlimit := m.limitIndex_le
  have havail : 0 ≤ m.availSize ∧ m.availSize < 2 ^ 31 ∧
      m.writeIndex + m.availSize.toNat ≤ m.capacity := by
    unfold TraceMessage.availSize
    omega
  have hsize : sizeT (min r.availSize r.availSize) =
      (min m.availSize (m.availSize.toNat : ℤ)).toNat := by
    rw [min_self, h.availSize_eq]
    unfold sizeT
    omega
  have hstored := h.vsnprintf text
    (by omega : m.writeIndex + (min m.availSize (m.availSize.toNat : ℤ)).toNat ≤ m.capacity)
  have hstoredAvail : (r.storeAll r.writeIndex (TraceMessage.printed
      (min m.availSize (m.availSize.toNat : ℤ)).toNat text.1)).availSize = m.availSize :=
    hstored.availSize_eq
  unfold MessageMemory.printf MessageMemory.vnprintf TraceMessage.printf TraceMessage.vnprintf
  dsimp only
  rw [hsize, hstoredAvail]
  by_cases hle : (text.1.length : ℤ) ≤ m.availSize
  · have hresult : vsnprintfResult text.1 = text.1.length := by
      unfold vsnprintfResult
      rw [if_pos (by omega)]
    rw [dif_pos hle, hresult, if_pos (by omega)]
    refine ⟨rfl, hstored.capacity, hstored.buffer, ?_, hstored.limitIndex, hstored.severity,
      hstored.timestamp⟩
    show _ + (text.1.length : ℤ) = ((m.writeIndex + text.1.length : ℕ) : ℤ)
    rw [hstored.writeIndex, Nat.cast_add]
    rfl
  · have hnot : ¬ (vsnprintfResult text.1 > -1 ∧ vsnprintfResult text.1 ≤ m.availSize) := by
      unfold vsnprintfResult
      split_ifs <;> omega
    rw [dif_neg hle, if_neg hnot]
    exact ⟨rfl, hstored.terminate⟩

/-- **The operations of the message are those on its memory.** -/
theorem perform (h : Represents r m) (hr : r.Sound) (hint : m.capacity < 2 ^ 31)
    (op : MessageOp) : Represents (r.perform op) (m.perform op) := by
  cases op with
  | write str => exact (h.writeLoop str.1).2
  | printf text => exact (h.printf hr hint text).2
  | limit size => exact (h.limit hr size).2
  | unlimit i => exact h.unlimitTo i
  | rewind offset => exact h.rewind offset
  | recycle => exact h.recycle
  | writeOffset => exact h

end Represents

end InfiTracing
