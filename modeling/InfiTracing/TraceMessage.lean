import Mathlib.Data.List.Infix
import Mathlib.Data.List.TakeWhile
import Mathlib.Tactic.Common

/-!
# `TraceMessage`: one slot's text buffer

The part of `trace_message.h` the ring buffer is built on: a byte buffer of `capacity + 1`
bytes, a write position, a limit, a severity and a timestamp, with the operations that reset
a message, write into it and copy it.

A C string is the list of its bytes before the NUL (`CString`); the text a message shows is
what `get_buffer` gives to a reader that stops at the first NUL (`TraceMessage.text`).
Memory that `new char[]` hands out is not cleared, so every allocation takes the bytes it
finds there as a parameter.

`Holds m t` is the state that `recycle` and any number of `write`s leave a message in: its
text is `t`, the write position stands at the end of `t`, and the limit is the capacity.
`holds_write` is the law of `write` in that state, and `text_assign` says that copying a
message copies its text.
-/

namespace InfiTracing

/-- The bytes of a C string, without the terminating NUL. -/
abbrev CString := { s : List UInt8 // 0 ∉ s }

/-- The C string a buffer holds: the bytes before the first NUL. -/
def CString.ofBuffer (bytes : List UInt8) : CString :=
  ⟨bytes.takeWhile (· ≠ 0), fun h => by simpa using List.mem_takeWhile_imp h⟩

/-- `SEVERITY_NOTSET`. -/
def severityNotset : ℤ := -1

/-- The class `TraceMessage`.  The proof fields are the invariants of its representation:
the buffer has `capacity + 1` bytes, neither index passes the capacity, and the byte at
`capacity` is NUL. -/
structure TraceMessage where
  capacity : ℕ
  buffer : List UInt8
  writeIndex : ℕ
  limitIndex : ℕ
  severity : ℤ
  timestamp : ℕ
  length_buffer : buffer.length = capacity + 1
  writeIndex_le : writeIndex ≤ capacity
  limitIndex_le : limitIndex ≤ capacity
  terminated : buffer[capacity]? = some 0

namespace TraceMessage

/-! ## The operations -/

/-- `TraceMessage()`: no capacity, the buffer is the string literal `""`. -/
def empty : TraceMessage where
  capacity := 0
  buffer := [0]
  writeIndex := 0
  limitIndex := 0
  severity := severityNotset
  timestamp := 0
  length_buffer := rfl
  writeIndex_le := le_rfl
  limitIndex_le := le_rfl
  terminated := rfl

/-- What `recycle` does to the five fields, on a buffer that need not be terminated yet. -/
def recycled (capacity : ℕ) (buffer : List UInt8) (h : buffer.length = capacity + 1) :
    TraceMessage where
  capacity := capacity
  buffer := (buffer.set 0 0).set capacity 0
  writeIndex := 0
  limitIndex := capacity
  severity := severityNotset
  timestamp := 0
  length_buffer := by simpa using h
  writeIndex_le := Nat.zero_le _
  limitIndex_le := le_rfl
  terminated := by simp [h]

/-- `recycle()`. -/
def recycle (m : TraceMessage) : TraceMessage :=
  recycled m.capacity m.buffer m.length_buffer

/-- `realloc(new_capacity)`, where `memory` is what the newly allocated bytes contain.  As in
the source, a capacity of 0 allocates nothing and only recycles. -/
def realloc (m : TraceMessage) (memory : ℕ → UInt8) (newCapacity : ℕ) : TraceMessage :=
  if 0 < newCapacity then
    recycled newCapacity ((List.range (newCapacity + 1)).map memory) (by simp)
  else
    m.recycle

/-- `buffer[write_index] = c` for a write position below the limit. -/
def store (m : TraceMessage) (c : UInt8) (h : m.writeIndex < m.limitIndex) : TraceMessage :=
  { m with
    buffer := m.buffer.set m.writeIndex c
    length_buffer := by simpa using m.length_buffer
    terminated := by
      have hne : m.writeIndex ≠ m.capacity := by have := m.limitIndex_le; omega
      simpa [List.getElem?_set_ne hne] using m.terminated }

/-- `write_index++` below the limit. -/
def advance (m : TraceMessage) (h : m.writeIndex < m.limitIndex) : TraceMessage :=
  { m with
    writeIndex := m.writeIndex + 1
    writeIndex_le := by have := m.limitIndex_le; omega }

/-- The loop of `write(str)`; the empty list is `str` pointing at the NUL.  The result is
`true` when the NUL was stored, `false` when the limit was reached before it. -/
def writeLoop (m : TraceMessage) : List UInt8 → Bool × TraceMessage
  | [] => if h : m.writeIndex < m.limitIndex then (true, m.store 0 h) else (false, m)
  | c :: str =>
      if h : m.writeIndex < m.limitIndex then ((m.store c h).advance h).writeLoop str
      else (false, m)

/-- `write(str)`. -/
def write (m : TraceMessage) (str : CString) : Bool × TraceMessage := m.writeLoop str.1

/-- `set_severity(_severity)`. -/
def setSeverity (m : TraceMessage) (severity : ℤ) : TraceMessage := { m with severity }

/-- `set_timestamp()` on POSIX, given what `gettimeofday` returned. -/
def setTimestamp (m : TraceMessage) (tvSec tvUsec : ℕ) : TraceMessage :=
  { m with timestamp := tvSec * 1000 + tvUsec / 1000 }

/-- `strncpy(dst, src, n)`: the C string at `src`, cut or padded with NULs to `n` bytes. -/
def strncpy (dst src : List UInt8) (n : ℕ) : List UInt8 :=
  let str := src.takeWhile (· ≠ 0)
  str.take n ++ List.replicate (n - str.length) 0 ++ dst.drop n

lemma length_strncpy (dst src : List UInt8) {n : ℕ} (h : n ≤ dst.length) :
    (strncpy dst src n).length = dst.length := by
  simp only [strncpy, List.length_append, List.length_take, List.length_replicate,
    List.length_drop]
  omega

lemma strncpy_getElem? (dst src : List UInt8) (n : ℕ) : (strncpy dst src n)[n]? = dst[n]? := by
  have hlen : ((src.takeWhile (· ≠ 0)).take n ++
      List.replicate (n - (src.takeWhile (· ≠ 0)).length) (0 : UInt8)).length = n := by
    simp only [List.length_append, List.length_take, List.length_replicate]
    omega
  rw [strncpy, List.getElem?_append_right (by omega), hlen]
  simp

/-- The reallocation `operator=` makes when the capacities differ. -/
def resized (m other : TraceMessage) (memory : ℕ → UInt8) : TraceMessage :=
  if other.capacity ≠ m.capacity then m.realloc memory other.capacity else m

lemma capacity_le_resized (m other : TraceMessage) (memory : ℕ → UInt8) :
    other.capacity ≤ (m.resized other memory).capacity := by
  unfold resized realloc
  split
  · split
    · simp [recycled]
    · omega
  · omega

/-- `operator=(other)`. -/
def assign (m other : TraceMessage) (memory : ℕ → UInt8) : TraceMessage :=
  let target := m.resized other memory
  { capacity := target.capacity
    buffer := strncpy target.buffer other.buffer target.capacity
    writeIndex := other.writeIndex
    limitIndex := other.limitIndex
    severity := other.severity
    timestamp := other.timestamp
    length_buffer := by
      rw [length_strncpy _ _ (by have := target.length_buffer; omega), target.length_buffer]
    writeIndex_le := other.writeIndex_le.trans (capacity_le_resized m other memory)
    limitIndex_le := other.limitIndex_le.trans (capacity_le_resized m other memory)
    terminated := by rw [strncpy_getElem?, target.terminated] }

/-- The text a reader of `get_buffer()` sees: the bytes before the first NUL. -/
def text (m : TraceMessage) : List UInt8 := m.buffer.takeWhile (· ≠ 0)

/-! ## Small facts about the operations -/

lemma writeLoop_frame (m : TraceMessage) (str : List UInt8) :
    (m.writeLoop str).2.capacity = m.capacity ∧ (m.writeLoop str).2.severity = m.severity ∧
      (m.writeLoop str).2.timestamp = m.timestamp := by
  induction str generalizing m with
  | nil =>
      unfold writeLoop
      split <;> simp [store]
  | cons c str ih =>
      unfold writeLoop
      split
      · next h =>
          obtain ⟨hcap, hsev, hts⟩ := ih ((m.store c h).advance h)
          exact ⟨hcap, hsev, hts⟩
      · simp

@[simp] lemma write_capacity (m : TraceMessage) (s : CString) :
    (m.write s).2.capacity = m.capacity := (writeLoop_frame m s.1).1

@[simp] lemma write_severity (m : TraceMessage) (s : CString) :
    (m.write s).2.severity = m.severity := (writeLoop_frame m s.1).2.1

@[simp] lemma write_timestamp (m : TraceMessage) (s : CString) :
    (m.write s).2.timestamp = m.timestamp := (writeLoop_frame m s.1).2.2

@[simp] lemma assign_severity (m other : TraceMessage) (memory : ℕ → UInt8) :
    (m.assign other memory).severity = other.severity := rfl

@[simp] lemma assign_timestamp (m other : TraceMessage) (memory : ℕ → UInt8) :
    (m.assign other memory).timestamp = other.timestamp := rfl

/-! ## The text after a reset and a series of writes -/

/-- The message shows exactly `t`, and further writes go on at the end of `t` with the whole
capacity as their limit. -/
structure Holds (m : TraceMessage) (t : List UInt8) : Prop where
  limit : m.limitIndex = m.capacity
  write : m.writeIndex = t.length
  noNul : 0 ∉ t
  shows : t ++ [0] <+: m.buffer

/-- A list without NULs, followed by a NUL, is the text of any buffer it begins. -/
lemma takeWhile_eq_of_prefix {t buffer : List UInt8} (ht : 0 ∉ t) (h : t ++ [0] <+: buffer) :
    buffer.takeWhile (· ≠ 0) = t := by
  obtain ⟨rest, rfl⟩ := h
  rw [List.append_assoc, List.takeWhile_append_of_pos]
  · simp
  · intro b hb
    simpa using ne_of_mem_of_not_mem hb ht

lemma Holds.text_eq {m : TraceMessage} {t : List UInt8} (h : m.Holds t) : m.text = t :=
  takeWhile_eq_of_prefix h.noNul h.shows

lemma holds_recycled (capacity : ℕ) (buffer : List UInt8)
    (h : buffer.length = capacity + 1) : (recycled capacity buffer h).Holds [] where
  limit := rfl
  write := rfl
  noNul := by simp
  shows := by
    cases buffer with
    | nil => simp at h
    | cons b buffer => cases capacity <;> simp [recycled]

lemma holds_recycle (m : TraceMessage) : m.recycle.Holds [] := holds_recycled _ _ _

/-- Where the text fills the whole capacity, the NUL behind it is the one at `capacity`. -/
lemma shows_of_full {m : TraceMessage} {t : List UInt8} (ht : t <+: m.buffer)
    (hlen : t.length = m.capacity) : t ++ [0] <+: m.buffer := by
  obtain ⟨rest, hrest⟩ := ht
  have hterm := m.terminated
  rw [← hrest, ← hlen, List.getElem?_append_right le_rfl, Nat.sub_self] at hterm
  cases rest with
  | nil => simp at hterm
  | cons b rest =>
      obtain rfl : b = 0 := by simpa using hterm
      exact ⟨rest, by simpa using hrest⟩

lemma prefix_set_length {t buffer : List UInt8} (c : UInt8) (ht : t <+: buffer)
    (hlen : t.length < buffer.length) : t ++ [c] <+: buffer.set t.length c := by
  obtain ⟨rest, rfl⟩ := ht
  cases rest with
  | nil => simp at hlen
  | cons b rest => exact ⟨rest, by simp⟩

/-- The law of the write loop: it appends as much of `str` as fits below the capacity. -/
lemma holds_writeLoop {m : TraceMessage} {t : List UInt8} (hlimit : m.limitIndex = m.capacity)
    (hwrite : m.writeIndex = t.length) (ht : 0 ∉ t) (hpre : t <+: m.buffer)
    (str : List UInt8) (hstr : 0 ∉ str) :
    (m.writeLoop str).2.Holds (t ++ str.take (m.capacity - t.length)) := by
  have hbound : t.length ≤ m.capacity := hwrite ▸ m.writeIndex_le
  induction str generalizing m t with
  | nil =>
      unfold writeLoop
      split
      · next h =>
          refine ⟨hlimit, by simpa [store] using hwrite, by simpa using ht, ?_⟩
          have hlt : t.length < m.buffer.length := by rw [m.length_buffer]; omega
          simpa [store, hwrite] using prefix_set_length 0 hpre hlt
      · exact ⟨hlimit, by simpa using hwrite, by simpa using ht,
          by simpa using shows_of_full hpre (by omega)⟩
  | cons c str ih =>
      unfold writeLoop
      split
      · next h =>
          have hlt : t.length < m.buffer.length := by rw [m.length_buffer]; omega
          have hroom : t.length < m.capacity := by omega
          have hpre' : t ++ [c] <+: ((m.store c h).advance h).buffer := by
            simpa [store, advance, hwrite] using prefix_set_length c hpre hlt
          have hnul : 0 ∉ t ++ [c] := by simp_all
          have key := ih (m := (m.store c h).advance h) (t := t ++ [c]) hlimit
            (by simp [store, advance, hwrite]) hnul hpre' (by simp_all)
            (by simpa [store, advance] using Nat.succ_le_of_lt hroom)
          have htake : (c :: str).take (m.capacity - t.length) =
              c :: str.take (m.capacity - (t.length + 1)) := by
            rw [show m.capacity - t.length = (m.capacity - (t.length + 1)) + 1 by omega,
              List.take_succ_cons]
          rw [htake]
          simpa [store, advance] using key
      · have hfull : t.length = m.capacity := by omega
        have hnone : t ++ (c :: str).take (m.capacity - t.length) = t := by simp [hfull]
        rw [hnone]
        exact ⟨hlimit, hwrite, ht, shows_of_full hpre hfull⟩

/-- **The law of `write`** on a message in its usual state: it appends the longest prefix of
the string that fits. -/
theorem holds_write {m : TraceMessage} {t : List UInt8} (h : m.Holds t) (s : CString) :
    (m.write s).2.Holds (t ++ s.1.take (m.capacity - t.length)) :=
  holds_writeLoop h.limit h.write h.noNul ((List.prefix_append t [0]).trans h.shows) s.1 s.2

lemma holds_setSeverity {m : TraceMessage} {t : List UInt8} (h : m.Holds t) (v : ℤ) :
    (m.setSeverity v).Holds t := ⟨h.limit, h.write, h.noNul, h.shows⟩

lemma holds_setTimestamp {m : TraceMessage} {t : List UInt8} (h : m.Holds t) (s u : ℕ) :
    (m.setTimestamp s u).Holds t := ⟨h.limit, h.write, h.noNul, h.shows⟩

/-! ## Copying -/

/-- The text of a message is no longer than its capacity, since the last byte is NUL. -/
lemma length_text_le (m : TraceMessage) : m.text.length ≤ m.capacity := by
  by_contra hlt
  have hpre : m.text <+: m.buffer := List.takeWhile_prefix _
  have hget := List.prefix_iff_getElem?.mp hpre m.capacity (by omega)
  rw [m.terminated, Option.some.injEq] at hget
  have hne := List.mem_takeWhile_imp (List.getElem_mem (by omega : m.capacity < m.text.length))
  simp [← hget] at hne

/-- The target of a copy is terminated right behind the copied text. -/
lemma shows_assign (m other : TraceMessage) (memory : ℕ → UInt8) :
    other.text ++ [0] <+: (m.assign other memory).buffer := by
  set target := m.resized other memory with htarget
  have hlen : other.text.length ≤ target.capacity :=
    (length_text_le other).trans (capacity_le_resized m other memory)
  have hbuf : (m.assign other memory).buffer = other.text ++
      (List.replicate (target.capacity - other.text.length) 0 ++
        target.buffer.drop target.capacity) := by
    show other.text.take target.capacity ++
      List.replicate (target.capacity - other.text.length) 0 ++ _ = _
    rw [List.take_of_length_le hlen, List.append_assoc]
  rw [hbuf]
  refine (List.prefix_append_right_inj _).mpr ?_
  rcases hlen.lt_or_eq with hlt | heq
  · -- the text is shorter than the buffer: `strncpy` pads with a NUL
    rw [show target.capacity - other.text.length =
      (target.capacity - other.text.length - 1) + 1 by omega, List.replicate_succ]
    exact ⟨_, rfl⟩
  · -- the text fills the buffer: the NUL is the last byte, which `strncpy` leaves alone
    have hlast : target.buffer[target.capacity]? = some 0 := target.terminated
    have hlt : target.capacity < target.buffer.length := by rw [target.length_buffer]; omega
    rw [List.getElem?_eq_getElem hlt, Option.some.injEq] at hlast
    rw [heq, Nat.sub_self, List.drop_eq_getElem_cons hlt, hlast]
    exact ⟨_, rfl⟩

/-- **Copying a message copies its text**, whatever the target held before. -/
theorem text_assign (m other : TraceMessage) (memory : ℕ → UInt8) :
    (m.assign other memory).text = other.text := by
  refine takeWhile_eq_of_prefix ?_ (shows_assign m other memory)
  intro h
  simpa using List.mem_takeWhile_imp h

end TraceMessage

end InfiTracing
