import Mathlib.Logic.Function.Basic
import InfiTracing.TraceMessage

/-!
# `TraceMessageRingBuffer`: the class and its operations

The multi-producer, single-consumer ring buffer of `trace_message_ring_buffer.h`.  The
capacity never changes after construction, so it is a parameter of the type; the arrays of
elements and flags are functions of the slot index, and the flags are Booleans, since the
words behind `atomic_flag` only ever hold 0 and 1.

The operations here are the bodies of the methods as one caller runs them with nobody else
active.  `RingBuffer/Steps.lean` cuts the same bodies into their atomic steps, for callers
that run at the same time.  A spinlock that is already held is never released by a lone
caller, so `lockElement` has no result on a busy slot.
-/

namespace InfiTracing

/-- The class `TraceMessageRingBuffer`; `capacity` is its constant field of that name. -/
structure TraceMessageRingBuffer (capacity : ℕ) where
  elements : ℕ → TraceMessage
  busy : ℕ → Bool
  hasData : ℕ → Bool
  head : ℕ
  tail : ℕ
  overflowCounter : ℕ
  resettableOverflowCounter : ℕ
  spinlockConsumerWaitCounter : ℕ
  spinlockProducerWaitCounter : ℕ

/-- `atomic_flag::test_and_set()`: whether the flag was clear, and the flag afterwards. -/
def testAndSet (flag : Bool) : Bool × Bool := (!flag, true)

namespace TraceMessageRingBuffer

variable {capacity : ℕ}

/-- The constructor.  `memory i` is what the bytes allocated for `elements[i]` contain. -/
def construct (traceMessageCapacity : ℕ) (memory : ℕ → ℕ → UInt8) :
    TraceMessageRingBuffer capacity where
  elements i := TraceMessage.empty.realloc (memory i) traceMessageCapacity
  busy _ := false
  hasData _ := false
  head := 0
  tail := 0
  overflowCounter := 0
  resettableOverflowCounter := 0
  spinlockConsumerWaitCounter := 0
  spinlockProducerWaitCounter := 0

/-- An index masked into the buffer: `space & (capacity - 1)`. -/
def masked (capacity space : ℕ) : ℕ := space &&& (capacity - 1)

/-- `lock_element(i, counter)` by a lone caller: the first test-and-set succeeds, so there is
no collision to count; on a busy slot the loop does not end. -/
def lockElement (b : TraceMessageRingBuffer capacity) (i : ℕ) :
    Option (TraceMessageRingBuffer capacity) :=
  match testAndSet (b.busy i) with
  | (true, flag) => some { b with busy := Function.update b.busy i flag }
  | (false, _) => none

/-- `unlock_element(i)`. -/
def unlockElement (b : TraceMessageRingBuffer capacity) (i : ℕ) :
    TraceMessageRingBuffer capacity :=
  { b with busy := Function.update b.busy i false }

/-- The ticket of `reserve_push()`: `head.inc()`, and the mask where it left the buffer. -/
def takeSpace (b : TraceMessageRingBuffer capacity) : ℕ × TraceMessageRingBuffer capacity :=
  let reservedSpace := b.head
  let b := { b with head := b.head + 1 }
  if reservedSpace ≥ capacity then
    (masked capacity reservedSpace, { b with head := masked capacity b.head })
  else
    (reservedSpace, b)

/-- The has-data flag of a reserved slot, and the two counters on an overrun. -/
def markData (b : TraceMessageRingBuffer capacity) (i : ℕ) : TraceMessageRingBuffer capacity :=
  let b' := { b with hasData := Function.update b.hasData i (testAndSet (b.hasData i)).2 }
  match (testAndSet (b.hasData i)).1 with
  | true => b'
  | false => { b' with
      overflowCounter := b'.overflowCounter + 1
      resettableOverflowCounter := b'.resettableOverflowCounter + 1 }

/-- `reserve_push()`: the index of the slot handed out. -/
def reservePush (b : TraceMessageRingBuffer capacity) :
    Option (ℕ × TraceMessageRingBuffer capacity) :=
  let (reservedSpace, b) := b.takeSpace
  (b.lockElement reservedSpace).map fun b => (reservedSpace, b.markData reservedSpace)

/-- `commit_push(element)`, for the element at slot `i`. -/
def commitPush (b : TraceMessageRingBuffer capacity) (i : ℕ) :
    TraceMessageRingBuffer capacity := b.unlockElement i

/-- The producer's writing through the pointer that `reserve_push` returned. -/
def modifyElement (b : TraceMessageRingBuffer capacity) (i : ℕ)
    (f : TraceMessage → TraceMessage) : TraceMessageRingBuffer capacity :=
  { b with elements := Function.update b.elements i (f (b.elements i)) }

/-- `pop(message)`: the result, the message, the buffer.  `memory` is what a reallocation of
`message` would find. -/
def pop (b : TraceMessageRingBuffer capacity) (message : TraceMessage) (memory : ℕ → UInt8) :
    Option (Bool × TraceMessage × TraceMessageRingBuffer capacity) :=
  let i := b.tail
  if b.hasData i then
    (b.lockElement i).map fun b =>
      if b.hasData i then
        (true, message.assign (b.elements i) memory,
          unlockElement { b with
            tail := masked capacity (b.tail + 1)
            elements := Function.update b.elements i (b.elements i).recycle
            hasData := Function.update b.hasData i false } i)
      else
        (false, message, b.unlockElement i)
  else
    some (false, message, b)

/-- A pop that returns `false` found no data under the tail. -/
lemma hasData_tail_of_pop {b : TraceMessageRingBuffer capacity} {message : TraceMessage}
    {memory : ℕ → UInt8} (h : (b.pop message memory).map Prod.fst = some false) :
    b.hasData b.tail = false := by
  cases htail : b.hasData b.tail with
  | false => rfl
  | true =>
      simp only [pop, htail, if_true, lockElement, testAndSet] at h
      cases hbusy : b.busy b.tail <;> simp [hbusy, htail] at h

/-- `get_and_reset_overflow_counter()`. -/
def getAndResetOverflowCounter (b : TraceMessageRingBuffer capacity) :
    ℕ × TraceMessageRingBuffer capacity :=
  (b.resettableOverflowCounter, { b with resettableOverflowCounter := 0 })

end TraceMessageRingBuffer

end InfiTracing
