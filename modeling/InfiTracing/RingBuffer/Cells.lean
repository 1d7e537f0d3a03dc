import InfiTracing.Mintomic.Atomic
import InfiTracing.RingBuffer.Head

/-!
# The ring buffer on atomic words

`ring` has Booleans for the flags of the buffer and numbers for its counters.  What the class has
are words, `atomic_flag` and `atomic_uint`, on which it calls the operations of mintomic:
`CellSystem` is the buffer with a word in the place of each, and its steps are those of
`reserve_push`, `commit_push` and `pop` in terms of `test_and_set`, `inc` and their like.

`cellRing_exec` says that the two run alike: from corresponding states, the same actions lead to
corresponding states, and an action that one refuses the other refuses too.  The head's word has
to hold the capacity and one ticket for each producer; the counters may wrap.
-/

namespace InfiTracing

open Framework Mintomic

variable {w ulong capacity traceMessageCapacity : ℕ} {Pid : Type} [DecidableEq Pid]

/-! ## Words -/

/-- The atomic members of a `TraceMessageRingBuffer`. -/
inductive Cell
  | busy (i : ℕ)
  | hasData (i : ℕ)
  | head
  | overflowCounter
  | resettableOverflowCounter
  | spinlockConsumerWaitCounter
  | spinlockProducerWaitCounter
  deriving DecidableEq

/-- The bits of a cell: a flag is a `mint_atomic32_t`, `head` is an `atomic_uint`, of the size of
a pointer, and the counters are `atomic_uint64`. -/
abbrev Cell.width (w : ℕ) : Cell → ℕ
  | .busy _ | .hasData _ => 32
  | .head => w
  | .overflowCounter | .resettableOverflowCounter | .spinlockConsumerWaitCounter
  | .spinlockProducerWaitCounter => 64

/-- The atomic members as words, of pointers of `w` bits. -/
abbrev Cells (w : ℕ) := (c : Cell) → BitVec (c.width w)

namespace Cells

/-- One operation of mintomic on a cell: what it returns, and the cells afterwards. -/
def access (cells : Cells w) (c : Cell) (op : AtomicOp (c.width w)) :
    Option (BitVec (c.width w)) × Cells w :=
  ((op.apply (cells c)).1, Function.update cells c (op.apply (cells c)).2)

/-- `atomic_flag::test_and_set()`. -/
def testAndSet (cells : Cells w) (c : Cell) : Bool × Cells w :=
  match cells.access c (.compareExchangeStrong 0 1) with
  | (original, cells) => (original = some 0, cells)

/-- `atomic_flag::test()`. -/
def test (cells : Cells w) (c : Cell) : Bool := (cells.access c .load).1 = some 1

/-- `atomic_flag::clear()`. -/
def clear (cells : Cells w) (c : Cell) : Cells w := (cells.access c (.store 0)).2

/-- `atomic_uint::inc()`. -/
def inc (cells : Cells w) (c : Cell) : ℕ × Cells w :=
  match cells.access c (.fetchAdd 1) with
  | (original, cells) => ((original.getD 0).toNat, cells)

/-- `atomic_uint::operator&=(val)`. -/
def andAssign (cells : Cells w) (c : Cell) (val : BitVec (c.width w)) : Cells w :=
  (cells.access c (.fetchAnd val)).2

/-- `atomic_uint::load()`. -/
def load (cells : Cells w) (c : Cell) : ℕ := ((cells.access c .load).1.getD 0).toNat

/-- `atomic_uint::store(val)`. -/
def store (cells : Cells w) (c : Cell) (val : BitVec (c.width w)) : Cells w :=
  (cells.access c (.store val)).2

end Cells

/-- The buffer with words for its atomic members, the parties on it, and the message the consumer
pops into. -/
structure CellSystem (w capacity : ℕ) (Pid : Type) where
  cells : Cells w
  elements : ℕ → TraceMessage
  tail : ℕ
  producers : Pid → ProducerPc
  consumer : ConsumerPc
  message : TraceMessage
  memory : ℕ → UInt8

namespace CellSystem

/-- Producer `p` goes on at `pc`. -/
def produce (s : CellSystem w capacity Pid) (p : Pid) (pc : ProducerPc) (cells : Cells w) :
    CellSystem w capacity Pid :=
  { s with producers := Function.update s.producers p pc, cells }

/-- The consumer goes on at `pc`. -/
def consume (s : CellSystem w capacity Pid) (pc : ConsumerPc) (cells : Cells w) :
    CellSystem w capacity Pid := { s with consumer := pc, cells }

/-- The step a party takes, in terms of the methods of `atomic_flag` and `atomic_uint`; an
`unsigned long` has `ulong` bits. -/
def step (ulong : ℕ) (s : CellSystem w capacity Pid) :
    Action Pid → Option (CellSystem w capacity Pid)
  -- size_t reserved_space = head.inc(); if (reserved_space >= capacity)
  | .headInc p => match s.producers p with
    | .idle => match s.cells.inc .head with
      | (reservedSpace, cells) => some (s.produce p
          (if reservedSpace ≥ capacity then .masking reservedSpace
            else .locking reservedSpace false) cells)
    | _ => none
  -- head &= capacity - 1; reserved_space &= capacity - 1;
  | .headMask p => match s.producers p with
    | .masking r => some (s.produce p
        (.locking (TraceMessageRingBuffer.masked capacity r) false)
        (s.cells.andAssign .head (BitVec.ofNat w (capacity - 1))))
    | _ => none
  -- while (!busy[i].test_and_set()) collision = true;
  | .producerLock p => match s.producers p with
    | .locking i collision => match s.cells.testAndSet (.busy i) with
      | (acquired, cells) => some (s.produce p
          (if acquired then RingSystem.producerAcquired i collision else .locking i true) cells)
    | _ => none
  | .producerWait p => match s.producers p with
    | .waited i => some (s.produce p (.marking i) (s.cells.inc .spinlockProducerWaitCounter).2)
    | _ => none
  -- if (!has_data[reserved_space].test_and_set())
  | .markData p => match s.producers p with
    | .marking i => match s.cells.testAndSet (.hasData i) with
      | (clear, cells) => some (s.produce p (if clear then .writing i else .overflowing i) cells)
    | _ => none
  | .overflowInc p => match s.producers p with
    | .overflowing i => some (s.produce p (.overflowed i) (s.cells.inc .overflowCounter).2)
    | _ => none
  | .resettableInc p => match s.producers p with
    | .overflowed i => some (s.produce p (.writing i) (s.cells.inc .resettableOverflowCounter).2)
    | _ => none
  | .edit p e => match s.producers p with
    | .writing i => some { s.produce p (.writing i) s.cells with
        elements := Function.update s.elements i (e.apply (s.elements i)) }
    | _ => none
  -- busy[i].clear();
  | .commitPush p => match s.producers p with
    | .writing i => some (s.produce p .idle (s.cells.clear (.busy i)))
    | _ => none
  -- int i = tail; if (!has_data[i].test()) return false;
  | .popTest => match s.consumer with
    | .idle => some (s.consume
        (if s.cells.test (.hasData s.tail) then .locking s.tail false else .idle) s.cells)
    | _ => none
  | .consumerLock => match s.consumer with
    | .locking i collision => match s.cells.testAndSet (.busy i) with
      | (acquired, cells) => some (s.consume
          (if acquired then RingSystem.consumerAcquired i collision else .locking i true) cells)
    | _ => none
  | .consumerWait => match s.consumer with
    | .waited i => some (s.consume (.retesting i) (s.cells.inc .spinlockConsumerWaitCounter).2)
    | _ => none
  -- bool has_data_for_element = has_data[i].test();
  | .popRetest => match s.consumer with
    | .retesting i => some (s.consume
        (if s.cells.test (.hasData i) then .copying i else .unlocking i false) s.cells)
    | _ => none
  -- tail = (tail + 1) & (capacity - 1); message = elements[i];
  | .popCopy => match s.consumer with
    | .copying i => some { s.consume (.recycling i) s.cells with
        tail := TraceMessageRingBuffer.masked capacity (s.tail + 1)
        message := s.message.assign (s.elements i) s.memory }
    | _ => none
  | .popRecycle => match s.consumer with
    | .recycling i => some { s.consume (.clearing i) s.cells with
        elements := Function.update s.elements i (s.elements i).recycle }
    | _ => none
  | .popClear => match s.consumer with
    | .clearing i => some (s.consume (.unlocking i true) (s.cells.clear (.hasData i)))
    | _ => none
  | .popUnlock => match s.consumer with
    | .unlocking i _ => some (s.consume .idle (s.cells.clear (.busy i)))
    | _ => none
  -- unsigned long r = resettable_overflow_counter.load();
  | .resetLoad => match s.consumer with
    | .idle => some (s.consume
        (.resetting (s.cells.load .resettableOverflowCounter % 2 ^ ulong)) s.cells)
    | _ => none
  | .resetStore => match s.consumer with
    | .resetting _ => some (s.consume .idle (s.cells.store .resettableOverflowCounter 0))
    | _ => none

end CellSystem

/-! ## The words of a buffer -/

/-- A flag in its word. -/
def flagWord (w : ℕ) (flag : Bool) : BitVec w := if flag then 1 else 0

/-- The words of a buffer. -/
def TraceMessageRingBuffer.cells (w : ℕ) (b : TraceMessageRingBuffer capacity) : Cells w
  | .busy i => flagWord 32 (b.busy i)
  | .hasData i => flagWord 32 (b.hasData i)
  | .head => BitVec.ofNat w b.head
  | .overflowCounter => BitVec.ofNat 64 b.overflowCounter
  | .resettableOverflowCounter => BitVec.ofNat 64 b.resettableOverflowCounter
  | .spinlockConsumerWaitCounter => BitVec.ofNat 64 b.spinlockConsumerWaitCounter
  | .spinlockProducerWaitCounter => BitVec.ofNat 64 b.spinlockProducerWaitCounter

/-- The value the consumer has loaded is a word, too, made an `unsigned long`. -/
def ConsumerPc.wrap (ulong : ℕ) : ConsumerPc → ConsumerPc
  | .resetting r => .resetting (r % 2 ^ 64 % 2 ^ ulong)
  | pc => pc

/-- The system on words that a system stands for. -/
def RingSystem.onCells (w ulong : ℕ) (s : RingSystem capacity Pid) : CellSystem w capacity Pid where
  cells := s.buffer.cells w
  elements := s.buffer.elements
  tail := s.buffer.tail
  producers := s.producers
  consumer := s.consumer.wrap ulong
  message := s.message
  memory := s.memory

/-- The machine of all interleavings on words. -/
def cellRing (w ulong capacity traceMessageCapacity : ℕ) (Pid : Type) [DecidableEq Pid] :
    Machine (CellSystem w capacity Pid) (Action Pid) where
  init s := ∃ elementMemory message memory,
    s = (RingSystem.start traceMessageCapacity elementMemory message memory).onCells w ulong
  step := CellSystem.step ulong

/-! ## What the operations do -/

namespace Cells

variable {cells : Cells w} {c : Cell} {flag : Bool} {n : ℕ}

lemma flagWord_eq_zero_iff (hw : 0 < w) : flagWord w flag = 0#w ↔ flag = false := by
  have hne : (1#w : BitVec w) ≠ 0#w := by
    intro h
    have htoNat : (1#w : BitVec w).toNat = 0 := by
      rw [h]
      exact BitVec.toNat_zero
    rw [BitVec.toNat_one hw] at htoNat
    exact absurd htoNat one_ne_zero
  cases flag with
  | true => exact iff_of_false hne nofun
  | false => exact iff_of_true rfl rfl

lemma flagWord_eq_one_iff (hw : 0 < w) : flagWord w flag = 1#w ↔ flag = true := by
  cases flag with
  | true => exact iff_of_true rfl rfl
  | false =>
      refine iff_of_false (fun h => ?_) nofun
      have hzero : flagWord w true = 0#w := h.symm
      exact absurd ((flagWord_eq_zero_iff hw).mp hzero) nofun

lemma testAndSet_flag (hw : 0 < c.width w) (h : cells c = flagWord _ flag) :
    cells.testAndSet c = (!flag, Function.update cells c (flagWord _ true)) := by
  have hzero : flagWord _ flag = 0#(c.width w) ↔ flag = false := flagWord_eq_zero_iff hw
  cases flag with
  | true =>
      -- the exchange fails, and the word keeps its 1
      have hne : flagWord _ true ≠ 0#(c.width w) := fun h => absurd (hzero.mp h) nofun
      simp [testAndSet, access, AtomicOp.apply, h, hne]
  | false => simp [testAndSet, access, AtomicOp.apply, h, flagWord]

lemma test_flag (hw : 0 < c.width w) (h : cells c = flagWord _ flag) : cells.test c = flag := by
  have hone : flagWord _ flag = 1#(c.width w) ↔ flag = true := flagWord_eq_one_iff hw
  rw [Bool.eq_iff_iff, ← hone]
  simp [test, access, AtomicOp.apply, h]

lemma clear_eq : cells.clear c = Function.update cells c (flagWord _ false) := rfl

lemma store_zero : cells.store c 0 = Function.update cells c (BitVec.ofNat _ 0) := rfl

lemma inc_eq (h : cells c = BitVec.ofNat _ n) :
    cells.inc c = (n % 2 ^ c.width w, Function.update cells c (BitVec.ofNat _ (n + 1))) := by
  simp [inc, access, AtomicOp.apply, h, BitVec.ofNat_add]

lemma andAssign_eq (h : cells c = BitVec.ofNat _ n) (m : ℕ) :
    cells.andAssign c (BitVec.ofNat _ m) = Function.update cells c (BitVec.ofNat _ (n &&& m)) := by
  simp [andAssign, access, AtomicOp.apply, h, BitVec.ofNat_and]

lemma load_eq (h : cells c = BitVec.ofNat _ n) : cells.load c = n % 2 ^ c.width w := by
  simp [load, access, AtomicOp.apply, h]

end Cells

namespace TraceMessageRingBuffer

variable (b : TraceMessageRingBuffer capacity)

lemma cells_busy (i : ℕ) (flag : Bool) :
    ({ b with busy := Function.update b.busy i flag } : TraceMessageRingBuffer capacity).cells w =
      Function.update (b.cells w) (.busy i) (flagWord 32 flag) := by
  funext c
  cases c with
  | busy j =>
      by_cases hj : j = i
      · subst hj
        simp [cells]
      · simp [cells, hj]
  | _ => simp [cells]

lemma cells_hasData (i : ℕ) (flag : Bool) :
    ({ b with hasData := Function.update b.hasData i flag } :
      TraceMessageRingBuffer capacity).cells w =
        Function.update (b.cells w) (.hasData i) (flagWord 32 flag) := by
  funext c
  cases c with
  | hasData j =>
      by_cases hj : j = i
      · subst hj
        simp [cells]
      · simp [cells, hj]
  | _ => simp [cells]

lemma cells_head (n : ℕ) : ({ b with head := n } : TraceMessageRingBuffer capacity).cells w =
    Function.update (b.cells w) .head (BitVec.ofNat w n) := by
  funext c
  cases c <;> simp [cells]

lemma cells_overflowCounter (n : ℕ) :
    ({ b with overflowCounter := n } : TraceMessageRingBuffer capacity).cells w =
      Function.update (b.cells w) .overflowCounter (BitVec.ofNat 64 n) := by
  funext c
  cases c <;> simp [cells]

lemma cells_resettableOverflowCounter (n : ℕ) :
    ({ b with resettableOverflowCounter := n } : TraceMessageRingBuffer capacity).cells w =
      Function.update (b.cells w) .resettableOverflowCounter (BitVec.ofNat 64 n) := by
  funext c
  cases c <;> simp [cells]

lemma cells_spinlockConsumerWaitCounter (n : ℕ) :
    ({ b with spinlockConsumerWaitCounter := n } : TraceMessageRingBuffer capacity).cells w =
      Function.update (b.cells w) .spinlockConsumerWaitCounter (BitVec.ofNat 64 n) := by
  funext c
  cases c <;> simp [cells]

lemma cells_spinlockProducerWaitCounter (n : ℕ) :
    ({ b with spinlockProducerWaitCounter := n } : TraceMessageRingBuffer capacity).cells w =
      Function.update (b.cells w) .spinlockProducerWaitCounter (BitVec.ofNat 64 n) := by
  funext c
  cases c <;> simp [cells]

/-- The test-and-set of `lock_element`: where the flag is set already, nothing changes. -/
lemma testAndSet_busy (i : ℕ) : (b.cells w).testAndSet (.busy i) =
    (!b.busy i, if b.busy i then b.cells w
      else Function.update (b.cells w) (.busy i) (flagWord 32 true)) := by
  have hset : Cells.testAndSet (b.cells w) (.busy i) = _ :=
    Cells.testAndSet_flag (Nat.succ_pos 31) rfl
  rw [hset]
  cases hbusy : b.busy i with
  | true => simp [cells, hbusy]
  | false => simp

end TraceMessageRingBuffer

/-! ## The same steps -/

namespace RingSystem

section Frame

variable (s : RingSystem capacity Pid) (p : Pid) (b : TraceMessageRingBuffer capacity)

lemma onCells_produce (pc : ProducerPc) (helements : b.elements = s.buffer.elements)
    (htail : b.tail = s.buffer.tail) :
    (s.produce p pc b).onCells w ulong = (s.onCells w ulong).produce p pc (b.cells w) := by
  simp only [onCells, produce, CellSystem.produce, helements, htail]

omit [DecidableEq Pid]

lemma onCells_consume (pc : ConsumerPc) (helements : b.elements = s.buffer.elements)
    (htail : b.tail = s.buffer.tail) :
    (s.consume pc b).onCells w ulong = (s.onCells w ulong).consume (pc.wrap ulong) (b.cells w) := by
  simp only [onCells, consume, CellSystem.consume, helements, htail]

lemma onCells_producers : (s.onCells w ulong).producers = s.producers := rfl

lemma onCells_consumer : (s.onCells w ulong).consumer = s.consumer.wrap ulong := rfl

lemma onCells_cells : (s.onCells w ulong).cells = s.buffer.cells w := rfl

lemma onCells_tail : (s.onCells w ulong).tail = s.buffer.tail := rfl

end Frame

open TraceMessageRingBuffer

variable (s : RingSystem capacity Pid)

/-- **The same step.**  As long as the head is a word, an action does to the words of the buffer
what it does to the buffer, and is refused there where it is refused here. -/
theorem onCells_step (hhead : s.buffer.head < 2 ^ w) (a : Action Pid) :
    (s.onCells w ulong).step ulong a = (s.step a).map (onCells w ulong) := by
  cases a with
  | headInc p =>
      have hinc : Cells.inc (s.buffer.cells w) .head =
          (s.buffer.head, Function.update (s.buffer.cells w) .head
            (BitVec.ofNat w (s.buffer.head + 1))) := by
        rw [Cells.inc_eq rfl, Nat.mod_eq_of_lt hhead]
      simp only [CellSystem.step, step, onCells_producers, onCells_cells, hinc]
      cases s.producers p with
      | idle => simp only [Option.map_some, cells_head, onCells_produce]
      | _ => rfl
  | headMask p =>
      have hand : Cells.andAssign (s.buffer.cells w) .head _ = _ :=
        Cells.andAssign_eq rfl (capacity - 1)
      simp only [CellSystem.step, step, onCells_producers, onCells_cells, hand]
      cases s.producers p with
      | masking r => simp only [Option.map_some, cells_head, onCells_produce, masked]
      | _ => rfl
  | producerLock p =>
      simp only [CellSystem.step, step, onCells_producers, onCells_cells]
      cases s.producers p with
      | locking i collision =>
          simp only [s.buffer.testAndSet_busy]
          cases s.buffer.busy i with
          | true => simp [onCells_produce, testAndSet]
          | false => simp [cells_busy, onCells_produce, testAndSet]
      | _ => rfl
  | producerWait p =>
      simp only [CellSystem.step, step, onCells_producers, onCells_cells]
      cases s.producers p with
      | waited i =>
          have hinc : Cells.inc (s.buffer.cells w) .spinlockProducerWaitCounter = _ :=
            Cells.inc_eq rfl
          simp only [hinc, Option.map_some, cells_spinlockProducerWaitCounter, onCells_produce]
      | _ => rfl
  | markData p =>
      simp only [CellSystem.step, step, onCells_producers, onCells_cells]
      cases s.producers p with
      | marking i =>
          have hset : Cells.testAndSet (s.buffer.cells w) (.hasData i) = _ :=
            Cells.testAndSet_flag (Nat.succ_pos 31) rfl
          simp [hset, cells_hasData, onCells_produce, testAndSet]
      | _ => rfl
  | overflowInc p =>
      simp only [CellSystem.step, step, onCells_producers, onCells_cells]
      cases s.producers p with
      | overflowing i =>
          have hinc : Cells.inc (s.buffer.cells w) .overflowCounter = _ := Cells.inc_eq rfl
          simp only [hinc, Option.map_some, cells_overflowCounter, onCells_produce]
      | _ => rfl
  | resettableInc p =>
      simp only [CellSystem.step, step, onCells_producers, onCells_cells]
      cases s.producers p with
      | overflowed i =>
          have hinc : Cells.inc (s.buffer.cells w) .resettableOverflowCounter = _ :=
            Cells.inc_eq rfl
          simp only [hinc, Option.map_some, cells_resettableOverflowCounter, onCells_produce]
      | _ => rfl
  | edit p e =>
      simp only [CellSystem.step, step, onCells_producers, onCells_cells]
      cases s.producers p <;> rfl
  | commitPush p =>
      simp only [CellSystem.step, step, onCells_producers, onCells_cells]
      cases s.producers p with
      | writing i =>
          simp [Cells.clear_eq, cells_busy, onCells_produce, commitPush, unlockElement]
      | _ => rfl
  | popTest =>
      simp only [CellSystem.step, step, onCells_consumer, onCells_cells, onCells_tail]
      cases s.consumer with
      | idle =>
          have htest : Cells.test (s.buffer.cells w) (.hasData s.buffer.tail) = _ :=
            Cells.test_flag (Nat.succ_pos 31) rfl
          cases hdata : s.buffer.hasData s.buffer.tail <;>
            simp [htest, hdata, onCells_consume, ConsumerPc.wrap]
      | _ => rfl
  | consumerLock =>
      simp only [CellSystem.step, step, onCells_consumer, onCells_cells]
      cases s.consumer with
      | locking i collision =>
          simp only [s.buffer.testAndSet_busy, ConsumerPc.wrap]
          cases s.buffer.busy i with
          | true => simp [onCells_consume, testAndSet, ConsumerPc.wrap]
          | false =>
            cases collision <;>
              simp [cells_busy, onCells_consume, testAndSet, ConsumerPc.wrap, consumerAcquired]
      | _ => rfl
  | consumerWait =>
      simp only [CellSystem.step, step, onCells_consumer, onCells_cells]
      cases s.consumer with
      | waited i =>
          have hinc : Cells.inc (s.buffer.cells w) .spinlockConsumerWaitCounter = _ :=
            Cells.inc_eq rfl
          simp only [ConsumerPc.wrap, hinc, Option.map_some, cells_spinlockConsumerWaitCounter,
            onCells_consume]
      | _ => rfl
  | popRetest =>
      simp only [CellSystem.step, step, onCells_consumer, onCells_cells]
      cases s.consumer with
      | retesting i =>
          have htest : Cells.test (s.buffer.cells w) (.hasData i) = _ :=
            Cells.test_flag (Nat.succ_pos 31) rfl
          cases hdata : s.buffer.hasData i <;>
            simp [htest, hdata, onCells_consume, ConsumerPc.wrap]
      | _ => rfl
  | popCopy =>
      simp only [CellSystem.step, step, onCells_consumer, onCells_cells]
      cases s.consumer <;> rfl
  | popRecycle =>
      simp only [CellSystem.step, step, onCells_consumer, onCells_cells]
      cases s.consumer <;> rfl
  | popClear =>
      simp only [CellSystem.step, step, onCells_consumer, onCells_cells]
      cases s.consumer with
      | clearing i => simp [Cells.clear_eq, cells_hasData, onCells_consume, ConsumerPc.wrap]
      | _ => rfl
  | popUnlock =>
      simp only [CellSystem.step, step, onCells_consumer, onCells_cells]
      cases s.consumer with
      | unlocking i result =>
          simp [Cells.clear_eq, cells_busy, onCells_consume, ConsumerPc.wrap, unlockElement]
      | _ => rfl
  | resetLoad =>
      simp only [CellSystem.step, step, onCells_consumer, onCells_cells]
      cases s.consumer with
      | idle =>
          have hload : Cells.load (s.buffer.cells w) .resettableOverflowCounter = _ :=
            Cells.load_eq rfl
          simp only [ConsumerPc.wrap, hload, Option.map_some, onCells_consume]
      | _ => rfl
  | resetStore =>
      simp only [CellSystem.step, step, onCells_consumer, onCells_cells]
      cases s.consumer with
      | resetting r =>
          simp only [ConsumerPc.wrap, Cells.store_zero, Option.map_some,
            cells_resettableOverflowCounter, onCells_consume]
      | _ => rfl

end RingSystem

variable [Fintype Pid]

/-- **The buffer runs alike on atomic words.**  Where the head's word holds the capacity and a
ticket for each producer, a run on words from the words of a reachable state is the run from that
state: the same actions are refused, and where none is, the words reached are those of the state
reached.  The other counters may wrap as often as they like. -/
theorem cellRing_exec (hc : 0 < capacity) (hw : capacity + Fintype.card Pid < 2 ^ w)
    {s : RingSystem capacity Pid} (hs : (ring capacity traceMessageCapacity Pid).Reachable s)
    (acts : List (Action Pid)) :
    (cellRing w ulong capacity traceMessageCapacity Pid).exec (s.onCells w ulong) acts =
      ((ring capacity traceMessageCapacity Pid).exec s acts).map (RingSystem.onCells w ulong) := by
  refine Machine.exec_map (fun s a hs => ?_) hs acts
  have hhead : s.buffer.head ≤ capacity + s.countProducers ProducerPc.isMasking :=
    headBound_of_reachable hc hs
  have hcard := s.countProducers_le_card ProducerPc.isMasking
  exact s.onCells_step (by omega) a

/-- With a head of three bits, an overrun of a buffer of two slots, counted past the end twice. -/
theorem cellRing_exec_overrun :
    (cellRing 3 64 2 8 Bool).exec
        ((RingSystem.start 8 (fun _ _ => 7) .empty fun _ => 7).onCells 3 64)
        [.headInc true, .headInc false, .producerLock true, .markData true, .commitPush true,
          .headInc true, .headMask true, .producerLock true, .markData true, .overflowInc true] =
      ((ring 2 8 Bool).exec (.start 8 (fun _ _ => 7) .empty fun _ => 7)
        [.headInc true, .headInc false, .producerLock true, .markData true, .commitPush true,
          .headInc true, .headMask true, .producerLock true, .markData true,
          .overflowInc true]).map (RingSystem.onCells 3 64) :=
  cellRing_exec (by decide) (by decide) (.init ⟨_, _, _, rfl⟩) _

end InfiTracing
