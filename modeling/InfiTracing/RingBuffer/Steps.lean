import InfiTracing.Framework.Machine
import InfiTracing.RingBuffer.Basic

/-!
# The ring buffer in atomic steps

Any number of producers and one consumer run on one `TraceMessageRingBuffer` at the same
time.  Each `mint_*` operation is one indivisible step, and so is each of the plain accesses
between them (copying or recycling an element, one edit of a reserved message).  A party's
program counter says which step of its call comes next, with the local variables that step
needs; the scheduler picks the party by picking the `Action`.

`RingSystem.step` is the step function.  `Step` is its inversion: one constructor for every
way a step can go, with the guard it passed and the state it leads to, so that the invariants
of the buffer are proved by one case analysis and never unfold the step function
(`Step.of_step`).  `ring` is the machine of all runs from a newly constructed buffer.
-/

namespace InfiTracing

open Framework

/-! ## Program counters -/

/-- Where a producer stands. -/
inductive ProducerPc
  /-- Not in a call and holding no message. -/
  | idle
  /-- `head.inc()` returned `reservedSpace ≥ capacity`; the mask of `head` comes next. -/
  | masking (reservedSpace : ℕ)
  /-- In `lock_element`, about to test-and-set `busy[i]`. -/
  | locking (i : ℕ) (collision : Bool)
  /-- Acquired `busy[i]` after a collision; `counter.inc()` comes next. -/
  | waited (i : ℕ)
  /-- Holds slot `i`; the test-and-set of `has_data[i]` comes next. -/
  | marking (i : ℕ)
  /-- Found `has_data[i]` set; `overflow_counter.inc()` comes next. -/
  | overflowing (i : ℕ)
  /-- `resettable_overflow_counter.inc()` comes next. -/
  | overflowed (i : ℕ)
  /-- `reserve_push` returned slot `i`; its message is being written. -/
  | writing (i : ℕ)
  deriving DecidableEq, Repr

/-- Where the consumer stands. -/
inductive ConsumerPc
  /-- Not in a call. -/
  | idle
  /-- In `pop`, past the first test of `has_data[i]`, about to test-and-set `busy[i]`. -/
  | locking (i : ℕ) (collision : Bool)
  /-- Acquired `busy[i]` after a collision; `counter.inc()` comes next. -/
  | waited (i : ℕ)
  /-- Holds slot `i`; the second test of `has_data[i]` comes next. -/
  | retesting (i : ℕ)
  /-- The second test succeeded; moving the tail and copying the message come next. -/
  | copying (i : ℕ)
  /-- `elements[i].recycle()` comes next. -/
  | recycling (i : ℕ)
  /-- `has_data[i].clear()` comes next. -/
  | clearing (i : ℕ)
  /-- `unlock_element(i)` comes next, then `pop` returns `result`. -/
  | unlocking (i : ℕ) (result : Bool)
  /-- In `get_and_reset_overflow_counter`, between the load of `r` and the store of 0. -/
  | resetting (r : ℕ)
  deriving DecidableEq, Repr

/-- The slot a producer's counter speaks of. -/
def ProducerPc.slot : ProducerPc → ℕ
  | .idle => 0
  | .masking r => r
  | .locking i _ | .waited i | .marking i | .overflowing i | .overflowed i | .writing i => i

/-- The slot whose lock a producer holds: from acquiring it to `commit_push`. -/
def ProducerPc.held : ProducerPc → Option ℕ
  | .idle | .masking _ | .locking _ _ => none
  | .waited i | .marking i | .overflowing i | .overflowed i | .writing i => some i

/-- The slot the consumer's counter speaks of. -/
def ConsumerPc.slot : ConsumerPc → ℕ
  | .idle | .resetting _ => 0
  | .locking i _ | .waited i | .retesting i | .copying i | .recycling i | .clearing i
  | .unlocking i _ => i

/-- The slot whose lock the consumer holds: between `lock_element` and `unlock_element`. -/
def ConsumerPc.held : ConsumerPc → Option ℕ
  | .idle | .locking _ _ | .resetting _ => none
  | .waited i | .retesting i | .copying i | .recycling i | .clearing i | .unlocking i _ => some i

/-- One edit of a reserved message. -/
inductive MessageEdit
  | write (str : CString)
  | setSeverity (severity : ℤ)
  | setTimestamp (tvSec tvUsec : ℕ)

/-- The edit, carried out on a `TraceMessage`. -/
def MessageEdit.apply : MessageEdit → TraceMessage → TraceMessage
  | .write str, m => (m.write str).2
  | .setSeverity v, m => m.setSeverity v
  | .setTimestamp s u, m => m.setTimestamp s u

/-! ## The system and its step function -/

/-- The buffer, the parties on it, the message the consumer pops into, and what a
reallocation of that message would find in memory. -/
structure RingSystem (capacity : ℕ) (Pid : Type) where
  buffer : TraceMessageRingBuffer capacity
  producers : Pid → ProducerPc
  consumer : ConsumerPc
  message : TraceMessage
  memory : ℕ → UInt8

/-- One atomic step of one party. -/
inductive Action (Pid : Type)
  | headInc (p : Pid)
  | headMask (p : Pid)
  | producerLock (p : Pid)
  | producerWait (p : Pid)
  | markData (p : Pid)
  | overflowInc (p : Pid)
  | resettableInc (p : Pid)
  | edit (p : Pid) (e : MessageEdit)
  | commitPush (p : Pid)
  | popTest
  | consumerLock
  | consumerWait
  | popRetest
  | popCopy
  | popRecycle
  | popClear
  | popUnlock
  | resetLoad
  | resetStore

namespace RingSystem

variable {capacity : ℕ} {Pid : Type}

/-- A freshly constructed buffer with every party idle. -/
def start (traceMessageCapacity : ℕ) (elementMemory : ℕ → ℕ → UInt8) (message : TraceMessage)
    (memory : ℕ → UInt8) : RingSystem capacity Pid where
  buffer := .construct traceMessageCapacity elementMemory
  producers _ := .idle
  consumer := .idle
  message := message
  memory := memory

/-- Producer `p` goes on at `pc`, leaving the buffer as `b`. -/
def produce [DecidableEq Pid] (s : RingSystem capacity Pid) (p : Pid) (pc : ProducerPc)
    (b : TraceMessageRingBuffer capacity) : RingSystem capacity Pid :=
  { s with producers := Function.update s.producers p pc, buffer := b }

/-- The consumer goes on at `pc`, leaving the buffer as `b`. -/
def consume (s : RingSystem capacity Pid) (pc : ConsumerPc)
    (b : TraceMessageRingBuffer capacity) : RingSystem capacity Pid :=
  { s with consumer := pc, buffer := b }

section Frame

variable [DecidableEq Pid] (s : RingSystem capacity Pid) (p : Pid) (pc : ProducerPc)
  (cpc : ConsumerPc) (b : TraceMessageRingBuffer capacity)

@[simp] lemma produce_buffer : (s.produce p pc b).buffer = b := rfl

@[simp] lemma produce_producers :
    (s.produce p pc b).producers = Function.update s.producers p pc := rfl

@[simp] lemma produce_consumer : (s.produce p pc b).consumer = s.consumer := rfl

omit [DecidableEq Pid]

@[simp] lemma consume_buffer : (s.consume cpc b).buffer = b := rfl

@[simp] lemma consume_producers : (s.consume cpc b).producers = s.producers := rfl

@[simp] lemma consume_consumer : (s.consume cpc b).consumer = cpc := rfl

end Frame

/-- The program counter after an acquired lock: the collision, if any, is counted first. -/
def producerAcquired (i : ℕ) (collision : Bool) : ProducerPc :=
  if collision then .waited i else .marking i

/-- The consumer's program counter after an acquired lock. -/
def consumerAcquired (i : ℕ) (collision : Bool) : ConsumerPc :=
  if collision then .waited i else .retesting i

/-- The step a party takes; `none` where the action is not the party's next one. -/
def step [DecidableEq Pid] (s : RingSystem capacity Pid) :
    Action Pid → Option (RingSystem capacity Pid)
  -- size_t reserved_space = head.inc();
  | .headInc p => match s.producers p with
    | .idle => some (s.produce p
        (if s.buffer.head ≥ capacity then .masking s.buffer.head
          else .locking s.buffer.head false)
        { s.buffer with head := s.buffer.head + 1 })
    | _ => none
  -- head &= capacity - 1; reserved_space &= capacity - 1;
  | .headMask p => match s.producers p with
    | .masking r => some (s.produce p
        (.locking (TraceMessageRingBuffer.masked capacity r) false)
        { s.buffer with head := TraceMessageRingBuffer.masked capacity s.buffer.head })
    | _ => none
  -- while (!busy[i].test_and_set()) collision = true;
  | .producerLock p => match s.producers p with
    | .locking i collision => match testAndSet (s.buffer.busy i) with
      | (true, flag) => some (s.produce p (producerAcquired i collision)
          { s.buffer with busy := Function.update s.buffer.busy i flag })
      | (false, _) => some (s.produce p (.locking i true) s.buffer)
    | _ => none
  -- counter.inc();
  | .producerWait p => match s.producers p with
    | .waited i => some (s.produce p (.marking i) { s.buffer with
        spinlockProducerWaitCounter := s.buffer.spinlockProducerWaitCounter + 1 })
    | _ => none
  -- if (!has_data[reserved_space].test_and_set())
  | .markData p => match s.producers p with
    | .marking i => some (s.produce p
        (if (testAndSet (s.buffer.hasData i)).1 then .writing i else .overflowing i)
        { s.buffer with
          hasData := Function.update s.buffer.hasData i (testAndSet (s.buffer.hasData i)).2 })
    | _ => none
  | .overflowInc p => match s.producers p with
    | .overflowing i => some (s.produce p (.overflowed i)
        { s.buffer with overflowCounter := s.buffer.overflowCounter + 1 })
    | _ => none
  | .resettableInc p => match s.producers p with
    | .overflowed i => some (s.produce p (.writing i) { s.buffer with
        resettableOverflowCounter := s.buffer.resettableOverflowCounter + 1 })
    | _ => none
  | .edit p e => match s.producers p with
    | .writing i => some (s.produce p (.writing i) (s.buffer.modifyElement i e.apply))
    | _ => none
  -- unlock_element(element - elements);
  | .commitPush p => match s.producers p with
    | .writing i => some (s.produce p .idle (s.buffer.commitPush i))
    | _ => none
  -- int i = tail; if (!has_data[i].test()) return false;
  | .popTest => match s.consumer with
    | .idle => some (s.consume
        (if s.buffer.hasData s.buffer.tail then .locking s.buffer.tail false else .idle)
        s.buffer)
    | _ => none
  | .consumerLock => match s.consumer with
    | .locking i collision => match testAndSet (s.buffer.busy i) with
      | (true, flag) => some (s.consume (consumerAcquired i collision)
          { s.buffer with busy := Function.update s.buffer.busy i flag })
      | (false, _) => some (s.consume (.locking i true) s.buffer)
    | _ => none
  | .consumerWait => match s.consumer with
    | .waited i => some (s.consume (.retesting i) { s.buffer with
        spinlockConsumerWaitCounter := s.buffer.spinlockConsumerWaitCounter + 1 })
    | _ => none
  -- bool has_data_for_element = has_data[i].test();
  | .popRetest => match s.consumer with
    | .retesting i => some (s.consume
        (if s.buffer.hasData i then .copying i else .unlocking i false) s.buffer)
    | _ => none
  -- tail = (tail + 1) & (capacity - 1); message = elements[i];
  | .popCopy => match s.consumer with
    | .copying i => some { s.consume (.recycling i) { s.buffer with
          tail := TraceMessageRingBuffer.masked capacity (s.buffer.tail + 1) } with
        message := s.message.assign (s.buffer.elements i) s.memory }
    | _ => none
  | .popRecycle => match s.consumer with
    | .recycling i => some (s.consume (.clearing i)
        (s.buffer.modifyElement i TraceMessage.recycle))
    | _ => none
  | .popClear => match s.consumer with
    | .clearing i => some (s.consume (.unlocking i true)
        { s.buffer with hasData := Function.update s.buffer.hasData i false })
    | _ => none
  -- unlock_element(i); return has_data_for_element;
  | .popUnlock => match s.consumer with
    | .unlocking i _ => some (s.consume .idle (s.buffer.unlockElement i))
    | _ => none
  -- unsigned long r = resettable_overflow_counter.load();
  | .resetLoad => match s.consumer with
    | .idle => some (s.consume (.resetting s.buffer.resettableOverflowCounter) s.buffer)
    | _ => none
  -- resettable_overflow_counter.store(0); return r;
  | .resetStore => match s.consumer with
    | .resetting _ => some (s.consume .idle { s.buffer with resettableOverflowCounter := 0 })
    | _ => none

-- an action that is not the producer's next one is refused
example [DecidableEq Pid] (s : RingSystem capacity Pid) (p : Pid) (h : s.producers p = .idle) :
    s.step (.headMask p) = none := by
  simp only [step, h]

end RingSystem

/-- The machine of all interleavings on a buffer of the given capacity. -/
def ring (capacity traceMessageCapacity : ℕ) (Pid : Type) [DecidableEq Pid] :
    Machine (RingSystem capacity Pid) (Action Pid) where
  init s := ∃ elementMemory message memory,
    s = RingSystem.start traceMessageCapacity elementMemory message memory
  step := RingSystem.step

/-! ## What a step can do -/

open RingSystem TraceMessageRingBuffer in
/-- The ways a step can go.  The two outcomes of a test-and-set and of a test are separate
cases. -/
inductive Step {capacity : ℕ} {Pid : Type} [DecidableEq Pid] (s : RingSystem capacity Pid) :
    Action Pid → RingSystem capacity Pid → Prop
  | headInc {p : Pid} (hpc : s.producers p = .idle) (hlt : s.buffer.head < capacity) :
      Step s (.headInc p) (s.produce p (.locking s.buffer.head false)
        { s.buffer with head := s.buffer.head + 1 })
  | headIncOver {p : Pid} (hpc : s.producers p = .idle) (hge : capacity ≤ s.buffer.head) :
      Step s (.headInc p) (s.produce p (.masking s.buffer.head)
        { s.buffer with head := s.buffer.head + 1 })
  | headMask {p : Pid} {r : ℕ} (hpc : s.producers p = .masking r) :
      Step s (.headMask p) (s.produce p (.locking (masked capacity r) false)
        { s.buffer with head := masked capacity s.buffer.head })
  | producerLock {p : Pid} {i : ℕ} {collision : Bool}
      (hpc : s.producers p = .locking i collision) (hbusy : s.buffer.busy i = false) :
      Step s (.producerLock p) (s.produce p (producerAcquired i collision)
        { s.buffer with busy := Function.update s.buffer.busy i true })
  | producerSpin {p : Pid} {i : ℕ} {collision : Bool}
      (hpc : s.producers p = .locking i collision) (hbusy : s.buffer.busy i = true) :
      Step s (.producerLock p) (s.produce p (.locking i true) s.buffer)
  | producerWait {p : Pid} {i : ℕ} (hpc : s.producers p = .waited i) :
      Step s (.producerWait p) (s.produce p (.marking i) { s.buffer with
        spinlockProducerWaitCounter := s.buffer.spinlockProducerWaitCounter + 1 })
  | markData {p : Pid} {i : ℕ} (hpc : s.producers p = .marking i)
      (hclear : s.buffer.hasData i = false) :
      Step s (.markData p) (s.produce p (.writing i)
        { s.buffer with hasData := Function.update s.buffer.hasData i true })
  | markOverrun {p : Pid} {i : ℕ} (hpc : s.producers p = .marking i)
      (hset : s.buffer.hasData i = true) :
      Step s (.markData p) (s.produce p (.overflowing i) s.buffer)
  | overflowInc {p : Pid} {i : ℕ} (hpc : s.producers p = .overflowing i) :
      Step s (.overflowInc p) (s.produce p (.overflowed i)
        { s.buffer with overflowCounter := s.buffer.overflowCounter + 1 })
  | resettableInc {p : Pid} {i : ℕ} (hpc : s.producers p = .overflowed i) :
      Step s (.resettableInc p) (s.produce p (.writing i) { s.buffer with
        resettableOverflowCounter := s.buffer.resettableOverflowCounter + 1 })
  | edit {p : Pid} {i : ℕ} {e : MessageEdit} (hpc : s.producers p = .writing i) :
      Step s (.edit p e) (s.produce p (.writing i) (s.buffer.modifyElement i e.apply))
  | commitPush {p : Pid} {i : ℕ} (hpc : s.producers p = .writing i) :
      Step s (.commitPush p) (s.produce p .idle (s.buffer.commitPush i))
  | popFound (hpc : s.consumer = .idle) (hset : s.buffer.hasData s.buffer.tail = true) :
      Step s .popTest (s.consume (.locking s.buffer.tail false) s.buffer)
  | popNothing (hpc : s.consumer = .idle) (hclear : s.buffer.hasData s.buffer.tail = false) :
      Step s .popTest (s.consume .idle s.buffer)
  | consumerLock {i : ℕ} {collision : Bool} (hpc : s.consumer = .locking i collision)
      (hbusy : s.buffer.busy i = false) :
      Step s .consumerLock (s.consume (consumerAcquired i collision)
        { s.buffer with busy := Function.update s.buffer.busy i true })
  | consumerSpin {i : ℕ} {collision : Bool} (hpc : s.consumer = .locking i collision)
      (hbusy : s.buffer.busy i = true) :
      Step s .consumerLock (s.consume (.locking i true) s.buffer)
  | consumerWait {i : ℕ} (hpc : s.consumer = .waited i) :
      Step s .consumerWait (s.consume (.retesting i) { s.buffer with
        spinlockConsumerWaitCounter := s.buffer.spinlockConsumerWaitCounter + 1 })
  | popRetest {i : ℕ} (hpc : s.consumer = .retesting i) (hset : s.buffer.hasData i = true) :
      Step s .popRetest (s.consume (.copying i) s.buffer)
  | popGone {i : ℕ} (hpc : s.consumer = .retesting i) (hclear : s.buffer.hasData i = false) :
      Step s .popRetest (s.consume (.unlocking i false) s.buffer)
  | popCopy {i : ℕ} (hpc : s.consumer = .copying i) :
      Step s .popCopy { s.consume (.recycling i) { s.buffer with
          tail := masked capacity (s.buffer.tail + 1) } with
        message := s.message.assign (s.buffer.elements i) s.memory }
  | popRecycle {i : ℕ} (hpc : s.consumer = .recycling i) :
      Step s .popRecycle (s.consume (.clearing i)
        (s.buffer.modifyElement i TraceMessage.recycle))
  | popClear {i : ℕ} (hpc : s.consumer = .clearing i) :
      Step s .popClear (s.consume (.unlocking i true)
        { s.buffer with hasData := Function.update s.buffer.hasData i false })
  | popUnlock {i : ℕ} {result : Bool} (hpc : s.consumer = .unlocking i result) :
      Step s .popUnlock (s.consume .idle (s.buffer.unlockElement i))
  | resetLoad (hpc : s.consumer = .idle) :
      Step s .resetLoad (s.consume (.resetting s.buffer.resettableOverflowCounter) s.buffer)
  | resetStore {r : ℕ} (hpc : s.consumer = .resetting r) :
      Step s .resetStore (s.consume .idle { s.buffer with resettableOverflowCounter := 0 })

namespace Step

variable {capacity : ℕ} {Pid : Type} [DecidableEq Pid] {s s' : RingSystem capacity Pid}
  {p : Pid} {a : Action Pid}

/-! Inversion, one lemma for the calls of a producer and one for those of the consumer. -/

lemma of_step_producerLock (h : s.step (.producerLock p) = some s') :
    Step s (.producerLock p) s' := by
  simp only [RingSystem.step] at h
  split at h
  · next i c hpc =>
      cases hb : s.buffer.busy i with
      | true =>
          simp only [hb, testAndSet, Bool.not_true, Option.some.injEq] at h
          exact h ▸ .producerSpin hpc hb
      | false =>
          simp only [hb, testAndSet, Bool.not_false, Option.some.injEq] at h
          exact h ▸ .producerLock hpc hb
  · cases h

lemma of_step_markData (h : s.step (.markData p) = some s') : Step s (.markData p) s' := by
  simp only [RingSystem.step] at h
  split at h
  · next i hpc =>
      cases hd : s.buffer.hasData i with
      | true =>
          have hsame : Function.update s.buffer.hasData i true = s.buffer.hasData :=
            Function.update_eq_self_iff.mpr hd.symm
          simp only [hd, testAndSet, Bool.not_true, Bool.false_eq_true, if_false, hsame,
            Option.some.injEq] at h
          exact h ▸ .markOverrun hpc hd
      | false =>
          simp only [hd, testAndSet, Bool.not_false, if_true, Option.some.injEq] at h
          exact h ▸ .markData hpc hd
  · cases h

lemma of_step_consumerLock (h : s.step .consumerLock = some s') :
    Step s .consumerLock s' := by
  simp only [RingSystem.step] at h
  split at h
  · next i c hpc =>
      cases hb : s.buffer.busy i with
      | true =>
          simp only [hb, testAndSet, Bool.not_true, Option.some.injEq] at h
          exact h ▸ .consumerSpin hpc hb
      | false =>
          simp only [hb, testAndSet, Bool.not_false, Option.some.injEq] at h
          exact h ▸ .consumerLock hpc hb
  · cases h

lemma of_step_headInc (h : s.step (.headInc p) = some s') : Step s (.headInc p) s' := by
  simp only [RingSystem.step] at h
  split at h
  · next hpc =>
      by_cases hge : capacity ≤ s.buffer.head
      · rw [if_pos hge] at h
        exact Option.some.inj h ▸ .headIncOver hpc hge
      · rw [if_neg hge] at h
        exact Option.some.inj h ▸ .headInc hpc (by omega)
  · cases h

lemma of_step_popTest (h : s.step .popTest = some s') : Step s .popTest s' := by
  simp only [RingSystem.step] at h
  split at h
  · next hpc =>
      cases hd : s.buffer.hasData s.buffer.tail with
      | true => simp only [hd, if_true] at h; exact Option.some.inj h ▸ .popFound hpc hd
      | false =>
          simp only [hd, Bool.false_eq_true, if_false] at h
          exact Option.some.inj h ▸ .popNothing hpc hd
  · cases h

lemma of_step_popRetest (h : s.step .popRetest = some s') : Step s .popRetest s' := by
  simp only [RingSystem.step] at h
  split at h
  · next i hpc =>
      cases hd : s.buffer.hasData i with
      | true => simp only [hd, if_true] at h; exact Option.some.inj h ▸ .popRetest hpc hd
      | false =>
          simp only [hd, Bool.false_eq_true, if_false] at h
          exact Option.some.inj h ▸ .popGone hpc hd
  · cases h

/-- **Inversion.**  A step goes one of the ways `Step` lists. -/
theorem of_step (h : s.step a = some s') : Step s a s' := by
  cases a with
  | headInc p => exact of_step_headInc h
  | producerLock p => exact of_step_producerLock h
  | markData p => exact of_step_markData h
  | popTest => exact of_step_popTest h
  | consumerLock => exact of_step_consumerLock h
  | popRetest => exact of_step_popRetest h
  | _ =>
      -- one program counter allows the action, and it has one outcome
      simp only [RingSystem.step] at h
      split at h
      · obtain rfl := Option.some.inj h
        constructor
        assumption
      · cases h

end Step

end InfiTracing
