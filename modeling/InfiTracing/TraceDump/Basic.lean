import InfiTracing.RingBuffer.Steps
import InfiTracing.TraceMessage.Format

/-!
# Trace dumps: the consumer thread and its lifecycle

`TraceDump` of `trace_dump.cpp` with the classes derived from it: a thread that pops messages
off the ring buffer until it is told to shut down, and `start` and `stop` to create and end it.
`stop` is virtual; the three implementations end the thread alike, and differ in whether they
then drain the ring buffer and close what the messages are written to (`DumpKind`).

Three sorts of parties run at the same time: the producers on the ring buffer, the dump's own
thread, and the caller of `start`, `stop` and the destructor.  Both the thread and a caller in
`process_remaining` run `pop_and_process`; the step of the machine says which of the two takes
it (`Runner`).  The messages and the ring are those of `RingBuffer/Steps.lean`, whose consumer
is whoever is inside `pop_and_process`, with `message_buffer` as its message.

`DumpStep` is the inversion of the step function.
-/

namespace InfiTracing

open Framework

/-! ## The classes -/

/-- The class of a trace dump; the flag is the field `close_handle`. -/
inductive DumpKind
  | traceDump
  | fileTraceDump (closeHandle : Bool)
  | syslogTraceDump
  deriving DecidableEq, Repr

/-- The guard of `process_remaining()` in the class's `stop()`.  `sinkOpen` is `handle != NULL`
or `socket != NULL`. -/
def DumpKind.drains : DumpKind → Bool → Bool
  | .traceDump, _ => true
  | .fileTraceDump closeHandle, sinkOpen => closeHandle && sinkOpen
  | .syslogTraceDump, sinkOpen => sinkOpen

/-- The class's `stop()` closes the sink after `process_remaining()`. -/
def DumpKind.closes : DumpKind → Bool
  | .traceDump => false
  | .fileTraceDump _ | .syslogTraceDump => true

/-- The class's destructor calls `stop()`. -/
def DumpKind.stopsOnDestruction : DumpKind → Bool
  | .traceDump => false
  | .fileTraceDump _ | .syslogTraceDump => true

/-! ## Program counters -/

/-- A run of `pop_and_process()`. -/
inductive PumpPc
  /-- In `get_and_reset_overflow_counter`. -/
  | resetting
  /-- In `process_overflow`, which fills the message buffer next. -/
  | overflowing (messagesLost : ℕ)
  /-- In `process_overflow`, about to call `process`. -/
  | overflowed
  /-- In `pop`. -/
  | popping
  /-- `pop` has returned `true`; `process` comes next. -/
  | processing
  | returned (result : Bool)
  deriving DecidableEq, Repr

/-- The dump's thread. -/
inductive ThreadPc
  /-- Not created, or joined. -/
  | absent
  /-- In `thread_func`, about to test `shutdown`. -/
  | testing
  | pumping (pc : PumpPc)
  /-- `thread_func` has returned. -/
  | exited
  deriving DecidableEq, Repr

/-- The caller of `start`, `stop` and the destructor. -/
inductive CallerPc
  | idle
  /-- In `mint_thread_join`. -/
  | joining
  /-- `shutdown_thread` has returned; the guard of `process_remaining` comes next. -/
  | joined
  /-- In `process_remaining`. -/
  | draining (pc : PumpPc)
  /-- `process_remaining` has returned; the sink is closed next. -/
  | closing
  /-- `stop` is about to return. -/
  | returning
  /-- The destructor is done. -/
  | destroyed
  deriving DecidableEq, Repr

/-- Who runs `pop_and_process`. -/
inductive Runner
  | thread
  | caller
  deriving DecidableEq, Repr

/-! ## The system and its step function -/

/-- A trace dump, its parties and the ring buffer it consumes. -/
structure DumpSystem (capacity : ℕ) (Pid : Type) where
  /-- The ring buffer and the producers; its message is `message_buffer`. -/
  ring : RingSystem capacity Pid
  shutdown : Bool
  threadRunning : Bool
  /-- `handle != NULL` or `socket != NULL`. -/
  sinkOpen : Bool
  thread : ThreadPc
  caller : CallerPc
  /-- The call of `stop()` under way is the destructor's. -/
  destroying : Bool

/-- One step of one party. -/
inductive DumpAction (Pid : Type)
  /-- A producer's step. -/
  | produce (b : Action Pid)
  /-- A step inside a method of the ring buffer that `pop_and_process` calls. -/
  | consume (who : Runner) (b : Action Pid)
  /-- `process_overflow` up to its call of `process`, with what `getpid` and `gettimeofday`
  returned. -/
  | fillOverflow (who : Runner) (pid : ℤ) (tvSec tvUsec : ℕ)
  /-- `process()`. -/
  | process (who : Runner)
  /-- The thread tests `shutdown`. -/
  | threadTest
  /-- `pop_and_process` returns to `thread_func`. -/
  | threadNext
  | callStart
  /-- `stop()` is called, by the destructor or not. -/
  | callStop (destroying : Bool)
  /-- `mint_thread_join` returns. -/
  | join
  /-- The guard of `process_remaining` in `stop`. -/
  | testSink
  /-- `pop_and_process` returns to `process_remaining`. -/
  | drainNext
  /-- The handle or the socket is closed and set to `NULL`. -/
  | closeSink
  | stopReturn

/-- The action is one of a producer's calls. -/
def Action.byProducer {Pid : Type} : Action Pid → Bool
  | .headInc _ | .headMask _ | .producerLock _ | .producerWait _ | .markData _ | .overflowInc _
  | .resettableInc _ | .edit _ _ | .commitPush _ => true
  | .popTest | .consumerLock | .consumerWait | .popRetest | .popCopy | .popRecycle | .popClear
  | .popUnlock | .resetLoad | .resetStore => false

/-- Where `pop_and_process` is after the step `b` of the ring buffer's method it is in; `none`
where `b` is not a step of that method. -/
def PumpPc.next {capacity : ℕ} {Pid : Type} (ring : RingSystem capacity Pid) (b : Action Pid) :
    PumpPc → Option PumpPc
  | .resetting => match b with
    | .resetLoad => some .resetting
    -- if (overflow > 0) process_overflow(overflow);
    | .resetStore => match ring.consumer with
      | .resetting overflow => some (if 0 < overflow then .overflowing overflow else .popping)
      | _ => none
    | _ => none
  | .popping => match b with
    | .popTest =>
        some (if ring.buffer.hasData ring.buffer.tail then .popping else .returned false)
    | .popUnlock => match ring.consumer with
      | .unlocking _ result => some (if result then .processing else .returned false)
      | _ => none
    | .consumerLock | .consumerWait | .popRetest | .popCopy | .popRecycle | .popClear =>
        some .popping
    | _ => none
  | _ => none

/-- The conversion of an `unsigned long` to `long`. -/
def toLong (n : ℤ) : ℤ := n.bmod (2 ^ 64)

/-- The message buffer when `process_overflow(messages_lost)` calls `process`. -/
def overflowMessage (m : TraceMessage) (pid : ℤ) (tvSec tvUsec messagesLost : ℕ) :
    TraceMessage :=
  (((m.recycle.setTimestamp tvSec tvUsec).setSeverity 4).printf
    (CString.literal "pid " ++ CString.decimal pid ++ CString.literal " lost " ++
      CString.decimal (toLong messagesLost) ++
      CString.literal " messages due to overflow")).2

namespace DumpSystem

variable {capacity : ℕ} {Pid : Type}

/-- The constructor, on a new ring buffer and, for the classes that have one, with an open
sink.  `messageMemory` is what the bytes allocated for `message_buffer` contain. -/
def construct (traceMessageCapacity : ℕ) (elementMemory : ℕ → ℕ → UInt8)
    (messageMemory memory : ℕ → UInt8) : DumpSystem capacity Pid where
  ring := .start traceMessageCapacity elementMemory
    (TraceMessage.empty.realloc messageMemory traceMessageCapacity) memory
  shutdown := false
  threadRunning := false
  sinkOpen := true
  thread := .absent
  caller := .idle
  destroying := false

/-- The run of `pop_and_process` that a party is in. -/
def pump (s : DumpSystem capacity Pid) : Runner → Option PumpPc
  | .thread => match s.thread with
    | .pumping pc => some pc
    | _ => none
  | .caller => match s.caller with
    | .draining pc => some pc
    | _ => none

/-- A party's run of `pop_and_process` goes on at `pc`. -/
def setPump (s : DumpSystem capacity Pid) : Runner → PumpPc → DumpSystem capacity Pid
  | .thread, pc => { s with thread := .pumping pc }
  | .caller, pc => { s with caller := .draining pc }

/-- The message buffer is set to `m`. -/
def setMessage (s : DumpSystem capacity Pid) (m : TraceMessage) : DumpSystem capacity Pid :=
  { s with ring := { s.ring with message := m } }

/-- The step a party takes; `none` where the action is not the party's next one. -/
def step [DecidableEq Pid] (kind : DumpKind) (s : DumpSystem capacity Pid) :
    DumpAction Pid → Option (DumpSystem capacity Pid)
  | .produce b =>
      if b.byProducer then (s.ring.step b).map fun ring => { s with ring } else none
  | .consume who b => do
      let pc ← s.pump who
      let pc' ← pc.next s.ring b
      let ring ← s.ring.step b
      some ({ s with ring }.setPump who pc')
  | .fillOverflow who pid tvSec tvUsec => match s.pump who with
    | some (.overflowing messagesLost) => some
        ((s.setMessage (overflowMessage s.ring.message pid tvSec tvUsec messagesLost)).setPump
          who .overflowed)
    | _ => none
  | .process who => match s.pump who with
    | some .overflowed => some (s.setPump who .popping)
    | some .processing => some (s.setPump who (.returned true))
    | _ => none
  -- while (!shutdown)
  | .threadTest => match s.thread with
    | .testing => some { s with thread := if s.shutdown then .exited else .pumping .resetting }
    | _ => none
  -- if (!pop_and_process()) nanosleep(&ts, NULL);
  | .threadNext => match s.thread with
    | .pumping (.returned _) => some { s with thread := .testing }
    | _ => none
  -- if (!thread_running) { mint_thread_create(..); thread_running = true; }
  | .callStart => match s.caller with
    | .idle => some (if s.threadRunning then s
        else { s with threadRunning := true, thread := .testing })
    | _ => none
  -- if (thread_running) { shutdown = true; mint_thread_join(thread, NULL); .. }
  | .callStop destroying => match s.caller with
    | .idle =>
        if destroying && !kind.stopsOnDestruction then none
        else some (if s.threadRunning
          then { s with shutdown := true, caller := .joining, destroying }
          else { s with caller := .joined, destroying })
    | _ => none
  | .join => match s.caller, s.thread with
    | .joining, .exited => some
        { s with threadRunning := false, thread := .absent, caller := .joined }
    | _, _ => none
  | .testSink => match s.caller with
    | .joined => some
        { s with caller := if kind.drains s.sinkOpen then .draining .resetting else .returning }
    | _ => none
  -- while (pop_and_process());
  | .drainNext => match s.caller with
    | .draining (.returned true) => some { s with caller := .draining .resetting }
    | .draining (.returned false) => some
        { s with caller := if kind.closes then .closing else .returning }
    | _ => none
  | .closeSink => match s.caller with
    | .closing => some { s with sinkOpen := false, caller := .returning }
    | _ => none
  | .stopReturn => match s.caller with
    | .returning => some { s with caller := if s.destroying then .destroyed else .idle }
    | _ => none

end DumpSystem

/-- The machine of all interleavings on one dump and one ring buffer. -/
def traceDump (kind : DumpKind) (capacity traceMessageCapacity : ℕ) (Pid : Type)
    [DecidableEq Pid] : Machine (DumpSystem capacity Pid) (DumpAction Pid) where
  init s := ∃ elementMemory messageMemory memory,
    s = .construct traceMessageCapacity elementMemory messageMemory memory
  step := DumpSystem.step kind

/-! ## What a step can do -/

open DumpSystem in
/-- The ways a step can go. -/
inductive DumpStep {capacity : ℕ} {Pid : Type} [DecidableEq Pid] (kind : DumpKind)
    (s : DumpSystem capacity Pid) : DumpAction Pid → DumpSystem capacity Pid → Prop
  | produce {b : Action Pid} {ring : RingSystem capacity Pid} (hb : b.byProducer = true)
      (hring : s.ring.step b = some ring) : DumpStep kind s (.produce b) { s with ring }
  | consume {who : Runner} {b : Action Pid} {pc pc' : PumpPc} {ring : RingSystem capacity Pid}
      (hpc : s.pump who = some pc) (hnext : pc.next s.ring b = some pc')
      (hring : s.ring.step b = some ring) :
      DumpStep kind s (.consume who b) ({ s with ring }.setPump who pc')
  | fillOverflow {who : Runner} {pid : ℤ} {tvSec tvUsec messagesLost : ℕ}
      (hpc : s.pump who = some (.overflowing messagesLost)) :
      DumpStep kind s (.fillOverflow who pid tvSec tvUsec) ((s.setMessage
        (overflowMessage s.ring.message pid tvSec tvUsec messagesLost)).setPump who .overflowed)
  | processOverflow {who : Runner} (hpc : s.pump who = some .overflowed) :
      DumpStep kind s (.process who) (s.setPump who .popping)
  | process {who : Runner} (hpc : s.pump who = some .processing) :
      DumpStep kind s (.process who) (s.setPump who (.returned true))
  | threadExit (hpc : s.thread = .testing) (hshutdown : s.shutdown = true) :
      DumpStep kind s .threadTest { s with thread := .exited }
  | threadPump (hpc : s.thread = .testing) (hshutdown : s.shutdown = false) :
      DumpStep kind s .threadTest { s with thread := .pumping .resetting }
  | threadNext {result : Bool} (hpc : s.thread = .pumping (.returned result)) :
      DumpStep kind s .threadNext { s with thread := .testing }
  | startRunning (hpc : s.caller = .idle) (hrunning : s.threadRunning = true) :
      DumpStep kind s .callStart s
  | start (hpc : s.caller = .idle) (hrunning : s.threadRunning = false) :
      DumpStep kind s .callStart { s with threadRunning := true, thread := .testing }
  | stopRunning {destroying : Bool} (hpc : s.caller = .idle)
      (hclass : destroying = true → kind.stopsOnDestruction = true)
      (hrunning : s.threadRunning = true) : DumpStep kind s (.callStop destroying)
        { s with shutdown := true, caller := .joining, destroying }
  | stopIdle {destroying : Bool} (hpc : s.caller = .idle)
      (hclass : destroying = true → kind.stopsOnDestruction = true)
      (hrunning : s.threadRunning = false) :
      DumpStep kind s (.callStop destroying) { s with caller := .joined, destroying }
  | join (hpc : s.caller = .joining) (hexited : s.thread = .exited) :
      DumpStep kind s .join { s with threadRunning := false, thread := .absent, caller := .joined }
  | drain (hpc : s.caller = .joined) (hdrains : kind.drains s.sinkOpen = true) :
      DumpStep kind s .testSink { s with caller := .draining .resetting }
  | leave (hpc : s.caller = .joined) (hdrains : kind.drains s.sinkOpen = false) :
      DumpStep kind s .testSink { s with caller := .returning }
  | drainOn (hpc : s.caller = .draining (.returned true)) :
      DumpStep kind s .drainNext { s with caller := .draining .resetting }
  | drained (hpc : s.caller = .draining (.returned false)) (hcloses : kind.closes = true) :
      DumpStep kind s .drainNext { s with caller := .closing }
  | drainedOpen (hpc : s.caller = .draining (.returned false)) (hcloses : kind.closes = false) :
      DumpStep kind s .drainNext { s with caller := .returning }
  | closeSink (hpc : s.caller = .closing) :
      DumpStep kind s .closeSink { s with sinkOpen := false, caller := .returning }
  | stopReturn (hpc : s.caller = .returning) :
      DumpStep kind s .stopReturn
        { s with caller := if s.destroying then .destroyed else .idle }

/-- A step of `pop` between its test of the tail and its last one. -/
def Action.isInsidePop {Pid : Type} : Action Pid → Bool
  | .consumerLock | .consumerWait | .popRetest | .popCopy | .popRecycle | .popClear => true
  | _ => false

/-- The ways a step inside `pop_and_process` can go, on the ring buffer and in
`pop_and_process`. -/
inductive PumpStep {capacity : ℕ} {Pid : Type} [DecidableEq Pid] (ring : RingSystem capacity Pid) :
    PumpPc → Action Pid → PumpPc → RingSystem capacity Pid → Prop
  | resetLoad (hpc : ring.consumer = .idle) :
      PumpStep ring .resetting .resetLoad .resetting
        (ring.consume (.resetting ring.buffer.resettableOverflowCounter) ring.buffer)
  | resetStore {overflow : ℕ} (hpc : ring.consumer = .resetting overflow) :
      PumpStep ring .resetting .resetStore
        (if 0 < overflow then .overflowing overflow else .popping)
        (ring.consume .idle { ring.buffer with resettableOverflowCounter := 0 })
  | popFound (hpc : ring.consumer = .idle)
      (hset : ring.buffer.hasData ring.buffer.tail = true) :
      PumpStep ring .popping .popTest .popping
        (ring.consume (.locking ring.buffer.tail false) ring.buffer)
  | popNothing (hpc : ring.consumer = .idle)
      (hclear : ring.buffer.hasData ring.buffer.tail = false) :
      PumpStep ring .popping .popTest (.returned false) (ring.consume .idle ring.buffer)
  | insidePop {b : Action Pid} {ring' : RingSystem capacity Pid} (hb : b.isInsidePop = true)
      (hstep : Step ring b ring') : PumpStep ring .popping b .popping ring'
  | popUnlock {i : ℕ} {result : Bool} (hpc : ring.consumer = .unlocking i result) :
      PumpStep ring .popping .popUnlock (if result then .processing else .returned false)
        (ring.consume .idle (ring.buffer.unlockElement i))

lemma PumpPc.next_of_insidePop {capacity : ℕ} {Pid : Type} {ring : RingSystem capacity Pid}
    {b : Action Pid} (hb : b.isInsidePop = true) : PumpPc.popping.next ring b = some .popping := by
  cases b <;> first | rfl | cases hb

lemma PumpStep.of_next {capacity : ℕ} {Pid : Type} [DecidableEq Pid]
    {ring ring' : RingSystem capacity Pid} {b : Action Pid} {pc pc' : PumpPc}
    (hnext : pc.next ring b = some pc') (hstep : Step ring b ring') :
    PumpStep ring pc b pc' ring' := by
  cases pc with
  | resetting =>
      cases hstep with
      | resetLoad hpc =>
          obtain rfl : PumpPc.resetting = pc' := Option.some.inj hnext
          exact .resetLoad hpc
      | resetStore hpc =>
          simp only [PumpPc.next, hpc, Option.some.injEq] at hnext
          exact hnext ▸ .resetStore hpc
      | _ => cases hnext
  | popping =>
      by_cases hb : b.isInsidePop = true
      · rw [PumpPc.next_of_insidePop hb] at hnext
        obtain rfl := Option.some.inj hnext
        exact .insidePop hb hstep
      · cases hstep with
        | popFound hpc hset =>
            simp only [PumpPc.next, hset, if_true, Option.some.injEq] at hnext
            exact hnext ▸ .popFound hpc hset
        | popNothing hpc hclear =>
            simp only [PumpPc.next, hclear, Bool.false_eq_true, if_false,
              Option.some.injEq] at hnext
            exact hnext ▸ .popNothing hpc hclear
        | popUnlock hpc =>
            simp only [PumpPc.next, hpc, Option.some.injEq] at hnext
            exact hnext ▸ .popUnlock hpc
        | _ => first | exact absurd rfl hb | cases hnext
  | overflowing | overflowed | processing | returned => cases hnext

namespace DumpStep

variable {capacity : ℕ} {Pid : Type} [DecidableEq Pid] {kind : DumpKind}
  {s s' : DumpSystem capacity Pid} {a : DumpAction Pid}

lemma of_step_consume {who : Runner} {b : Action Pid}
    (h : s.step kind (.consume who b) = some s') : DumpStep kind s (.consume who b) s' := by
  simp only [DumpSystem.step, Option.bind_eq_bind, Option.bind_eq_some_iff, Option.some.injEq] at h
  obtain ⟨pc, hpc, pc', hnext, ring, hring, rfl⟩ := h
  exact .consume hpc hnext hring

lemma of_step_process {who : Runner} (h : s.step kind (.process who) = some s') :
    DumpStep kind s (.process who) s' := by
  simp only [DumpSystem.step] at h
  split at h
  · next hpc => exact Option.some.inj h ▸ .processOverflow hpc
  · next hpc => exact Option.some.inj h ▸ .process hpc
  · cases h

lemma of_step_threadTest (h : s.step kind .threadTest = some s') :
    DumpStep kind s .threadTest s' := by
  simp only [DumpSystem.step] at h
  split at h
  · next hpc =>
      by_cases hshutdown : s.shutdown = true
      · rw [if_pos hshutdown] at h
        exact Option.some.inj h ▸ .threadExit hpc hshutdown
      · rw [if_neg hshutdown] at h
        exact Option.some.inj h ▸ .threadPump hpc (Bool.not_eq_true _ ▸ hshutdown)
  · cases h

lemma of_step_callStart (h : s.step kind .callStart = some s') :
    DumpStep kind s .callStart s' := by
  simp only [DumpSystem.step] at h
  split at h
  · next hpc =>
      by_cases hrunning : s.threadRunning = true
      · rw [if_pos hrunning] at h
        exact Option.some.inj h ▸ .startRunning hpc hrunning
      · rw [if_neg hrunning] at h
        exact Option.some.inj h ▸ .start hpc (Bool.not_eq_true _ ▸ hrunning)
  · cases h

lemma of_step_callStop {destroying : Bool} (h : s.step kind (.callStop destroying) = some s') :
    DumpStep kind s (.callStop destroying) s' := by
  simp only [DumpSystem.step] at h
  split at h
  · next hpc =>
      split at h
      · cases h
      · next hclass =>
          have hclass' : destroying = true → kind.stopsOnDestruction = true := by
            simpa using hclass
          by_cases hrunning : s.threadRunning = true
          · rw [if_pos hrunning] at h
            exact Option.some.inj h ▸ .stopRunning hpc hclass' hrunning
          · rw [if_neg hrunning] at h
            exact Option.some.inj h ▸ .stopIdle hpc hclass' (Bool.not_eq_true _ ▸ hrunning)
  · cases h

lemma of_step_testSink (h : s.step kind .testSink = some s') : DumpStep kind s .testSink s' := by
  simp only [DumpSystem.step] at h
  split at h
  · next hpc =>
      by_cases hdrains : kind.drains s.sinkOpen = true
      · rw [if_pos hdrains] at h
        exact Option.some.inj h ▸ .drain hpc hdrains
      · rw [if_neg hdrains] at h
        exact Option.some.inj h ▸ .leave hpc (Bool.not_eq_true _ ▸ hdrains)
  · cases h

lemma of_step_drainNext (h : s.step kind .drainNext = some s') :
    DumpStep kind s .drainNext s' := by
  simp only [DumpSystem.step] at h
  split at h
  · next hpc => exact Option.some.inj h ▸ .drainOn hpc
  · next hpc =>
      by_cases hcloses : kind.closes = true
      · rw [if_pos hcloses] at h
        exact Option.some.inj h ▸ .drained hpc hcloses
      · rw [if_neg hcloses] at h
        exact Option.some.inj h ▸ .drainedOpen hpc (Bool.not_eq_true _ ▸ hcloses)
  · cases h

/-- **Inversion.**  A step goes one of the ways `DumpStep` lists. -/
theorem of_step (h : s.step kind a = some s') : DumpStep kind s a s' := by
  cases a with
  | produce b =>
      simp only [DumpSystem.step] at h
      split at h
      · next hb =>
          obtain ⟨ring, hring, rfl⟩ := Option.map_eq_some_iff.mp h
          exact .produce hb hring
      · cases h
  | consume who b => exact of_step_consume h
  | process who => exact of_step_process h
  | threadTest => exact of_step_threadTest h
  | callStart => exact of_step_callStart h
  | callStop destroying => exact of_step_callStop h
  | testSink => exact of_step_testSink h
  | drainNext => exact of_step_drainNext h
  | join =>
      simp only [DumpSystem.step] at h
      split at h
      · next hpc hexited => exact Option.some.inj h ▸ .join hpc hexited
      · cases h
  | fillOverflow | threadNext | closeSink | stopReturn =>
      -- one program counter allows the action, and it has one outcome
      simp only [DumpSystem.step] at h
      split at h
      · obtain rfl := Option.some.inj h
        constructor
        assumption
      · cases h

end DumpStep

end InfiTracing
