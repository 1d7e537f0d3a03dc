import Mathlib.Algebra.Order.BigOperators.Group.Finset
import InfiTracing.Framework.Progress
import InfiTracing.RingBuffer.Overflow
import InfiTracing.TraceDump.Lifecycle

/-!
# `stop` returns

`stop` joins a thread that may be in the middle of `pop_and_process`, then pops until the ring
buffer is empty, while producers go on pushing and both sides spin on the locks of slots.

The measure of a dump (`DumpSystem.left`) counts the steps each party has left: those of a
message on its way into the buffer include the ones it takes to pop and process it, and so do
those of a message in the buffer.  A turn of a spinning loop and an edit of a reserved message
leave it where it is, a new push raises it, and every other step lowers it (`stop_pays`), once
`shutdown` is set.

So `stop` under way does a bounded amount of work for each push that comes in meanwhile, and is
never stuck: whoever spins, some party has a step to take (`stop_returns`).
-/

namespace InfiTracing

open Framework

variable {kind : DumpKind} {capacity traceMessageCapacity : ℕ} {Pid : Type}

/-! ## The steps left -/

/-- The steps a producer has left in its push.  Up to the test-and-set of the has-data flag they
include the ones the consumer takes to pop the message. -/
def ProducerPc.left : ProducerPc → ℕ
  | .idle => 0
  | .writing _ => 1
  | .overflowed _ => 2
  | .overflowing _ => 3
  | .marking _ => 16
  | .waited _ => 17
  | .locking _ _ => 18
  | .masking _ => 19

/-- The steps left of `pop` and what follows it, if it delivers nothing, and those of the drain's
next turn once it has delivered. -/
def ConsumerPc.left : ConsumerPc → ℕ
  | .idle | .resetting _ => 8
  | .locking _ _ => 7
  | .waited _ => 6
  | .retesting _ => 5
  | .copying _ => 4
  | .recycling _ => 3
  | .clearing _ => 2
  | .unlocking _ result => if result then 15 else 4

/-- The steps left of `pop_and_process` and what follows it. -/
def PumpPc.left : PumpPc → ConsumerPc → ℕ
  | .resetting, .resetting _ => 11
  | .resetting, _ => 12
  | .overflowing _, _ => 10
  | .overflowed, _ => 9
  | .popping, cpc => cpc.left
  | .processing, _ => 14
  | .returned result, _ => if result then 13 else 3

/-- The steps the thread has left when `shutdown` is set. -/
def ThreadPc.left (cpc : ConsumerPc) : ThreadPc → ℕ
  | .absent => 0
  | .exited => 1
  | .testing => 2
  | .pumping pc => pc.left cpc

/-- The steps `stop` has left. -/
def CallerPc.left (cpc : ConsumerPc) : CallerPc → ℕ
  | .idle | .destroyed => 0
  | .returning => 1
  | .closing => 2
  | .draining pc => pc.left cpc
  | .joined => 13
  | .joining => 14

/-- The steps left for what is in the ring buffer, or on its way into it. -/
def RingSystem.load [Fintype Pid] (s : RingSystem capacity Pid) : ℕ :=
  14 * s.buffer.occupied + ∑ p, (s.producers p).left

/-- The steps left of a dump. -/
def DumpSystem.left [Fintype Pid] (s : DumpSystem capacity Pid) : ℕ :=
  s.ring.load + s.thread.left s.ring.consumer + s.caller.left s.ring.consumer

/-! ## Which steps are work -/

/-- A step of the ring buffer is work unless it starts a push, edits a message, or is a turn of
a spinning loop. -/
def RingSystem.works (s : RingSystem capacity Pid) : Action Pid → Bool
  | .headInc _ | .edit _ _ => false
  | .producerLock p => match s.producers p with
    | .locking i _ => !s.buffer.busy i
    | _ => true
  | .consumerLock => match s.consumer with
    | .locking i _ => !s.buffer.busy i
    | _ => true
  | .headMask _ | .producerWait _ | .markData _ | .overflowInc _ | .resettableInc _
  | .commitPush _ | .popTest | .consumerWait | .popRetest | .popCopy | .popRecycle | .popClear
  | .popUnlock | .resetLoad | .resetStore => true

/-- A step of a dump is work unless it is one of the ring buffer that is not. -/
def DumpSystem.works (s : DumpSystem capacity Pid) : DumpAction Pid → Bool
  | .produce b | .consume _ b => s.ring.works b
  | _ => true

/-- The action starts a push. -/
def Action.beginsPush : Action Pid → Bool
  | .headInc _ => true
  | _ => false

/-- The action starts a push. -/
def DumpAction.beginsPush : DumpAction Pid → Bool
  | .produce b => b.beginsPush
  | _ => false

/-- The action is a call of `start`, `stop` or the destructor. -/
def DumpAction.isCall : DumpAction Pid → Bool
  | .callStart | .callStop _ => true
  | _ => false

/-! ## The measure of the ring buffer -/

section Load

variable [Fintype Pid] {ring ring' : RingSystem capacity Pid} {b : Action Pid}

/-- The balance of a consumer's step. -/
lemma RingSystem.load_consume (s : RingSystem capacity Pid) (cpc : ConsumerPc)
    (b : TraceMessageRingBuffer capacity) :
    (s.consume cpc b).load + 14 * s.buffer.occupied = s.load + 14 * b.occupied := by
  simp only [load, consume_buffer, consume_producers]
  omega

variable [DecidableEq Pid]

/-- The balance of a producer's step. -/
lemma RingSystem.load_produce (s : RingSystem capacity Pid) (p : Pid) (pc : ProducerPc)
    (b : TraceMessageRingBuffer capacity) :
    (s.produce p pc b).load + (s.producers p).left + 14 * s.buffer.occupied =
      s.load + pc.left + 14 * b.occupied := by
  have hsum := sum_apply_update ProducerPc.left s.producers p pc
  simp only [load, produce_buffer, produce_producers]
  omega

/-- A producer's step that leaves the has-data flags alone pays for itself if its program counter
does. -/
lemma RingSystem.produce_pays {s : RingSystem capacity Pid} {p : Pid} {pc pc' : ProducerPc}
    {b : TraceMessageRingBuffer capacity} {work gain : ℕ} (hpc : s.producers p = pc)
    (hoccupied : b.occupied = s.buffer.occupied) (hleft : pc'.left + work ≤ pc.left + gain) :
    (s.produce p pc' b).load + work ≤ s.load + gain := by
  have hload := s.load_produce p pc' b
  rw [hpc, hoccupied] at hload
  omega

omit [Fintype Pid] [DecidableEq Pid] in
/-- One more slot has data. -/
lemma occupied_set {b : TraceMessageRingBuffer capacity} {i : ℕ} (hi : i < capacity)
    (hclear : b.hasData i = false) :
    ({ b with hasData := Function.update b.hasData i true } :
      TraceMessageRingBuffer capacity).occupied = b.occupied + 1 := by
  have hbalance := tally_update (Finset.range capacity) (· = true) (f := b.hasData)
    (Finset.mem_range.mpr hi) true
  simpa [TraceMessageRingBuffer.occupied, hclear] using hbalance

omit [Fintype Pid] [DecidableEq Pid] in
/-- One slot fewer has data. -/
lemma occupied_clear {b : TraceMessageRingBuffer capacity} {i : ℕ} (hi : i < capacity)
    (hset : b.hasData i = true) :
    ({ b with hasData := Function.update b.hasData i false } :
      TraceMessageRingBuffer capacity).occupied + 1 = b.occupied := by
  have hbalance := tally_update (Finset.range capacity) (· = true) (f := b.hasData)
    (Finset.mem_range.mpr hi) false
  simpa [TraceMessageRingBuffer.occupied, hset] using hbalance

lemma left_producerAcquired_le (i : ℕ) (collision : Bool) :
    (RingSystem.producerAcquired i collision).left ≤ 17 := by
  cases collision <;> simp [RingSystem.producerAcquired, ProducerPc.left]

lemma left_consumerAcquired_le (i : ℕ) (collision : Bool) :
    (RingSystem.consumerAcquired i collision).left ≤ 6 := by
  cases collision <;> simp [RingSystem.consumerAcquired, ConsumerPc.left]

/-- **A producer's step pays for itself.** -/
lemma Step.producerPays (hstep : Step ring b ring') (hb : b.byProducer = true)
    (hslots : SlotBounds ring) :
    ring'.load + (ring.works b).toNat ≤ ring.load + 19 * b.beginsPush.toNat := by
  cases hstep with
  | headInc hpc hlt | headIncOver hpc hge =>
      refine RingSystem.produce_pays hpc rfl ?_
      simp [ProducerPc.left, RingSystem.works, Action.beginsPush]
  | headMask hpc | producerWait hpc | markOverrun hpc hset | overflowInc hpc | resettableInc hpc
  | edit hpc | commitPush hpc =>
      refine RingSystem.produce_pays hpc rfl ?_
      simp [ProducerPc.left, RingSystem.works, Action.beginsPush]
  | @producerLock p i collision hpc hbusy =>
      have hworks : ring.works (.producerLock p) = true := by
        simp [RingSystem.works, hpc, hbusy]
      have hacquired := left_producerAcquired_le i collision
      refine RingSystem.produce_pays hpc rfl ?_
      rw [hworks]
      show _ ≤ 18 + _
      rw [Bool.toNat_true]
      omega
  | producerSpin hpc hbusy =>
      refine RingSystem.produce_pays hpc rfl ?_
      simp [ProducerPc.left, RingSystem.works, Action.beginsPush, hpc, hbusy]
  | @markData p i hpc hclear =>
      -- what the consumer will take for this message is counted at its slot from now on
      have hi : i < capacity := hslots.producer p i (by rw [hpc]; rfl)
      have hoccupied := occupied_set hi hclear
      have hload := ring.load_produce p (.writing i)
        { ring.buffer with hasData := Function.update ring.buffer.hasData i true }
      rw [hpc, hoccupied] at hload
      simp only [ProducerPc.left, RingSystem.works, Action.beginsPush, Bool.toNat_true,
        Bool.toNat_false] at hload ⊢
      omega
  | popFound | popNothing | consumerLock | consumerSpin | consumerWait | popRetest | popGone
  | popCopy | popRecycle | popClear | popUnlock | resetLoad | resetStore => cases hb

omit [DecidableEq Pid] in
/-- A consumer's step that leaves the has-data flags alone pays for itself if the program
counters do. -/
lemma RingSystem.consume_pays {s : RingSystem capacity Pid} {cpc : ConsumerPc}
    {b : TraceMessageRingBuffer capacity} {left left' work : ℕ}
    (hoccupied : b.occupied = s.buffer.occupied) (hleft : left' + work ≤ left) :
    (s.consume cpc b).load + left' + work ≤ s.load + left := by
  have hload := s.load_consume cpc b
  rw [hoccupied] at hload
  omega

/-- A step of `pop` between its test of the tail and its last one pays for itself. -/
lemma Step.insidePopPays (hstep : Step ring b ring') (hb : b.isInsidePop = true)
    (hpop : PopCommitted ring) (hslots : SlotBounds ring) :
    ring'.load + ring'.consumer.left + (ring.works b).toNat ≤ ring.load + ring.consumer.left := by
  cases hstep with
  | @consumerLock i collision hpc hbusy =>
      have hworks : ring.works .consumerLock = true := by simp [RingSystem.works, hpc, hbusy]
      have hacquired := left_consumerAcquired_le i collision
      refine RingSystem.consume_pays rfl ?_
      rw [hworks, hpc]
      show _ ≤ 7
      rw [RingSystem.consume_consumer, Bool.toNat_true]
      omega
  | consumerSpin hpc hbusy =>
      refine RingSystem.consume_pays rfl ?_
      simp [ConsumerPc.left, RingSystem.works, hpc, hbusy]
  | consumerWait hpc | popRetest hpc | popGone hpc | popRecycle hpc =>
      refine RingSystem.consume_pays rfl ?_
      simp [ConsumerPc.left, RingSystem.works, hpc]
  | @popCopy i hpc =>
      have hpays : (ring.consume (.recycling i) { ring.buffer with
          tail := TraceMessageRingBuffer.masked capacity (ring.buffer.tail + 1) }).load + 3 + 1 ≤
          ring.load + 4 := RingSystem.consume_pays rfl le_rfl
      rw [hpc]
      exact hpays
  | @popClear i hpc =>
      -- the message leaves the buffer, and what is left to do for it is the consumer's
      have hi : i < capacity := hslots.consumer i (by rw [hpc]; rfl)
      have hset : ring.buffer.hasData i = true := hpop.hasData i (by rw [hpc]; rfl)
      have hoccupied := occupied_clear hi hset
      have hload := ring.load_consume (.unlocking i true)
        { ring.buffer with hasData := Function.update ring.buffer.hasData i false }
      simp only [ConsumerPc.left, RingSystem.works, RingSystem.consume_consumer, hpc, if_true,
        Bool.toNat_true] at hload ⊢
      omega
  | _ => cases hb

/-- **A consumer's step pays for itself.** -/
lemma PumpStep.pays {pc pc' : PumpPc} (hstep : PumpStep ring pc b pc' ring')
    (hpop : PopCommitted ring) (hslots : SlotBounds ring) :
    ring'.load + pc'.left ring'.consumer + (ring.works b).toNat ≤
      ring.load + pc.left ring.consumer := by
  cases hstep with
  | resetLoad hpc =>
      refine RingSystem.consume_pays rfl ?_
      simp [PumpPc.left, RingSystem.works, hpc]
  | @resetStore overflow hpc =>
      refine RingSystem.consume_pays rfl ?_
      split <;> simp [PumpPc.left, ConsumerPc.left, RingSystem.works, hpc]
  | popFound hpc hset | popNothing hpc hclear =>
      refine RingSystem.consume_pays rfl ?_
      simp [PumpPc.left, ConsumerPc.left, RingSystem.works, hpc]
  | insidePop hb hstep => exact hstep.insidePopPays hb hpop hslots
  | @popUnlock i result hpc =>
      refine RingSystem.consume_pays rfl ?_
      cases result <;> simp [PumpPc.left, ConsumerPc.left, RingSystem.works, hpc]

end Load

/-! ## The ring buffer under a dump -/

/-- What holds of the ring buffer in every run of a dump. -/
structure RingKept (ring : RingSystem capacity Pid) : Prop where
  locks : LockTable ring.held ring.buffer.busy
  pop : PopCommitted ring
  slots : SlotBounds ring

section Kept

variable {s s' : DumpSystem capacity Pid} {a : DumpAction Pid}

/-- The message buffer does not matter. -/
lemma RingKept.setMessage {ring : RingSystem capacity Pid} (hk : RingKept ring)
    (message : TraceMessage) : RingKept { ring with message } where
  locks := ⟨hk.locks.exclusive, hk.locks.busy_iff⟩
  pop := ⟨hk.pop.hasData, hk.pop.succeeds⟩
  slots := ⟨hk.slots.producer, hk.slots.consumer, hk.slots.tail⟩

variable [DecidableEq Pid]

lemma RingKept.step (hc : 0 < capacity) {ring ring' : RingSystem capacity Pid} {b : Action Pid}
    (hk : RingKept ring) (hstep : ring.step b = some ring') : RingKept ring' where
  locks := (Step.of_step hstep).lockTable hk.locks
  pop := (Step.of_step hstep).popCommitted hk.pop
  slots := (Step.of_step hstep).slotBounds hc hk.slots

lemma DumpStep.ringKept (hc : 0 < capacity) (hstep : DumpStep kind s a s')
    (hk : RingKept s.ring) : RingKept s'.ring := by
  cases hstep with
  | produce hb hring => exact hk.step hc hring
  | consume hpc hnext hring =>
      rw [DumpSystem.ring_setPump]
      exact hk.step hc hring
  | fillOverflow hpc =>
      rw [DumpSystem.ring_setPump]
      exact hk.setMessage _
  | processOverflow hpc | process hpc =>
      rw [DumpSystem.ring_setPump]
      exact hk
  | _ => exact hk

theorem ringKept_of_reachable (hc : 0 < capacity)
    (hs : (traceDump kind capacity traceMessageCapacity Pid).Reachable s) : RingKept s.ring := by
  refine hs.invariant (I := fun s => RingKept s.ring) ?_ ?_
  · rintro s ⟨elementMemory, messageMemory, memory, rfl⟩
    have hring : (ring capacity traceMessageCapacity Pid).Reachable
        (.start traceMessageCapacity elementMemory
          (TraceMessage.empty.realloc messageMemory traceMessageCapacity) memory) :=
      .init ⟨_, _, _, rfl⟩
    exact ⟨lockTable_of_reachable hring, popCommitted_of_reachable hring,
      slotBounds_of_reachable hc hring⟩
  · intro s a s' _ hk hstep
    exact (DumpStep.of_step hstep).ringKept hc hk

end Kept

/-! ## Ending the thread -/

/-- Where there is a thread, it has been told to end. -/
def DumpSystem.Ending (s : DumpSystem capacity Pid) : Prop :=
  s.thread ≠ .absent → s.shutdown = true

/-- In a call of `stop`. -/
def CallerPc.inStop : CallerPc → Bool
  | .idle | .destroyed => false
  | .joining | .joined | .draining _ | .closing | .returning => true

section Ending

variable {s s' : DumpSystem capacity Pid} {a : DumpAction Pid}

lemma Lifecycle.ending (hl : Lifecycle s) (hstop : s.caller.inStop = true) : s.Ending := by
  intro hthread
  cases hcaller : s.caller with
  | idle | destroyed => rw [hcaller] at hstop; cases hstop
  | joining => exact (hl.joining hcaller).1
  | joined | draining | closing | returning =>
      exact absurd (hl.alone (by rw [hcaller]; rfl)) hthread

lemma DumpSystem.thread_ne_absent {pc : PumpPc} (hpc : s.pump .thread = some pc) :
    s.thread ≠ .absent := by
  intro habsent
  simp [DumpSystem.pump, habsent] at hpc

lemma DumpSystem.Ending.setPump (he : s.Ending) {who : Runner} {pc pc' : PumpPc}
    (hpc : s.pump who = some pc) : (s.setPump who pc').Ending := by
  cases who with
  | thread => exact fun _ => he (DumpSystem.thread_ne_absent hpc)
  | caller => exact he

/-- Only a call of `start` makes a thread that has not been told to end. -/
lemma DumpStep.ending [DecidableEq Pid] (hstep : DumpStep kind s a s') (ha : a.isCall = false)
    (he : s.Ending) : s'.Ending := by
  cases hstep with
  | @consume who b pc pc' ring hpc hnext hring =>
      have hring : DumpSystem.Ending { s with ring } := he
      exact hring.setPump ((s.pump_ring ring who).trans hpc)
  | @fillOverflow who pid tvSec tvUsec messagesLost hpc =>
      have hmessage : (s.setMessage
          (overflowMessage s.ring.message pid tvSec tvUsec messagesLost)).Ending := he
      exact hmessage.setPump ((s.pump_ring _ who).trans hpc)
  | processOverflow hpc | process hpc => exact he.setPump hpc
  | threadExit hpc | threadPump hpc | threadNext hpc => exact fun _ => he (by simp [hpc])
  | join => exact fun habsent => absurd rfl habsent
  | produce | drain | leave | drainOn | drained | drainedOpen | closeSink | stopReturn => exact he
  | startRunning | start | stopRunning | stopIdle => cases ha

end Ending

/-! ## The measure of a dump -/

section Left

variable [Fintype Pid] {s s' : DumpSystem capacity Pid} {a : DumpAction Pid}

@[simp] lemma PumpPc.left_returned (result : Bool) (cpc : ConsumerPc) :
    (PumpPc.returned result).left cpc = if result then 13 else 3 := by
  simp [left]

lemma PumpPc.left_resetting_le (cpc : ConsumerPc) : PumpPc.resetting.left cpc ≤ 12 := by
  cases cpc <;> simp [left]

lemma PumpPc.left_le (pc : PumpPc) (cpc : ConsumerPc) : pc.left cpc ≤ 15 := by
  cases pc with
  | resetting => exact (left_resetting_le cpc).trans (by decide)
  | overflowing | overflowed | processing => simp [left]
  | popping => 
      cases cpc with
      | unlocking i result => cases result <;> simp [left, ConsumerPc.left]
      | _ => simp [left, ConsumerPc.left]
  | returned result => cases result <;> simp

/-- The balance where the one run of `pop_and_process` goes on. -/
lemma DumpSystem.left_setPump (hl : Lifecycle s) {who : Runner} {pc : PumpPc}
    (hpc : s.pump who = some pc) (ring : RingSystem capacity Pid) (pc' : PumpPc) :
    (({ s with ring } : DumpSystem capacity Pid).setPump who pc').left + s.ring.load +
      pc.left s.ring.consumer = s.left + ring.load + pc'.left ring.consumer := by
  cases who with
  | thread =>
      have hthread : s.thread = .pumping pc := by
        cases hthread : s.thread <;> simp_all [DumpSystem.pump]
      have hcaller : s.caller.left ring.consumer = s.caller.left s.ring.consumer := by
        have hnone : s.pump .caller = none := hl.exclusive hpc (by simp)
        cases hcaller : s.caller <;> simp_all [DumpSystem.pump, CallerPc.left]
      simp only [left, setPump, hthread, ThreadPc.left, hcaller]
      omega
  | caller =>
      have hcaller : s.caller = .draining pc := by
        cases hcaller : s.caller <;> simp_all [DumpSystem.pump]
      have hthread : s.thread.left ring.consumer = s.thread.left s.ring.consumer := by
        have hnone : s.pump .thread = none := hl.exclusive hpc (by simp)
        cases hthread : s.thread <;> simp_all [DumpSystem.pump, ThreadPc.left]
      simp only [left, setPump, hcaller, CallerPc.left, hthread]
      omega

/-- A step of `pop_and_process` itself. -/
lemma DumpSystem.left_setPump_lt (hl : Lifecycle s) {who : Runner} {pc pc' : PumpPc}
    (hpc : s.pump who = some pc) {ring : RingSystem capacity Pid} (hload : ring.load = s.ring.load)
    (hleft : pc'.left ring.consumer < pc.left s.ring.consumer) :
    (({ s with ring } : DumpSystem capacity Pid).setPump who pc').left < s.left := by
  have hbalance := left_setPump hl hpc ring pc'
  omega

/-- **A step pays for itself**, once the thread has been told to end. -/
lemma DumpStep.pays [DecidableEq Pid] (hstep : DumpStep kind s a s') (ha : a.isCall = false)
    (hl : Lifecycle s) (hp : Pumping s) (hk : RingKept s.ring) (he : s.Ending) :
    s'.left + (s.works a).toNat ≤ s.left + 19 * a.beginsPush.toNat := by
  have hresetting := PumpPc.left_resetting_le s.ring.consumer
  cases hstep with
  | @produce b ring hb hring =>
      have hpays := (Step.of_step hring).producerPays hb hk.slots
      have hconsumer := (consumer_of_byProducer (Step.of_step hring) hb).1
      simp only [DumpSystem.left, hconsumer, DumpSystem.works, DumpAction.beginsPush]
      omega
  | @consume who b pc pc' ring hpc hnext hring =>
      have hbalance := DumpSystem.left_setPump hl hpc ring pc'
      have hpays := (PumpStep.of_next hnext (Step.of_step hring)).pays hk.pop hk.slots
      simp only [DumpSystem.works, DumpAction.beginsPush, Bool.toNat_false]
      omega
  | @fillOverflow who pid tvSec tvUsec messagesLost hpc =>
      have hleft : PumpPc.overflowed.left s.ring.consumer <
          (PumpPc.overflowing messagesLost).left s.ring.consumer := by simp [PumpPc.left]
      refine DumpSystem.left_setPump_lt hl hpc ?_ hleft
      rfl
  | @processOverflow who hpc =>
      have hidle : s.ring.consumer = .idle := hp.fits who _ hpc
      have hleft : PumpPc.popping.left s.ring.consumer <
          PumpPc.overflowed.left s.ring.consumer := by
        simp [hidle, PumpPc.left, ConsumerPc.left]
      exact DumpSystem.left_setPump_lt hl hpc rfl hleft
  | @process who hpc =>
      have hleft : (PumpPc.returned true).left s.ring.consumer <
          PumpPc.processing.left s.ring.consumer := by simp [PumpPc.left]
      exact DumpSystem.left_setPump_lt hl hpc rfl hleft
  | threadPump hpc hshutdown =>
      have hset : s.shutdown = true := he (by simp [hpc])
      rw [hset] at hshutdown
      cases hshutdown
  | @threadNext result hpc =>
      simp only [DumpSystem.left, hpc, ThreadPc.left, PumpPc.left_returned, DumpSystem.works,
        Bool.toNat_true]
      split <;> omega
  | threadExit hpc hshutdown =>
      simp only [DumpSystem.left, hpc, ThreadPc.left, DumpSystem.works, Bool.toNat_true]
      omega
  | join hpc hexited =>
      simp only [DumpSystem.left, hpc, hexited, ThreadPc.left, CallerPc.left, DumpSystem.works,
        Bool.toNat_true]
      omega
  | drain hpc | leave hpc | drainOn hpc | drained hpc | drainedOpen hpc | closeSink hpc =>
      simp only [DumpSystem.left, hpc, CallerPc.left, PumpPc.left_returned, if_true,
        Bool.false_eq_true, if_false, DumpSystem.works, Bool.toNat_true]
      omega
  | stopReturn hpc =>
      cases hd : s.destroying <;> simp [DumpSystem.left, hpc, CallerPc.left, DumpSystem.works]
  | startRunning | start | stopRunning | stopIdle => cases ha

/-- The steps left are bounded by the sizes. -/
lemma DumpSystem.left_le (s : DumpSystem capacity Pid) :
    s.left ≤ 14 * capacity + 19 * Fintype.card Pid + 30 := by
  have hoccupied : s.ring.buffer.occupied ≤ capacity := by
    have hle := Finset.card_filter_le (Finset.range capacity) (s.ring.buffer.hasData · = true)
    rwa [Finset.card_range] at hle
  have hproducers : ∑ p, (s.ring.producers p).left ≤ 19 * Fintype.card Pid := by
    have hle : ∀ p ∈ Finset.univ, (s.ring.producers p).left ≤ 19 := by
      intro p _
      cases s.ring.producers p <;> simp [ProducerPc.left]
    simpa [Nat.mul_comm] using Finset.sum_le_card_nsmul Finset.univ _ 19 hle
  have hthread : s.thread.left s.ring.consumer ≤ 15 := by
    cases s.thread with
    | pumping pc => exact pc.left_le _
    | absent | exited | testing => simp [ThreadPc.left]
  have hcaller : s.caller.left s.ring.consumer ≤ 15 := by
    cases s.caller with
    | draining pc => exact pc.left_le _
    | idle | joining | joined | closing | returning | destroyed => simp [CallerPc.left]
  simp only [left, RingSystem.load]
  omega

end Left

/-! ## Somebody has a step to take -/

section Progress

variable [DecidableEq Pid] {s : DumpSystem capacity Pid}

/-- A party has a step of work to take that is neither a call nor a new push. -/
def DumpSystem.CanWork (kind : DumpKind) (s : DumpSystem capacity Pid) : Prop :=
  ∃ a, a.isCall = false ∧ a.beginsPush = false ∧ s.works a = true ∧
    (s.step kind a).isSome = true

lemma DumpSystem.canWork_produce {b : Action Pid} (hb : b.byProducer = true)
    (hpush : b.beginsPush = false) (hworks : s.ring.works b = true)
    (hstep : (s.ring.step b).isSome = true) : s.CanWork kind := by
  refine ⟨.produce b, rfl, hpush, hworks, ?_⟩
  simpa [DumpSystem.step, hb] using hstep

lemma DumpSystem.canWork_consume {who : Runner} {pc pc' : PumpPc} {b : Action Pid}
    (hpc : s.pump who = some pc) (hnext : pc.next s.ring b = some pc')
    (hworks : s.ring.works b = true) (hstep : (s.ring.step b).isSome = true) :
    s.CanWork kind := by
  obtain ⟨ring, hring⟩ := Option.isSome_iff_exists.mp hstep
  exact ⟨.consume who b, rfl, rfl, hworks, by simp [DumpSystem.step, hpc, hnext, hring]⟩

/-- A producer that holds a slot goes on. -/
lemma canWork_of_held {p : Pid} {i : ℕ} (hheld : (s.ring.producers p).held = some i) :
    s.CanWork kind := by
  cases hpc : s.ring.producers p with
  | idle | masking | locking => rw [hpc] at hheld; cases hheld
  | waited j =>
      have hstep : (s.ring.step (.producerWait p)).isSome = true := by
        simp [RingSystem.step, hpc]
      exact DumpSystem.canWork_produce rfl rfl rfl hstep
  | marking j =>
      have hstep : (s.ring.step (.markData p)).isSome = true := by simp [RingSystem.step, hpc]
      exact DumpSystem.canWork_produce rfl rfl rfl hstep
  | overflowing j =>
      have hstep : (s.ring.step (.overflowInc p)).isSome = true := by simp [RingSystem.step, hpc]
      exact DumpSystem.canWork_produce rfl rfl rfl hstep
  | overflowed j =>
      have hstep : (s.ring.step (.resettableInc p)).isSome = true := by
        simp [RingSystem.step, hpc]
      exact DumpSystem.canWork_produce rfl rfl rfl hstep
  | writing j =>
      have hstep : (s.ring.step (.commitPush p)).isSome = true := by simp [RingSystem.step, hpc]
      exact DumpSystem.canWork_produce rfl rfl rfl hstep

/-- A consumer in `pop` goes on, or the holder of the slot it waits for does. -/
lemma canWork_of_popping (hk : RingKept s.ring) {who : Runner}
    (hpc : s.pump who = some .popping) (hfits : ∀ r, s.ring.consumer ≠ .resetting r) :
    s.CanWork kind := by
  cases hcpc : s.ring.consumer with
  | resetting r => exact absurd hcpc (hfits r)
  | idle =>
      have hstep : (s.ring.step .popTest).isSome = true := by simp [RingSystem.step, hcpc]
      exact DumpSystem.canWork_consume hpc rfl rfl hstep
  | locking i collision =>
      cases hbusy : s.ring.buffer.busy i with
      | false =>
          have hworks : s.ring.works .consumerLock = true := by
            simp [RingSystem.works, hcpc, hbusy]
          have hstep : (s.ring.step .consumerLock).isSome = true := by
            simp [RingSystem.step, hcpc, hbusy, testAndSet]
          exact DumpSystem.canWork_consume hpc rfl hworks hstep
      | true =>
          -- the slot is held, and not by the consumer
          obtain ⟨party, hheld⟩ := (hk.locks.busy_iff i).mp hbusy
          cases party with
          | none => simp [RingSystem.held, hcpc, ConsumerPc.held] at hheld
          | some p => exact canWork_of_held hheld
  | waited i =>
      have hstep : (s.ring.step .consumerWait).isSome = true := by simp [RingSystem.step, hcpc]
      exact DumpSystem.canWork_consume hpc rfl rfl hstep
  | retesting i =>
      have hstep : (s.ring.step .popRetest).isSome = true := by simp [RingSystem.step, hcpc]
      exact DumpSystem.canWork_consume hpc rfl rfl hstep
  | copying i =>
      have hstep : (s.ring.step .popCopy).isSome = true := by simp [RingSystem.step, hcpc]
      exact DumpSystem.canWork_consume hpc rfl rfl hstep
  | recycling i =>
      have hstep : (s.ring.step .popRecycle).isSome = true := by simp [RingSystem.step, hcpc]
      exact DumpSystem.canWork_consume hpc rfl rfl hstep
  | clearing i =>
      have hstep : (s.ring.step .popClear).isSome = true := by simp [RingSystem.step, hcpc]
      exact DumpSystem.canWork_consume hpc rfl rfl hstep
  | unlocking i result =>
      have hnext : PumpPc.popping.next s.ring .popUnlock =
          some (if result then .processing else .returned false) := by
        simp [PumpPc.next, hcpc]
      have hstep : (s.ring.step .popUnlock).isSome = true := by simp [RingSystem.step, hcpc]
      exact DumpSystem.canWork_consume hpc hnext rfl hstep

/-- A run of `pop_and_process` that has not returned goes on, or a producer does. -/
lemma canWork_of_pump (hk : RingKept s.ring) (hp : Pumping s) {who : Runner} {pc : PumpPc}
    (hpc : s.pump who = some pc) (hreturned : ∀ result, pc ≠ .returned result) :
    s.CanWork kind := by
  cases pc with
  | returned result => exact absurd rfl (hreturned result)
  | resetting =>
      rcases hp.fits who _ hpc with hidle | ⟨r, hr⟩
      · have hstep : (s.ring.step .resetLoad).isSome = true := by simp [RingSystem.step, hidle]
        exact DumpSystem.canWork_consume hpc rfl rfl hstep
      · have hnext : PumpPc.resetting.next s.ring .resetStore =
            some (if 0 < r then .overflowing r else .popping) := by simp [PumpPc.next, hr]
        have hstep : (s.ring.step .resetStore).isSome = true := by simp [RingSystem.step, hr]
        exact DumpSystem.canWork_consume hpc hnext rfl hstep
  | overflowing messagesLost =>
      exact ⟨.fillOverflow who 0 0 0, rfl, rfl, rfl, by simp [DumpSystem.step, hpc]⟩
  | overflowed | processing =>
      exact ⟨.process who, rfl, rfl, rfl, by simp [DumpSystem.step, hpc]⟩
  | popping => exact canWork_of_popping hk hpc (hp.fits who _ hpc)

/-- **`stop` is never stuck.** -/
lemma canWork_of_inStop (hk : RingKept s.ring) (hl : Lifecycle s) (hp : Pumping s)
    (hstop : s.caller.inStop = true) : s.CanWork kind := by
  cases hcaller : s.caller with
  | idle | destroyed => rw [hcaller] at hstop; cases hstop
  | joining =>
      cases hthread : s.thread with
      | absent => exact absurd hthread (hl.running.mp (hl.joining hcaller).2)
      | testing => exact ⟨.threadTest, rfl, rfl, rfl, by simp [DumpSystem.step, hthread]⟩
      | exited => exact ⟨.join, rfl, rfl, rfl, by simp [DumpSystem.step, hcaller, hthread]⟩
      | pumping pc =>
          have hpc : s.pump .thread = some pc := by simp [DumpSystem.pump, hthread]
          by_cases hreturned : ∃ result, pc = .returned result
          · obtain ⟨result, rfl⟩ := hreturned
            exact ⟨.threadNext, rfl, rfl, rfl, by simp [DumpSystem.step, hthread]⟩
          · exact canWork_of_pump hk hp hpc fun result heq => hreturned ⟨result, heq⟩
  | joined => exact ⟨.testSink, rfl, rfl, rfl, by simp [DumpSystem.step, hcaller]⟩
  | draining pc =>
      have hpc : s.pump .caller = some pc := by simp [DumpSystem.pump, hcaller]
      by_cases hreturned : ∃ result, pc = .returned result
      · obtain ⟨result, rfl⟩ := hreturned
        refine ⟨.drainNext, rfl, rfl, rfl, ?_⟩
        cases result <;> simp [DumpSystem.step, hcaller]
      · exact canWork_of_pump hk hp hpc fun result heq => hreturned ⟨result, heq⟩
  | closing => exact ⟨.closeSink, rfl, rfl, rfl, by simp [DumpSystem.step, hcaller]⟩
  | returning => exact ⟨.stopReturn, rfl, rfl, rfl, by simp [DumpSystem.step, hcaller]⟩

end Progress

/-! ## The outcome -/

section Outcome

variable [DecidableEq Pid] [Fintype Pid] {s s' : DumpSystem capacity Pid}

variable (kind capacity traceMessageCapacity Pid) in
/-- Once the threads have been told to end, the measure pays for the work of every step that is
not a call. -/
lemma stop_pays (hc : 0 < capacity) :
    Machine.Pays (traceDump kind capacity traceMessageCapacity Pid)
      (fun s => (traceDump kind capacity traceMessageCapacity Pid).Reachable s ∧ s.Ending)
      (fun a => a.isCall = false) DumpSystem.left DumpSystem.works DumpAction.beginsPush 19 where
  keeps _ a _ ha hI hstep := ⟨hI.1.step a hstep, (DumpStep.of_step hstep).ending ha hI.2⟩
  pays _ _ _ ha hI hstep :=
    (DumpStep.of_step hstep).pays ha (lifecycle_of_reachable hI.1) (pumping_of_reachable hI.1)
      (ringKept_of_reachable hc hI.1) hI.2

/-- **`stop` returns.**  Along any run from a state in which `stop` is under way, until it has
returned and on to the next call, the parties do no more work than the size of the ring buffer,
the number of producers and the pushes begun meanwhile allow.  While `stop` has not returned some
party has a step of work to take, other than a new push; and the steps of work can be chosen so
that it does return. -/
theorem stop_returns (hc : 0 < capacity)
    (hs : (traceDump kind capacity traceMessageCapacity Pid).Reachable s)
    (hstop : s.caller.inStop = true) {acts : List (DumpAction Pid)}
    (hacts : ∀ a ∈ acts, a.isCall = false)
    (hrun : (traceDump kind capacity traceMessageCapacity Pid).exec s acts = some s') :
    (traceDump kind capacity traceMessageCapacity Pid).workIn DumpSystem.works s acts ≤
        14 * capacity + 19 * (Fintype.card Pid + acts.countP DumpAction.beginsPush) + 30 ∧
      (s'.caller.inStop = true → s'.CanWork kind) ∧
      ∃ rest t, (∀ a ∈ rest, a.isCall = false ∧ a.beginsPush = false) ∧
        (traceDump kind capacity traceMessageCapacity Pid).exec s' rest = some t ∧
        t.caller.inStop = false ∧ rest.length ≤ 14 * capacity + 19 * Fintype.card Pid + 30 := by
  have hpays := stop_pays kind capacity traceMessageCapacity Pid hc
  have hending := (lifecycle_of_reachable hs).ending hstop
  have hcan : ∀ s, (traceDump kind capacity traceMessageCapacity Pid).Reachable s →
      s.caller.inStop = true → s.CanWork kind := fun s hs =>
    canWork_of_inStop (ringKept_of_reachable hc hs) (lifecycle_of_reachable hs)
      (pumping_of_reachable hs)
  have hs' := hs.exec hrun
  have hending' : s'.Ending :=
    (Machine.exec_invariant hpays.keeps hacts ⟨hs, hending⟩ hrun).2
  have hprogress : ∀ s, (traceDump kind capacity traceMessageCapacity Pid).Reachable s ∧
      s.Ending → ¬ s.caller.inStop = false →
        ∃ a s', a.isCall = false ∧ a.beginsPush = false ∧ s.works a = true ∧
          (traceDump kind capacity traceMessageCapacity Pid).step s a = some s' := by
    rintro s ⟨hs, -⟩ hgoal
    obtain ⟨a, ha, hpush, hworks, hstep⟩ := hcan s hs (by simpa using hgoal)
    obtain ⟨t, ht⟩ := Option.isSome_iff_exists.mp hstep
    exact ⟨a, t, ha, hpush, hworks, ht⟩
  refine ⟨?_, hcan s' hs', ?_⟩
  · have hwork := Machine.work_le_of_measure hpays hacts ⟨hs, hending⟩ hrun
    have hbound := s.left_le
    omega
  · obtain ⟨rest, t, hrest, hrun', hdone, hlength⟩ :=
      Machine.exists_exec_of_progress hpays hprogress ⟨hs', hending'⟩
    exact ⟨rest, t, hrest, hrun', hdone, hlength.trans s'.left_le⟩

/-- `stop` is called while the thread is about to lock a slot that a producer has reserved. -/
def stopInPop : List (DumpAction Bool) :=
  [.callStart, .threadTest, .consume .thread .resetLoad, .consume .thread .resetStore,
    .produce (.headInc true), .produce (.producerLock true), .produce (.markData true),
    .consume .thread .popTest, .callStop false]

/-- The thread spins until the push is committed; another push begins. -/
def lockAfterCommit : List (DumpAction Bool) :=
  [.consume .thread .consumerLock, .consume .thread .consumerLock, .produce (.headInc false),
    .produce (.commitPush true), .consume .thread .consumerLock]

theorem stop_returns_lockAfterCommit :
    ∃ s s', (traceDump .traceDump 2 4 Bool).exec
        (.construct 4 (fun _ _ => 7) (fun _ => 7) fun _ => 7) stopInPop = some s ∧
      (traceDump .traceDump 2 4 Bool).exec s lockAfterCommit = some s' ∧
      (traceDump .traceDump 2 4 Bool).workIn DumpSystem.works s lockAfterCommit ≤
        14 * 2 + 19 * (Fintype.card Bool + lockAfterCommit.countP DumpAction.beginsPush) + 30 ∧
      (s'.caller.inStop = true → s'.CanWork .traceDump) ∧
      ∃ rest t, (∀ a ∈ rest, a.isCall = false ∧ a.beginsPush = false) ∧
        (traceDump .traceDump 2 4 Bool).exec s' rest = some t ∧ t.caller.inStop = false ∧
        rest.length ≤ 14 * 2 + 19 * Fintype.card Bool + 30 := by
  have h : ((traceDump .traceDump 2 4 Bool).exec
      (.construct 4 (fun _ _ => 7) (fun _ => 7) fun _ => 7) stopInPop).any (fun s =>
        s.caller.inStop && ((traceDump .traceDump 2 4 Bool).exec s lockAfterCommit).isSome) =
      true := by decide +kernel
  obtain ⟨s, hs, hs'⟩ := (Option.any_eq_true _ _).mp h
  obtain ⟨hstop, hsome⟩ := (Bool.and_eq_true _ _).mp hs'
  obtain ⟨s', hrun⟩ := Option.isSome_iff_exists.mp hsome
  exact ⟨s, s', hs, hrun, stop_returns (by decide)
    (Machine.reachable_of_exec ⟨_, _, _, rfl⟩ hs) hstop (by decide) hrun⟩

end Outcome

end InfiTracing
