import InfiTracing.Framework.LockTable
import InfiTracing.RingBuffer.Steps

/-!
# Who holds which slot

The `busy` flags are spinlocks, held by a producer from its acquisition in `reserve_push` to
its `commit_push` and by the consumer from `lock_element` to `unlock_element` in `pop`.  A
party is a producer or the consumer (`none`), and `RingSystem.held` reads the slot it holds
off its program counter.

`lockTable_of_reachable` is mutual exclusion with the truth of the flags, for every
interleaving on a buffer of any capacity: each step acquires one lock, releases one, or
leaves flags and holders alone.

`popCommitted_of_reachable` is the who-may-clear argument for `has_data`: only the consumer
clears a flag, and only on its way out of a successful pop, so what its first test has seen
its second test sees again.
-/

namespace InfiTracing

open Framework

variable {capacity traceMessageCapacity : ℕ} {Pid : Type}

/-- The slot a party holds; `none` is the consumer. -/
def RingSystem.held (s : RingSystem capacity Pid) : Option Pid → Option ℕ
  | none => s.consumer.held
  | some p => (s.producers p).held

/-- The slot in which a pop under way relies on finding data: the one its first test found
set, until it clears the flag itself. -/
def ConsumerPc.reliesOn : ConsumerPc → Option ℕ
  | .idle | .unlocking _ _ | .resetting _ => none
  | .locking i _ | .waited i | .retesting i | .copying i | .recycling i | .clearing i => some i

namespace RingSystem

variable [DecidableEq Pid] {s : RingSystem capacity Pid} {p : Pid} {pc : ProducerPc}
  {cpc : ConsumerPc} {b : TraceMessageRingBuffer capacity}

lemma held_produce (s : RingSystem capacity Pid) (p : Pid) (pc : ProducerPc)
    (b : TraceMessageRingBuffer capacity) :
    (s.produce p pc b).held = Function.update s.held (some p) pc.held := by
  funext party
  cases party with
  | none => simp [held]
  | some q =>
      by_cases hq : q = p
      · subst hq; simp [held]
      · simp [held, hq]

lemma held_consume (s : RingSystem capacity Pid) (cpc : ConsumerPc)
    (b : TraceMessageRingBuffer capacity) :
    (s.consume cpc b).held = Function.update s.held none cpc.held := by
  funext party
  cases party <;> simp [held]

/-- A producer's step that keeps its lock changes no holder. -/
lemma held_produce_of_eq (h : pc.held = (s.producers p).held) :
    (s.produce p pc b).held = s.held := by
  rw [held_produce, h]
  exact Function.update_eq_self _ _

/-- A consumer's step that keeps its lock changes no holder. -/
lemma held_consume_of_eq (h : cpc.held = s.consumer.held) :
    (s.consume cpc b).held = s.held := by
  rw [held_consume, h]
  exact Function.update_eq_self _ _

@[simp] lemma held_producerAcquired (i : ℕ) (collision : Bool) :
    (producerAcquired i collision).held = some i := by
  cases collision <;> rfl

@[simp] lemma held_consumerAcquired (i : ℕ) (collision : Bool) :
    (consumerAcquired i collision).held = some i := by
  cases collision <;> rfl

@[simp] lemma reliesOn_consumerAcquired (i : ℕ) (collision : Bool) :
    (consumerAcquired i collision).reliesOn = some i := by
  cases collision <;> rfl

end RingSystem

/-! ## Mutual exclusion -/

section Exclusion

variable [DecidableEq Pid] {s s' : RingSystem capacity Pid} {a : Action Pid}

open RingSystem

/-- Every step keeps the lock table. -/
lemma Step.lockTable (hstep : Step s a s') (h : LockTable s.held s.buffer.busy) :
    LockTable s'.held s'.buffer.busy := by
  cases hstep with
  | producerLock hpc hbusy =>
      rw [held_produce, held_producerAcquired]
      exact h.acquire (by simp [held, hpc, ProducerPc.held]) hbusy
  | consumerLock hpc hbusy =>
      rw [held_consume, held_consumerAcquired]
      exact h.acquire (by simp [held, hpc, ConsumerPc.held]) hbusy
  | commitPush hpc =>
      rw [held_produce]
      exact h.release (by simp [held, hpc, ProducerPc.held])
  | popUnlock hpc =>
      rw [held_consume]
      exact h.release (by simp [held, hpc, ConsumerPc.held])
  | headInc hpc | headIncOver hpc | headMask hpc | producerSpin hpc | producerWait hpc
  | markData hpc | markOverrun hpc | overflowInc hpc | resettableInc hpc | edit hpc =>
      rw [held_produce_of_eq (by simp [hpc, ProducerPc.held])]
      exact h
  | popFound hpc | popNothing hpc | consumerSpin hpc | consumerWait hpc | popRetest hpc
  | popGone hpc | popRecycle hpc | popClear hpc | resetLoad hpc | resetStore hpc =>
      rw [held_consume_of_eq (by simp [hpc, ConsumerPc.held])]
      exact h
  | @popCopy i hpc =>
      -- copying moves the message too, which no lock depends on
      have hheld : (s.consume (.recycling i) s.buffer).held = s.held :=
        held_consume_of_eq (by simp [hpc, ConsumerPc.held])
      exact hheld ▸ h

/-- **Mutual exclusion** in every interleaving: at most one party holds a slot, and `busy[i]`
is set exactly while some party holds slot `i`. -/
theorem lockTable_of_reachable (hs : (ring capacity traceMessageCapacity Pid).Reachable s) :
    LockTable s.held s.buffer.busy := by
  refine hs.invariant (I := fun s => LockTable s.held s.buffer.busy) ?_ ?_
  · rintro s ⟨elementMemory, message, memory, rfl⟩
    refine LockTable.unheld ?_ (fun _ => rfl)
    rintro (_ | p) <;> rfl
  · intro s a s' _ h hstep
    exact (Step.of_step hstep).lockTable h

end Exclusion

/-! ## What a pop's first test has seen -/

section PopCommitted

variable [DecidableEq Pid] {s s' : RingSystem capacity Pid} {a : Action Pid}

/-- A pop that passed its first test still has its data, and is not about to fail. -/
structure PopCommitted (s : RingSystem capacity Pid) : Prop where
  hasData : ∀ i, s.consumer.reliesOn = some i → s.buffer.hasData i = true
  succeeds : ∀ i result, s.consumer = .unlocking i result → result = true

/-- Every step keeps a pop's data in place. -/
lemma Step.popCommitted (hstep : Step s a s') (h : PopCommitted s) : PopCommitted s' := by
  obtain ⟨hdata, hsucc⟩ := h
  cases hstep with
  | markData hpc hclear =>
      refine ⟨fun i hi => ?_, hsucc⟩
      rw [RingSystem.produce_buffer]
      simp only [Function.update_apply]
      split
      · rfl
      · exact hdata i hi
  | headInc | headIncOver | headMask | producerLock | producerSpin | producerWait
  | markOverrun | overflowInc | resettableInc | edit | commitPush =>
      exact ⟨hdata, hsucc⟩
  | popFound hpc hset =>
      refine ⟨fun i hi => ?_, by simp⟩
      obtain rfl : s.buffer.tail = i := by simpa [ConsumerPc.reliesOn] using hi
      exact hset
  | consumerLock hpc hbusy =>
      refine ⟨fun i hi => hdata i ?_, fun i result hi => ?_⟩
      · rw [RingSystem.consume_consumer, RingSystem.reliesOn_consumerAcquired] at hi
        rw [hpc]
        exact hi
      · rw [RingSystem.consume_consumer, RingSystem.consumerAcquired] at hi
        split at hi <;> cases hi
  | consumerSpin hpc | consumerWait hpc | popRetest hpc | popCopy hpc | popRecycle hpc =>
      exact ⟨fun i hi => hdata i (by simpa [hpc, ConsumerPc.reliesOn] using hi), by simp⟩
  | popGone hpc hclear =>
      -- the second test cannot fail: the flag the first test found set is still set
      have hset := hdata _ (by rw [hpc]; rfl)
      simp [hset] at hclear
  | popClear hpc =>
      exact ⟨by simp [ConsumerPc.reliesOn], by simp⟩
  | popNothing hpc | popUnlock hpc | resetLoad hpc | resetStore hpc =>
      exact ⟨by simp [ConsumerPc.reliesOn], by simp⟩

theorem popCommitted_of_reachable
    (hs : (ring capacity traceMessageCapacity Pid).Reachable s) : PopCommitted s := by
  refine hs.invariant ?_ ?_
  · rintro s ⟨elementMemory, message, memory, rfl⟩
    exact ⟨by simp [RingSystem.start, ConsumerPc.reliesOn], by simp [RingSystem.start]⟩
  · intro s a s' _ h hstep
    exact (Step.of_step hstep).popCommitted h

/-- A pop that passed its first test passes its second. -/
lemma PopCommitted.copies (h : PopCommitted s) {s' : RingSystem capacity Pid}
    (hstep : s.step .popRetest = some s') :
    ∃ i, s.consumer = .retesting i ∧ s'.consumer = .copying i := by
  cases Step.of_step hstep with
  | popRetest hpc _ => exact ⟨_, hpc, rfl⟩
  | popGone hpc hclear =>
      have hset := h.hasData _ (by rw [hpc]; rfl)
      simp [hset] at hclear

/-- **Slots are exclusive and pops that wait deliver.**  In every interleaving at most one
party holds a slot and its `busy` flag says whether one does, so no slot is copied while it
is written; and a pop past its first test of `has_data` passes the second and returns
`true`. -/
theorem ring_exclusive_and_committed
    (hs : (ring capacity traceMessageCapacity Pid).Reachable s) :
    (∀ a b i, s.held a = some i → s.held b = some i → a = b) ∧
    (∀ i, s.buffer.busy i = true ↔ ∃ a, s.held a = some i) ∧
    (∀ i p, s.consumer = .copying i → s.producers p ≠ .writing i) ∧
    (∀ s', s.step .popRetest = some s' →
      ∃ i, s.consumer = .retesting i ∧ s'.consumer = .copying i) ∧
    (∀ i result, s.consumer = .unlocking i result → result = true) := by
  have hlocks := lockTable_of_reachable hs
  have hpop := popCommitted_of_reachable hs
  refine ⟨hlocks.exclusive, hlocks.busy_iff, ?_, fun s' => hpop.copies, hpop.succeeds⟩
  intro i p hcopy hwrite
  have := hlocks.exclusive none (some p) i (by simp [RingSystem.held, hcopy, ConsumerPc.held])
    (by simp [RingSystem.held, hwrite, ProducerPc.held])
  cases this

/-- A consumer past its first test, waiting for the producer that reserved the slot. -/
theorem ring_exclusive_and_committed_spinning :
    ∃ s, (ring 2 4 Bool).exec (.start 4 (fun _ _ => 7) .empty fun _ => 7)
      [.headInc true, .producerLock true, .markData true, .popTest, .consumerLock,
        .commitPush true, .consumerLock, .consumerWait] = some s ∧
      (∀ a b i, s.held a = some i → s.held b = some i → a = b) ∧
      (∀ i, s.buffer.busy i = true ↔ ∃ a, s.held a = some i) ∧
      (∀ i p, s.consumer = .copying i → s.producers p ≠ .writing i) ∧
      (∀ s', s.step .popRetest = some s' →
        ∃ i, s.consumer = .retesting i ∧ s'.consumer = .copying i) ∧
      (∀ i result, s.consumer = .unlocking i result → result = true) := by
  obtain ⟨s, hs⟩ := Option.isSome_iff_exists.mp (show ((ring 2 4 Bool).exec
    (.start 4 (fun _ _ => 7) .empty fun _ => 7) [.headInc true, .producerLock true,
      .markData true, .popTest, .consumerLock, .commitPush true, .consumerLock,
      .consumerWait]).isSome by decide)
  exact ⟨s, hs, ring_exclusive_and_committed
    (Machine.reachable_of_exec (M := ring 2 4 Bool) ⟨_, _, _, rfl⟩ hs)⟩

end PopCommitted

end InfiTracing
