import InfiTracing.RingBuffer.Slots

/-!
# Counting the overruns

Two balances over the counters of the buffer.

`reservations_balance`: every reservation that passed its test-and-set is a slot with data, a
message the consumer took, a counted overrun, or an overrun its producer is about to count.
No step breaks this, so no message is lost uncounted and none is counted twice.

The `resettable_overflow_counter` is reset by a load and a separate store.  An increment
that falls between the two is overwritten: it is neither in the value returned nor in what
is left.  `reports_balance` says that this is the only leak, and `reports_balance_iff` that
the reports add up exactly in the runs without such an increment.
-/

namespace InfiTracing

open Framework

variable {capacity traceMessageCapacity : ℕ} {Pid : Type} [DecidableEq Pid]

/-- The producer found `has_data` set and has not incremented `overflow_counter` yet. -/
def ProducerPc.owesOverflow : ProducerPc → Bool
  | .overflowing _ => true
  | _ => false

/-- The producer has incremented `overflow_counter` and not `resettable_overflow_counter`. -/
def ProducerPc.owesResettable : ProducerPc → Bool
  | .overflowed _ => true
  | _ => false

@[simp] lemma RingSystem.owesOverflow_producerAcquired (i : ℕ) (collision : Bool) :
    (RingSystem.producerAcquired i collision).owesOverflow = false := by
  cases collision <;> rfl

@[simp] lemma RingSystem.owesResettable_producerAcquired (i : ℕ) (collision : Bool) :
    (RingSystem.producerAcquired i collision).owesResettable = false := by
  cases collision <;> rfl

/-! ## The balance of the reservations -/

section Reservations

variable [Fintype Pid] {s s' : RingSystem capacity Pid} {h : History Pid} {a : Action Pid}

/-- Reservations that have passed the test-and-set of `has_data`, in all slots. -/
def History.reservations (capacity : ℕ) (h : History Pid) : ℕ :=
  ∑ i ∈ Finset.range capacity, h.passed i

/-- Slots whose `has_data` is set. -/
def TraceMessageRingBuffer.occupied (b : TraceMessageRingBuffer capacity) : ℕ :=
  tally (Finset.range capacity) (· = true) b.hasData

/-- Every reservation is accounted for once. -/
def ReservationsBalance (s : RingSystem capacity Pid) (h : History Pid) : Prop :=
  h.reservations capacity = s.buffer.occupied + h.cleared + s.buffer.overflowCounter +
    s.countProducers ProducerPc.owesOverflow

omit [Fintype Pid] in
/-- Passing the test-and-set is one more reservation. -/
lemma History.reservations_markData {p : Pid} {i : ℕ} (hpc : s.producers p = .marking i)
    (hi : i < capacity) :
    (h.record s (.markData p)).reservations capacity = h.reservations capacity + 1 := by
  have hslot : (s.producers p).slot = i := by rw [hpc]; rfl
  simpa [record, hslot, reservations] using sum_update_add _ (Finset.mem_range.mpr hi) h.passed 1

lemma Step.reservationsBalance (hstep : Step s a s') (hbounds : SlotBounds s)
    (hpop : PopCommitted s) (hbal : ReservationsBalance s h) :
    ReservationsBalance s' (h.record s a) := by
  unfold ReservationsBalance at *
  cases hstep with
  | @markData p i hpc hclear =>
      -- one more reservation, one more slot with data
      have hi := hbounds.producer p i (by rw [hpc]; rfl)
      have hdata := tally_update _ (· = true) (f := s.buffer.hasData)
        (Finset.mem_range.mpr hi) true
      rw [History.reservations_markData hpc hi,
        RingSystem.countProducers_produce_of_eq (by rw [hpc]; rfl)]
      simp only [hclear, Bool.false_eq_true, if_false, if_true] at hdata
      simp only [TraceMessageRingBuffer.occupied, RingSystem.produce_buffer, History.record] at *
      omega
  | @markOverrun p i hpc hset =>
      -- one more reservation, one more overrun to count
      have hi := hbounds.producer p i (by rw [hpc]; rfl)
      have howed := s.countProducers_produce ProducerPc.owesOverflow p (.overflowing i) s.buffer
      rw [History.reservations_markData hpc hi]
      simp only [hpc, ProducerPc.owesOverflow, Bool.toNat_true, Bool.toNat_false] at howed
      simp only [RingSystem.produce_buffer, History.record]
      omega
  | @overflowInc p i hpc =>
      have howed := s.countProducers_produce ProducerPc.owesOverflow p (.overflowed i)
        { s.buffer with overflowCounter := s.buffer.overflowCounter + 1 }
      simp only [hpc, ProducerPc.owesOverflow, Bool.toNat_true, Bool.toNat_false] at howed
      simp only [RingSystem.produce_buffer, TraceMessageRingBuffer.occupied,
        History.record] at *
      omega
  | @popClear i hpc =>
      -- one more message taken, one slot with data fewer
      have hi := hbounds.consumer i (by rw [hpc]; rfl)
      have hset : s.buffer.hasData i = true := hpop.hasData i (by rw [hpc]; rfl)
      have hdata := tally_update _ (· = true) (f := s.buffer.hasData)
        (Finset.mem_range.mpr hi) false
      have hsame : (h.record s .popClear).reservations capacity = h.reservations capacity := rfl
      have howed : (s.consume (.unlocking i true) { s.buffer with
          hasData := Function.update s.buffer.hasData i false }).countProducers
            ProducerPc.owesOverflow = s.countProducers ProducerPc.owesOverflow := rfl
      simp only [hset, Bool.false_eq_true, if_false, if_true] at hdata
      rw [hsame, howed]
      simp only [TraceMessageRingBuffer.occupied, RingSystem.consume_buffer, History.record] at *
      omega
  | producerLock hpc hbusy =>
      rw [RingSystem.countProducers_produce_of_eq
        (by rw [hpc, RingSystem.owesOverflow_producerAcquired]; rfl)]
      exact hbal
  | headInc hpc | headIncOver hpc | headMask hpc | producerSpin hpc | producerWait hpc
  | resettableInc hpc | edit hpc | commitPush hpc =>
      rw [RingSystem.countProducers_produce_of_eq (by simp [hpc, ProducerPc.owesOverflow])]
      exact hbal
  | popFound | popNothing | consumerLock | consumerSpin | consumerWait | popRetest | popGone
  | popCopy | popRecycle | popUnlock | resetLoad | resetStore => exact hbal

/-- **No reservation is lost uncounted and none is counted twice**, in every reachable state
of every interleaving. -/
theorem reservations_balance (hc : 0 < capacity) {x : RingSystem capacity Pid × History Pid}
    (hx : (tracedRing capacity traceMessageCapacity Pid).Reachable x) :
    x.2.reservations capacity = x.1.buffer.occupied + x.2.cleared +
      x.1.buffer.overflowCounter + x.1.countProducers ProducerPc.owesOverflow := by
  refine tracedRing_invariant (I := ReservationsBalance) hx ?_ ?_
  · intro elementMemory message memory
    have hdata : tally (Finset.range capacity) (· = true) (fun _ => false) = 0 :=
      (tally_eq_zero _ _).mpr (by simp)
    rw [ReservationsBalance, RingSystem.countProducers_start _ rfl]
    simp [History.reservations, RingSystem.start, TraceMessageRingBuffer.construct,
      TraceMessageRingBuffer.occupied, hdata]
  · intro s h a s' hreach hbal hstep
    exact hstep.reservationsBalance (slotBounds_of_reachable hc hreach.fst)
      (popCommitted_of_reachable hreach.fst) hbal

/-- A producer that found an overrun and has not counted it yet. -/
theorem reservations_balance_overrun :
    ∃ x, (tracedRing 2 4 Bool).exec (.start 4 (fun _ _ => 7) .empty fun _ => 7, {})
      [.headInc true, .producerLock true, .markData true, .commitPush true,
        .headInc true, .producerLock true, .markData true, .commitPush true,
        .headInc true, .headMask true, .producerLock true, .markData true] = some x ∧
      x.2.reservations 2 = x.1.buffer.occupied + x.2.cleared +
        x.1.buffer.overflowCounter + x.1.countProducers ProducerPc.owesOverflow := by
  obtain ⟨x, hx⟩ := Option.isSome_iff_exists.mp (show ((tracedRing 2 4 Bool).exec
    (.start 4 (fun _ _ => 7) .empty fun _ => 7, {})
    [.headInc true, .producerLock true, .markData true, .commitPush true,
      .headInc true, .producerLock true, .markData true, .commitPush true,
      .headInc true, .headMask true, .producerLock true, .markData true]).isSome by decide)
  exact ⟨x, hx, reservations_balance (by decide)
    (Machine.reachable_of_exec (M := tracedRing 2 4 Bool) ⟨⟨_, _, _, rfl⟩, rfl⟩ hx)⟩

end Reservations

/-! ## The balance of the reports -/

/-- `get_and_reset_overflow_counter` has loaded the counter and not stored 0 yet. -/
def ConsumerPc.isResetting : ConsumerPc → Bool
  | .resetting _ => true
  | _ => false

/-- The action does not increment `resettable_overflow_counter` in the middle of a reset. -/
def keepsReport (x : RingSystem capacity Pid × History Pid) : Action Pid → Bool
  | .resettableInc _ => !x.1.consumer.isResetting
  | _ => true

/-- The producer is inside a call of `reserve_push`. -/
def ProducerPc.reserving : ProducerPc → Bool
  | .idle | .writing _ => false
  | _ => true

/-- No call of `reserve_push` or `get_and_reset_overflow_counter` is in progress. -/
def RingSystem.CountersQuiet (s : RingSystem capacity Pid) : Prop :=
  (∀ p, (s.producers p).reserving = false) ∧ s.consumer.isResetting = false

instance [Fintype Pid] (s : RingSystem capacity Pid) : Decidable s.CountersQuiet :=
  inferInstanceAs (Decidable (_ ∧ _))

section Reports

variable [Fintype Pid] {s s' : RingSystem capacity Pid} {h : History Pid} {a : Action Pid}

/-- What the next report is going to say: the value already loaded in a reset under way, and
otherwise the counter. -/
def RingSystem.unreported (s : RingSystem capacity Pid) : ℕ :=
  match s.consumer with
  | .resetting r => r
  | _ => s.buffer.resettableOverflowCounter

/-- Every counted overrun is in one report, still to be reported, lost in a reset, or about
to be added to `resettable_overflow_counter`. -/
def ReportsBalance (s : RingSystem capacity Pid) (h : History Pid) : Prop :=
  h.reports.sum + s.unreported + h.lost + s.countProducers ProducerPc.owesResettable =
    s.buffer.overflowCounter

lemma Step.reportsBalance (hstep : Step s a s') (hbal : ReportsBalance s h) :
    ReportsBalance s' (h.record s a) := by
  unfold ReportsBalance at *
  cases hstep with
  | @overflowInc p i hpc =>
      have howed := s.countProducers_produce ProducerPc.owesResettable p (.overflowed i)
        { s.buffer with overflowCounter := s.buffer.overflowCounter + 1 }
      simp only [hpc, ProducerPc.owesResettable, Bool.toNat_true, Bool.toNat_false] at howed
      simp only [RingSystem.unreported, RingSystem.produce_buffer, RingSystem.produce_consumer,
        History.record] at *
      omega
  | @resettableInc p i hpc =>
      have howed := s.countProducers_produce ProducerPc.owesResettable p (.writing i)
        { s.buffer with
          resettableOverflowCounter := s.buffer.resettableOverflowCounter + 1 }
      simp only [hpc, ProducerPc.owesResettable, Bool.toNat_true, Bool.toNat_false] at howed
      simp only [RingSystem.unreported, RingSystem.produce_buffer, RingSystem.produce_consumer,
        History.record] at *
      -- inside a reset the increment is lost, elsewhere the next report has it
      cases hconsumer : s.consumer <;> simp only [hconsumer] at hbal ⊢ <;> omega
  | resetLoad hpc =>
      simp only [RingSystem.unreported, hpc] at hbal
      exact hbal
  | @resetStore r hpc =>
      have hsum : (h.reports ++ [r]).sum = h.reports.sum + r := by simp
      simp only [RingSystem.unreported, hpc] at hbal
      simp only [RingSystem.unreported, History.record, hpc, RingSystem.consume_consumer,
        RingSystem.consume_buffer, hsum, Nat.add_zero]
      exact hbal
  | producerLock hpc hbusy =>
      rw [RingSystem.countProducers_produce_of_eq
        (by rw [hpc, RingSystem.owesResettable_producerAcquired]; rfl)]
      exact hbal
  | headInc hpc | headIncOver hpc | headMask hpc | producerSpin hpc | producerWait hpc
  | markData hpc | markOverrun hpc | edit hpc | commitPush hpc =>
      rw [RingSystem.countProducers_produce_of_eq (by simp [hpc, ProducerPc.owesResettable])]
      exact hbal
  | consumerLock hpc hbusy =>
      simp only [RingSystem.unreported, hpc] at hbal
      simp only [RingSystem.unreported, RingSystem.consume_consumer]
      split
      · next hr => simp [RingSystem.consumerAcquired] at hr; split at hr <;> cases hr
      · exact hbal
  | popFound hpc | popNothing hpc | consumerSpin hpc | consumerWait hpc | popRetest hpc
  | popGone hpc | popCopy hpc | popRecycle hpc | popClear hpc | popUnlock hpc =>
      simp only [RingSystem.unreported, hpc] at hbal
      exact hbal

/-- The increments overwritten by a reset are the only ones missing from the reports. -/
theorem reports_balance {x : RingSystem capacity Pid × History Pid}
    (hx : (tracedRing capacity traceMessageCapacity Pid).Reachable x) :
    x.2.reports.sum + x.1.unreported + x.2.lost +
      x.1.countProducers ProducerPc.owesResettable = x.1.buffer.overflowCounter := by
  refine tracedRing_invariant (I := ReportsBalance) hx ?_ fun s h a s' _ hbal hstep =>
    hstep.reportsBalance hbal
  intro elementMemory message memory
  rw [ReportsBalance, RingSystem.countProducers_start _ rfl]
  rfl

omit [Fintype Pid] in
/-- A step loses an increment exactly if it does not keep the report. -/
lemma Step.lost_eq_zero_iff (hstep : Step s a s') :
    (h.record s a).lost = 0 ↔ h.lost = 0 ∧ keepsReport (s, h) a = true := by
  cases hstep with
  | resettableInc hpc =>
      cases hcpc : s.consumer <;>
        simp [History.record, keepsReport, ConsumerPc.isResetting, hcpc]
  | _ => simp [History.record, keepsReport]

/-- **When the reports add up.**  Whenever no reservation and no reset is in progress, the
values returned by `get_and_reset_overflow_counter` and the current
`resettable_overflow_counter` make up `overflow_counter` exactly if no increment of the run
fell between the load and the store of a reset. -/
theorem reports_balance_iff {x₀ x : RingSystem capacity Pid × History Pid}
    {acts : List (Action Pid)}
    (hinit : (tracedRing capacity traceMessageCapacity Pid).init x₀)
    (hrun : (tracedRing capacity traceMessageCapacity Pid).exec x₀ acts = some x)
    (hquiet : x.1.CountersQuiet) :
    x.2.reports.sum + x.1.buffer.resettableOverflowCounter = x.1.buffer.overflowCounter ↔
      ((tracedRing capacity traceMessageCapacity Pid).restrict
        fun x a => keepsReport x a).exec x₀ acts = some x := by
  have hbal := reports_balance (Machine.reachable_of_exec hinit hrun)
  have hpending : x.1.unreported = x.1.buffer.resettableOverflowCounter := by
    unfold RingSystem.unreported
    split
    · next r hr => simpa [hr, ConsumerPc.isResetting] using hquiet.2
    · rfl
  have howed : x.1.countProducers ProducerPc.owesResettable = 0 := by
    refine (tally_eq_zero _ _).mpr fun p _ => ?_
    have := hquiet.1 p
    cases hpc : x.1.producers p <;>
      simp_all [ProducerPc.reserving, ProducerPc.owesResettable]
  rw [← Machine.exec_restrict_iff (P := fun x => x.2.lost = 0) ?_ (.init hinit)
    (by simp [hinit.2]) hrun]
  · omega
  · rintro ⟨s, h⟩ a ⟨s', h'⟩ _ hstep
    obtain ⟨hs, rfl⟩ := tracedRing_step hstep
    exact hs.lost_eq_zero_iff

/-- Two slots, three pushes: the third is an overrun, and its increment of
`resettable_overflow_counter` falls between the load and the store of a reset. -/
def overrunDuringReset : List (Action Bool) :=
  [.headInc true, .producerLock true, .markData true, .commitPush true,
    .headInc true, .producerLock true, .markData true, .commitPush true,
    .headInc true, .headMask true, .producerLock true, .markData true, .overflowInc true,
    .resetLoad, .resettableInc true, .resetStore, .commitPush true]

/-- One overrun is counted, the one report says 0, and nothing is left to report. -/
theorem report_lost :
    ∃ x, (tracedRing 2 4 Bool).exec (.start 4 (fun _ _ => 7) .empty fun _ => 7, {})
        overrunDuringReset = some x ∧ x.1.CountersQuiet ∧
      x.2.reports.sum + x.1.buffer.resettableOverflowCounter ≠ x.1.buffer.overflowCounter := by
  have h : ((tracedRing 2 4 Bool).exec (.start 4 (fun _ _ => 7) .empty fun _ => 7, {})
      overrunDuringReset).any (fun x => decide (x.1.CountersQuiet ∧
        x.2.reports.sum + x.1.buffer.resettableOverflowCounter ≠
          x.1.buffer.overflowCounter)) = true := by decide
  obtain ⟨x, hx, hne⟩ := (Option.any_eq_true _ _).mp h
  exact ⟨x, hx, of_decide_eq_true hne⟩

/-- The same pushes with the reset after the third. -/
def overrunBeforeReset : List (Action Bool) :=
  [.headInc true, .producerLock true, .markData true, .commitPush true,
    .headInc true, .producerLock true, .markData true, .commitPush true,
    .headInc true, .headMask true, .producerLock true, .markData true, .overflowInc true,
    .resettableInc true, .resetLoad, .resetStore, .commitPush true]

theorem reports_balance_iff_reset_after :
    ∃ x, (tracedRing 2 4 Bool).exec (.start 4 (fun _ _ => 7) .empty fun _ => 7, {})
        overrunBeforeReset = some x ∧
      x.2.reports.sum + x.1.buffer.resettableOverflowCounter =
        x.1.buffer.overflowCounter := by
  have h : (((tracedRing 2 4 Bool).restrict fun x a => keepsReport x a).exec
      (.start 4 (fun _ _ => 7) .empty fun _ => 7, {}) overrunBeforeReset).any
        (fun x => decide x.1.CountersQuiet) = true := by decide
  obtain ⟨x, hx, hquiet⟩ := (Option.any_eq_true _ _).mp h
  have hrun := Machine.exec_of_restrict hx
  exact ⟨x, hrun, (reports_balance_iff ⟨⟨_, _, _, rfl⟩, rfl⟩ hrun
    (of_decide_eq_true hquiet)).mpr hx⟩

end Reports

end InfiTracing
