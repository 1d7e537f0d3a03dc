import InfiTracing.RingBuffer.Drain
import InfiTracing.RingBuffer.Fifo

/-!
# Runs without overruns

A reservation overruns its slot if the slot still has data when its turn has come, or if it
comes out of turn: `reserve_push` assumes that no producer wraps around to a slot for which
an earlier reservation is still on its way.  `noOverrun` refuses the test-and-set of `has_data`
in both cases.  Nothing is asked of how many tickets are out: a producer may wait for its slot
as long as it likes.  The runs that keep room in the buffer (`RingBuffer/Fifo.lean`) are among
these (`unoverrun_of_roomy`).

In the runs without overruns no counter ever reports a loss (`nothingLost_of_reachable`), and
the reservations of a slot are its deliveries and at most one message still in it
(`inTurn_of_reachable`).  So the `k`-th delivery is the message of ticket `k`, and once the
producers are done, everything is delivered exactly if no slot has a message left
(`delivered_all_iff`), which one look at the slot under the tail decides
(`delivered_all_of_tail`).
-/

namespace InfiTracing

open Framework

variable {capacity traceMessageCapacity : ℕ} {Pid : Type} [DecidableEq Pid]

/-- The action does not mark a slot that has data, or out of turn among the slot's tickets. -/
def noOverrun (x : RingSystem capacity Pid × History Pid) : Action Pid → Bool
  | .markData p => !x.1.buffer.hasData (x.1.producers p).slot &&
      decide (x.2.passed (x.1.producers p).slot = x.2.ticketOf p / capacity)
  | _ => true

/-- The runs without overruns. -/
def unoverrunRing (capacity traceMessageCapacity : ℕ) (Pid : Type) [DecidableEq Pid] :
    Machine (RingSystem capacity Pid × History Pid) (Action Pid) :=
  (tracedRing capacity traceMessageCapacity Pid).restrict fun x a => noOverrun x a

section Marking

variable {s : RingSystem capacity Pid} {h : History Pid} {p : Pid} {i : ℕ}

omit [DecidableEq Pid] in
lemma clear_of_noOverrun (hpc : s.producers p = .marking i)
    (hG : noOverrun (s, h) (.markData p) = true) : s.buffer.hasData i = false := by
  simp only [noOverrun, hpc, ProducerPc.slot, Bool.and_eq_true, Bool.not_eq_true'] at hG
  exact hG.1

omit [DecidableEq Pid] in
lemma passed_of_noOverrun (hpc : s.producers p = .marking i)
    (hG : noOverrun (s, h) (.markData p) = true) : h.passed i = h.ticketOf p / capacity := by
  simp only [noOverrun, hpc, ProducerPc.slot, Bool.and_eq_true, decide_eq_true_eq] at hG
  exact hG.2

end Marking

/-! ## No loss to report -/

/-- The producer is counting an overrun. -/
def ProducerPc.overrun : ProducerPc → Bool
  | .overflowing _ | .overflowed _ => true
  | _ => false

/-- The counter of `get_and_reset_overflow_counter` is 0, and so is the value a call under way
has loaded. -/
structure NothingLost (s : RingSystem capacity Pid) : Prop where
  overrun : ∀ p, (s.producers p).overrun = false
  counted : s.buffer.resettableOverflowCounter = 0
  reported : ∀ r, s.consumer = .resetting r → r = 0

section NothingLost

variable {s s' : RingSystem capacity Pid} {h : History Pid} {a : Action Pid}

lemma NothingLost.produce (hn : NothingLost s) {p : Pid} {pc : ProducerPc}
    {b : TraceMessageRingBuffer capacity} (hpc : pc.overrun = false)
    (hb : b.resettableOverflowCounter = s.buffer.resettableOverflowCounter) :
    NothingLost (s.produce p pc b) := by
  refine ⟨fun q => ?_, hb.trans hn.counted, hn.reported⟩
  by_cases hq : q = p
  · subst hq
    simpa using hpc
  · simpa [hq] using hn.overrun q

lemma Step.nothingLost (hstep : Step s a s') (hG : noOverrun (s, h) a = true)
    (hn : NothingLost s) : NothingLost s' := by
  cases hstep with
  | markOverrun hpc hset =>
      have hclear := clear_of_noOverrun hpc hG
      simp [hset] at hclear
  | @overflowInc p i hpc | @resettableInc p i hpc =>
      have hnot := hn.overrun p
      simp [hpc, ProducerPc.overrun] at hnot
  | @producerLock p i collision hpc hbusy =>
      refine hn.produce ?_ rfl
      cases collision <;> rfl
  | headInc | headIncOver | headMask | producerSpin | producerWait | markData | edit
  | commitPush => exact hn.produce rfl rfl
  | @consumerLock i collision hpc hbusy =>
      refine ⟨hn.overrun, hn.counted, fun r hr => ?_⟩
      cases collision <;> cases hr
  | resetLoad hpc =>
      refine ⟨hn.overrun, hn.counted, fun r hr => ?_⟩
      obtain rfl : s.buffer.resettableOverflowCounter = r := by simpa using hr
      exact hn.counted
  | resetStore hpc => exact ⟨hn.overrun, rfl, fun r hr => by cases hr⟩
  | popFound | popNothing | consumerSpin | consumerWait | popRetest | popGone | popCopy
  | popRecycle | popClear | popUnlock =>
      exact ⟨hn.overrun, hn.counted, fun r hr => by cases hr⟩

theorem nothingLost_of_reachable {x : RingSystem capacity Pid × History Pid}
    (hx : (unoverrunRing capacity traceMessageCapacity Pid).Reachable x) :
    NothingLost x.1 := by
  refine tracedRing_restrict_invariant (I := fun s _ => NothingLost s) hx ?_ ?_
  · intro elementMemory message memory
    exact ⟨fun _ => rfl, rfl, fun r hr => by cases hr⟩
  · intro s h a s' _ hn hG hstep
    exact hstep.nothingLost hG hn

end NothingLost

/-! ## Reservations in turn -/

/-- Slot `i` has a message that the consumer has not copied yet. -/
def RingSystem.unread (s : RingSystem capacity Pid) (i : ℕ) : Bool :=
  s.buffer.hasData i && decide (s.consumer.emptying ≠ some i)

/-- The reservations of a slot are its deliveries and the message still in it, which is the
message of the ticket at the slot's position; the deliveries are the messages of the first
tickets. -/
structure InTurn (traceMessageCapacity : ℕ) (s : RingSystem capacity Pid) (h : History Pid) :
    Prop where
  passed : ∀ i < capacity,
    h.passed i = Nat.count (· % capacity = i) h.deliveries.length + (s.unread i).toNat
  marked : ∀ p i, (s.producers p).marked = some i → h.ticketOf p = h.position capacity i
  committed : ∀ i < capacity, s.unread i = true → (∀ p, (s.producers p).marked ≠ some i) →
    h.written (h.position capacity i) = some (h.committed i)
  started : ∀ i, h.started i = {}
  delivered : ∀ k d, h.deliveries[k]? = some d →
    ∃ w, h.written k = some w ∧ d.shown = w.shown traceMessageCapacity

section InTurn

variable {s s' : RingSystem capacity Pid} {h h' : History Pid} {a : Action Pid}

omit [DecidableEq Pid] in
lemma RingSystem.unread_congr {i : ℕ} (hdata : s'.buffer.hasData i = s.buffer.hasData i)
    (hemptying : s'.consumer.emptying = s.consumer.emptying) : s'.unread i = s.unread i := by
  simp only [unread, hdata, hemptying]

omit [DecidableEq Pid] in
/-- The position of an unread slot is the next visit of the slot, from the number of deliveries
on. -/
lemma InTurn.position_eq (hi : InTurn traceMessageCapacity s h) {i : ℕ} (hlt : i < capacity)
    (hunread : s.unread i = true) : h.position capacity i =
      i + capacity * Nat.count (· % capacity = i) h.deliveries.length := by
  rw [History.position, hi.passed i hlt, hunread, Bool.toNat_true, Nat.add_sub_cancel]

omit [DecidableEq Pid] in
/-- What a step must leave alone to keep the reservations in turn. -/
lemma InTurn.congr (hi : InTurn traceMessageCapacity s h)
    (hmarked : ∀ p, (s'.producers p).marked = (s.producers p).marked)
    (hunread : ∀ i, s'.unread i = s.unread i) (hpassed : h'.passed = h.passed)
    (hticketOf : ∀ p i, (s.producers p).marked = some i → h'.ticketOf p = h.ticketOf p)
    (hcommitted : h'.committed = h.committed) (hwritten : h'.written = h.written)
    (hstarted : h'.started = h.started) (hdeliveries : h'.deliveries = h.deliveries) :
    InTurn traceMessageCapacity s' h' := by
  have hposition : h'.position capacity = h.position capacity := by
    funext i
    rw [History.position, hpassed, History.position]
  constructor
  · simpa only [hpassed, hdeliveries, hunread] using hi.passed
  · intro p i hp
    rw [hmarked] at hp
    rw [hticketOf p i hp, hposition, hi.marked p i hp]
  · simpa only [hmarked, hunread, hwritten, hposition, hcommitted] using hi.committed
  · simpa only [hstarted] using hi.started
  · simpa only [hdeliveries, hwritten] using hi.delivered

/-- A producer's step that marks and commits nothing. -/
lemma InTurn.produce (hi : InTurn traceMessageCapacity s h) {p : Pid} {pc : ProducerPc}
    {b : TraceMessageRingBuffer capacity} (hmarked : pc.marked = (s.producers p).marked)
    (hdata : b.hasData = s.buffer.hasData) (hpassed : h'.passed = h.passed)
    (hticketOf : ∀ q i, (s.producers q).marked = some i → h'.ticketOf q = h.ticketOf q)
    (hcommitted : h'.committed = h.committed) (hwritten : h'.written = h.written)
    (hstarted : h'.started = h.started) (hdeliveries : h'.deliveries = h.deliveries) :
    InTurn traceMessageCapacity (s.produce p pc b) h' := by
  refine hi.congr (RingSystem.marked_produce hmarked) (fun i => ?_) hpassed hticketOf hcommitted
    hwritten hstarted hdeliveries
  exact RingSystem.unread_congr (congrFun hdata i) rfl

omit [DecidableEq Pid] in
/-- A consumer's step that copies and clears nothing. -/
lemma InTurn.consume (hi : InTurn traceMessageCapacity s h) {pc : ConsumerPc}
    {b : TraceMessageRingBuffer capacity} (hemptying : pc.emptying = s.consumer.emptying)
    (hdata : b.hasData = s.buffer.hasData) (hpassed : h'.passed = h.passed)
    (hticketOf : h'.ticketOf = h.ticketOf) (hcommitted : h'.committed = h.committed)
    (hwritten : h'.written = h.written) (hstarted : h'.started = h.started)
    (hdeliveries : h'.deliveries = h.deliveries) :
    InTurn traceMessageCapacity (s.consume pc b) h' := by
  refine hi.congr (fun _ => rfl) (fun i => ?_) hpassed (fun p _ _ => congrFun hticketOf p)
    hcommitted hwritten hstarted hdeliveries
  exact RingSystem.unread_congr (congrFun hdata i) hemptying

section Reached

variable (hc : ∃ k, capacity = 2 ^ k)
  (hx : (tracedRing capacity traceMessageCapacity Pid).Reachable (s, h))

include hx

/-- A marked slot is unread. -/
lemma unread_of_marked {p : Pid} {i : ℕ} (hp : (s.producers p).marked = some i) :
    s.unread i = true := by
  have hdata : s.buffer.hasData i = true := (authorship_of_reachable hx).hasData p i hp
  have hnot : s.consumer.emptying ≠ some i :=
    not_emptying (lockTable_of_reachable hx.fst) (ProducerPc.held_of_marked hp)
  simp [RingSystem.unread, hdata, hnot]

include hc

/-- A marked slot is one of the buffer's. -/
lemma marked_lt {p : Pid} {i : ℕ} (hp : (s.producers p).marked = some i) : i < capacity :=
  (slotBounds_of_reachable (capacity_pos hc) hx.fst).producer p i (ProducerPc.target_of_marked hp)

/-- A reservation marks its slot in turn. -/
lemma InTurn.mark (hi : InTurn traceMessageCapacity s h) {p : Pid} {i : ℕ}
    (hpc : s.producers p = .marking i) (hG : noOverrun (s, h) (.markData p) = true) :
    InTurn traceMessageCapacity (s.produce p (.writing i)
      { s.buffer with hasData := Function.update s.buffer.hasData i true })
      (h.record s (.markData p)) := by
  have hclear := clear_of_noOverrun hpc hG
  have hpassed := passed_of_noOverrun hpc hG
  have hslot : (s.producers p).slot = i := by rw [hpc]; rfl
  have hticket : i = h.ticketOf p % capacity :=
    ticket_slot_of_reachable hc hx (p := p) (by rw [hpc]; rfl)
  have hlocks := lockTable_of_reachable hx.fst
  have hheld : (s.producers p).held = some i := by rw [hpc]; rfl
  have hnot : s.consumer.emptying ≠ some i := not_emptying hlocks hheld
  have hposition : ∀ {j}, j ≠ i →
      (h.record s (.markData p)).position capacity j = h.position capacity j := by
    intro j hj
    simp [History.position, History.record, hslot, hj]
  have hunread : ∀ {j}, j ≠ i → (s.produce p (.writing i) { s.buffer with
      hasData := Function.update s.buffer.hasData i true }).unread j = s.unread j := by
    intro j hj
    exact RingSystem.unread_congr (by simp [hj]) rfl
  constructor
  · intro j hj
    by_cases hji : j = i
    · subst hji
      have := hi.passed j hj
      simpa [History.record, hslot, RingSystem.unread, hclear, hnot] using this
    · rw [hunread hji, ← show h.passed j = (h.record s (.markData p)).passed j by
        simp [History.record, hslot, hji]]
      exact hi.passed j hj
  · intro q j hq
    obtain ⟨rfl, rfl⟩ | ⟨hqp, hji, hq'⟩ := RingSystem.marked_of_mark hlocks hheld rfl hq
    · -- the ticket's number is its slot and its turn
      have hdiv := Nat.mod_add_div (h.ticketOf q) capacity
      simp only [History.position, History.record, hslot, Function.update_self,
        Nat.add_sub_cancel, hpassed]
      rw [hticket]
      exact hdiv.symm
    · rw [hposition hji]
      exact hi.marked q j hq'
  · intro j hj hju hfree
    have hji : j ≠ i := by
      rintro rfl
      exact hfree p (by simp [ProducerPc.marked])
    rw [hposition hji]
    refine hi.committed j hj (hunread hji ▸ hju) fun q hq => ?_
    have hqp : q ≠ p := by rintro rfl; simp [hpc, ProducerPc.marked] at hq
    exact hfree q (by simpa [hqp] using hq)
  · intro j
    by_cases hji : j = i
    · subst hji
      have hfresh : h.content j = {} := (authorship_of_reachable hx).fresh j (.inl hclear)
      simp [History.record, hslot, hfresh]
    · simpa [History.record, hslot, hji] using hi.started j
  · exact hi.delivered

/-- A message is committed under the ticket at its slot's position. -/
lemma InTurn.commitPush (hi : InTurn traceMessageCapacity s h) {p : Pid} {i : ℕ}
    (hpc : s.producers p = .writing i) : InTurn traceMessageCapacity
      (s.produce p .idle (s.buffer.commitPush i)) (h.record s (.commitPush p)) := by
  have hslot : (s.producers p).slot = i := by rw [hpc]; rfl
  have hmarked : (s.producers p).marked = some i := by rw [hpc]; rfl
  have hlt : i < capacity := marked_lt hc hx hmarked
  have hticket : h.ticketOf p = h.position capacity i := hi.marked p i hmarked
  have hmod : ∀ {j}, j < capacity → h.position capacity j % capacity = j := fun hj => by
    rw [History.position, Nat.add_mul_mod_self_left, Nat.mod_eq_of_lt hj]
  constructor
  · exact fun j hj => hi.passed j hj
  · intro q j hq
    exact hi.marked q j (RingSystem.marked_of_produce rfl hq).2
  · intro j hj hju hfree
    show Function.update h.written (h.ticketOf p) (some (h.draft p)) (h.position capacity j) =
      some (Function.update h.committed (s.producers p).slot (h.draft p) j)
    by_cases hji : j = i
    · subst hji
      rw [hticket, hslot, Function.update_self, Function.update_self]
    · have hne : h.position capacity j ≠ h.ticketOf p := by
        intro heq
        apply hji
        rw [← hmod hj, heq, hticket, hmod hlt]
      rw [hslot, Function.update_of_ne hne, Function.update_of_ne hji]
      refine hi.committed j hj hju fun q hq => ?_
      by_cases hqp : q = p
      · exact hji (Option.some.inj (by rw [← hq, hqp, hmarked]))
      · exact hfree q (by simpa [hqp] using hq)
  · exact hi.started
  · intro k d hd
    obtain ⟨w, hw, hshown⟩ := hi.delivered k d hd
    -- the deliveries are before every ticket still in the buffer
    have hk : k < h.deliveries.length := (List.getElem?_eq_some_iff.mp hd).1
    have hnext := le_next_of_residue (n := h.deliveries.length) hlt
    rw [← hi.position_eq hlt (unread_of_marked hx hmarked), ← hticket] at hnext
    have hne : k ≠ h.ticketOf p := by omega
    refine ⟨w, ?_, hshown⟩
    simpa [History.record, hne] using hw

/-- The slot the consumer copies holds the next ticket's message. -/
lemma InTurn.written_of_copying (hi : InTurn traceMessageCapacity s h) {i : ℕ}
    (hpc : s.consumer = .copying i) : i = h.deliveries.length % capacity ∧ s.unread i = true ∧
      h.written h.deliveries.length = some (h.committed i) := by
  have hpos : 0 < capacity := capacity_pos hc
  have hslot : i = h.deliveries.length % capacity :=
    (cyclic_of_reachable hc hx).approaching i (by rw [hpc]; rfl)
  have hlt : i < capacity := hslot ▸ Nat.mod_lt _ hpos
  have hset : s.buffer.hasData i = true :=
    (popCommitted_of_reachable hx.fst).hasData i (by rw [hpc]; rfl)
  have hunread : s.unread i = true := by
    simp [RingSystem.unread, hset, hpc, ConsumerPc.emptying]
  have hposition : h.position capacity i = h.deliveries.length := by
    have hnext := next_of_residue_self (n := h.deliveries.length) hpos
    rw [hi.position_eq hlt hunread]
    simpa only [← hslot] using hnext
  have hfree := not_marked (lockTable_of_reachable hx.fst) (i := i) (by rw [hpc]; rfl)
  refine ⟨hslot, hunread, ?_⟩
  rw [← hposition]
  exact hi.committed i hlt hunread hfree

/-- The next ticket's message is delivered. -/
lemma InTurn.popCopy (hi : InTurn traceMessageCapacity s h) {i : ℕ}
    (hpc : s.consumer = .copying i) {b : TraceMessageRingBuffer capacity}
    {message : TraceMessage} (hdata : b.hasData = s.buffer.hasData) :
    InTurn traceMessageCapacity { s.consume (.recycling i) b with message := message }
      (h.record s .popCopy) := by
  obtain ⟨hturn, hunread, hwritten⟩ := hi.written_of_copying hc hx hpc
  have hslot : s.consumer.slot = i := by rw [hpc]; rfl
  have hlen : (h.record s .popCopy).deliveries.length = h.deliveries.length + 1 := by
    simp [History.record]
  have hself : ({ s.consume (.recycling i) b with message := message } :
      RingSystem capacity Pid).unread i = false := by
    simp [RingSystem.unread, ConsumerPc.emptying]
  have hother : ∀ {j}, j ≠ i → ({ s.consume (.recycling i) b with message := message } :
      RingSystem capacity Pid).unread j = s.unread j := by
    intro j hj
    simp [RingSystem.unread, hdata, hpc, ConsumerPc.emptying, Ne.symm hj]
  constructor
  · intro j hj
    have hpassed : h.passed j = _ := hi.passed j hj
    show h.passed j = _
    rw [hlen, Nat.count_succ, ← hturn, hpassed]
    by_cases hji : j = i
    · subst hji
      rw [hself, hunread, if_pos rfl]
      rfl
    · rw [hother hji, if_neg (Ne.symm hji)]
      rfl
  · exact hi.marked
  · intro j hj hju hfree
    have hji : j ≠ i := by
      rintro rfl
      rw [hself] at hju
      cases hju
    exact hi.committed j hj (hother hji ▸ hju) hfree
  · exact hi.started
  · intro k d hd
    simp only [History.record, hslot] at hd
    rcases Nat.lt_or_ge k h.deliveries.length with hk | hk
    · exact hi.delivered k d (by simpa [List.getElem?_append_left hk] using hd)
    · rw [List.getElem?_append_right hk, List.getElem?_singleton] at hd
      split at hd
      · obtain rfl := Option.some.inj hd
        obtain rfl : k = h.deliveries.length := by omega
        exact ⟨_, hwritten, shown_of_copying hx (hi.started i) hpc⟩
      · cases hd

omit hc hx in
/-- The flag of a delivered message is cleared. -/
lemma InTurn.popClear (hi : InTurn traceMessageCapacity s h) {i : ℕ}
    (hpc : s.consumer = .clearing i) :
    InTurn traceMessageCapacity (s.consume (.unlocking i true)
      { s.buffer with hasData := Function.update s.buffer.hasData i false })
      (h.record s .popClear) := by
  refine hi.congr (fun _ => rfl) (fun j => ?_) rfl (fun _ _ _ => rfl) rfl rfl rfl rfl
  by_cases hji : j = i
  · subst hji
    simp [RingSystem.unread, hpc, ConsumerPc.emptying]
  · simp [RingSystem.unread, hpc, ConsumerPc.emptying, hji, Ne.symm hji]

lemma Step.inTurn (hstep : Step s a s') (hG : noOverrun (s, h) a = true)
    (hi : InTurn traceMessageCapacity s h) :
    InTurn traceMessageCapacity s' (h.record s a) := by
  cases hstep with
  | markData hpc hclear => exact hi.mark hc hx hpc hG
  | markOverrun hpc hset =>
      have hclear := clear_of_noOverrun hpc hG
      simp [hset] at hclear
  | commitPush hpc => exact hi.commitPush hc hx hpc
  | popCopy hpc => exact hi.popCopy hc hx hpc rfl
  | popClear hpc => exact hi.popClear hpc
  | @headInc p hpc hlt | @headIncOver p hpc hge =>
      refine hi.produce (by rw [hpc]; rfl) rfl rfl (fun q j hq => ?_) rfl rfl rfl rfl
      -- the new ticket goes to a producer that has marked nothing
      have hqp : q ≠ p := by rintro rfl; simp [hpc, ProducerPc.marked] at hq
      simp [History.record, hqp]
  | @producerLock p i collision hpc hbusy =>
      refine hi.produce ?_ rfl rfl (fun _ _ _ => rfl) rfl rfl rfl rfl
      rw [hpc, RingSystem.marked_producerAcquired]
      rfl
  | headMask hpc | producerSpin hpc | producerWait hpc | overflowInc hpc | resettableInc hpc
  | edit hpc =>
      exact hi.produce (by simp [hpc, ProducerPc.marked]) rfl rfl (fun _ _ _ => rfl) rfl rfl rfl rfl
  | @consumerLock i collision hpc hbusy =>
      refine hi.consume ?_ rfl rfl rfl rfl rfl rfl rfl
      cases collision <;> simp [hpc, RingSystem.consumerAcquired, ConsumerPc.emptying]
  | popFound hpc | popNothing hpc | consumerSpin hpc | consumerWait hpc | popRetest hpc
  | popGone hpc | popRecycle hpc | popUnlock hpc | resetLoad hpc | resetStore hpc =>
      exact hi.consume (by simp [hpc, ConsumerPc.emptying]) rfl rfl rfl rfl rfl rfl rfl

end Reached

end InTurn

theorem inTurn_of_reachable (hc : ∃ k, capacity = 2 ^ k)
    {x : RingSystem capacity Pid × History Pid}
    (hx : (unoverrunRing capacity traceMessageCapacity Pid).Reachable x) :
    InTurn traceMessageCapacity x.1 x.2 := by
  refine tracedRing_restrict_invariant hx ?_ ?_
  · intro elementMemory message memory
    constructor <;> simp [RingSystem.start, TraceMessageRingBuffer.construct, RingSystem.unread,
      ProducerPc.marked]
  · intro s h a s' hreach hi hG hstep
    exact hstep.inTurn hc hreach hG hi

/-! ## Everything delivered -/

section Delivered

variable [Fintype Pid] (hc : ∃ k, capacity = 2 ^ k) {x : RingSystem capacity Pid × History Pid}
  (hx : (unoverrunRing capacity traceMessageCapacity Pid).Reachable x)

include hc hx

/-- No more deliveries than tickets. -/
lemma delivered_le_tickets : x.2.deliveries.length ≤ x.2.tickets := by
  have hlt : x.2.tickets % capacity < capacity := Nat.mod_lt _ (capacity_pos hc)
  have hpassed := (inTurn_of_reachable hc hx).passed _ hlt
  have hvisits := visits_of_reachable hc hx.of_restrict _ hlt
  apply le_of_count_residue_le (r := capacity)
  omega

variable (hidle : ∀ p, x.1.producers p = .idle)

include hidle

/-- **Everything delivered.**  When the producers are done, every ticket's message is delivered
exactly if no slot has one left. -/
theorem delivered_all_iff :
    x.2.deliveries.length = x.2.tickets ↔ ∀ i < capacity, x.1.unread i = false := by
  have hturn := inTurn_of_reachable hc hx
  have hpassed : ∀ i < capacity, x.2.passed i = Nat.count (· % capacity = i) x.2.tickets :=
    fun i hi => passed_of_idle hc hx.of_restrict hidle hi
  constructor
  · intro hall i hi
    have := hturn.passed i hi
    rw [hpassed i hi, hall] at this
    cases hunread : x.1.unread i with
    | false => rfl
    | true => simp [hunread] at this
  · intro hnone
    apply le_antisymm (delivered_le_tickets hc hx)
    have hlt : x.2.deliveries.length % capacity < capacity := Nat.mod_lt _ (capacity_pos hc)
    apply le_of_count_residue_le (r := capacity)
    rw [← hpassed _ hlt, hturn.passed _ hlt, hnone _ hlt]
    exact le_rfl

/-- **A failed pop has found everything delivered.**  One slot without data is enough, the one
under the tail. -/
theorem delivered_all_of_tail (htail : x.1.buffer.hasData x.1.buffer.tail = false) :
    x.2.deliveries.length = x.2.tickets := by
  have hlt : x.2.deliveries.length % capacity < capacity := Nat.mod_lt _ (capacity_pos hc)
  have htail_eq : x.1.buffer.tail = x.2.deliveries.length % capacity :=
    (cyclic_of_reachable hc hx.of_restrict).tail
  have hunread : x.1.unread (x.2.deliveries.length % capacity) = false := by
    rw [RingSystem.unread, ← htail_eq, htail, Bool.false_and]
  apply le_antisymm (delivered_le_tickets hc hx)
  apply le_of_count_residue_le (r := capacity)
  rw [← passed_of_idle hc hx.of_restrict hidle hlt, (inTurn_of_reachable hc hx).passed _ hlt,
    hunread]
  exact le_rfl

end Delivered

/-! ## Runs that keep room -/

/-- A reservation overruns nothing while fewer than `capacity` tickets are unpopped. -/
lemma noOverrun_of_inTicketOrder {s s' : RingSystem capacity Pid} {h : History Pid}
    {a : Action Pid} (ho : InTicketOrder s h) (hc : ∃ k, capacity = 2 ^ k)
    (hx : (unoverrunRing capacity traceMessageCapacity Pid).Reachable (s, h))
    (hstep : Step s a s') : noOverrun (s, h) a = true := by
  have hreach := hx.of_restrict
  cases hstep with
  | @markData p i hpc hclear | @markOverrun p i hpc hclear =>
      have hclear := ho.clear_of_marking hc hreach hpc
      have hactive : s.producers p ≠ .idle := by simp [hpc]
      have hslot : i = h.ticketOf p % capacity :=
        ticket_slot_of_reachable hc hreach (p := p) (by rw [hpc]; rfl)
      have hlt : i < capacity := hslot ▸ Nat.mod_lt _ (capacity_pos hc)
      have hpassed : h.passed i =
          Nat.count (· % capacity = i) h.deliveries.length + (s.unread i).toNat :=
        (inTurn_of_reachable hc hx).passed i hlt
      have hissued : h.ticketOf p < h.tickets :=
        (ticketing_of_reachable hc hreach).issued p hactive
      have hroom := ho.room
      -- the ticket is the next visit of its slot
      have hturn := div_eq_count_of_window hlt (ho.unserved p hactive) (by omega) hslot.symm
      simp only [RingSystem.unread, hclear, Bool.false_and, Bool.toNat_false,
        Nat.add_zero] at hpassed
      simp [noOverrun, hpc, ProducerPc.slot, hclear, hpassed, hturn]
  | _ => rfl

/-- **Room is enough.**  The runs that keep room in the buffer are runs without overruns. -/
theorem unoverrun_of_roomy (hc : ∃ k, capacity = 2 ^ k)
    {x : RingSystem capacity Pid × History Pid}
    (hx : (roomyRing capacity traceMessageCapacity Pid).Reachable x) :
    (unoverrunRing capacity traceMessageCapacity Pid).Reachable x := by
  induction hx with
  | init h => exact .init h
  | step a hreach hstep ih =>
      obtain ⟨-, htraced⟩ := Machine.restrict_step_eq_some.mp hstep
      have ho := inTicketOrder_of_reachable hc hreach
      have hG := noOverrun_of_inTicketOrder ho hc ih (tracedRing_step htraced).1
      exact .step a ih (Machine.restrict_step_eq_some.mpr ⟨hG, htraced⟩)

end InfiTracing
