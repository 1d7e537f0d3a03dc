import InfiTracing.Framework.TicketQueue
import InfiTracing.RingBuffer.Content

/-!
# The ring buffer as a queue in ticket order

In the runs in which a ticket is taken only while fewer than `capacity` earlier tickets are
unpopped, the ring buffer refines the queue served in ticket order
(`Framework/TicketQueue.lean`).  The tickets from the number of deliveries on, one lap of
them, name different slots; `InTicketOrder` says that within this window a slot's flag is the
arrival of its ticket, that nobody holds a served ticket, and that a committed slot holds what
was written under its ticket.

`refines_ticketQueue` is the simulation, and `fifo_of_reachable` what it means for the
messages: the `k`-th pop delivers the message written under ticket `k`, none is counted as an
overrun, and `pop` returns `false` only while the next ticket has not set its flag.
-/

namespace InfiTracing

open Framework

variable {capacity traceMessageCapacity : ℕ} {Pid : Type} [DecidableEq Pid]

/-- The action does not take a ticket while a whole lap of tickets is unpopped. -/
def keepsRoom (x : RingSystem capacity Pid × History Pid) : Action Pid → Bool
  | .headInc _ => x.2.tickets < x.2.deliveries.length + capacity
  | _ => true

/-! ## The invariant -/

section Invariant

variable {s s' : RingSystem capacity Pid} {h h' : History Pid} {a : Action Pid}

/-- The unserved tickets and their slots, message by message. -/
structure InTicketOrder (s : RingSystem capacity Pid) (h : History Pid) : Prop where
  served : h.deliveries.length ≤ h.tickets
  room : h.tickets ≤ h.deliveries.length + capacity
  unserved : ∀ p, s.producers p ≠ .idle → h.deliveries.length ≤ h.ticketOf p
  heading : ∀ p, s.producers p ≠ .idle → (s.producers p).marked = none →
    h.arrived (h.ticketOf p) = false
  marked : ∀ p i, (s.producers p).marked = some i →
    h.arrived (h.ticketOf p) = true ∧ h.written (h.ticketOf p) = none
  unissued : ∀ k, h.tickets ≤ k → h.arrived k = false
  unwritten : ∀ k, h.arrived k = false → h.written k = none
  flags : ∀ k, h.deliveries.length ≤ k → k < h.deliveries.length + capacity →
    (h.arrived k = true ↔
      s.buffer.hasData (k % capacity) = true ∧ s.consumer.emptying ≠ some (k % capacity))
  committed : ∀ k, h.deliveries.length ≤ k → h.arrived k = true →
    (∀ p, s.producers p ≠ .idle → h.ticketOf p ≠ k) →
    h.written k = some (h.committed (k % capacity))
  started : ∀ i, h.started i = {}
  counted : s.buffer.overflowCounter = 0
  noOverrun : ∀ p i, s.producers p ≠ .overflowing i

/-- Tickets less than a lap apart that name the same slot are the same. -/
lemma eq_of_residue {D k j C : ℕ} (hk : D ≤ k) (hkC : k < D + C) (hj : D ≤ j) (hjC : j < D + C)
    (h : k % C = j % C) : k = j := by
  rcases Nat.lt_trichotomy k j with hlt | heq | hlt
  · have := Nat.ModEq.add_le_of_lt h hlt
    omega
  · exact heq
  · have := Nat.ModEq.add_le_of_lt h.symm hlt
    omega

/-- What a producer's step must leave alone to keep the ticket order. -/
structure KeepsTickets (h h' : History Pid) : Prop where
  tickets : h'.tickets = h.tickets
  ticketOf : h'.ticketOf = h.ticketOf
  arrived : h'.arrived = h.arrived
  written : h'.written = h.written
  committed : h'.committed = h.committed
  started : h'.started = h.started
  deliveries : h'.deliveries = h.deliveries

/-- A producer's step on its way, or inside its message. -/
lemma InTicketOrder.produce (ho : InTicketOrder s h) {p : Pid} {pc : ProducerPc}
    {b : TraceMessageRingBuffer capacity} (hk : KeepsTickets h h')
    (hactive : s.producers p ≠ .idle) (hmarked : pc.marked = (s.producers p).marked)
    (hover : ∀ i, pc ≠ .overflowing i) (hdata : b.hasData = s.buffer.hasData)
    (hcounter : b.overflowCounter = s.buffer.overflowCounter) (hpc : pc ≠ .idle) :
    InTicketOrder (s.produce p pc b) h' := by
  obtain ⟨htickets, hticketOf, harrived, hwritten, hcommitted, hstarted, hdeliveries⟩ := hk
  have hidle : ∀ q, (s.produce p pc b).producers q ≠ .idle ↔ s.producers q ≠ .idle := by
    intro q
    by_cases hq : q = p
    · subst hq
      simp [hpc, hactive]
    · simp [hq]
  have hsame := RingSystem.marked_produce (b := b) hmarked
  constructor
  · rw [hdeliveries, htickets]; exact ho.served
  · rw [hdeliveries, htickets]; exact ho.room
  · simpa only [hidle, hdeliveries, hticketOf] using ho.unserved
  · simpa only [hidle, hsame, harrived, hticketOf] using ho.heading
  · simpa only [hsame, harrived, hwritten, hticketOf] using ho.marked
  · simpa only [htickets, harrived] using ho.unissued
  · simpa only [harrived, hwritten] using ho.unwritten
  · rw [hdeliveries, harrived, RingSystem.produce_buffer, hdata]; exact ho.flags
  · simpa only [hidle, hdeliveries, harrived, hticketOf, hwritten, hcommitted] using ho.committed
  · rw [hstarted]; exact ho.started
  · exact hcounter.trans ho.counted
  · intro q i
    by_cases hq : q = p
    · subst hq
      simpa using hover i
    · simpa [hq] using ho.noOverrun q i

omit [DecidableEq Pid] in
/-- A consumer's step between two copies that leaves the flags alone. -/
lemma InTicketOrder.consume (ho : InTicketOrder s h) (hk : KeepsTickets h h')
    {pc : ConsumerPc} {b : TraceMessageRingBuffer capacity}
    (hdata : b.hasData = s.buffer.hasData) (hemptying : pc.emptying = s.consumer.emptying)
    (hcounter : b.overflowCounter = s.buffer.overflowCounter) :
    InTicketOrder (s.consume pc b) h' := by
  obtain ⟨htickets, hticketOf, harrived, hwritten, hcommitted, hstarted, hdeliveries⟩ := hk
  constructor
  · rw [hdeliveries, htickets]; exact ho.served
  · rw [hdeliveries, htickets]; exact ho.room
  · rw [hdeliveries, hticketOf]; exact ho.unserved
  · rw [harrived, hticketOf]; exact ho.heading
  · rw [harrived, hwritten, hticketOf]; exact ho.marked
  · rw [htickets, harrived]; exact ho.unissued
  · rw [harrived, hwritten]; exact ho.unwritten
  · rw [hdeliveries, harrived, RingSystem.consume_buffer, hdata, RingSystem.consume_consumer,
      hemptying]
    exact ho.flags
  · rw [hdeliveries, harrived, hticketOf, hwritten, hcommitted]; exact ho.committed
  · rw [hstarted]; exact ho.started
  · exact hcounter.trans ho.counted
  · exact ho.noOverrun

/-- An idle producer takes the next ticket. -/
lemma InTicketOrder.issue (ho : InTicketOrder s h)
    (hroom : h.tickets < h.deliveries.length + capacity) {p : Pid} {pc : ProducerPc}
    {b : TraceMessageRingBuffer capacity} (hidle : s.producers p = .idle)
    (hmarked : pc.marked = none) (hdata : b.hasData = s.buffer.hasData)
    (hcounter : b.overflowCounter = s.buffer.overflowCounter) :
    InTicketOrder (s.produce p pc b) (h.record s (.headInc p)) := by
  have hother : ∀ {q}, q ≠ p → (h.record s (.headInc p)).ticketOf q = h.ticketOf q := by
    intro q hq
    simp [History.record, hq]
  have hnew : (h.record s (.headInc p)).ticketOf p = h.tickets := by simp [History.record]
  constructor
  · exact ho.served.trans (Nat.le_succ _)
  · exact hroom
  · intro q hq
    by_cases hqp : q = p
    · subst hqp
      rw [hnew]
      exact ho.served
    · rw [hother hqp]
      exact ho.unserved q (by simpa [hqp] using hq)
  · intro q hq hnone
    by_cases hqp : q = p
    · subst hqp
      rw [hnew]
      exact ho.unissued _ le_rfl
    · rw [hother hqp]
      exact ho.heading q (by simpa [hqp] using hq) (by simpa [hqp] using hnone)
  · intro q i hq
    obtain ⟨hqp, hq⟩ := RingSystem.marked_of_produce hmarked hq
    rw [hother hqp]
    exact ho.marked q i hq
  · exact fun k hk => ho.unissued k ((Nat.le_succ _).trans hk)
  · exact ho.unwritten
  · intro k hk hkC
    rw [RingSystem.produce_buffer, hdata]
    exact ho.flags k hk hkC
  · intro k hk harrived hfree
    refine ho.committed k hk harrived fun q hq => ?_
    have hqp : q ≠ p := by rintro rfl; exact hq hidle
    have := hfree q (by simpa [hqp] using hq)
    rwa [hother hqp] at this
  · exact ho.started
  · exact hcounter.trans ho.counted
  · intro q i hq
    by_cases hqp : q = p
    · subst hqp
      simp at hq
      simp [hq, ProducerPc.marked] at hmarked
    · exact ho.noOverrun q i (by simpa [hqp] using hq)

section Reached

variable (hc : ∃ k, capacity = 2 ^ k)
  (hx : (tracedRing capacity traceMessageCapacity Pid).Reachable (s, h))

include hc hx

/-- The flag of a slot with a ticket on its way to it is clear: there are no overruns. -/
lemma InTicketOrder.clear_of_marking (ho : InTicketOrder s h) {p : Pid} {i : ℕ}
    (hpc : s.producers p = .marking i) : s.buffer.hasData i = false := by
  have hactive : s.producers p ≠ .idle := by simp [hpc]
  have hslot : i = h.ticketOf p % capacity :=
    ticket_slot_of_reachable hc hx (p := p) (by rw [hpc]; rfl)
  have hissued : h.ticketOf p < h.tickets := (ticketing_of_reachable hc hx).issued p hactive
  have hwindow := ho.room
  have hheading := ho.heading p hactive (by rw [hpc]; rfl)
  have hflag := ho.flags (h.ticketOf p) (ho.unserved p hactive) (by omega)
  rw [hheading, ← hslot] at hflag
  by_contra hset
  exact Bool.false_ne_true (hflag.mpr ⟨by simpa using hset,
    not_emptying (lockTable_of_reachable hx.fst) (p := p) (by rw [hpc]; rfl)⟩)

/-- A ticket arrives. -/
lemma InTicketOrder.mark (ho : InTicketOrder s h) {p : Pid} {i : ℕ}
    (hpc : s.producers p = .marking i) {b : TraceMessageRingBuffer capacity}
    (hdata : b.hasData = Function.update s.buffer.hasData i true)
    (hcounter : b.overflowCounter = s.buffer.overflowCounter) :
    InTicketOrder (s.produce p (.writing i) b) (h.record s (.markData p)) := by
  have hactive : s.producers p ≠ .idle := by simp [hpc]
  have hslot : (s.producers p).slot = i := by rw [hpc]; rfl
  have hi : i = h.ticketOf p % capacity :=
    ticket_slot_of_reachable hc hx (p := p) (by rw [hpc]; rfl)
  have htickets : Ticketing s h := ticketing_of_reachable hc hx
  have hissued := htickets.issued p hactive
  have hunserved := ho.unserved p hactive
  have hroom := ho.room
  have hclear := ho.clear_of_marking hc hx hpc
  have hheading := ho.heading p hactive (by rw [hpc]; rfl)
  have hticket : ∀ {q}, s.producers q ≠ .idle → q ≠ p → h.ticketOf q ≠ h.ticketOf p :=
    fun hq hqp heq => hqp (htickets.distinct _ _ hq hactive heq)
  have hidle : ∀ q, (s.produce p (.writing i) b).producers q ≠ .idle → s.producers q ≠ .idle := by
    intro q hq
    by_cases hqp : q = p
    · subst hqp; exact hactive
    · simpa [hqp] using hq
  constructor
  · exact ho.served
  · exact ho.room
  · exact fun q hq => ho.unserved q (hidle q hq)
  · intro q hq hnone
    have hqp : q ≠ p := by rintro rfl; simp [ProducerPc.marked] at hnone
    simpa [History.record, hticket (hidle q hq) hqp] using
      ho.heading q (hidle q hq) (by simpa [hqp] using hnone)
  · intro q j hq
    by_cases hqp : q = p
    · subst hqp
      exact ⟨by simp [History.record], ho.unwritten _ hheading⟩
    · have hq' : (s.producers q).marked = some j := by simpa [hqp] using hq
      have hactive_q := RingSystem.active_of_marked hq'
      simpa [History.record, hticket hactive_q hqp] using ho.marked q j hq'
  · intro k (hk : h.tickets ≤ k)
    have hne : k ≠ h.ticketOf p := by omega
    simpa [History.record, hne] using ho.unissued k hk
  · intro k hk
    have hne : k ≠ h.ticketOf p := by rintro rfl; simp [History.record] at hk
    exact ho.unwritten k (by simpa [History.record, hne] using hk)
  · intro k (hk : h.deliveries.length ≤ k) (hkC : k < h.deliveries.length + capacity)
    by_cases hkp : k = h.ticketOf p
    · have hnot := not_emptying (lockTable_of_reachable hx.fst) (p := p) (i := i)
        (by rw [hpc]; rfl)
      subst hkp
      simpa [History.record, ← hi, hdata] using hnot
    · -- another ticket of the window is for another slot
      have hres : k % capacity ≠ i := fun hres => hkp
        (eq_of_residue hk hkC hunserved (by omega) (hres.trans hi))
      have hflag := ho.flags k hk hkC
      simpa [History.record, hkp, hdata, hres] using hflag
  · intro k hk harrived hfree
    have hkp : k ≠ h.ticketOf p := fun heq => hfree p (by simp) heq.symm
    refine ho.committed k hk (by simpa [History.record, hkp] using harrived) fun q hq => ?_
    by_cases hqp : q = p
    · subst hqp; exact fun heq => hkp heq.symm
    · exact hfree q (by simpa [hqp] using hq)
  · intro j
    by_cases hj : j = i
    · subst hj
      have hfresh : h.content j = {} := (authorship_of_reachable hx).fresh j (.inl hclear)
      simp [History.record, hslot, hfresh]
    · simpa [History.record, hslot, hj] using ho.started j
  · exact hcounter.trans ho.counted
  · intro q j hq
    by_cases hqp : q = p
    · subst hqp; simp at hq
    · exact ho.noOverrun q j (by simpa [hqp] using hq)

/-- The message of a ticket is committed. -/
lemma InTicketOrder.commitPush (ho : InTicketOrder s h) {p : Pid} {i : ℕ}
    (hpc : s.producers p = .writing i) :
    InTicketOrder (s.produce p .idle (s.buffer.commitPush i)) (h.record s (.commitPush p)) := by
  have hactive : s.producers p ≠ .idle := by simp [hpc]
  have hslot : (s.producers p).slot = i := by rw [hpc]; rfl
  have hi : i = h.ticketOf p % capacity :=
    ticket_slot_of_reachable hc hx (p := p) (by rw [hpc]; rfl)
  have htickets : Ticketing s h := ticketing_of_reachable hc hx
  have hissued := htickets.issued p hactive
  have hunserved := ho.unserved p hactive
  have hroom := ho.room
  have harrived := (ho.marked p i (by rw [hpc]; rfl)).1
  have hactive_of : ∀ q, (s.produce p .idle (s.buffer.commitPush i)).producers q ≠ .idle →
      q ≠ p ∧ s.producers q ≠ .idle := by
    intro q hq
    have hqp : q ≠ p := by rintro rfl; simp at hq
    exact ⟨hqp, by simpa [hqp] using hq⟩
  constructor
  · exact ho.served
  · exact ho.room
  · exact fun q hq => ho.unserved q (hactive_of q hq).2
  · intro q hq hnone
    obtain ⟨hqp, hq⟩ := hactive_of q hq
    exact ho.heading q hq (by simpa [hqp] using hnone)
  · intro q j hq
    obtain ⟨hqp, hq'⟩ := RingSystem.marked_of_produce rfl hq
    have hne : h.ticketOf q ≠ h.ticketOf p := fun heq =>
      hqp (htickets.distinct _ _ (RingSystem.active_of_marked hq') hactive heq)
    simpa [History.record, hne] using ho.marked q j hq'
  · exact ho.unissued
  · intro k hk
    have hne : k ≠ h.ticketOf p := by
      rintro rfl
      exact Bool.false_ne_true (hk.symm.trans harrived)
    simpa [History.record, hne] using ho.unwritten k hk
  · exact ho.flags
  · intro k (hk : h.deliveries.length ≤ k) hkarrived hfree
    by_cases hkp : k = h.ticketOf p
    · subst hkp
      simp [History.record, hslot, hi]
    · have hkissued : k < h.tickets := by
        by_contra hge
        exact Bool.false_ne_true ((ho.unissued k (by omega)).symm.trans hkarrived)
      have hres : k % capacity ≠ i := fun hres => hkp
        (eq_of_residue hk (by omega) hunserved (by omega) (hres.trans hi))
      have := ho.committed k hk hkarrived fun q hq => by
        by_cases hqp : q = p
        · subst hqp; exact fun heq => hkp heq.symm
        · exact hfree q (by simpa [hqp] using hq)
      simpa [History.record, hkp, hslot, hres] using this
  · exact ho.started
  · exact ho.counted
  · intro q j hq
    by_cases hqp : q = p
    · subst hqp; simp at hq
    · exact ho.noOverrun q j (by simpa [hqp] using hq)

/-- The slot the consumer copies holds the next ticket's message. -/
lemma InTicketOrder.next (ho : InTicketOrder s h) {i : ℕ} (hpc : s.consumer = .copying i) :
    h.arrived h.deliveries.length = true ∧
      h.written h.deliveries.length = some (h.committed i) ∧
      ∀ p, s.producers p ≠ .idle → h.ticketOf p ≠ h.deliveries.length := by
  have hpos : 0 < capacity := capacity_pos hc
  have hi : i = h.deliveries.length % capacity :=
    (cyclic_of_reachable hc hx).approaching i (by rw [hpc]; rfl)
  have hset : s.buffer.hasData i = true :=
    (popCommitted_of_reachable hx.fst).hasData i (by rw [hpc]; rfl)
  have harrived : h.arrived h.deliveries.length = true :=
    (ho.flags _ le_rfl (by omega)).mpr ⟨hi ▸ hset, by simp [hpc, ConsumerPc.emptying]⟩
  -- a producer with this ticket would hold the slot the consumer holds
  have hfree : ∀ p, s.producers p ≠ .idle → h.ticketOf p ≠ h.deliveries.length := by
    intro p hactive heq
    cases hmarked : (s.producers p).marked with
    | none =>
        have := ho.heading p hactive hmarked
        rw [heq, harrived] at this
        cases this
    | some j =>
        have hj : j = h.ticketOf p % capacity :=
          ticket_slot_of_reachable hc hx (ProducerPc.target_of_marked hmarked)
        obtain rfl : j = i := by rw [hj, heq, hi]
        exact not_marked (lockTable_of_reachable hx.fst) (by rw [hpc]; rfl) p hmarked
  exact ⟨harrived, hi ▸ ho.committed _ le_rfl harrived hfree, hfree⟩

/-- The next ticket's message is served. -/
lemma InTicketOrder.popCopy (ho : InTicketOrder s h) {i : ℕ} (hpc : s.consumer = .copying i)
    {b : TraceMessageRingBuffer capacity} {message : TraceMessage}
    (hdata : b.hasData = s.buffer.hasData)
    (hcounter : b.overflowCounter = s.buffer.overflowCounter) :
    InTicketOrder { s.consume (.recycling i) b with message := message }
      (h.record s .popCopy) := by
  obtain ⟨harrived, hwritten, hfree⟩ := ho.next hc hx hpc
  have hslot : s.consumer.slot = i := by rw [hpc]; rfl
  have hi : i = h.deliveries.length % capacity :=
    (cyclic_of_reachable hc hx).approaching i (by rw [hpc]; rfl)
  have hissued : h.deliveries.length < h.tickets := by
    by_contra hge
    exact Bool.false_ne_true ((ho.unissued _ (by omega)).symm.trans harrived)
  have hlen : (h.record s .popCopy).deliveries.length = h.deliveries.length + 1 := by
    simp [History.record]
  have hroom := ho.room
  constructor
  · rw [hlen]; exact hissued
  · rw [hlen]; exact hroom.trans (by omega)
  · intro p hp
    rw [hlen]
    exact lt_of_le_of_ne (ho.unserved p hp) (Ne.symm (hfree p hp))
  · exact ho.heading
  · exact ho.marked
  · exact ho.unissued
  · exact ho.unwritten
  · intro k hk hkC
    rw [hlen] at hk hkC
    rcases Nat.lt_or_ge k (h.deliveries.length + capacity) with hlt | hge
    · have hres : i ≠ k % capacity := fun hres => absurd
        (eq_of_residue (show h.deliveries.length ≤ k by omega) hlt le_rfl (by omega)
          (hres.symm.trans hi)) (by omega)
      have hflag := ho.flags k (by omega) hlt
      simpa [History.record, hdata, hpc, ConsumerPc.emptying, hres] using hflag
    · -- the ticket entering the window is not issued yet, and its slot is being emptied
      obtain rfl : k = h.deliveries.length + capacity := by omega
      have hnot : h.arrived (h.deliveries.length + capacity) = false := ho.unissued _ hroom
      have hres : (h.deliveries.length + capacity) % capacity = i := by simp [hi]
      simp [History.record, hnot, hres, ConsumerPc.emptying]
  · intro k hk hkarrived hk'
    rw [hlen] at hk
    exact ho.committed k (by omega) hkarrived hk'
  · exact ho.started
  · exact hcounter.trans ho.counted
  · exact ho.noOverrun

omit hc hx in
/-- The flag of a served ticket is cleared. -/
lemma InTicketOrder.popClear (ho : InTicketOrder s h) {i : ℕ} (hpc : s.consumer = .clearing i) :
    InTicketOrder (s.consume (.unlocking i true)
      { s.buffer with hasData := Function.update s.buffer.hasData i false })
      (h.record s .popClear) := by
  constructor
  · exact ho.served
  · exact ho.room
  · exact ho.unserved
  · exact ho.heading
  · exact ho.marked
  · exact ho.unissued
  · exact ho.unwritten
  · intro k (hk : h.deliveries.length ≤ k) (hkC : k < h.deliveries.length + capacity)
    have hflag := ho.flags k hk hkC
    by_cases hres : k % capacity = i
    · simp only [hpc, hres, ConsumerPc.emptying, ne_eq, not_true_eq_false, and_false,
        iff_false] at hflag
      simp [History.record, hres, hflag]
    · simpa [History.record, hpc, hres, Ne.symm hres, ConsumerPc.emptying] using hflag
  · exact ho.committed
  · exact ho.started
  · exact ho.counted
  · exact ho.noOverrun

lemma Step.inTicketOrder (hstep : Step s a s') (hG : keepsRoom (s, h) a = true)
    (ho : InTicketOrder s h) : InTicketOrder s' (h.record s a) := by
  have keeps : KeepsTickets h h := ⟨rfl, rfl, rfl, rfl, rfl, rfl, rfl⟩
  cases hstep with
  | headInc hpc hlt | headIncOver hpc hge =>
      exact ho.issue (by simpa [keepsRoom] using hG) hpc rfl rfl rfl
  | markData hpc hclear => exact ho.mark hc hx hpc rfl rfl
  | markOverrun hpc hset =>
      have hclear := ho.clear_of_marking hc hx hpc
      simp [hset] at hclear
  | @overflowInc p i hpc => exact absurd hpc (ho.noOverrun p i)
  | commitPush hpc => exact ho.commitPush hc hx hpc
  | popCopy hpc => exact ho.popCopy hc hx hpc rfl rfl
  | popClear hpc => exact ho.popClear hpc
  | @producerLock p i collision hpc hbusy =>
      refine ho.produce keeps (by simp [hpc]) (by rw [hpc]; simp; rfl) (fun j => ?_) rfl rfl ?_
      · cases collision <;> simp [RingSystem.producerAcquired]
      · cases collision <;> simp [RingSystem.producerAcquired]
  | headMask hpc | producerSpin hpc | producerWait hpc =>
      exact ho.produce keeps (by simp [hpc]) (by rw [hpc]; rfl) (by simp) rfl rfl (by simp)
  | resettableInc hpc | edit hpc =>
      exact ho.produce ⟨rfl, rfl, rfl, rfl, rfl, rfl, rfl⟩ (by simp [hpc])
        (by simp [hpc, ProducerPc.marked]) (by simp) rfl rfl (by simp)
  | @consumerLock i collision hpc hbusy =>
      refine ho.consume keeps rfl ?_ rfl
      cases collision <;> simp [hpc, RingSystem.consumerAcquired, ConsumerPc.emptying]
  | popFound hpc | popNothing hpc | consumerSpin hpc | consumerWait hpc | popRetest hpc
  | popGone hpc | popRecycle hpc | popUnlock hpc | resetLoad hpc | resetStore hpc =>
      exact ho.consume (by constructor <;> rfl) (by rfl)
        (by simp [hpc, ConsumerPc.emptying]) (by rfl)

end Reached

end Invariant

/-- The runs that keep room in the buffer. -/
def roomyRing (capacity traceMessageCapacity : ℕ) (Pid : Type) [DecidableEq Pid] :
    Machine (RingSystem capacity Pid × History Pid) (Action Pid) :=
  (tracedRing capacity traceMessageCapacity Pid).restrict fun x a => keepsRoom x a

theorem inTicketOrder_of_reachable (hc : ∃ k, capacity = 2 ^ k)
    {x : RingSystem capacity Pid × History Pid}
    (hx : (roomyRing capacity traceMessageCapacity Pid).Reachable x) :
    InTicketOrder x.1 x.2 := by
  refine tracedRing_restrict_invariant hx ?_ ?_
  · intro elementMemory message memory
    constructor <;> simp [RingSystem.start, TraceMessageRingBuffer.construct, ProducerPc.marked]
  · intro s h a s' hreach ho hG hstep
    exact hstep.inTicketOrder hc hreach hG ho

/-! ## The refinement -/

/-- What a draft shows in a message of the given capacity. -/
def Draft.shown (traceMessageCapacity : ℕ) (d : Draft) : Shown where
  text := d.text.take traceMessageCapacity
  severity := d.severity.getD severityNotset
  timestamp := d.timestamp.getD 0

/-- The queue a state of the ring buffer stands for. -/
def toQueue (traceMessageCapacity : ℕ) (x : RingSystem capacity Pid × History Pid) :
    TicketQueue Shown where
  issued := x.2.tickets
  arrived := x.2.arrived
  content k := (x.2.written k).map (Draft.shown traceMessageCapacity)
  served := x.2.deliveries.map Delivery.shown

/-- The event of the queue that a step of the ring buffer is; the steps in between are no
event. -/
def queueEvent (traceMessageCapacity : ℕ) (x : RingSystem capacity Pid × History Pid) :
    Action Pid → Option (TicketEvent Shown)
  | .headInc _ => some .issue
  | .markData p => some (.arrive (x.2.ticketOf p))
  | .commitPush p => some (.commit (x.2.ticketOf p) ((x.2.draft p).shown traceMessageCapacity))
  | .popCopy => some (.serve x.1.popped.shown)
  | .popTest => if x.1.buffer.hasData x.1.buffer.tail then none else some .refuse
  | .popUnlock => match x.1.consumer with
      | .unlocking _ false => some .refuse
      | _ => none
  | _ => none

section Refinement

variable {s : RingSystem capacity Pid} {h : History Pid}

/-- The consumer's copy of a slot that was handed out empty shows what was committed to it. -/
lemma shown_of_copying (hx : (tracedRing capacity traceMessageCapacity Pid).Reachable (s, h))
    {i : ℕ} (hstarted : h.started i = {}) (hpc : s.consumer = .copying i) :
    s.popped.shown = (h.committed i).shown traceMessageCapacity := by
  have hset : s.buffer.hasData i = true :=
    (popCommitted_of_reachable hx.fst).hasData i (by rw [hpc]; rfl)
  have hcontent : h.content i = h.committed i := by
    have := (authorship_of_reachable hx).committed i hset (by simp [hpc])
      (not_marked (lockTable_of_reachable hx.fst) (by rw [hpc]; rfl))
    rwa [hstarted, Draft.empty_followedBy] at this
  have hshows : Shows traceMessageCapacity (s.buffer.elements i) (h.committed i) :=
    hcontent ▸ contents_of_reachable hx i
  simp [RingSystem.popped_of_copying hpc, TraceMessage.shown, Draft.shown,
    TraceMessage.text_assign, hshows.text.text_eq,
    hshows.severity, hshows.timestamp]

/-- A pop that finds no data under the tail comes before the next ticket. -/
lemma InTicketOrder.not_arrived (ho : InTicketOrder s h) (hc : ∃ k, capacity = 2 ^ k)
    (hx : (tracedRing capacity traceMessageCapacity Pid).Reachable (s, h))
    (hclear : s.buffer.hasData s.buffer.tail = false) :
    h.arrived h.deliveries.length = false := by
  have hpos : 0 < capacity := capacity_pos hc
  have htail : s.buffer.tail = h.deliveries.length % capacity := (cyclic_of_reachable hc hx).tail
  have hflag := ho.flags h.deliveries.length le_rfl (by omega)
  by_contra harrived
  have := (hflag.mp (by simpa using harrived)).1
  rw [← htail, hclear] at this
  cases this

end Refinement

/-- **The simulation.**  In the runs that keep room, the ring buffer is simulated by the
queue served in ticket order. -/
def refines_ticketQueue (hc : ∃ k, capacity = 2 ^ k) :
    Machine.Simulation (roomyRing capacity traceMessageCapacity Pid)
      (TicketQueue.machine Shown) (queueEvent traceMessageCapacity) where
  rel x q := q = toQueue traceMessageCapacity x
  init := by
    rintro ⟨s, h⟩ ⟨-, rfl⟩
    exact ⟨_, rfl, rfl⟩
  step := by
    rintro ⟨s, h⟩ _ a ⟨s', h'⟩ hreach rfl hstep
    have ho : InTicketOrder s h := inTicketOrder_of_reachable hc hreach
    have hx : (tracedRing capacity traceMessageCapacity Pid).Reachable (s, h) :=
      hreach.of_restrict
    have htickets : Ticketing s h := ticketing_of_reachable hc hx
    obtain ⟨hs, rfl⟩ := tracedRing_step (Machine.restrict_step_eq_some.mp hstep).2
    change Step s a s' at hs
    clear hstep
    refine ⟨_, ?_, rfl⟩
    cases hs with
    | @markData p i hpc hclear | @markOverrun p i hpc hset =>
        have hactive : s.producers p ≠ .idle := by simp [hpc]
        have hissued := htickets.issued p hactive
        have hheading := ho.heading p hactive (by rw [hpc]; rfl)
        simp [queueEvent, TicketQueue.machine, TicketQueue.step, toQueue, hissued, hheading,
          History.record]
    | @commitPush p i hpc =>
        obtain ⟨harrived, hwritten⟩ := ho.marked p i (by rw [hpc]; rfl)
        have hcontent : (fun k => (Function.update h.written (h.ticketOf p)
            (some (h.draft p)) k).map (Draft.shown traceMessageCapacity)) =
            Function.update (fun k => (h.written k).map (Draft.shown traceMessageCapacity))
              (h.ticketOf p) (some ((h.draft p).shown traceMessageCapacity)) := by
          funext k
          by_cases hk : k = h.ticketOf p
          · subst hk; simp
          · simp [hk]
        simp [queueEvent, TicketQueue.machine, TicketQueue.step, toQueue, harrived, hwritten,
          History.record, hcontent]
    | @popCopy i hpc =>
        obtain ⟨-, hwritten, -⟩ := ho.next hc hx hpc
        have hcontent : (toQueue traceMessageCapacity (s, h)).content
            (toQueue traceMessageCapacity (s, h)).served.length = some s.popped.shown := by
          simp [toQueue, hwritten, shown_of_copying hx (ho.started i) hpc]
        simp only [queueEvent, Option.toList_some, Machine.exec_cons, Machine.exec_nil,
          TicketQueue.machine, TicketQueue.step, hcontent, if_true, Option.bind_some]
        simp [toQueue, History.record, Delivery.shown, TraceMessage.shown]
    | popNothing hpc hclear =>
        have harrived := ho.not_arrived hc hx hclear
        simp [queueEvent, TicketQueue.machine, TicketQueue.step, toQueue, hclear, harrived,
          History.record]
    | popFound hpc hset => simp [queueEvent, hset, History.record, toQueue]
    | @popUnlock i result hpc =>
        obtain rfl := (popCommitted_of_reachable hx.fst).succeeds i result hpc
        simp [queueEvent, hpc, History.record, toQueue]
    | headInc | headIncOver | headMask | producerLock | producerSpin | producerWait
    | overflowInc | resettableInc | edit | consumerLock | consumerSpin | consumerWait
    | popRetest | popGone | popRecycle | popClear | resetLoad | resetStore => rfl

/-- **The ring buffer is a FIFO queue in ticket order**, in every interleaving in which a
ticket is taken only while fewer than `capacity` earlier tickets are unpopped.  The run is a
run of the queue; the `k`-th delivery is the message written under ticket `k`, and the one
that the consumer's message shows after the copy of `pop` and until the next; no overrun is
counted; and `pop` returns `false` only before the next ticket has set its flag. -/
theorem ring_refines_fifo (hc : ∃ k, capacity = 2 ^ k)
    {x₀ x : RingSystem capacity Pid × History Pid} {acts : List (Action Pid)}
    (hinit : (roomyRing capacity traceMessageCapacity Pid).init x₀)
    (hrun : (roomyRing capacity traceMessageCapacity Pid).exec x₀ acts = some x) :
    (TicketQueue.machine Shown).exec .empty ((roomyRing capacity traceMessageCapacity Pid).traceOf
        (queueEvent traceMessageCapacity) x₀ acts) = some (toQueue traceMessageCapacity x) ∧
    (∀ k d, x.2.deliveries[k]? = some d →
      ∃ w, x.2.written k = some w ∧ d.shown = w.shown traceMessageCapacity) ∧
    (∀ x', (tracedRing capacity traceMessageCapacity Pid).step x .popCopy = some x' →
      ∃ d : Delivery, x'.2.deliveries = x.2.deliveries ++ [d] ∧
        d.shown = x'.1.message.shown) ∧
    (∀ d ∈ x.2.deliveries.getLast?, x.1.message.shown = d.shown) ∧
    x.1.buffer.overflowCounter = 0 ∧
    (∀ s', x.1.step .popTest = some s' → s'.consumer = .idle →
      x.2.arrived x.2.deliveries.length = false) ∧
    ∀ i, x.1.consumer ≠ .unlocking i false := by
  have hreach := Machine.reachable_of_exec hinit hrun
  have ho := inTicketOrder_of_reachable hc hreach
  obtain ⟨q₀, q, hq₀, hq, hrel⟩ := (refines_ticketQueue hc).refines hinit hrun
  obtain rfl : q₀ = .empty := hq₀
  obtain rfl : q = toQueue traceMessageCapacity x := hrel
  refine ⟨hq, ?_, fun x' hstep => delivered_popCopy hstep,
    showsLast_of_reachable hreach.of_restrict, ho.counted, ?_, ?_⟩
  · -- the queue's own law, read through `toQueue`
    intro k d hd
    have hserved := TicketQueue.served_of_reachable (Machine.reachable_of_exec rfl hq) k d.shown
      (by simp [toQueue, hd])
    obtain ⟨w, hw, hshown⟩ := Option.map_eq_some_iff.mp hserved
    exact ⟨w, hw, hshown.symm⟩
  · intro s' hstep hidle
    cases Step.of_step hstep with
    | popFound hpc hset => cases hidle
    | popNothing hpc hclear => exact ho.not_arrived hc hreach.of_restrict hclear
  · intro i hpc
    have := (popCommitted_of_reachable hreach.of_restrict.fst).succeeds i false hpc
    cases this

/-- Ticket 1 is committed before ticket 0 has set its flag, the consumer waits for ticket 0,
and ticket 2 is taken as soon as the first message is copied. -/
def overtaking : List (Action Bool) :=
  [.headInc true, .headInc false, .producerLock false, .markData false,
    .edit false (.write (.ofBuffer [98])), .commitPush false, .popTest,
    .producerLock true, .markData true, .popTest, .consumerLock,
    .edit true (.write (.ofBuffer [97])), .commitPush true, .consumerLock, .consumerWait,
    .popRetest, .popCopy, .headInc true, .popRecycle, .popClear, .popUnlock, .headMask true,
    .producerLock true, .markData true, .popTest, .consumerLock, .popRetest, .popCopy]

theorem ring_refines_fifo_overtaking :
    ∃ x, (roomyRing 2 4 Bool).exec (.start 4 (fun _ _ => 7) .empty fun _ => 7, {}) overtaking =
        some x ∧ x.2.deliveries.map Delivery.text = [[97], [98]] ∧ x.1.message.text = [98] ∧
      (∀ k d, x.2.deliveries[k]? = some d →
        ∃ w, x.2.written k = some w ∧ d.shown = w.shown 4) ∧
      (∀ d ∈ x.2.deliveries.getLast?, x.1.message.shown = d.shown) ∧
      x.1.buffer.overflowCounter = 0 := by
  have h : ((roomyRing 2 4 Bool).exec (.start 4 (fun _ _ => 7) .empty fun _ => 7, {})
      overtaking).any (fun x => x.2.deliveries.map Delivery.text = [[97], [98]] ∧
        x.1.message.text = [98]) = true := by decide
  obtain ⟨x, hx, htexts⟩ := (Option.any_eq_true _ _).mp h
  obtain ⟨htexts, hmessage⟩ := of_decide_eq_true htexts
  obtain ⟨-, hfifo, -, hlast, hcounted, -⟩ :=
    ring_refines_fifo ⟨1, rfl⟩ ⟨⟨_, _, _, rfl⟩, rfl⟩ hx
  exact ⟨x, hx, htexts, hmessage, hfifo, hlast, hcounted⟩

end InfiTracing
