import Mathlib.Data.Fintype.Basic
import Mathlib.Data.Nat.Bitwise
import Mathlib.Data.Nat.Count
import Mathlib.Data.Nat.ModEq
import InfiTracing.Framework.Counting
import InfiTracing.RingBuffer.History

/-!
# Which slot a ticket names

Every index a party works with is below the capacity, and so is the tail
(`slotBounds_of_reachable`, for any positive capacity).

For a capacity that is a power of two, masking is reduction modulo the capacity
(`masked_eq_mod`).  The mask of `head` is a separate atomic step, applied to whatever the
head has become since; what survives every interleaving is the residue:
`head` is congruent to the number of tickets taken (`ticketing_of_reachable`), and so the
producer with ticket `k` works on slot `k % capacity` (`ticket_slot_of_reachable`).
-/

namespace InfiTracing

open Framework TraceMessageRingBuffer

variable {capacity traceMessageCapacity : ℕ} {Pid : Type}

/-! ## Masking -/

lemma masked_lt (hc : 0 < capacity) (space : ℕ) : masked capacity space < capacity := by
  have : space &&& (capacity - 1) ≤ capacity - 1 := Nat.and_le_right
  unfold masked
  omega

lemma capacity_pos (hc : ∃ k, capacity = 2 ^ k) : 0 < capacity := by
  obtain ⟨k, rfl⟩ := hc
  exact Nat.two_pow_pos k

lemma masked_eq_mod (hc : ∃ k, capacity = 2 ^ k) (space : ℕ) :
    masked capacity space = space % capacity := by
  obtain ⟨k, rfl⟩ := hc
  exact Nat.and_two_pow_sub_one_eq_mod space k

/-! ## Bounds -/

/-- The slot a producer works on once its ticket is masked. -/
def ProducerPc.target : ProducerPc → Option ℕ
  | .idle | .masking _ => none
  | .locking i _ | .waited i | .marking i | .overflowing i | .overflowed i | .writing i => some i

/-- The slot a pop under way works on. -/
def ConsumerPc.target : ConsumerPc → Option ℕ
  | .idle | .resetting _ => none
  | .locking i _ | .waited i | .retesting i | .copying i | .recycling i | .clearing i
  | .unlocking i _ => some i

@[simp] lemma RingSystem.target_producerAcquired (i : ℕ) (collision : Bool) :
    (RingSystem.producerAcquired i collision).target = some i := by
  cases collision <;> rfl

@[simp] lemma RingSystem.target_consumerAcquired (i : ℕ) (collision : Bool) :
    (RingSystem.consumerAcquired i collision).target = some i := by
  cases collision <;> rfl

/-- Every slot in use is one of the buffer's. -/
structure SlotBounds (s : RingSystem capacity Pid) : Prop where
  producer : ∀ p i, (s.producers p).target = some i → i < capacity
  consumer : ∀ i, s.consumer.target = some i → i < capacity
  tail : s.buffer.tail < capacity

section

variable [DecidableEq Pid] {s s' : RingSystem capacity Pid} {a : Action Pid}

/-- A producer's step to a slot below the capacity, with the tail where it was. -/
lemma SlotBounds.produce (h : SlotBounds s) {p : Pid} {pc : ProducerPc}
    {b : TraceMessageRingBuffer capacity} (hpc : ∀ i, pc.target = some i → i < capacity)
    (hb : b.tail = s.buffer.tail) : SlotBounds (s.produce p pc b) where
  producer q i hi := by
    by_cases hq : q = p
    · exact hpc i (by simpa [hq] using hi)
    · exact h.producer q i (by simpa [hq] using hi)
  consumer := h.consumer
  tail := hb ▸ h.tail

lemma Step.slotBounds (hc : 0 < capacity) (hstep : Step s a s') (h : SlotBounds s) :
    SlotBounds s' := by
  have keep : ∀ {p : Pid} {pc pc' : ProducerPc}, s.producers p = pc →
      pc'.target = pc.target → ∀ i, pc'.target = some i → i < capacity := by
    intro p pc pc' hpc hsame i hi
    exact h.producer p i (by rw [hpc, ← hsame, hi])
  have keepC : ∀ {pc pc' : ConsumerPc}, s.consumer = pc →
      pc'.target = pc.target → ∀ i, pc'.target = some i → i < capacity := by
    intro pc pc' hpc hsame i hi
    exact h.consumer i (by rw [hpc, ← hsame, hi])
  cases hstep with
  | headInc hpc hlt =>
      exact h.produce (by rintro i ⟨⟩; exact hlt) rfl
  | headIncOver hpc hge => exact h.produce (by rintro i ⟨⟩) rfl
  | headMask hpc => exact h.produce (by rintro i ⟨⟩; exact masked_lt hc _) rfl
  | producerLock hpc hbusy => exact h.produce (keep hpc (by simp; rfl)) rfl
  | producerSpin hpc | producerWait hpc | markData hpc | markOverrun hpc | overflowInc hpc
  | resettableInc hpc | edit hpc => exact h.produce (keep hpc rfl) rfl
  | commitPush hpc => exact h.produce (by rintro i ⟨⟩) rfl
  | popFound hpc hset => exact ⟨h.producer, by rintro i ⟨⟩; exact h.tail, h.tail⟩
  | consumerLock hpc hbusy => exact ⟨h.producer, keepC hpc (by simp; rfl), h.tail⟩
  | consumerSpin hpc | consumerWait hpc | popRetest hpc | popGone hpc | popRecycle hpc
  | popClear hpc => exact ⟨h.producer, keepC hpc rfl, h.tail⟩
  | popCopy hpc => exact ⟨h.producer, keepC hpc rfl, masked_lt hc _⟩
  | popNothing hpc | popUnlock hpc | resetLoad hpc | resetStore hpc =>
      exact ⟨h.producer, by rintro i ⟨⟩, h.tail⟩

theorem slotBounds_of_reachable (hc : 0 < capacity)
    (hs : (ring capacity traceMessageCapacity Pid).Reachable s) : SlotBounds s := by
  refine hs.invariant (I := SlotBounds) ?_ ?_
  · rintro s ⟨elementMemory, message, memory, rfl⟩
    exact ⟨by rintro p i ⟨⟩, by rintro i ⟨⟩, hc⟩
  · intro s a s' _ h hstep
    exact (Step.of_step hstep).slotBounds hc h

end

/-! ## Counting producers -/

section Flags

variable [Fintype Pid] [DecidableEq Pid]

/-- The producers whose program counter has a property. -/
def RingSystem.countProducers (flag : ProducerPc → Bool) (s : RingSystem capacity Pid) : ℕ :=
  tally Finset.univ (fun pc => flag pc = true) s.producers

lemma RingSystem.countProducers_produce (flag : ProducerPc → Bool)
    (s : RingSystem capacity Pid) (p : Pid) (pc : ProducerPc)
    (b : TraceMessageRingBuffer capacity) :
    (s.produce p pc b).countProducers flag + (flag (s.producers p)).toNat =
      s.countProducers flag + (flag pc).toNat := by
  have := tally_update Finset.univ (fun pc => flag pc = true) (f := s.producers)
    (Finset.mem_univ p) pc
  rw [countProducers, countProducers, produce_producers]
  cases hold : flag (s.producers p) <;> cases hnew : flag pc <;> simpa [hold, hnew] using this

/-- A producer's step between counters that agree on the property. -/
lemma RingSystem.countProducers_produce_of_eq {flag : ProducerPc → Bool}
    {s : RingSystem capacity Pid} {p : Pid} {pc : ProducerPc}
    {b : TraceMessageRingBuffer capacity} (hpc : flag pc = flag (s.producers p)) :
    (s.produce p pc b).countProducers flag = s.countProducers flag := by
  have := s.countProducers_produce flag p pc b
  rw [hpc] at this
  omega

omit [DecidableEq Pid] in
lemma RingSystem.countProducers_start (flag : ProducerPc → Bool) (hidle : flag .idle = false)
    (elementMemory : ℕ → ℕ → UInt8) (message : TraceMessage) (memory : ℕ → UInt8) :
    (start traceMessageCapacity elementMemory message memory :
      RingSystem capacity Pid).countProducers flag = 0 :=
  (tally_eq_zero _ _).mpr (by simp [start, hidle])

end Flags

/-! ## Tickets -/

/-- What the masked indices keep of the tickets they came from. -/
structure Ticketing (s : RingSystem capacity Pid) (h : History Pid) : Prop where
  head : s.buffer.head % capacity = h.tickets % capacity
  slot : ∀ p, s.producers p ≠ .idle →
    (s.producers p).slot % capacity = h.ticketOf p % capacity
  issued : ∀ p, s.producers p ≠ .idle → h.ticketOf p < h.tickets
  distinct : ∀ p q, s.producers p ≠ .idle → s.producers q ≠ .idle →
    h.ticketOf p = h.ticketOf q → p = q

section

variable [DecidableEq Pid] {s s' : RingSystem capacity Pid} {h h' : History Pid} {a : Action Pid}

/-- The next ticket goes to an idle producer. -/
lemma Ticketing.issue (ht : Ticketing s h) {p : Pid} {pc : ProducerPc}
    {b : TraceMessageRingBuffer capacity} (hslot : pc.slot = s.buffer.head)
    (hb : b.head = s.buffer.head + 1) :
    Ticketing (s.produce p pc b) { h with
      tickets := h.tickets + 1
      ticketOf := Function.update h.ticketOf p h.tickets } where
  head := by
    rw [RingSystem.produce_buffer, hb]
    exact Nat.ModEq.add_right 1 ht.head
  slot q hq := by
    by_cases hqp : q = p
    · simpa [hqp, hslot] using ht.head
    · simpa [hqp] using ht.slot q (by simpa [hqp] using hq)
  issued q hq := by
    by_cases hqp : q = p
    · simp [hqp]
    · simpa [hqp] using (ht.issued q (by simpa [hqp] using hq)).trans (Nat.lt_succ_self _)
  distinct q r hq hr heq := by
    -- the new ticket is larger than every ticket in use
    by_cases hqp : q = p <;> by_cases hrp : r = p
    · rw [hqp, hrp]
    · have := ht.issued r (by simpa [hrp] using hr)
      simp [hqp, hrp] at heq
      omega
    · have := ht.issued q (by simpa [hqp] using hq)
      simp [hqp, hrp] at heq
      omega
    · exact ht.distinct q r (by simpa [hqp] using hq) (by simpa [hrp] using hr)
        (by simpa [hqp, hrp] using heq)

/-- A producer keeps its ticket while the residue of its slot stays. -/
lemma Ticketing.produce (ht : Ticketing s h) {p : Pid} {pc : ProducerPc}
    {b : TraceMessageRingBuffer capacity} (htickets : h'.tickets = h.tickets)
    (hticketOf : h'.ticketOf = h.ticketOf) (hb : b.head % capacity = s.buffer.head % capacity)
    (hpc : pc ≠ .idle → s.producers p ≠ .idle ∧
      pc.slot % capacity = (s.producers p).slot % capacity) :
    Ticketing (s.produce p pc b) h' := by
  have hactive : ∀ q, (s.produce p pc b).producers q ≠ .idle → s.producers q ≠ .idle := by
    intro q hq
    by_cases hqp : q = p
    · subst hqp
      exact (hpc (by simpa using hq)).1
    · simpa [hqp] using hq
  refine ⟨by rw [htickets, ← ht.head]; exact hb, fun q hq => ?_, fun q hq => ?_,
    fun q r hq hr heq => ?_⟩
  · rw [hticketOf]
    by_cases hqp : q = p
    · subst hqp
      simpa using (hpc (by simpa using hq)).2.trans (ht.slot q (hactive q hq))
    · simpa [hqp] using ht.slot q (hactive q hq)
  · rw [htickets, hticketOf]
    exact ht.issued q (hactive q hq)
  · exact ht.distinct q r (hactive q hq) (hactive r hr) (by rwa [hticketOf] at heq)

omit [DecidableEq Pid] in
/-- The consumer's steps leave the head and the producers alone. -/
lemma Ticketing.consume (ht : Ticketing s h) (htickets : h'.tickets = h.tickets)
    (hticketOf : h'.ticketOf = h.ticketOf) (hhead : s'.buffer.head = s.buffer.head)
    (hproducers : s'.producers = s.producers) : Ticketing s' h' where
  head := by rw [hhead, htickets, ht.head]
  slot := by rw [hproducers, hticketOf]; exact ht.slot
  issued := by rw [hproducers, hticketOf, htickets]; exact ht.issued
  distinct := by rw [hproducers, hticketOf]; exact ht.distinct

lemma Step.ticketing (hc : ∃ k, capacity = 2 ^ k) (hstep : Step s a s') (ht : Ticketing s h) :
    Ticketing s' (h.record s a) := by
  cases hstep with
  | headInc hpc hlt | headIncOver hpc hge => exact ht.issue rfl rfl
  | headMask hpc =>
      refine ht.produce rfl rfl ?_ fun _ => ⟨by simp [hpc], ?_⟩
      · simp [masked_eq_mod hc]
      · simp [hpc, ProducerPc.slot, masked_eq_mod hc]
  | @producerLock p i collision hpc hbusy =>
      refine ht.produce rfl rfl rfl fun _ => ⟨by simp [hpc], ?_⟩
      cases collision <;> simp [hpc, RingSystem.producerAcquired, ProducerPc.slot]
  | producerSpin hpc | producerWait hpc | markData hpc | markOverrun hpc | overflowInc hpc
  | resettableInc hpc | edit hpc =>
      exact ht.produce rfl rfl rfl fun _ => by simp [hpc, ProducerPc.slot]
  | commitPush hpc => exact ht.produce rfl rfl rfl fun hne => absurd rfl hne
  | popFound | popNothing | consumerLock | consumerSpin | consumerWait | popRetest | popGone
  | popCopy | popRecycle | popClear | popUnlock | resetLoad | resetStore =>
      exact ht.consume rfl rfl rfl rfl

theorem ticketing_of_reachable (hc : ∃ k, capacity = 2 ^ k)
    {x : RingSystem capacity Pid × History Pid}
    (hx : (tracedRing capacity traceMessageCapacity Pid).Reachable x) : Ticketing x.1 x.2 := by
  refine tracedRing_invariant hx ?_ ?_
  · intro elementMemory message memory
    exact ⟨rfl, by simp [RingSystem.start], by simp [RingSystem.start],
      by simp [RingSystem.start]⟩
  · intro s h a s' _ ht hstep
    exact hstep.ticketing hc ht

/-- **The slot of a ticket.**  Past the mask, the producer with ticket `k` works on slot
`k % capacity`. -/
theorem ticket_slot_of_reachable (hc : ∃ k, capacity = 2 ^ k)
    {x : RingSystem capacity Pid × History Pid}
    (hx : (tracedRing capacity traceMessageCapacity Pid).Reachable x) {p : Pid} {i : ℕ}
    (hi : (x.1.producers p).target = some i) : i = x.2.ticketOf p % capacity := by
  have hpos : 0 < capacity := capacity_pos hc
  have hlt := (slotBounds_of_reachable hpos hx.fst).producer p i hi
  have hne : x.1.producers p ≠ .idle := by intro hidle; simp [hidle, ProducerPc.target] at hi
  have hslot : (x.1.producers p).slot = i := by
    cases hpc : x.1.producers p <;> simp_all [ProducerPc.target, ProducerPc.slot]
  rw [← (ticketing_of_reachable hc hx).slot p hne, hslot, Nat.mod_eq_of_lt hlt]

end

/-! ## Visits -/

section

variable [DecidableEq Pid] [Fintype Pid] {s s' : RingSystem capacity Pid} {h : History Pid}
  {a : Action Pid}

/-- The producer has a ticket for slot `i` and has not passed the test-and-set of its flag. -/
def ProducerPc.heading (capacity i : ℕ) : ProducerPc → Bool
  | .masking r | .locking r _ | .waited r | .marking r => r % capacity = i
  | _ => false

/-- The tickets of slot `i` are the reservations that have passed its flag and those of the
producers on their way to it. -/
def Visits (s : RingSystem capacity Pid) (h : History Pid) : Prop :=
  ∀ i < capacity, h.passed i + s.countProducers (ProducerPc.heading capacity i) =
    Nat.count (· % capacity = i) h.tickets

/-- A new ticket is for the slot its number names. -/
lemma Visits.issue (hv : Visits s h) (ht : Ticketing s h) {p : Pid} {pc : ProducerPc}
    {b : TraceMessageRingBuffer capacity} (hidle : s.producers p = .idle)
    (hpc : ∀ i, pc.heading capacity i = decide (s.buffer.head % capacity = i)) :
    Visits (s.produce p pc b) (h.record s (.headInc p)) := by
  intro i hi
  have hcount := s.countProducers_produce (ProducerPc.heading capacity i) p pc b
  have hold : ProducerPc.heading capacity i .idle = false := rfl
  have := hv i hi
  rw [hidle, hold, hpc, ht.head] at hcount
  by_cases hvisit : h.tickets % capacity = i
  · simp only [hvisit, decide_true, Bool.toNat_true, Bool.toNat_false] at hcount
    simp only [History.record, Nat.count_succ, hvisit, if_true]
    omega
  · simp only [hvisit, decide_false, Bool.toNat_false] at hcount
    simp only [History.record, Nat.count_succ, hvisit, if_false]
    omega

/-- A producer keeps its way. -/
lemma Visits.produce (hv : Visits s h) {h' : History Pid} {p : Pid} {pc : ProducerPc}
    {b : TraceMessageRingBuffer capacity} (hpassed : h'.passed = h.passed)
    (htickets : h'.tickets = h.tickets)
    (hpc : ∀ i, pc.heading capacity i = (s.producers p).heading capacity i) :
    Visits (s.produce p pc b) h' := by
  intro i hi
  rw [hpassed, htickets, RingSystem.countProducers_produce_of_eq (hpc i)]
  exact hv i hi

/-- A producer passes the flag of the slot it was heading for. -/
lemma Visits.pass (hv : Visits s h) (hbounds : SlotBounds s) {p : Pid} {r : ℕ} {pc : ProducerPc}
    {b : TraceMessageRingBuffer capacity} (hold : s.producers p = .marking r)
    (hpc : ∀ i, pc.heading capacity i = false) :
    Visits (s.produce p pc b) (h.record s (.markData p)) := by
  intro i hi
  have hr : r % capacity = r := Nat.mod_eq_of_lt (hbounds.producer p r (by rw [hold]; rfl))
  have hcount := s.countProducers_produce (ProducerPc.heading capacity i) p pc b
  have hon : ProducerPc.heading capacity i (.marking r) = decide (r = i) := by
    rw [ProducerPc.heading, hr]
  have := hv i hi
  rw [hold, hon, hpc] at hcount
  simp only [History.record, hold, ProducerPc.slot, Function.update_apply]
  by_cases hir : i = r
  · simp only [hir, decide_true, Bool.toNat_true, Bool.toNat_false, if_true] at *
    omega
  · simp only [hir, Ne.symm hir, decide_false, Bool.toNat_false, if_false] at *
    omega

lemma Step.visits (hc : ∃ k, capacity = 2 ^ k) (hstep : Step s a s') (hbounds : SlotBounds s)
    (ht : Ticketing s h) (hv : Visits s h) : Visits s' (h.record s a) := by
  cases hstep with
  | headInc hpc hlt | headIncOver hpc hge => exact hv.issue ht hpc fun i => rfl
  | headMask hpc =>
      exact hv.produce rfl rfl fun i => by simp [hpc, ProducerPc.heading, masked_eq_mod hc]
  | @producerLock p i collision hpc hbusy =>
      refine hv.produce rfl rfl fun j => ?_
      cases collision <;> simp [hpc, RingSystem.producerAcquired, ProducerPc.heading]
  | markData hpc hclear | markOverrun hpc hset => exact hv.pass hbounds hpc fun i => rfl
  | producerSpin hpc | producerWait hpc | overflowInc hpc | resettableInc hpc | edit hpc
  | commitPush hpc => exact hv.produce rfl rfl fun i => by simp [hpc, ProducerPc.heading]
  | popFound | popNothing | consumerLock | consumerSpin | consumerWait | popRetest | popGone
  | popCopy | popRecycle | popClear | popUnlock | resetLoad | resetStore => exact hv

theorem visits_of_reachable (hc : ∃ k, capacity = 2 ^ k)
    {x : RingSystem capacity Pid × History Pid}
    (hx : (tracedRing capacity traceMessageCapacity Pid).Reachable x) : Visits x.1 x.2 := by
  have hpos : 0 < capacity := capacity_pos hc
  refine tracedRing_invariant hx ?_ ?_
  · intro elementMemory message memory i hi
    rw [RingSystem.countProducers_start _ rfl]
    simp
  · intro s h a s' hreach hv hstep
    exact hstep.visits hc (slotBounds_of_reachable hpos hreach.fst)
      (ticketing_of_reachable hc hreach) hv

end

/-! ## The tail -/

section

variable [DecidableEq Pid] {s s' : RingSystem capacity Pid} {h : History Pid} {a : Action Pid}

/-- The slot of a message `pop` has copied and whose flag it has not cleared yet. -/
def ConsumerPc.emptying : ConsumerPc → Option ℕ
  | .recycling i | .clearing i => some i
  | _ => none

omit [DecidableEq Pid] in
/-- The consumer is not emptying a slot under a producer's lock. -/
lemma not_emptying (hlocks : LockTable s.held s.buffer.busy) {p : Pid} {i : ℕ}
    (hp : (s.producers p).held = some i) : s.consumer.emptying ≠ some i := by
  intro hemptying
  have hheld : s.consumer.held = some i := by
    cases hcpc : s.consumer <;> simp_all [ConsumerPc.emptying, ConsumerPc.held]
  cases hlocks.exclusive (some p) none i hp hheld

/-- The slot of a pop that has not copied its message yet. -/
def ConsumerPc.approaching : ConsumerPc → Option ℕ
  | .locking i _ | .waited i | .retesting i | .copying i => some i
  | _ => none

/-- Slots are taken in cyclic order: the tail is at the number of deliveries, and a pop is on
the slot of the next delivery or of the last one. -/
structure Cyclic (s : RingSystem capacity Pid) (h : History Pid) : Prop where
  tail : s.buffer.tail = h.deliveries.length % capacity
  approaching : ∀ i, s.consumer.approaching = some i → i = h.deliveries.length % capacity
  emptying : ∀ i, s.consumer.emptying = some i →
    ∃ n, h.deliveries.length = n + 1 ∧ i = n % capacity
  slots : ∀ j d, h.deliveries[j]? = some d → d.slot = j % capacity

lemma Step.cyclic (hc : ∃ k, capacity = 2 ^ k) (hstep : Step s a s') (hcyc : Cyclic s h) :
    Cyclic s' (h.record s a) := by
  cases hstep with
  | popFound hpc hset =>
      refine ⟨hcyc.tail, ?_, by simp [ConsumerPc.emptying], hcyc.slots⟩
      rintro i ⟨⟩
      exact hcyc.tail
  | @consumerLock i collision hpc hbusy =>
      refine ⟨hcyc.tail, fun j hj => hcyc.approaching j ?_, ?_, hcyc.slots⟩
      · cases collision <;>
          simpa [hpc, RingSystem.consumerAcquired, ConsumerPc.approaching] using hj
      · cases collision <;> simp [RingSystem.consumerAcquired, ConsumerPc.emptying]
  | consumerSpin hpc | consumerWait hpc | popRetest hpc =>
      exact ⟨hcyc.tail, fun j hj => hcyc.approaching j (by
        simpa [hpc, ConsumerPc.approaching] using hj), by simp [ConsumerPc.emptying], hcyc.slots⟩
  | @popCopy i hpc =>
      have hi := hcyc.approaching i (by rw [hpc]; rfl)
      have hslot : s.consumer.slot = i := by rw [hpc]; rfl
      refine ⟨?_, by simp [ConsumerPc.approaching], ?_, ?_⟩
      · simp [History.record, masked_eq_mod hc, hcyc.tail]
      · rintro j ⟨⟩
        exact ⟨h.deliveries.length, by simp [History.record], hi⟩
      · intro j d hd
        simp only [History.record, hslot] at hd
        rcases Nat.lt_or_ge j h.deliveries.length with hj | hj
        · exact hcyc.slots j d (by simpa [List.getElem?_append_left hj] using hd)
        · rw [List.getElem?_append_right hj, List.getElem?_singleton] at hd
          split at hd
          · obtain rfl := Option.some.inj hd
            rw [show j = h.deliveries.length by omega, ← hi]
          · cases hd
  | popRecycle hpc =>
      exact ⟨hcyc.tail, by simp [ConsumerPc.approaching], fun i hi => hcyc.emptying i (by
        simpa [hpc, ConsumerPc.emptying] using hi), hcyc.slots⟩
  | popNothing | popGone | popClear | popUnlock | resetLoad | resetStore =>
      exact ⟨hcyc.tail, by simp [ConsumerPc.approaching], by simp [ConsumerPc.emptying],
        hcyc.slots⟩
  | headInc | headIncOver | headMask | producerLock | producerSpin | producerWait | markData
  | markOverrun | overflowInc | resettableInc | edit | commitPush =>
      exact ⟨hcyc.tail, hcyc.approaching, hcyc.emptying, hcyc.slots⟩

theorem cyclic_of_reachable (hc : ∃ k, capacity = 2 ^ k)
    {x : RingSystem capacity Pid × History Pid}
    (hx : (tracedRing capacity traceMessageCapacity Pid).Reachable x) : Cyclic x.1 x.2 := by
  refine tracedRing_invariant hx ?_ ?_
  · intro elementMemory message memory
    exact ⟨by simp [RingSystem.start, TraceMessageRingBuffer.construct],
      by simp [RingSystem.start, ConsumerPc.approaching],
      by simp [RingSystem.start, ConsumerPc.emptying], by simp⟩
  · intro s h a s' _ hcyc hstep
    exact hstep.cyclic hc hcyc

end

end InfiTracing
