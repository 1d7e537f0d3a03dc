import InfiTracing.RingBuffer.Overflow

/-!
# What a failed pop means

`TraceDump::process_remaining` drains the buffer until the first `pop` that returns `false`.
That is right while the tail follows the head: a slot without data is one whose last
reservation the consumer has taken (`lastTaken_of_reachable`), and if the consumer has only
ever moved on to newer messages, an empty slot under the tail means that everything newer
has been taken too (`drained_of_inOrder`).

An overrun moves the head on and leaves the tail where it is.  The consumer then meets the
new message first and the older ones behind it, and once it has passed an older message
after a newer one the tail can stand on an empty slot while another slot holds data
(`pop_fails_on_data`).
-/

namespace InfiTracing

open Framework

variable {capacity traceMessageCapacity : ℕ} {Pid : Type} [DecidableEq Pid]

/-! ## The last reservation of a slot -/

section LastTaken

variable {s s' : RingSystem capacity Pid} {h h' : History Pid} {a : Action Pid}

/-- Which reservations of a slot have been delivered: with data in it, all before the last;
without data, the last too. -/
structure LastTaken (s : RingSystem capacity Pid) (h : History Pid) : Prop where
  passed : ∀ d ∈ h.deliveries, 0 < h.passed d.slot
  ahead : ∀ i, s.buffer.hasData i = true → s.consumer.emptying ≠ some i → 0 < h.passed i ∧
    ∀ d ∈ h.deliveries, d.slot = i → d.position + capacity ≤ h.position capacity i
  taken : ∀ i, s.buffer.hasData i = false ∨ s.consumer.emptying = some i → h.passed i = 0 ∨
    ∃ d ∈ h.deliveries, d.slot = i ∧ d.position = h.position capacity i
  le : ∀ d ∈ h.deliveries, d.position ≤ h.position capacity d.slot

omit [DecidableEq Pid] in
/-- A step that neither marks nor takes. -/
lemma LastTaken.congr (hl : LastTaken s h) (hdata : s'.buffer.hasData = s.buffer.hasData)
    (hemptying : s'.consumer.emptying = s.consumer.emptying) (hpassed : h'.passed = h.passed)
    (hdeliveries : h'.deliveries = h.deliveries) : LastTaken s' h' := by
  have hposition : ∀ i, h'.position capacity i = h.position capacity i := fun i => by
    rw [History.position, hpassed, History.position]
  constructor
  · simpa only [hdeliveries, hpassed] using hl.passed
  · simpa only [hdata, hemptying, hpassed, hdeliveries, hposition] using hl.ahead
  · simpa only [hdata, hemptying, hpassed, hdeliveries, hposition] using hl.taken
  · simpa only [hdeliveries, hposition] using hl.le

/-- A reservation passes the test-and-set: it is ahead of every delivery from its slot. -/
lemma LastTaken.mark (hl : LastTaken s h) (hlocks : LockTable s.held s.buffer.busy) {p : Pid}
    {i : ℕ} {pc : ProducerPc} {b : TraceMessageRingBuffer capacity}
    (hpc : s.producers p = .marking i)
    (hdata : b.hasData = Function.update s.buffer.hasData i true) :
    LastTaken (s.produce p pc b) (h.record s (.markData p)) := by
  have hslot : (s.producers p).slot = i := by rw [hpc]; rfl
  have hemptying := not_emptying hlocks (p := p) (i := i) (by rw [hpc]; rfl)
  have hother : ∀ j, j ≠ i →
      (h.record s (.markData p)).position capacity j = h.position capacity j := by
    intro j hj
    simp [History.position, History.record, hslot, hj]
  have hnew : (h.record s (.markData p)).position capacity i = i + capacity * h.passed i := by
    simp [History.position, History.record, hslot]
  have hstep : 0 < h.passed i →
      h.position capacity i + capacity = i + capacity * h.passed i := by
    intro hpos
    obtain ⟨n, hn⟩ : ∃ n, h.passed i = n + 1 := ⟨h.passed i - 1, by omega⟩
    rw [History.position, hn, Nat.add_sub_cancel, Nat.mul_add]
    omega
  constructor
  · intro d hd
    have := hl.passed d hd
    by_cases hdi : d.slot = i
    · simp [History.record, hslot, hdi]
    · simpa [History.record, hslot, hdi] using this
  · intro j hj hne
    by_cases hji : j = i
    · subst hji
      refine ⟨by simp [History.record, hslot], fun d hd hdj => ?_⟩
      have hle := hl.le d hd
      rw [hdj] at hle
      rw [hnew, ← hstep (hdj ▸ hl.passed d hd)]
      omega
    · have hj' : s.buffer.hasData j = true := by simpa [hdata, hji] using hj
      obtain ⟨hpos, hahead⟩ := hl.ahead j hj' hne
      exact ⟨by simpa [History.record, hslot, hji] using hpos, fun d hd hdj =>
        hother j hji ▸ hahead d hd hdj⟩
  · intro j hj
    have hji : j ≠ i := by
      rintro rfl
      rcases hj with hj | hj
      · simp [hdata] at hj
      · exact hemptying hj
    rcases hl.taken j (by simpa [hdata, hji] using hj) with hzero | htaken
    · exact .inl (by simpa [History.record, hslot, hji] using hzero)
    · exact .inr (hother j hji ▸ htaken)
  · intro d hd
    have hle := hl.le d hd
    by_cases hdi : d.slot = i
    · rw [hdi] at hle ⊢
      rw [hnew, ← hstep (hdi ▸ hl.passed d hd)]
      omega
    · rwa [hother _ hdi]

lemma Step.lastTaken (hstep : Step s a s') (hlocks : LockTable s.held s.buffer.busy)
    (hpop : PopCommitted s) (hl : LastTaken s h) : LastTaken s' (h.record s a) := by
  cases hstep with
  | markData hpc hclear => exact hl.mark hlocks hpc rfl
  | @markOverrun p i hpc hset =>
      have hsame : Function.update s.buffer.hasData i true = s.buffer.hasData :=
        Function.update_eq_self_iff.mpr hset.symm
      exact hl.mark hlocks hpc hsame.symm
  | @popCopy i hpc =>
      have hslot : s.consumer.slot = i := by rw [hpc]; rfl
      obtain ⟨hpos, hahead⟩ := hl.ahead i (hpop.hasData i (by rw [hpc]; rfl))
        (by simp [hpc, ConsumerPc.emptying])
      constructor
      · intro d hd
        simp only [History.record, List.mem_append, List.mem_singleton, hslot] at hd
        rcases hd with hd | rfl
        · exact hl.passed d hd
        · exact hpos
      · intro j hj hne
        have hji : i ≠ j := by simpa [ConsumerPc.emptying] using hne
        obtain ⟨hposj, haheadj⟩ := hl.ahead j hj (by simp [hpc, ConsumerPc.emptying])
        refine ⟨hposj, fun d hd hdj => ?_⟩
        simp only [History.record, List.mem_append, List.mem_singleton, hslot] at hd
        rcases hd with hd | rfl
        · exact haheadj d hd hdj
        · exact absurd hdj hji
      · intro j hj
        by_cases hji : j = i
        · subst hji
          exact .inr ⟨_, List.mem_append_right _ (List.mem_singleton_self _), hslot,
            by rw [hslot]; rfl⟩
        · have hj' : s.buffer.hasData j = false := by
            rcases hj with hj | hj
            · exact hj
            · exact absurd (by simpa [ConsumerPc.emptying] using hj.symm) hji
          rcases hl.taken j (.inl hj') with hzero | ⟨d, hd, hdj⟩
          · exact .inl hzero
          · exact .inr ⟨d, List.mem_append_left _ hd, hdj⟩
      · intro d hd
        simp only [History.record, List.mem_append, List.mem_singleton, hslot] at hd
        rcases hd with hd | rfl
        · exact hl.le d hd
        · exact le_rfl
  | @popClear i hpc =>
      refine ⟨hl.passed, fun j hj hne => ?_, fun j hj => ?_, hl.le⟩
      · have hji : j ≠ i := by rintro rfl; simp at hj
        exact hl.ahead j (by simpa [hji] using hj)
          (by simpa [hpc, ConsumerPc.emptying] using Ne.symm hji)
      · by_cases hji : j = i
        · exact hl.taken j (.inr (by rw [hpc, hji]; rfl))
        · exact hl.taken j (.inl (by simpa [hji, ConsumerPc.emptying] using hj))
  | @consumerLock i collision hpc hbusy =>
      refine hl.congr rfl ?_ rfl rfl
      cases collision <;> simp [hpc, RingSystem.consumerAcquired, ConsumerPc.emptying]
  | popFound hpc | popNothing hpc | consumerSpin hpc | consumerWait hpc | popRetest hpc
  | popGone hpc | popRecycle hpc | popUnlock hpc | resetLoad hpc | resetStore hpc =>
      exact hl.congr rfl (by simp [hpc, ConsumerPc.emptying]) rfl rfl
  | headInc | headIncOver | headMask | producerLock | producerSpin | producerWait | overflowInc
  | resettableInc | edit | commitPush => exact hl.congr rfl rfl rfl rfl

theorem lastTaken_of_reachable {x : RingSystem capacity Pid × History Pid}
    (hx : (tracedRing capacity traceMessageCapacity Pid).Reachable x) : LastTaken x.1 x.2 := by
  refine tracedRing_invariant hx ?_ ?_
  · intro elementMemory message memory
    exact ⟨by simp, by simp [RingSystem.start, TraceMessageRingBuffer.construct], by simp,
      by simp⟩
  · intro s h a s' hreach hl hstep
    exact hstep.lastTaken (lockTable_of_reachable hreach.fst)
      (popCommitted_of_reachable hreach.fst) hl

end LastTaken

/-! ## Flags cleared -/

section Cleared

variable {s s' : RingSystem capacity Pid} {h : History Pid} {a : Action Pid}

/-- Every delivery clears its flag, the last one perhaps later. -/
def ClearsDeliveries (s : RingSystem capacity Pid) (h : History Pid) : Prop :=
  h.deliveries.length = h.cleared + s.consumer.emptying.isSome.toNat

lemma Step.clearsDeliveries (hstep : Step s a s') (hcl : ClearsDeliveries s h) :
    ClearsDeliveries s' (h.record s a) := by
  unfold ClearsDeliveries at *
  cases hstep with
  | popCopy hpc =>
      simp only [hpc, ConsumerPc.emptying, Option.isSome_none, Bool.toNat_false] at hcl
      simp [History.record, ConsumerPc.emptying, hcl]
  | @consumerLock i collision hpc hbusy =>
      cases collision <;>
        simpa [hpc, RingSystem.consumerAcquired, ConsumerPc.emptying, History.record] using hcl
  | popFound hpc | popNothing hpc | consumerSpin hpc | consumerWait hpc | popRetest hpc
  | popGone hpc | popRecycle hpc | popClear hpc | popUnlock hpc | resetLoad hpc
  | resetStore hpc => simpa [hpc, ConsumerPc.emptying, History.record] using hcl
  | headInc | headIncOver | headMask | producerLock | producerSpin | producerWait | markData
  | markOverrun | overflowInc | resettableInc | edit | commitPush => exact hcl

theorem clearsDeliveries_of_reachable {x : RingSystem capacity Pid × History Pid}
    (hx : (tracedRing capacity traceMessageCapacity Pid).Reachable x) :
    ClearsDeliveries x.1 x.2 :=
  tracedRing_invariant (I := ClearsDeliveries) hx (fun _ _ _ => rfl)
    fun _ _ _ _ _ hcl hstep => hstep.clearsDeliveries hcl

end Cleared

/-! ## Draining -/

section Drain

/-- The action does not take an older message after a newer one. -/
def takesNewer (x : RingSystem capacity Pid × History Pid) : Action Pid → Bool
  | .popCopy => x.2.deliveries.getLast?.all fun d =>
      d.position < x.2.position capacity x.1.consumer.slot
  | _ => true

/-- The delivered positions increase. -/
def History.InOrder (h : History Pid) : Prop := (h.deliveries.map Delivery.position).SortedLT

lemma inOrder_of_reachable {x : RingSystem capacity Pid × History Pid}
    (hx : ((tracedRing capacity traceMessageCapacity Pid).restrict
      fun x a => takesNewer x a).Reachable x) : x.2.InOrder := by
  refine tracedRing_restrict_invariant (I := fun _ h => h.InOrder) hx
    (fun _ _ _ => List.sortedLT_iff_pairwise.mpr List.Pairwise.nil) ?_
  intro s h a s' _ horder hG hstep
  cases hstep with
  | popCopy hpc =>
      simp only [takesNewer, Option.all_eq_true, decide_eq_true_eq] at hG
      unfold History.InOrder at *
      rw [List.sortedLT_iff_isChain] at *
      simp only [History.record, List.map_append, List.map_cons, List.map_nil]
      refine List.isChain_append.mpr ⟨horder, List.isChain_singleton _, ?_⟩
      rintro q hq r hr
      simp only [List.getLast?_map, Option.mem_map] at hq
      obtain ⟨d, hd, rfl⟩ := hq
      obtain rfl : _ = r := by simpa using hr
      exact hG d hd
  | _ => exact horder

/-- Where every producer is idle, every ticket of a slot has passed its flag. -/
lemma passed_of_idle [Fintype Pid] (hc : ∃ k, capacity = 2 ^ k)
    {x : RingSystem capacity Pid × History Pid}
    (hx : (tracedRing capacity traceMessageCapacity Pid).Reachable x)
    (hidle : ∀ p, x.1.producers p = .idle) {i : ℕ} (hi : i < capacity) :
    x.2.passed i = Nat.count (· % capacity = i) x.2.tickets := by
  have hnone : x.1.countProducers (ProducerPc.heading capacity i) = 0 :=
    (tally_eq_zero _ _).mpr fun p _ => by simp [hidle p, ProducerPc.heading]
  have := visits_of_reachable hc hx i hi
  omega

/-- **An empty slot under the tail.**  With every call finished and the deliveries in order,
no slot holds data if the slot under the tail does not. -/
lemma no_data_of_tail [Fintype Pid] (hc : ∃ k, capacity = 2 ^ k)
    {x : RingSystem capacity Pid × History Pid}
    (hx : (tracedRing capacity traceMessageCapacity Pid).Reachable x) (horder : x.2.InOrder)
    (hidle : ∀ p, x.1.producers p = .idle) (hconsumer : x.1.consumer = .idle)
    (htail : x.1.buffer.hasData x.1.buffer.tail = false) :
    ∀ i < capacity, x.1.buffer.hasData i = false := by
  have hpos : 0 < capacity := capacity_pos hc
  have hcyc := cyclic_of_reachable hc hx
  have hlast := lastTaken_of_reachable hx
  have ht : x.1.buffer.tail < capacity := (slotBounds_of_reachable hpos hx.fst).tail
  have hpassed := fun i hi => passed_of_idle hc hx hidle (i := i) hi
  intro i hi
  by_contra hdata
  rw [Bool.not_eq_false] at hdata
  have hne : i ≠ x.1.buffer.tail := by rintro rfl; simp [htail] at hdata
  -- the message in slot `i` is newer than every delivery from that slot
  obtain ⟨hpos_i, hahead⟩ := hlast.ahead i hdata (by simp [hconsumer, ConsumerPc.emptying])
  have hnewer : x.2.position capacity i < x.2.tickets := by
    rw [History.position, hpassed i hi]
    exact last_of_residue_lt hi (hpassed i hi ▸ hpos_i)
  rcases hlast.taken x.1.buffer.tail (.inl htail) with hzero | ⟨d, hd, hdslot, hdpos⟩
  · -- nothing was ever pushed into the tail's slot: slot `i` is before it and was delivered
    have hall : ∀ k < x.2.tickets, k % capacity ≠ x.1.buffer.tail := fun k hk hkt => by
      have := (le_last_of_residue ht hk hkt).1
      rw [← hpassed _ ht] at this
      omega
    have hfew : x.2.tickets ≤ x.1.buffer.tail := by
      by_contra hmany
      exact hall _ (by omega) (Nat.mod_eq_of_lt ht)
    have hlen : x.1.buffer.tail ≤ x.2.deliveries.length := hcyc.tail ▸ Nat.mod_le _ _
    have hile : i ≤ x.2.position capacity i := Nat.le_add_right _ _
    have hj : i < x.2.deliveries.length := by omega
    have hdslot := hcyc.slots i _ (List.getElem?_eq_getElem hj)
    rw [Nat.mod_eq_of_lt hi] at hdslot
    have := hahead _ (List.getElem_mem hj) hdslot
    omega
  · -- the delivery that emptied the tail's slot, and the later one from slot `i`
    obtain ⟨j, hj, rfl⟩ := List.getElem_of_mem hd
    have hjmod : j % capacity = x.1.buffer.tail := by
      rw [← hdslot]
      exact (hcyc.slots j _ (List.getElem?_eq_getElem hj)).symm
    have hlap : j + capacity ≤ x.2.deliveries.length := by
      have hmod : j ≡ x.2.deliveries.length [MOD capacity] := by
        rw [Nat.ModEq, hjmod, hcyc.tail]
      exact hmod.add_le_of_lt hj
    obtain ⟨k, hjk, hkj, hkmod⟩ := exists_cyclic_between hi hne hjmod
    have hk : k < x.2.deliveries.length := by omega
    have hkslot := hcyc.slots k _ (List.getElem?_eq_getElem hk)
    rw [hkmod] at hkslot
    have hlater : x.2.deliveries[j].position < x.2.deliveries[k].position := by
      have := List.pairwise_iff_getElem.mp (List.SortedLT.pairwise horder) j k
        (by simpa using hj) (by simpa using hk) hjk
      simpa using this
    have hgap := hahead _ (List.getElem_mem hk) hkslot
    -- the tail's slot was reserved again before slot `i` was: its last message is not taken
    have hagain := (le_last_of_residue (n := x.2.tickets) ht
      (k := x.2.deliveries[j].position + capacity)
      (by omega) (by
        rw [hdpos, History.position, Nat.add_mod_right, Nat.add_mul_mod_self_left,
          Nat.mod_eq_of_lt ht])).2
    rw [← hpassed _ ht, ← History.position, hdpos] at hagain
    omega

/-- **A failed pop has drained the buffer**, in every run in which no pop takes an older
message after a newer one: when no push is in progress and `pop` returns `false`, no slot
holds data, and every reservation was delivered or counted as an overrun. -/
theorem drained_of_inOrder [Fintype Pid] (hc : ∃ k, capacity = 2 ^ k)
    {x : RingSystem capacity Pid × History Pid}
    (hx : ((tracedRing capacity traceMessageCapacity Pid).restrict
      fun x a => takesNewer x a).Reachable x)
    (hidle : ∀ p, x.1.producers p = .idle) (hconsumer : x.1.consumer = .idle)
    (hpop : (x.1.buffer.pop x.1.message x.1.memory).map Prod.fst = some false) :
    (∀ i < capacity, x.1.buffer.hasData i = false) ∧
      x.2.reservations capacity = x.2.deliveries.length + x.1.buffer.overflowCounter := by
  have hpos : 0 < capacity := capacity_pos hc
  have hreach := hx.of_restrict
  have hempty := no_data_of_tail hc hreach (inOrder_of_reachable hx) hidle hconsumer
    (TraceMessageRingBuffer.hasData_tail_of_pop hpop)
  refine ⟨hempty, ?_⟩
  have hoccupied : x.1.buffer.occupied = 0 :=
    (tally_eq_zero _ _).mpr fun i hi => by simp [hempty i (Finset.mem_range.mp hi)]
  have howed : x.1.countProducers ProducerPc.owesOverflow = 0 :=
    (tally_eq_zero _ _).mpr fun p _ => by simp [hidle p, ProducerPc.owesOverflow]
  have hcleared : x.2.deliveries.length = x.2.cleared + x.1.consumer.emptying.isSome.toNat :=
    clearsDeliveries_of_reachable hreach
  have hnone : x.1.consumer.emptying.isSome.toNat = 0 := by simp [hconsumer, ConsumerPc.emptying]
  have hbalance := reservations_balance hpos hreach
  omega

/-- Two slots: three pushes, two pops, and a fourth push. -/
def overrunThenDrain : List (Action Bool) :=
  [.headInc true, .producerLock true, .markData true, .commitPush true,
    .headInc true, .producerLock true, .markData true, .commitPush true,
    .headInc true, .headMask true, .producerLock true, .markData true, .overflowInc true,
    .resettableInc true, .commitPush true,
    .popTest, .consumerLock, .popRetest, .popCopy, .popRecycle, .popClear, .popUnlock,
    .popTest, .consumerLock, .popRetest, .popCopy, .popRecycle, .popClear, .popUnlock,
    .headInc true, .producerLock true, .markData true, .commitPush true]

/-- The tail is back on slot 0, which is empty, and the fourth push is in slot 1. -/
theorem pop_fails_on_data :
    ∃ x, (tracedRing 2 4 Bool).exec (.start 4 (fun _ _ => 7) .empty fun _ => 7, {})
        overrunThenDrain = some x ∧
      (∀ p, x.1.producers p = .idle) ∧ x.1.consumer = .idle ∧
      (x.1.buffer.pop x.1.message x.1.memory).map Prod.fst = some false ∧
      x.1.buffer.hasData 1 = true := by
  have h : ((tracedRing 2 4 Bool).exec (.start 4 (fun _ _ => 7) .empty fun _ => 7, {})
      overrunThenDrain).any (fun x => decide ((∀ p, x.1.producers p = .idle) ∧
        x.1.consumer = .idle ∧
        (x.1.buffer.pop x.1.message x.1.memory).map Prod.fst = some false ∧
        x.1.buffer.hasData 1 = true)) = true := by decide
  obtain ⟨x, hx, hx'⟩ := (Option.any_eq_true _ _).mp h
  exact ⟨x, hx, of_decide_eq_true hx'⟩

/-- Two pushes and two pops. -/
def pushTwoPopTwo : List (Action Bool) :=
  [.headInc true, .producerLock true, .markData true, .commitPush true,
    .headInc true, .producerLock true, .markData true, .commitPush true,
    .popTest, .consumerLock, .popRetest, .popCopy, .popRecycle, .popClear, .popUnlock,
    .popTest, .consumerLock, .popRetest, .popCopy, .popRecycle, .popClear, .popUnlock]

theorem drained_of_inOrder_pushTwoPopTwo :
    ∃ x, ((tracedRing 2 4 Bool).restrict fun x a => takesNewer x a).exec
        (.start 4 (fun _ _ => 7) .empty fun _ => 7, {}) pushTwoPopTwo = some x ∧
      (∀ i < 2, x.1.buffer.hasData i = false) ∧
      x.2.reservations 2 = x.2.deliveries.length + x.1.buffer.overflowCounter := by
  have h : (((tracedRing 2 4 Bool).restrict fun x a => takesNewer x a).exec
      (.start 4 (fun _ _ => 7) .empty fun _ => 7, {}) pushTwoPopTwo).any (fun x => decide
        ((∀ p, x.1.producers p = .idle) ∧ x.1.consumer = .idle ∧
          (x.1.buffer.pop x.1.message x.1.memory).map Prod.fst = some false)) = true := by
    decide
  obtain ⟨x, hx, hquiet⟩ := (Option.any_eq_true _ _).mp h
  obtain ⟨hidle, hconsumer, hpop⟩ := of_decide_eq_true hquiet
  exact ⟨x, hx, drained_of_inOrder ⟨1, rfl⟩
    (Machine.reachable_of_exec ⟨⟨_, _, _, rfl⟩, rfl⟩ hx) hidle hconsumer hpop⟩

end Drain

end InfiTracing
