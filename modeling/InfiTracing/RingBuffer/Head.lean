import InfiTracing.RingBuffer.Slots

/-!
# The head between its increments and its masks

`reserve_push()` increments `head` in one atomic step and, where the value it got is not below
the capacity, masks it in another one: of whatever the head has become since, and perhaps
after other producers have done the same.  The residue of the head is that of the number of
increments (`Ticketing`); its size is kept down by the masks that are still to come, one for
each increment that went past the end (`headBound_of_reachable`).

`head_law` puts the two together for a run, and draws the conclusion for the words the head
really is: with `capacity + P < 2 ^ w` for `P` producers, no increment of a `w`-bit head ever
wraps, so that the machine with wrapping words has the runs of `ring`.
-/

namespace InfiTracing

open Framework TraceMessageRingBuffer

variable {capacity traceMessageCapacity : ℕ} {Pid : Type} [DecidableEq Pid]

/-! ## Words -/

/-- The system with its head cut to a word of `w` bits. -/
def RingSystem.wrapHead (w : ℕ) (s : RingSystem capacity Pid) : RingSystem capacity Pid :=
  { s with buffer := { s.buffer with head := s.buffer.head % 2 ^ w } }

/-- The machine of all interleavings in which `head` is a word of `w` bits. -/
def wordRing (w capacity traceMessageCapacity : ℕ) (Pid : Type) [DecidableEq Pid] :
    Machine (RingSystem capacity Pid) (Action Pid) where
  init := (ring capacity traceMessageCapacity Pid).init
  step s a := (s.step a).map (RingSystem.wrapHead w)

omit [DecidableEq Pid] in
lemma RingSystem.wrapHead_of_lt {w : ℕ} {s : RingSystem capacity Pid}
    (hlt : s.buffer.head < 2 ^ w) : s.wrapHead w = s := by
  rw [wrapHead, Nat.mod_eq_of_lt hlt]

/-! ## The bound -/

/-- Between an increment that returned `capacity` or more and the mask of `head`. -/
def ProducerPc.isMasking : ProducerPc → Bool
  | .masking _ => true
  | _ => false

@[simp] lemma RingSystem.isMasking_producerAcquired (i : ℕ) (collision : Bool) :
    (RingSystem.producerAcquired i collision).isMasking = false := by
  cases collision <;> rfl

section Bound

variable [Fintype Pid] {s s' : RingSystem capacity Pid} {a : Action Pid}

/-- The head is past the end by no more than the masks still to come. -/
def HeadBound (s : RingSystem capacity Pid) : Prop :=
  s.buffer.head ≤ capacity + s.countProducers ProducerPc.isMasking

/-- A producer's step that leaves the head alone and is not about the mask. -/
lemma HeadBound.produce (hb : HeadBound s) {p : Pid} {pc pc' : ProducerPc}
    {b : TraceMessageRingBuffer capacity} (hpc : s.producers p = pc)
    (hsame : pc'.isMasking = pc.isMasking) (hhead : b.head = s.buffer.head) :
    HeadBound (s.produce p pc' b) := by
  rw [HeadBound, RingSystem.countProducers_produce_of_eq (hsame.trans (by rw [hpc])),
    RingSystem.produce_buffer, hhead]
  exact hb

lemma Step.headBound (hc : 0 < capacity) (hstep : Step s a s') (hb : HeadBound s) :
    HeadBound s' := by
  cases hstep with
  | @headInc p hpc hlt =>
      exact hlt.trans_le (Nat.le_add_right _ _)
  | @headIncOver p hpc hge =>
      -- one more past the end, and one more mask to come
      have hcount := s.countProducers_produce ProducerPc.isMasking p (.masking s.buffer.head)
        { s.buffer with head := s.buffer.head + 1 }
      simp only [hpc, ProducerPc.isMasking, Bool.toNat_false, Bool.toNat_true,
        Nat.add_zero] at hcount
      have hhead : s.buffer.head ≤ capacity + s.countProducers ProducerPc.isMasking := hb
      rw [HeadBound, RingSystem.produce_buffer, hcount]
      exact Nat.succ_le_succ hhead
  | @headMask p r hpc =>
      -- the mask brings the head below the capacity, however far past the end it was
      exact (masked_lt hc _).le.trans (Nat.le_add_right _ _)
  | producerLock hpc hbusy => exact hb.produce hpc (by simp; rfl) rfl
  | producerSpin hpc | producerWait hpc | markData hpc | markOverrun hpc | overflowInc hpc
  | resettableInc hpc | edit hpc | commitPush hpc => exact hb.produce hpc rfl rfl
  | popFound | popNothing | consumerLock | consumerSpin | consumerWait | popRetest | popGone
  | popCopy | popRecycle | popClear | popUnlock | resetLoad | resetStore => exact hb

theorem headBound_of_reachable (hc : 0 < capacity)
    (hs : (ring capacity traceMessageCapacity Pid).Reachable s) : HeadBound s := by
  refine hs.invariant (I := HeadBound) ?_ ?_
  · rintro s ⟨elementMemory, message, memory, rfl⟩
    exact Nat.zero_le _
  · intro s a s' _ hb hstep
    exact (Step.of_step hstep).headBound hc hb

omit [DecidableEq Pid] in
lemma RingSystem.countProducers_le_card (flag : ProducerPc → Bool)
    (s : RingSystem capacity Pid) : s.countProducers flag ≤ Fintype.card Pid :=
  Finset.card_filter_le _ _

/-- **No wrap.**  Words that hold the capacity and the number of producers are large enough. -/
theorem wordRing_exec (hc : 0 < capacity) {w : ℕ} (hw : capacity + Fintype.card Pid < 2 ^ w)
    (hs : (ring capacity traceMessageCapacity Pid).Reachable s) (acts : List (Action Pid)) :
    (wordRing w capacity traceMessageCapacity Pid).exec s acts =
      (ring capacity traceMessageCapacity Pid).exec s acts := by
  refine Machine.exec_congr (fun s a hs => ?_) hs acts
  change (s.step a).map (RingSystem.wrapHead w) = s.step a
  cases ht : s.step a with
  | none => rfl
  | some t =>
      have hhead : t.buffer.head ≤ capacity + t.countProducers ProducerPc.isMasking :=
        headBound_of_reachable hc (.step a hs ht)
      have hcard := t.countProducers_le_card ProducerPc.isMasking
      rw [Option.map_some, RingSystem.wrapHead_of_lt (by omega)]

end Bound

/-! ## The number of an increment -/

/-- A call of `head.inc()`. -/
def Action.isHeadInc : Action Pid → Bool
  | .headInc _ => true
  | _ => false

/-- The slot that the producer's `head.inc()` yields: the value it returned, masked where it is
not below the capacity. -/
def ProducerPc.yields (capacity : ℕ) : ProducerPc → Option ℕ
  | .idle => none
  | .masking r => some (masked capacity r)
  | .locking i _ | .waited i | .marking i | .overflowing i | .overflowed i | .writing i => some i

section Numbers

variable {x x' : RingSystem capacity Pid × History Pid} {acts : List (Action Pid)}

lemma tickets_record (s : RingSystem capacity Pid) (a : Action Pid) (h : History Pid) :
    (h.record s a).tickets = h.tickets + a.isHeadInc.toNat := by
  cases a <;> rfl

lemma ticketOf_record {a : Action Pid} {p : Pid} (hne : a ≠ .headInc p)
    (s : RingSystem capacity Pid) (h : History Pid) :
    (h.record s a).ticketOf p = h.ticketOf p := by
  cases a with
  | headInc q => exact Function.update_of_ne (fun heq => hne (congrArg _ heq.symm)) _ _
  | _ => rfl

/-- The record counts the increments. -/
lemma tickets_of_exec (hrun : (tracedRing capacity traceMessageCapacity Pid).exec x acts =
    some x') : x'.2.tickets = x.2.tickets + acts.countP Action.isHeadInc := by
  induction acts generalizing x with
  | nil => rw [← Option.some.inj hrun, List.countP_nil, Nat.add_zero]
  | cons a acts ih =>
      obtain ⟨y, hy, hrest⟩ := Option.bind_eq_some_iff.mp hrun
      rw [ih hrest, (tracedRing_step hy).2, tickets_record, List.countP_cons]
      cases a.isHeadInc <;> simp only [Bool.toNat_true, Bool.toNat_false, if_true, if_false,
        Bool.false_eq_true] <;> omega

/-- A producer keeps the number of its increment until its next one. -/
lemma ticketOf_of_exec {p : Pid} (hnot : .headInc p ∉ acts)
    (hrun : (tracedRing capacity traceMessageCapacity Pid).exec x acts = some x') :
    x'.2.ticketOf p = x.2.ticketOf p := by
  refine Machine.exec_invariant (M := tracedRing capacity traceMessageCapacity Pid)
    (I := fun y => y.2.ticketOf p = x.2.ticketOf p) (A := fun a => a ≠ .headInc p)
    (fun y a y' hne hy hstep => ?_) (fun a ha heq => hnot (heq ▸ ha)) rfl hrun
  rw [(tracedRing_step hstep).2, ticketOf_record hne]
  exact hy

/-- In a call, the slot is the residue of the ticket. -/
lemma yields_of_reachable (hc : ∃ k, capacity = 2 ^ k)
    (hx : (tracedRing capacity traceMessageCapacity Pid).Reachable x) {p : Pid}
    (hne : x.1.producers p ≠ .idle) :
    (x.1.producers p).yields capacity = some (x.2.ticketOf p % capacity) := by
  cases hpc : x.1.producers p with
  | idle => exact absurd hpc hne
  | masking r =>
      have hslot := (ticketing_of_reachable hc hx).slot p hne
      rw [hpc, ProducerPc.slot] at hslot
      rw [ProducerPc.yields, masked_eq_mod hc, hslot]
  | locking | waited | marking | overflowing | overflowed | writing =>
      exact congrArg some (ticket_slot_of_reachable hc hx (by rw [hpc]; rfl))

end Numbers

/-! ## The law of a run -/

/-- **The head of a run.**  The increment with the number `n`, counted from 0, yields the slot
`n % capacity`, in the whole call it belongs to.  At the end of the run, and so in every state
reached, the head has the residue of the number of increments, and is past the end by no more
than the number of producers that have been past it and have not masked it yet.  So it is at
most `capacity + P`, and a head in a word that holds this number takes the same run. -/
theorem head_law [Fintype Pid] (hc : ∃ k, capacity = 2 ^ k) {s₀ s : RingSystem capacity Pid}
    (hinit : (ring capacity traceMessageCapacity Pid).init s₀) {acts : List (Action Pid)}
    (hrun : (ring capacity traceMessageCapacity Pid).exec s₀ acts = some s) :
    (∀ pre p post, acts = pre ++ .headInc p :: post → .headInc p ∉ post →
        s.producers p ≠ .idle →
        (s.producers p).yields capacity = some (pre.countP Action.isHeadInc % capacity) ∧
          pre.countP Action.isHeadInc % capacity < capacity) ∧
      s.buffer.head % capacity = acts.countP Action.isHeadInc % capacity ∧
      s.buffer.head ≤ capacity + s.countProducers ProducerPc.isMasking ∧
      s.buffer.head ≤ capacity + Fintype.card Pid ∧
      ∀ w, capacity + Fintype.card Pid < 2 ^ w →
        (wordRing w capacity traceMessageCapacity Pid).exec s₀ acts = some s := by
  have hpos := capacity_pos hc
  have hbound : s.buffer.head ≤ capacity + s.countProducers ProducerPc.isMasking :=
    headBound_of_reachable hpos (Machine.reachable_of_exec hinit hrun)
  have hcard := s.countProducers_le_card ProducerPc.isMasking
  have hexists : ∃ h, (tracedRing capacity traceMessageCapacity Pid).exec (s₀, {}) acts =
      some (s, h) := Machine.exists_exec_withHistory hrun _
  obtain ⟨h, htraced⟩ := hexists
  have hreach : (tracedRing capacity traceMessageCapacity Pid).Reachable (s, h) :=
    Machine.reachable_of_exec ⟨hinit, rfl⟩ htraced
  have htickets : h.tickets = acts.countP Action.isHeadInc := by
    rw [tickets_of_exec htraced]
    exact Nat.zero_add _
  refine ⟨fun pre p post hacts hpost hne => ⟨?_, Nat.mod_lt _ hpos⟩, ?_, hbound, by omega,
    fun w hw => ?_⟩
  · -- the ticket of `p` is the number of increments before its own
    rw [hacts, Machine.exec_append] at htraced
    obtain ⟨x, hpre, hrest⟩ := Option.bind_eq_some_iff.mp htraced
    obtain ⟨y, hinc, hpostrun⟩ := Option.bind_eq_some_iff.mp hrest
    have hticket : h.ticketOf p = pre.countP Action.isHeadInc := by
      have hkeep := ticketOf_of_exec hpost hpostrun
      have hcount := tickets_of_exec hpre
      rw [hkeep, (tracedRing_step hinc).2]
      simp only [History.record, Function.update_self, hcount, Nat.zero_add]
    rw [yields_of_reachable hc hreach hne, hticket]
  · rw [(ticketing_of_reachable hc hreach).head, htickets]
  · rw [wordRing_exec hpos hw (.init hinit), hrun]

/-- Two producers on one slot: both cross the end before either of them masks the head. -/
theorem head_law_bothMasking :
    ∃ s, (ring 1 4 Bool).exec (.start 4 (fun _ _ => 7) .empty fun _ => 7)
        [.headInc true, .producerLock true, .markData true, .commitPush true,
          .headInc true, .headInc false] = some s ∧
      s.buffer.head ≤ 1 + s.countProducers ProducerPc.isMasking ∧
      (wordRing 2 1 4 Bool).exec (.start 4 (fun _ _ => 7) .empty fun _ => 7)
        [.headInc true, .producerLock true, .markData true, .commitPush true,
          .headInc true, .headInc false] = some s := by
  obtain ⟨s, hs⟩ := Option.isSome_iff_exists.mp (show ((ring 1 4 Bool).exec
    (.start 4 (fun _ _ => 7) .empty fun _ => 7)
    [.headInc true, .producerLock true, .markData true, .commitPush true,
      .headInc true, .headInc false]).isSome by decide)
  obtain ⟨-, -, hbound, -, hwords⟩ := head_law ⟨0, rfl⟩ ⟨_, _, _, rfl⟩ hs
  exact ⟨s, hs, hbound, hwords 2 (by decide)⟩

end InfiTracing
