import InfiTracing.RingBuffer.NoOverrun

/-!
# Handing a ring buffer over to another consumer

A ring buffer outlives the dump that consumes it.  The next one pops into a message buffer of its
own, and nothing in the ring buffer depends on which: its steps are the same
(`exists_step_setMessage`), and so is the record of the run (`History.record_setMessage`).  So what
is known of the runs of a ring buffer holds up to the message (`ReachableUpToMessage`) when its
consumers replace one another.

Whatever the producers are in the middle of, an empty slot under the tail says that the pushes
below the first unfinished one are all delivered (`le_delivered_of_tail`).
-/

namespace InfiTracing

open Framework

variable {capacity traceMessageCapacity : ℕ} {Pid : Type}

/-- The consumer pops into `message`. -/
def RingSystem.setMessage (s : RingSystem capacity Pid) (message : TraceMessage) :
    RingSystem capacity Pid :=
  { s with message }

section Message

variable [DecidableEq Pid] {s s' : RingSystem capacity Pid} {a : Action Pid}

/-- A step other than the copy does the same whatever message the consumer pops into. -/
lemma RingSystem.step_setMessage (ha : a ≠ .popCopy) (message : TraceMessage) :
    (s.setMessage message).step a = (s.step a).map fun s' => s'.setMessage message := by
  cases a with
  | popCopy => exact absurd rfl ha
  | headInc p | headMask p | producerWait p | markData p | overflowInc p | resettableInc p
  | edit p e | commitPush p =>
      simp only [step, setMessage]
      cases s.producers p <;> rfl
  | producerLock p =>
      simp only [step, setMessage]
      cases s.producers p with
      | locking i collision =>
          dsimp only
          cases s.buffer.busy i <;> rfl
      | _ => rfl
  | consumerLock =>
      simp only [step, setMessage]
      cases s.consumer with
      | locking i collision =>
          dsimp only
          cases s.buffer.busy i <;> rfl
      | _ => rfl
  | popTest | consumerWait | popRetest | popRecycle | popClear | popUnlock | resetLoad
  | resetStore =>
      simp only [step, setMessage]
      cases s.consumer <;> rfl

/-- A step is possible whatever message the consumer pops into. -/
lemma exists_step_setMessage (hstep : s.step a = some s') (message : TraceMessage) :
    ∃ message', (s.setMessage message).step a = some (s'.setMessage message') := by
  by_cases ha : a = .popCopy
  · subst ha
    cases Step.of_step hstep with
    | @popCopy i hpc =>
        refine ⟨message.assign (s.buffer.elements i) s.memory, ?_⟩
        simp [RingSystem.step, RingSystem.setMessage, RingSystem.consume, hpc]
  · exact ⟨message, by rw [RingSystem.step_setMessage ha, hstep, Option.map_some]⟩

/-- The record of the run does not depend on it either: the text of a delivery is the slot's. -/
lemma History.record_setMessage (h : History Pid) (hstep : s.step a = some s')
    (message : TraceMessage) : h.record (s.setMessage message) a = h.record s a := by
  cases a with
  | popCopy =>
      cases Step.of_step hstep with
      | @popCopy i hpc =>
          have hpc' : (s.setMessage message).consumer = .copying i := hpc
          simp only [History.record, RingSystem.popped_of_copying hpc,
            RingSystem.popped_of_copying hpc']
          simp [RingSystem.setMessage, TraceMessage.text_assign]
  | _ => rfl

end Message

/-! ## Reachable up to the message -/

section UpToMessage

variable [DecidableEq Pid] {G : RingSystem capacity Pid × History Pid → Action Pid → Prop}
  [∀ x a, Decidable (G x a)]

variable (G traceMessageCapacity) in
/-- The state is one of a run that meets `G`, but for the message the consumer pops into. -/
def ReachableUpToMessage (x : RingSystem capacity Pid × History Pid) : Prop :=
  ∃ message, ((tracedRing capacity traceMessageCapacity Pid).restrict G).Reachable
    (x.1.setMessage message, x.2)

lemma ReachableUpToMessage.step
    (hG : ∀ (s : RingSystem capacity Pid) h message a,
      G (s, h) a → G (s.setMessage message, h) a)
    {s s' : RingSystem capacity Pid} {h : History Pid} {a : Action Pid}
    (hs : ReachableUpToMessage traceMessageCapacity G (s, h)) (ha : G (s, h) a)
    (hstep : s.step a = some s') :
    ReachableUpToMessage traceMessageCapacity G (s', h.record s a) := by
  obtain ⟨message, hreach⟩ := hs
  obtain ⟨message', hstep'⟩ := exists_step_setMessage hstep message
  refine ⟨message', hreach.step a (Machine.restrict_step_eq_some.mpr ⟨hG s h message a ha, ?_⟩)⟩
  exact Machine.withHistory_step_eq_some.mpr ⟨hstep', (h.record_setMessage hstep message).symm⟩

lemma ReachableUpToMessage.setMessage {s : RingSystem capacity Pid} {h : History Pid}
    (hs : ReachableUpToMessage traceMessageCapacity G (s, h)) (message : TraceMessage) :
    ReachableUpToMessage traceMessageCapacity G (s.setMessage message, h) := hs

end UpToMessage

/-! ## What an empty slot under the tail says -/

section Tail

variable [DecidableEq Pid] {s s' : RingSystem capacity Pid} {h : History Pid} {a : Action Pid}

/-- A committed push has passed the flag of its slot. -/
def WrittenPassed (capacity : ℕ) (h : History Pid) : Prop :=
  ∀ k, (h.written k).isSome = true → k / capacity < h.passed (k % capacity)

lemma Step.writtenPassed (hc : ∃ k, capacity = 2 ^ k)
    (hx : (tracedRing capacity traceMessageCapacity Pid).Reachable (s, h)) (hstep : Step s a s')
    (hi : InTurn traceMessageCapacity s h) (hw : WrittenPassed capacity h) :
    WrittenPassed capacity (h.record s a) := by
  cases hstep with
  | @markData p i hpc hclear | @markOverrun p i hpc hset =>
      intro k hk
      have hpassed := hw k hk
      have hslot : (s.producers p).slot = i := by rw [hpc]; rfl
      simp only [History.record, hslot, Function.update_apply]
      split
      · next heq =>
          rw [← heq]
          omega
      · exact hpassed
  | @commitPush p i hpc =>
      have hmarked : (s.producers p).marked = some i := by rw [hpc]; rfl
      have hlt : i < capacity := marked_lt hc hx hmarked
      have hticket : h.ticketOf p = i + capacity * (h.passed i - 1) := hi.marked p i hmarked
      have hpassed : h.passed i = _ + (s.unread i).toNat := hi.passed i hlt
      rw [unread_of_marked hx hmarked, Bool.toNat_true] at hpassed
      intro k hk
      by_cases heq : k = h.ticketOf p
      · have hmod : k % capacity = i := by
          rw [heq, hticket, Nat.add_mul_mod_self_left, Nat.mod_eq_of_lt hlt]
        have hdiv : k / capacity = h.passed i - 1 := by
          rw [heq, hticket, Nat.add_mul_div_left _ _ (Nat.zero_lt_of_lt hlt),
            Nat.div_eq_of_lt hlt, Nat.zero_add]
        show k / capacity < h.passed (k % capacity)
        rw [hmod, hdiv]
        omega
      · have hold : (h.written k).isSome = true := by simpa [History.record, heq] using hk
        exact hw k hold
  | headInc | headIncOver | headMask | producerLock | producerSpin | producerWait | overflowInc
  | resettableInc | edit | popFound | popNothing | consumerLock | consumerSpin | consumerWait
  | popRetest | popGone | popCopy | popRecycle | popClear | popUnlock | resetLoad | resetStore =>
      exact hw

theorem writtenPassed_of_reachable (hc : ∃ k, capacity = 2 ^ k)
    {x : RingSystem capacity Pid × History Pid}
    (hx : (unoverrunRing capacity traceMessageCapacity Pid).Reachable x) :
    WrittenPassed capacity x.2 := by
  refine (tracedRing_restrict_invariant
    (I := fun s h => InTurn traceMessageCapacity s h ∧ WrittenPassed capacity h) hx ?_ ?_).2
  · intro elementMemory message memory
    have hstart : (unoverrunRing capacity traceMessageCapacity Pid).Reachable
        (.start traceMessageCapacity elementMemory message memory, {}) :=
      .init ⟨⟨elementMemory, message, memory, rfl⟩, rfl⟩
    exact ⟨inTurn_of_reachable hc hstart, fun k hk => by cases hk⟩
  · rintro s h a s' hreach ⟨hi, hw⟩ hG hstep
    exact ⟨hstep.inTurn hc hreach hG hi, hstep.writtenPassed hc hreach hi hw⟩

/-- **The pushes before the first unfinished one are delivered** where the slot under the tail is
empty, whatever the producers are in the middle of. -/
theorem le_delivered_of_tail (hc : ∃ k, capacity = 2 ^ k)
    {x : RingSystem capacity Pid × History Pid}
    (hx : (unoverrunRing capacity traceMessageCapacity Pid).Reachable x)
    (htail : x.1.buffer.hasData x.1.buffer.tail = false) {n : ℕ}
    (hn : ∀ k < n, (x.2.written k).isSome = true) : n ≤ x.2.deliveries.length := by
  by_contra hlt
  have hslot : x.2.deliveries.length % capacity < capacity := Nat.mod_lt _ (capacity_pos hc)
  have hpassed := writtenPassed_of_reachable hc hx _ (hn x.2.deliveries.length (by omega))
  have htail_eq : x.1.buffer.tail = x.2.deliveries.length % capacity :=
    (cyclic_of_reachable hc hx.of_restrict).tail
  have hunread : x.1.unread (x.2.deliveries.length % capacity) = false := by
    rw [RingSystem.unread, ← htail_eq, htail, Bool.false_and]
  rw [(inTurn_of_reachable hc hx).passed _ hslot, hunread, count_residue hslot,
    if_neg (lt_irrefl _)] at hpassed
  simp at hpassed

end Tail

end InfiTracing
