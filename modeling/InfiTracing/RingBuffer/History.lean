import InfiTracing.RingBuffer.Locks

/-!
# What a run has done so far

The properties of the ring buffer speak of more than its state: of the text a reservation
has written, of the order in which messages were delivered, of how often a counter was
incremented.  `History` is the record an observer keeps of a run, `History.record` how the
observer updates it at each step, and `tracedRing` the machine that carries it beside the
system.  The record never influences a step.

A slot is visited once per lap of the head, and `History.position` numbers its visits across
the buffer: the `k`-th reservation of slot `i`, counted from 0, is at position
`i + capacity * k`.  With reservations that pass their test-and-set in ticket order this is
the number of the push.
-/

namespace InfiTracing

open Framework

/-- What one reservation has written into its message, from an empty one. -/
structure Draft where
  text : List UInt8 := []
  severity : Option ℤ := none
  timestamp : Option ℕ := none
  deriving DecidableEq

/-- The edit, on the draft: texts are appended, the other fields overwritten. -/
def Draft.edit (d : Draft) : MessageEdit → Draft
  | .write str => { d with text := d.text ++ str.1 }
  | .setSeverity v => { d with severity := some v }
  | .setTimestamp s u => { d with timestamp := some (s * 1000 + u / 1000) }

/-- What a message holds that held `d` and then had `e` written into it. -/
def Draft.followedBy (d e : Draft) : Draft where
  text := d.text ++ e.text
  severity := e.severity.or d.severity
  timestamp := e.timestamp.or d.timestamp

@[simp] lemma Draft.followedBy_empty (d : Draft) : d.followedBy {} = d := by
  simp [followedBy]

@[simp] lemma Draft.empty_followedBy (d : Draft) : Draft.followedBy {} d = d := by
  simp [followedBy]

lemma Draft.followedBy_edit (d e : Draft) (edit : MessageEdit) :
    d.followedBy (e.edit edit) = (d.followedBy e).edit edit := by
  cases edit <;> simp [followedBy, Draft.edit]

/-- One message handed over by `pop`: what the consumer's copy shows, the slot and position
it came from, what the slot held when it was last reserved, and what that reservation had
written and committed. -/
structure Delivery where
  slot : ℕ
  position : ℕ
  text : List UInt8
  severity : ℤ
  timestamp : ℕ
  started : Draft
  committed : Draft
  deriving DecidableEq

/-- What a reader sees of a message. -/
structure Shown where
  text : List UInt8
  severity : ℤ
  timestamp : ℕ
  deriving DecidableEq

/-- What the consumer's copy of a message shows. -/
def TraceMessage.shown (m : TraceMessage) : Shown := ⟨m.text, m.severity, m.timestamp⟩

/-- What was delivered. -/
def Delivery.shown (d : Delivery) : Shown := ⟨d.text, d.severity, d.timestamp⟩

/-- The record of a run. -/
structure History (Pid : Type) where
  /-- Calls of `head.inc()`. -/
  tickets : ℕ := 0
  /-- The number of that call in the producer's current reservation. -/
  ticketOf : Pid → ℕ := fun _ => 0
  /-- What the producer's current reservation has written. -/
  draft : Pid → Draft := fun _ => {}
  /-- What was written into the slot since it was last recycled. -/
  content : ℕ → Draft := fun _ => {}
  /-- What the slot held when it was last reserved. -/
  started : ℕ → Draft := fun _ => {}
  /-- Reservations of the slot that have passed the test-and-set of its flag. -/
  passed : ℕ → ℕ := fun _ => 0
  /-- Tickets whose reservation has passed it. -/
  arrived : ℕ → Bool := fun _ => false
  /-- What the last reservation committed to the slot had written. -/
  committed : ℕ → Draft := fun _ => {}
  /-- What was written and committed under the ticket. -/
  written : ℕ → Option Draft := fun _ => none
  /-- The messages handed over, in order. -/
  deliveries : List Delivery := []
  /-- Flags cleared by `pop`. -/
  cleared : ℕ := 0
  /-- Values returned by `get_and_reset_overflow_counter`. -/
  reports : List ℕ := []
  /-- Increments of `resettable_overflow_counter` between the load and the store of a reset. -/
  lost : ℕ := 0

/-- The consumer's message after the step in which `pop` copies the slot. -/
def RingSystem.popped {capacity : ℕ} {Pid : Type} [DecidableEq Pid]
    (s : RingSystem capacity Pid) : TraceMessage :=
  ((s.step .popCopy).getD s).message

namespace History

variable {capacity : ℕ} {Pid : Type}

/-- The position of the last reservation of slot `i` that passed its test-and-set. -/
def position (capacity : ℕ) (h : History Pid) (i : ℕ) : ℕ := i + capacity * (h.passed i - 1)

/-- The record after action `a` is taken in state `s`. -/
def record [DecidableEq Pid] (s : RingSystem capacity Pid) (a : Action Pid)
    (h : History Pid) : History Pid :=
  match a with
  | .headInc p => { h with
      tickets := h.tickets + 1
      ticketOf := Function.update h.ticketOf p h.tickets }
  | .markData p => { h with
      passed := Function.update h.passed (s.producers p).slot
        (h.passed (s.producers p).slot + 1)
      arrived := Function.update h.arrived (h.ticketOf p) true
      started := Function.update h.started (s.producers p).slot
        (h.content (s.producers p).slot)
      draft := Function.update h.draft p {} }
  | .resettableInc _ => { h with
      lost := match s.consumer with
        | .resetting _ => h.lost + 1
        | _ => h.lost }
  | .edit p e => { h with
      content := Function.update h.content (s.producers p).slot
        ((h.content (s.producers p).slot).edit e)
      draft := Function.update h.draft p ((h.draft p).edit e) }
  | .commitPush p => { h with
      committed := Function.update h.committed (s.producers p).slot (h.draft p)
      written := Function.update h.written (h.ticketOf p) (some (h.draft p)) }
  | .popCopy =>
      let i := s.consumer.slot
      { h with deliveries := h.deliveries ++ [{
          slot := i
          position := position capacity h i
          text := s.popped.text
          severity := s.popped.severity
          timestamp := s.popped.timestamp
          started := h.started i
          committed := h.committed i }] }
  | .popRecycle => { h with content := Function.update h.content s.consumer.slot {} }
  | .popClear => { h with cleared := h.cleared + 1 }
  | .resetStore => { h with
      reports := match s.consumer with
        | .resetting r => h.reports ++ [r]
        | _ => h.reports }
  | _ => h

end History

/-! ## What a delivery shows -/

section

variable {capacity : ℕ} {Pid : Type} [DecidableEq Pid] {s s' : RingSystem capacity Pid}

lemma RingSystem.popped_of_copying {i : ℕ} (hpc : s.consumer = .copying i) :
    s.popped = s.message.assign (s.buffer.elements i) s.memory := by
  simp [popped, step, hpc]

lemma Step.popped (hstep : Step s .popCopy s') : s.popped = s'.message := by
  cases hstep with
  | popCopy hpc => exact RingSystem.popped_of_copying hpc

lemma History.deliveries_record (h : History Pid) {a : Action Pid} (ha : a ≠ .popCopy) :
    (h.record s a).deliveries = h.deliveries := by
  cases a <;> first | rfl | exact absurd rfl ha

/-- A delivery shows what the consumer's message then shows. -/
lemma History.deliveries_popCopy (h : History Pid) (hstep : Step s .popCopy s') :
    ∃ d : Delivery, (h.record s .popCopy).deliveries = h.deliveries ++ [d] ∧
      d.shown = s'.message.shown := by
  refine ⟨_, rfl, ?_⟩
  simp only [Delivery.shown, TraceMessage.shown, hstep.popped]

end

/-- The ring buffer with the record of the run. -/
def tracedRing (capacity traceMessageCapacity : ℕ) (Pid : Type) [DecidableEq Pid] :
    Machine (RingSystem capacity Pid × History Pid) (Action Pid) :=
  (ring capacity traceMessageCapacity Pid).withHistory {} History.record

section

variable {capacity traceMessageCapacity : ℕ} {Pid : Type} [DecidableEq Pid]

/-- A traced step is a step of the system, recorded. -/
lemma tracedRing_step {x x' : RingSystem capacity Pid × History Pid} {a : Action Pid}
    (h : (tracedRing capacity traceMessageCapacity Pid).step x a = some x') :
    Step x.1 a x'.1 ∧ x'.2 = History.record x.1 a x.2 := by
  obtain ⟨hstep, hrec⟩ := Machine.withHistory_step_eq_some.mp h
  exact ⟨Step.of_step hstep, hrec⟩

/-- **The invariant rule for traced runs**: check the predicate on a new buffer with an empty
record, and along each way a step can go. -/
theorem tracedRing_invariant {I : RingSystem capacity Pid → History Pid → Prop}
    {x : RingSystem capacity Pid × History Pid}
    (hx : (tracedRing capacity traceMessageCapacity Pid).Reachable x)
    (hinit : ∀ elementMemory message memory,
      I (.start traceMessageCapacity elementMemory message memory) {})
    (hstep : ∀ s h a s', (tracedRing capacity traceMessageCapacity Pid).Reachable (s, h) →
      I s h → Step s a s' → I s' (h.record s a)) : I x.1 x.2 := by
  refine hx.invariant (I := fun x => I x.1 x.2) ?_ ?_
  · rintro ⟨s, h⟩ ⟨⟨elementMemory, message, memory, rfl⟩, rfl⟩
    exact hinit elementMemory message memory
  · intro x a x' hreach hI hx'
    obtain ⟨hs, hrec⟩ := tracedRing_step hx'
    rw [hrec]
    exact hstep _ _ _ _ hreach hI hs

/-- The same rule for the runs all of whose steps meet a condition `G`. -/
theorem tracedRing_restrict_invariant
    {G : RingSystem capacity Pid × History Pid → Action Pid → Prop} [∀ x a, Decidable (G x a)]
    {I : RingSystem capacity Pid → History Pid → Prop}
    {x : RingSystem capacity Pid × History Pid}
    (hx : ((tracedRing capacity traceMessageCapacity Pid).restrict G).Reachable x)
    (hinit : ∀ elementMemory message memory,
      I (.start traceMessageCapacity elementMemory message memory) {})
    (hstep : ∀ s h a s', (tracedRing capacity traceMessageCapacity Pid).Reachable (s, h) →
      I s h → G (s, h) a → Step s a s' → I s' (h.record s a)) : I x.1 x.2 := by
  refine hx.invariant (I := fun x => I x.1 x.2) ?_ ?_
  · rintro ⟨s, h⟩ ⟨⟨elementMemory, message, memory, rfl⟩, rfl⟩
    exact hinit elementMemory message memory
  · intro x a x' hreach hI hx'
    obtain ⟨hG, hx'⟩ := Machine.restrict_step_eq_some.mp hx'
    obtain ⟨hs, hrec⟩ := tracedRing_step hx'
    rw [hrec]
    exact hstep _ _ _ _ hreach.of_restrict hI hG hs

end

end InfiTracing
