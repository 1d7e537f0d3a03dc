import InfiTracing.RingBuffer.Drain
import InfiTracing.RingBuffer.Handover
import InfiTracing.RingBuffer.Overflow
import InfiTracing.TraceDump.Stop
import InfiTracing.TraceMessage.Appends

/-!
# Replacing one trace dump by the next

The module has one ring buffer and, in its global `trace_dump`, one trace dump at a time.
`tracing_output_to_file` and its siblings construct a new one and put it there; the old one is
then destroyed, which stops it.  `unset_tracing` stops the dump and destroys it.  The producers go
on meanwhile: what one dump leaves in the ring buffer is there for the next.

`traceOutput` is this system, with the steps of the dump in use those of `TraceDump/Basic.lean`,
and `OutputHistory` has the log that each dump has written.

Nothing is lost or written twice from one log to the next (`handedOver_of_reachable`), and every
number that `get_and_reset_overflow_counter` returned, unless 0, is in one line of one log
(`reported_of_reachable`).  So the logs account for every push (`rotation_accounts`).
-/

namespace InfiTracing

open Framework

variable {kind : DumpKind} {capacity traceMessageCapacity : ℕ} {Pid : Type}

/-! ## The module -/

/-- The global `trace_dump`, and the ring buffer. -/
structure TraceOutput (capacity : ℕ) (Pid : Type) where
  /-- The class of the dump in use. -/
  kind : DumpKind
  /-- The dump in use; destroyed where `trace_dump` is `None`. -/
  dump : DumpSystem capacity Pid
  /-- The class and the message buffer of the dump that has been constructed to replace it. -/
  next : Option (DumpKind × TraceMessage)

/-- One step of the module or of a party. -/
inductive OutputAction (Pid : Type)
  /-- A step of a producer or of the dump in use. -/
  | run (a : DumpAction Pid)
  /-- `tracing_output_to_*()` constructs a dump.  `messageMemory` is what the bytes allocated for
  its message buffer contain. -/
  | construct (kind : DumpKind) (messageMemory : ℕ → UInt8)
  /-- The new dump is in use, now that the old one is destroyed. -/
  | replace

/-- A new dump on the ring buffer. -/
def DumpSystem.renew (s : DumpSystem capacity Pid) (message : TraceMessage) :
    DumpSystem capacity Pid where
  ring := s.ring.setMessage message
  shutdown := false
  threadRunning := false
  sinkOpen := true
  thread := .absent
  caller := .idle
  destroying := false

namespace TraceOutput

/-- No dump yet, on a new ring buffer. -/
def start (traceMessageCapacity : ℕ) (elementMemory : ℕ → ℕ → UInt8)
    (messageMemory memory : ℕ → UInt8) : TraceOutput capacity Pid where
  kind := .traceDump
  dump := { DumpSystem.construct traceMessageCapacity elementMemory messageMemory memory with
    caller := .destroyed }
  next := none

/-- The step a party takes; `none` where the action is not the next one. -/
def step [DecidableEq Pid] (traceMessageCapacity : ℕ) (s : TraceOutput capacity Pid) :
    OutputAction Pid → Option (TraceOutput capacity Pid)
  | .run a => (s.dump.step s.kind a).map fun dump => { s with dump }
  -- trace_dump = PyFileTraceDump(path)
  | .construct kind messageMemory => match s.next with
    | none => some { s with
        next := some (kind, TraceMessage.empty.realloc messageMemory traceMessageCapacity) }
    | some _ => none
  | .replace => match s.next, s.dump.caller with
    | some (kind, message), .destroyed => some { kind, dump := s.dump.renew message, next := none }
    | _, _ => none

end TraceOutput

/-- The machine of all interleavings on one ring buffer and the dumps that follow one another. -/
def traceOutput (capacity traceMessageCapacity : ℕ) (Pid : Type) [DecidableEq Pid] :
    Machine (TraceOutput capacity Pid) (OutputAction Pid) where
  init s := ∃ elementMemory messageMemory memory,
    s = .start traceMessageCapacity elementMemory messageMemory memory
  step := TraceOutput.step traceMessageCapacity

/-! ## The logs -/

/-- What a call of `process()` wrote. -/
inductive LogEntry
  /-- A message that was popped. -/
  | message (shown : Shown)
  /-- The message of `process_overflow`. -/
  | report (shown : Shown)
  deriving DecidableEq

/-- The message, if the entry is not a report. -/
def LogEntry.toMessage : LogEntry → Option Shown
  | .message shown => some shown
  | .report _ => none

/-- The report, if the entry is one. -/
def LogEntry.toReport : LogEntry → Option Shown
  | .message _ => none
  | .report shown => some shown

/-- The number of pushes, from the first on, that are committed. -/
def History.settled (h : History Pid) : ℕ :=
  ((List.range h.tickets).takeWhile fun k => (h.written k).isSome).length

/-- The record of a run. -/
structure OutputHistory (Pid : Type) where
  /-- The record of the ring buffer. -/
  ring : History Pid := {}
  /-- The logs of the dumps replaced, in order. -/
  earlier : List (List LogEntry) := []
  /-- The log of the dump in use. -/
  log : List LogEntry := []
  /-- The number of pushes that were settled when a `stop()` that drains was last called. -/
  due : ℕ := 0

namespace OutputHistory

/-- The entries of all logs. -/
def entries (h : OutputHistory Pid) : List LogEntry := h.earlier.flatten ++ h.log

/-- The messages in all logs. -/
def messages (h : OutputHistory Pid) : List Shown := h.entries.filterMap LogEntry.toMessage

/-- The reports in all logs. -/
def reports (h : OutputHistory Pid) : List Shown := h.entries.filterMap LogEntry.toReport

/-- What a party's call of `process()` writes: a report if it is in `process_overflow`. -/
def entryOf (s : DumpSystem capacity Pid) (who : Runner) : LogEntry :=
  match s.pump who with
  | some .overflowed => .report s.ring.message.shown
  | _ => .message s.ring.message.shown

/-- The record after action `a` is taken in state `s`. -/
def record [DecidableEq Pid] (s : TraceOutput capacity Pid) (a : OutputAction Pid)
    (h : OutputHistory Pid) : OutputHistory Pid :=
  match a with
  | .run (.produce b) | .run (.consume _ b) => { h with ring := h.ring.record s.dump.ring b }
  | .run (.process who) => { h with log := h.log ++ [entryOf s.dump who] }
  | .run (.callStop _) =>
      { h with due := if s.kind.drains s.dump.sinkOpen then h.ring.settled else h.due }
  | .replace => { h with earlier := h.earlier ++ [h.log], log := [] }
  | _ => h

end OutputHistory

/-- The module with the record of the run. -/
def tracedOutput (capacity traceMessageCapacity : ℕ) (Pid : Type) [DecidableEq Pid] :
    Machine (TraceOutput capacity Pid × OutputHistory Pid) (OutputAction Pid) :=
  (traceOutput capacity traceMessageCapacity Pid).withHistory {} OutputHistory.record

/-! ## What a step can do -/

/-- The ways a step can go. -/
inductive OutputStep [DecidableEq Pid] (traceMessageCapacity : ℕ) (s : TraceOutput capacity Pid) :
    OutputAction Pid → TraceOutput capacity Pid → Prop
  | run {a : DumpAction Pid} {dump : DumpSystem capacity Pid}
      (hstep : DumpStep s.kind s.dump a dump) :
      OutputStep traceMessageCapacity s (.run a) { s with dump }
  | construct {kind : DumpKind} {messageMemory : ℕ → UInt8} (hnext : s.next = none) :
      OutputStep traceMessageCapacity s (.construct kind messageMemory) { s with
        next := some (kind, TraceMessage.empty.realloc messageMemory traceMessageCapacity) }
  | replace {kind : DumpKind} {message : TraceMessage} (hnext : s.next = some (kind, message))
      (hdestroyed : s.dump.caller = .destroyed) :
      OutputStep traceMessageCapacity s .replace
        { kind, dump := s.dump.renew message, next := none }

section Machine

variable [DecidableEq Pid] {s s' : TraceOutput capacity Pid} {a : OutputAction Pid}

/-- **Inversion.**  A step goes one of the ways `OutputStep` lists. -/
theorem OutputStep.of_step (h : s.step traceMessageCapacity a = some s') :
    OutputStep traceMessageCapacity s a s' := by
  cases a with
  | run a =>
      obtain ⟨dump, hdump, rfl⟩ := Option.map_eq_some_iff.mp h
      exact .run (DumpStep.of_step hdump)
  | construct kind messageMemory =>
      simp only [TraceOutput.step] at h
      split at h
      · next hnext => exact Option.some.inj h ▸ .construct hnext
      · cases h
  | replace =>
      simp only [TraceOutput.step] at h
      split at h
      · next hnext hdestroyed => exact Option.some.inj h ▸ .replace hnext hdestroyed
      · cases h

/-- **The invariant rule with the logs**: check the predicate where there is no dump yet, and
along each way a step can go. -/
theorem tracedOutput_invariant {I : TraceOutput capacity Pid → OutputHistory Pid → Prop}
    {x : TraceOutput capacity Pid × OutputHistory Pid}
    (hx : (tracedOutput capacity traceMessageCapacity Pid).Reachable x)
    (hinit : ∀ elementMemory messageMemory memory,
      I (.start traceMessageCapacity elementMemory messageMemory memory) {})
    (hstep : ∀ s h a s', (tracedOutput capacity traceMessageCapacity Pid).Reachable (s, h) →
      I s h → OutputStep traceMessageCapacity s a s' → I s' (h.record s a)) : I x.1 x.2 := by
  refine hx.invariant (I := fun x => I x.1 x.2) ?_ ?_
  · rintro ⟨s, h⟩ ⟨⟨elementMemory, messageMemory, memory, rfl⟩, rfl⟩
    exact hinit elementMemory messageMemory memory
  · rintro ⟨s, h⟩ a ⟨s', h'⟩ hreach hI hx'
    obtain ⟨hs, rfl⟩ := Machine.withHistory_step_eq_some.mp hx'
    exact hstep s h a s' hreach hI (OutputStep.of_step hs)

end Machine

/-! ## One consumer at a time -/

section Consumer

variable {dump : DumpSystem capacity Pid}

/-- The parties of a dump keep apart, and its consumer is where they have it. -/
structure OneConsumer (dump : DumpSystem capacity Pid) : Prop where
  lifecycle : Lifecycle dump
  pumping : Pumping dump

/-- A destroyed dump is not in `pop_and_process`. -/
lemma Lifecycle.pump_of_destroyed (hl : Lifecycle dump) (hdestroyed : dump.caller = .destroyed)
    (who : Runner) : dump.pump who = none := by
  have habsent : dump.thread = .absent := hl.alone (by rw [hdestroyed]; rfl)
  cases who <;> simp [DumpSystem.pump, hdestroyed, habsent]

lemma DumpSystem.pump_renew (dump : DumpSystem capacity Pid) (message : TraceMessage)
    (who : Runner) : (dump.renew message).pump who = none := by
  cases who <;> rfl

lemma OneConsumer.renew (ho : OneConsumer dump) (hdestroyed : dump.caller = .destroyed)
    (message : TraceMessage) : OneConsumer (dump.renew message) := by
  refine ⟨⟨by simp [DumpSystem.renew], by simp [DumpSystem.renew],
    by simp [DumpSystem.renew, CallerPc.pastJoin]⟩, ⟨fun who pc hpc => ?_, fun _ => ?_⟩⟩
  · rw [DumpSystem.pump_renew] at hpc
    cases hpc
  · exact ho.pumping.quiet (ho.lifecycle.pump_of_destroyed hdestroyed)

variable [DecidableEq Pid]

theorem oneConsumer_of_reachable {x : TraceOutput capacity Pid × OutputHistory Pid}
    (hx : (tracedOutput capacity traceMessageCapacity Pid).Reachable x) :
    OneConsumer x.1.dump := by
  refine tracedOutput_invariant (I := fun s _ => OneConsumer s.dump) hx ?_ ?_
  · intro elementMemory messageMemory memory
    refine ⟨⟨by simp [TraceOutput.start, DumpSystem.construct],
      by simp [TraceOutput.start, DumpSystem.construct],
      by simp [TraceOutput.start, DumpSystem.construct]⟩, ⟨fun who pc hpc => ?_, fun _ => rfl⟩⟩
    cases who <;> cases hpc
  · intro s h a s' _ ho hstep
    cases hstep with
    | run hstep => exact ⟨hstep.lifecycle ho.lifecycle, hstep.pumping ho.lifecycle ho.pumping⟩
    | construct hnext => exact ho
    | replace hnext hdestroyed => exact ho.renew hdestroyed _

end Consumer

/-! ## Every message popped is in one log -/

section Messages

variable {s s' : TraceOutput capacity Pid} {dump dump' : DumpSystem capacity Pid}
  {h : OutputHistory Pid}

/-- The record of the ring buffer and the messages in the logs, as one dump would have them. -/
def OutputHistory.asOne (h : OutputHistory Pid) : DumpHistory Pid where
  ring := h.ring
  processed := h.messages

/-- The message in the message buffer that `process` has not been called on, if there is one. -/
def DumpSystem.held (s : DumpSystem capacity Pid) : List Shown :=
  if s.ring.consumer.copied || decide (s.pump .thread = some .processing) ||
      decide (s.pump .caller = some .processing)
    then [s.ring.message.shown] else []

lemma DumpSystem.held_of_holding (hh : dump.Holding) : dump.held = [dump.ring.message.shown] := by
  rcases hh with hcopied | ⟨who, hpc⟩
  · simp [held, hcopied]
  · cases who <;> simp [held, hpc]

lemma DumpSystem.held_of_not_holding (hh : ¬ dump.Holding) : dump.held = [] := by
  have hcopied : dump.ring.consumer.copied = false := by
    by_contra hne
    exact hh (.inl (by simpa using hne))
  have hpump : ∀ who, dump.pump who ≠ some .processing := fun who hpc => hh (.inr ⟨who, hpc⟩)
  simp [held, hcopied, hpump]

lemma Handed.held (hh : Handed dump h.asOne) :
    h.messages ++ dump.held = h.ring.deliveries.map Delivery.shown := by
  by_cases hholding : dump.Holding
  · rw [DumpSystem.held_of_holding hholding]
    exact hh.holding hholding
  · rw [DumpSystem.held_of_not_holding hholding, List.append_nil]
    exact hh.done hholding

namespace OutputHistory

lemma entries_process (h : OutputHistory Pid) (entry : LogEntry) :
    ({ h with log := h.log ++ [entry] } : OutputHistory Pid).entries = h.entries ++ [entry] := by
  simp [entries]

lemma entries_replace (h : OutputHistory Pid) :
    ({ h with earlier := h.earlier ++ [h.log], log := [] } : OutputHistory Pid).entries =
      h.entries := by
  simp [entries]

lemma messages_process (h : OutputHistory Pid) (entry : LogEntry) :
    ({ h with log := h.log ++ [entry] } : OutputHistory Pid).messages =
      h.messages ++ entry.toMessage.toList := by
  rw [messages, entries_process, List.filterMap_append, messages]
  cases entry <;> rfl

lemma reports_process (h : OutputHistory Pid) (entry : LogEntry) :
    ({ h with log := h.log ++ [entry] } : OutputHistory Pid).reports =
      h.reports ++ entry.toReport.toList := by
  rw [reports, entries_process, List.filterMap_append, reports]
  cases entry <;> rfl

end OutputHistory

/-- A dump whose consumer is in no call of the ring buffer and not about to process holds
nothing. -/
lemma DumpSystem.not_holding (hl : Lifecycle dump) {who : Runner} {pc : PumpPc}
    (hpc : dump.pump who = some pc) (hidle : dump.ring.consumer = .idle)
    (hne : pc ≠ .processing) : ¬ dump.Holding := by
  rw [DumpSystem.holding_of_pump hl hpc, hidle]
  simp [ConsumerPc.copied, hne]

/-- A dump that holds nothing before and after a step. -/
lemma Handed.of_not_holding (hh : Handed dump h.asOne) (hbefore : ¬ dump.Holding)
    (hafter : ¬ dump'.Holding) {h' : OutputHistory Pid} (hmessages : h'.messages = h.messages)
    (hring : h'.ring = h.ring) : Handed dump' h'.asOne := by
  refine ⟨fun hholding => absurd hholding hafter, fun _ => ?_⟩
  show h'.messages = h'.ring.deliveries.map Delivery.shown
  rw [hmessages, hring]
  exact hh.done hbefore

variable [DecidableEq Pid]

/-- A step inside `pop_and_process` delivers the next message, or moves the one it has on. -/
lemma Handed.consume (hh : Handed dump h.asOne) (hl : Lifecycle dump) {who : Runner}
    {b : Action Pid} {pc pc' : PumpPc} {ring : RingSystem capacity Pid}
    (hpc : dump.pump who = some pc) (hnext : pc.next dump.ring b = some pc')
    (hstep : Step dump.ring b ring)
    (hl' : Lifecycle (({ dump with ring } : DumpSystem capacity Pid).setPump who pc')) :
    Handed (({ dump with ring } : DumpSystem capacity Pid).setPump who pc')
      { h.asOne with ring := h.ring.record dump.ring b } := by
  have hbefore := DumpSystem.holding_of_pump hl hpc
  have hafter := DumpSystem.holding_of_pump hl' (DumpSystem.pump_setPump _ who pc')
  have hne : pc ≠ .processing := by rintro rfl; cases hnext
  rw [DumpSystem.ring_setPump] at hafter
  simp only [hne, or_false] at hbefore
  rcases (PumpStep.of_next hnext hstep).copied with
    ⟨rfl, hcopied, hcopied'⟩ | ⟨hb, hmessage, hiff⟩
  · -- the message buffer was free, and has the delivery now
    have hdone := hh.done (by rw [hbefore, hcopied]; simp)
    have hdeliveries := h.ring.map_shown_popCopy hstep
    refine ⟨fun _ => ?_, fun hnot => absurd (hafter.mpr (.inl hcopied')) hnot⟩
    rw [DumpSystem.ring_setPump]
    show h.messages ++ [ring.message.shown] = _
    rw [show h.messages = _ from hdone]
    exact hdeliveries.symm
  · refine hh.congr (hafter.trans (hiff.trans hbefore.symm)) ?_ rfl
      (History.deliveries_record _ hb)
    rw [DumpSystem.ring_setPump]
    exact hmessage

/-- A step of the dump in use hands its messages over to the log. -/
lemma DumpStep.handedOver {a : DumpAction Pid} (hstep : DumpStep kind dump a dump')
    (ho : OneConsumer dump) (hs : s.dump = dump) (hh : Handed dump h.asOne) :
    Handed dump' (h.record s (.run a)).asOne := by
  subst hs
  have hcontrol := hstep
  have hl' := hstep.lifecycle ho.lifecycle
  cases hstep with
  | @produce b ring hb hring =>
      have hne : b ≠ .popCopy := by rintro rfl; cases hb
      obtain ⟨hconsumer, hmessage⟩ := consumer_of_byProducer (Step.of_step hring) hb
      refine hh.congr ?_ hmessage rfl (History.deliveries_record _ hne)
      unfold DumpSystem.Holding
      simp only [hconsumer, DumpSystem.pump_ring]
  | consume hpc hnext hring =>
      exact hh.consume ho.lifecycle hpc hnext (Step.of_step hring) hl'
  | @fillOverflow who pid tvSec tvUsec messagesLost hpc =>
      have hidle : s.dump.ring.consumer = .idle := ho.pumping.fits who _ hpc
      refine hh.of_not_holding ?_ ?_ rfl rfl
      · exact DumpSystem.not_holding ho.lifecycle hpc hidle (by simp)
      · refine DumpSystem.not_holding hl' (DumpSystem.pump_setPump _ who _) ?_ (by simp)
        rw [DumpSystem.ring_setPump]
        exact hidle
  | @processOverflow who hpc =>
      have hidle : s.dump.ring.consumer = .idle := ho.pumping.fits who _ hpc
      have hentry : OutputHistory.entryOf s.dump who = .report s.dump.ring.message.shown := by
        simp [OutputHistory.entryOf, hpc]
      refine hh.of_not_holding ?_ ?_ ?_ rfl
      · exact DumpSystem.not_holding ho.lifecycle hpc hidle (by simp)
      · refine DumpSystem.not_holding hl' (DumpSystem.pump_setPump _ who _) ?_ (by simp)
        rw [DumpSystem.ring_setPump]
        exact hidle
      · simp only [OutputHistory.record, OutputHistory.messages_process, hentry,
          LogEntry.toMessage, Option.toList_none, List.append_nil]
  | @process who hpc =>
      have hidle : s.dump.ring.consumer = .idle := ho.pumping.fits who _ hpc
      have hentry : OutputHistory.entryOf s.dump who = .message s.dump.ring.message.shown := by
        simp [OutputHistory.entryOf, hpc]
      have hheld := hh.holding (.inr ⟨who, hpc⟩)
      have hnot : ¬ (s.dump.setPump who (.returned true)).Holding := by
        refine DumpSystem.not_holding hl' (DumpSystem.pump_setPump _ who _) ?_ (by simp)
        rw [DumpSystem.ring_setPump]
        exact hidle
      refine ⟨fun hholding => absurd hholding hnot, fun _ => ?_⟩
      simp only [OutputHistory.asOne, OutputHistory.record, OutputHistory.messages_process,
        hentry, LogEntry.toMessage, Option.toList_some]
      exact hheld
  | _ =>
      have hcontrol := hcontrol.control ho.lifecycle rfl
      exact hh.congr hcontrol.holding (by rw [hcontrol.ring]) rfl rfl

/-- **Every message popped is in one log**, once and in order, whichever dump popped it. -/
theorem handedOver_of_reachable {x : TraceOutput capacity Pid × OutputHistory Pid}
    (hx : (tracedOutput capacity traceMessageCapacity Pid).Reachable x) :
    Handed x.1.dump x.2.asOne := by
  refine tracedOutput_invariant (I := fun s h => Handed s.dump h.asOne) hx ?_ ?_
  · intro elementMemory messageMemory memory
    refine ⟨fun hholding => ?_, fun _ => rfl⟩
    rcases hholding with hcopied | ⟨who, hpc⟩
    · cases hcopied
    · cases who <;> cases hpc
  · intro s h a s' hreach hh hstep
    have ho : OneConsumer s.dump := oneConsumer_of_reachable hreach
    cases hstep with
    | run hstep => exact hstep.handedOver ho rfl hh
    | construct hnext => exact hh
    | @replace kind message hnext hdestroyed =>
        have hnone := ho.lifecycle.pump_of_destroyed hdestroyed
        have hidle := ho.pumping.quiet hnone
        have hbefore : ¬ s.dump.Holding := by
          rintro (hcopied | ⟨who, hpc⟩)
          · rw [hidle] at hcopied
            cases hcopied
          · rw [hnone who] at hpc
            cases hpc
        have hafter : ¬ (s.dump.renew message).Holding := by
          rintro (hcopied | ⟨who, hpc⟩)
          · exact hbefore (.inl hcopied)
          · rw [DumpSystem.pump_renew] at hpc
            cases hpc
        refine hh.of_not_holding hbefore hafter ?_ rfl
        simp only [OutputHistory.record, OutputHistory.messages, OutputHistory.entries_replace]

end Messages

/-! ## The ring buffer from one dump to the next -/

section Ring

/-- The action is this step of the ring buffer. -/
def OutputAction.onRing : OutputAction Pid → Option (Action Pid)
  | .run (.produce b) | .run (.consume _ b) => some b
  | _ => none

/-- The step meets the condition, if it is one of the ring buffer. -/
def overRing (G : RingSystem capacity Pid × History Pid → Action Pid → Prop)
    (x : TraceOutput capacity Pid × OutputHistory Pid) (a : OutputAction Pid) : Prop :=
  ∀ b ∈ a.onRing, G (x.1.dump.ring, x.2.ring) b

variable [DecidableEq Pid] {G : RingSystem capacity Pid × History Pid → Action Pid → Prop}
  [∀ x a, Decidable (G x a)]

instance (x : TraceOutput capacity Pid × OutputHistory Pid) (a : OutputAction Pid) :
    Decidable (overRing G x a) := inferInstanceAs (Decidable (∀ b ∈ a.onRing, _))

/-- **The ring buffer runs as on its own**, but for the message that is popped into. -/
theorem ring_of_restrict
    (hG : ∀ (s : RingSystem capacity Pid) h message a,
      G (s, h) a → G (s.setMessage message, h) a)
    {x : TraceOutput capacity Pid × OutputHistory Pid}
    (hx : ((tracedOutput capacity traceMessageCapacity Pid).restrict
      fun x a => overRing G x a).Reachable x) :
    ReachableUpToMessage traceMessageCapacity G (x.1.dump.ring, x.2.ring) := by
  refine hx.invariant (I := fun x =>
    ReachableUpToMessage traceMessageCapacity G (x.1.dump.ring, x.2.ring)) ?_ ?_
  · rintro ⟨s, h⟩ ⟨⟨elementMemory, messageMemory, memory, rfl⟩, rfl⟩
    exact ⟨.empty, .init ⟨⟨elementMemory, .empty, memory, rfl⟩, rfl⟩⟩
  · rintro ⟨s, h⟩ a ⟨s', h'⟩ - hring hx'
    obtain ⟨ha, hx'⟩ := Machine.restrict_step_eq_some.mp hx'
    obtain ⟨hs, rfl⟩ := Machine.withHistory_step_eq_some.mp hx'
    cases OutputStep.of_step hs with
    | run hstep =>
        cases hstep with
        | produce hb hstep => exact hring.step hG (ha _ rfl) hstep
        | consume hpc hnext hstep =>
            simp only [DumpSystem.ring_setPump]
            exact hring.step hG (ha _ rfl) hstep
        | fillOverflow hpc =>
            simp only [DumpSystem.ring_setPump]
            exact hring.setMessage _
        | processOverflow hpc | process hpc =>
            simp only [DumpSystem.ring_setPump]
            exact hring
        | _ => exact hring
    | construct hnext => exact hring
    | replace hnext hdestroyed => exact hring.setMessage _

/-- In every run it does. -/
lemma ring_of_reachable_output {x : TraceOutput capacity Pid × OutputHistory Pid}
    (hx : (tracedOutput capacity traceMessageCapacity Pid).Reachable x) :
    ∃ message, (tracedRing capacity traceMessageCapacity Pid).Reachable
      (x.1.dump.ring.setMessage message, x.2.ring) := by
  have hfree := hx.restrict_of_forall (G := overRing fun _ _ => True) fun _ _ _ _ => trivial
  obtain ⟨message, hring⟩ := ring_of_restrict (fun _ _ _ _ _ => trivial) hfree
  exact ⟨message, hring.of_restrict⟩

end Ring

/-! ## The text of a report -/

/-- What `process_overflow` prints. -/
def lossText (pid : ℤ) (messagesLost : ℕ) : CString :=
  CString.literal "pid " ++ CString.decimal pid ++ CString.literal " lost " ++
    CString.decimal (toLong messagesLost) ++ CString.literal " messages due to overflow"

/-- The report is of this number: of the text as much as a message of this capacity shows of it. -/
def Shown.ReportOf (traceMessageCapacity : ℕ) (report : Shown) (messagesLost : ℕ) : Prop :=
  ∃ pid, report.text = if (lossText pid messagesLost).1.length ≤ traceMessageCapacity
    then (lossText pid messagesLost).1.take (traceMessageCapacity - 1) else []

section Report

lemma capacity_vnprintf (m : TraceMessage) (maxSize : ℕ) (text : CString) :
    (m.vnprintf maxSize text).2.capacity = m.capacity := by
  rcases Int.lt_or_le m.availSize text.1.length with hlt | hle
  · exact (TraceMessage.vnprintf_of_lt hlt).2.1
  · exact (TraceMessage.vnprintf_of_le hle).2.1

lemma capacity_overflowMessage (m : TraceMessage) (pid : ℤ) (tvSec tvUsec messagesLost : ℕ) :
    (overflowMessage m pid tvSec tvUsec messagesLost).capacity = m.capacity :=
  capacity_vnprintf _ _ _

lemma capacity_assign {m other : TraceMessage} (memory : ℕ → UInt8)
    (h : other.capacity = m.capacity) : (m.assign other memory).capacity = m.capacity := by
  simp [TraceMessage.assign, TraceMessage.resized, h]

lemma capacity_realloc (memory : ℕ → UInt8) (newCapacity : ℕ) :
    (TraceMessage.empty.realloc memory newCapacity).capacity = newCapacity := by
  unfold TraceMessage.realloc
  split
  · rfl
  · obtain rfl : newCapacity = 0 := by omega
    rfl

lemma Step.capacity_message [DecidableEq Pid] {s s' : RingSystem capacity Pid} {b : Action Pid}
    (hstep : Step s b s')
    (helements : ∀ i, (s.buffer.elements i).capacity = s.message.capacity) :
    s'.message.capacity = s.message.capacity := by
  cases hstep with
  | popCopy hpc => exact capacity_assign _ (helements _)
  | _ => rfl

/-- **The message of `process_overflow`** reports the number it is called with. -/
lemma reportOf_overflowMessage (m : TraceMessage) (pid : ℤ)
    (tvSec tvUsec messagesLost : ℕ) :
    (overflowMessage m pid tvSec tvUsec messagesLost).shown.ReportOf m.capacity messagesLost := by
  set target := (m.recycle.setTimestamp tvSec tvUsec).setSeverity 4 with htarget
  have hempty : target.text = [] := (TraceMessage.holds_recycle m).text_eq
  have hends : target.TextEnds := by
    rw [TraceMessage.TextEnds, hempty]
    rfl
  have havail : target.availSize = m.capacity := by
    show ((m.capacity : ℕ) : ℤ) - ((0 : ℕ) : ℤ) = _
    omega
  refine ⟨pid, ?_⟩
  show (target.printf (lossText pid messagesLost)).2.text = _
  rw [TraceMessage.printf]
  split
  · next hle =>
      rw [TraceMessage.text_vnprintf_of_le hends (by omega), hempty, List.nil_append, havail]
      congr 1
      omega
  · next hgt => rw [TraceMessage.text_vnprintf_of_lt hends (by omega), hempty]

end Report

/-- Every message buffer has the capacity of the ring buffer's messages. -/
structure BufferCapacity (traceMessageCapacity : ℕ) (s : TraceOutput capacity Pid) : Prop where
  dump : s.dump.ring.message.capacity = traceMessageCapacity
  next : ∀ kind message, s.next = some (kind, message) → message.capacity = traceMessageCapacity

theorem bufferCapacity_of_reachable [DecidableEq Pid]
    {x : TraceOutput capacity Pid × OutputHistory Pid}
    (hx : (tracedOutput capacity traceMessageCapacity Pid).Reachable x) :
    BufferCapacity traceMessageCapacity x.1 := by
  refine tracedOutput_invariant (I := fun s _ => BufferCapacity traceMessageCapacity s) hx ?_ ?_
  · intro elementMemory messageMemory memory
    exact ⟨capacity_realloc _ _, fun kind message hnext => by cases hnext⟩
  · intro s h a s' hreach hb hstep
    obtain ⟨message, hring⟩ := ring_of_reachable_output hreach
    cases hstep with
    | run hstep =>
        refine ⟨?_, hb.next⟩
        cases hstep with
        | produce hbp hring =>
            exact (consumer_of_byProducer (Step.of_step hring) hbp).2 ▸ hb.dump
        | consume hpc hnext hstep =>
            rw [DumpSystem.ring_setPump]
            refine ((Step.of_step hstep).capacity_message fun i => ?_).trans hb.dump
            exact (contents_of_reachable hring i).capacity.trans hb.dump.symm
        | fillOverflow hpc =>
            rw [DumpSystem.ring_setPump]
            exact (capacity_overflowMessage _ _ _ _ _).trans hb.dump
        | processOverflow hpc | process hpc =>
            rw [DumpSystem.ring_setPump]
            exact hb.dump
        | _ => exact hb.dump
    | construct hnext =>
        refine ⟨hb.dump, ?_⟩
        rintro kind message ⟨⟩
        exact capacity_realloc _ _
    | replace hnext hdestroyed =>
        exact ⟨hb.next _ _ hnext, fun kind message hnext => by cases hnext⟩

/-! ## Every number returned is in one report -/

/-- The values other than 0 that `get_and_reset_overflow_counter` returned. -/
def History.losses (h : History Pid) : List ℕ := h.reports.filter (0 < ·)

/-- The reports in the logs, and what is left to be reported by a run of `pop_and_process`. -/
def ReportedAt (traceMessageCapacity : ℕ) (dump : DumpSystem capacity Pid)
    (h : OutputHistory Pid) : PumpPc → Prop
  | .overflowing messagesLost => ∃ losses, h.ring.losses = losses ++ [messagesLost] ∧
      List.Forall₂ (Shown.ReportOf traceMessageCapacity) h.reports losses
  | .overflowed => List.Forall₂ (Shown.ReportOf traceMessageCapacity)
      (h.reports ++ [dump.ring.message.shown]) h.ring.losses
  | .resetting | .popping | .processing | .returned _ =>
      List.Forall₂ (Shown.ReportOf traceMessageCapacity) h.reports h.ring.losses

/-- The reports in the logs are of the numbers returned, but for the one that is being made. -/
structure Reported (traceMessageCapacity : ℕ) (dump : DumpSystem capacity Pid)
    (h : OutputHistory Pid) : Prop where
  pumping : ∀ who pc, dump.pump who = some pc → ReportedAt traceMessageCapacity dump h pc
  quiet : (∀ who, dump.pump who = none) →
    List.Forall₂ (Shown.ReportOf traceMessageCapacity) h.reports h.ring.losses

section Reported

variable {s s' : TraceOutput capacity Pid} {dump dump' : DumpSystem capacity Pid}
  {h h' : OutputHistory Pid}

/-- The only run of `pop_and_process` goes on. -/
lemma Reported.setPump {who : Runner} {pc : PumpPc}
    (hat : ReportedAt traceMessageCapacity (dump.setPump who pc) h pc)
    (hother : ∀ who', who' ≠ who → dump.pump who' = none) :
    Reported traceMessageCapacity (dump.setPump who pc) h := by
  constructor
  · intro who' pc' hpc'
    by_cases hne : who' = who
    · subst hne
      rw [DumpSystem.pump_setPump] at hpc'
      exact Option.some.inj hpc' ▸ hat
    · rw [DumpSystem.pump_setPump_of_ne hne, hother who' hne] at hpc'
      cases hpc'
  · intro hnone
    have hwho := hnone who
    rw [DumpSystem.pump_setPump] at hwho
    cases hwho

/-- A step that leaves `pop_and_process` and the reports alone. -/
lemma Reported.congr (hr : Reported traceMessageCapacity dump h)
    (hpump : ∀ who, dump'.pump who = dump.pump who)
    (hmessage : dump'.ring.message = dump.ring.message) (hreports : h'.reports = h.reports)
    (hlosses : h'.ring.losses = h.ring.losses) : Reported traceMessageCapacity dump' h' := by
  constructor
  · intro who pc hpc
    have hat := hr.pumping who pc (hpump who ▸ hpc)
    cases pc <;> simpa only [ReportedAt, hmessage, hreports, hlosses] using hat
  · intro hnone
    rw [hreports, hlosses]
    exact hr.quiet fun who => hpump who ▸ hnone who

/-- Where no run of `pop_and_process` is under way, or it has returned, nothing is left to be
reported. -/
lemma Reported.all (hr : Reported traceMessageCapacity dump h)
    (hdone : ∀ who pc, dump.pump who = some pc → ∃ result, pc = .returned result) :
    List.Forall₂ (Shown.ReportOf traceMessageCapacity) h.reports h.ring.losses := by
  by_cases hnone : ∀ who, dump.pump who = none
  · exact hr.quiet hnone
  · obtain ⟨who, hwho⟩ := not_forall.mp hnone
    obtain ⟨pc, hpc⟩ := Option.ne_none_iff_exists'.mp hwho
    obtain ⟨result, rfl⟩ := hdone who pc hpc
    exact hr.pumping who _ hpc

/-- Where a run of `pop_and_process` can only be starting, there is nothing more to report. -/
lemma Reported.of_resetting
    (hall : List.Forall₂ (Shown.ReportOf traceMessageCapacity) h.reports h.ring.losses)
    (hstarts : ∀ who pc, dump.pump who = some pc → pc = .resetting) :
    Reported traceMessageCapacity dump h := by
  refine ⟨fun who pc hpc => ?_, fun _ => hall⟩
  rw [hstarts who pc hpc]
  exact hall

variable [DecidableEq Pid]

/-- A step of control leaves `pop_and_process` alone, or comes between two runs of it. -/
lemma DumpStep.control_pump {a : DumpAction Pid} (hstep : DumpStep kind dump a dump')
    (hl : Lifecycle dump) (ha : a.isControl = true) :
    (∀ who, dump'.pump who = dump.pump who) ∨
      ((∀ who pc, dump.pump who = some pc → ∃ result, pc = .returned result) ∧
        ∀ who pc, dump'.pump who = some pc → pc = .resetting) := by
  cases hstep with
  | produce | consume | fillOverflow | processOverflow | process => cases ha
  | startRunning => exact .inl fun who => rfl
  | start hpc hrunning =>
      have habsent := hl.absent hrunning
      refine .inl fun who => ?_
      cases who <;> simp [DumpSystem.pump, habsent]
  | threadExit hpc | stopRunning hpc | stopIdle hpc | leave hpc | closeSink hpc =>
      refine .inl fun who => ?_
      cases who <;> simp [DumpSystem.pump, hpc]
  | join hpc hexited =>
      refine .inl fun who => ?_
      cases who <;> simp [DumpSystem.pump, hpc, hexited]
  | stopReturn hpc =>
      refine .inl fun who => ?_
      cases who <;> cases hd : dump.destroying <;> simp [DumpSystem.pump, hpc]
  | threadPump hpc =>
      have hcaller : dump.pump .caller = none := hl.pump_caller (by simp [hpc])
      refine .inr ⟨fun who pc hpump => ?_, fun who pc hpump => ?_⟩
      · cases who with
        | thread => simp [DumpSystem.pump, hpc] at hpump
        | caller => rw [hcaller] at hpump; cases hpump
      · cases who with
        | thread => simpa [DumpSystem.pump] using hpump.symm
        | caller => exact absurd (hcaller.symm.trans hpump) (by simp)
  | threadNext hpc =>
      have hcaller : dump.pump .caller = none := hl.pump_caller (by simp [hpc])
      refine .inr ⟨fun who pc hpump => ?_, fun who pc hpump => ?_⟩
      · cases who with
        | thread =>
            simp only [DumpSystem.pump, hpc, Option.some.injEq] at hpump
            exact ⟨_, hpump.symm⟩
        | caller => rw [hcaller] at hpump; cases hpump
      · cases who with
        | thread => simp [DumpSystem.pump] at hpump
        | caller => exact absurd (hcaller.symm.trans hpump) (by simp)
  | drain hpc | drainOn hpc | drained hpc | drainedOpen hpc =>
      have habsent : dump.thread = .absent := hl.alone (by rw [hpc]; rfl)
      refine .inr ⟨fun who pc hpump => ?_, fun who pc hpump => ?_⟩
      · cases who with
        | thread => simp [DumpSystem.pump, habsent] at hpump
        | caller => simp_all [DumpSystem.pump]
      · cases who with
        | thread => simp [DumpSystem.pump, habsent] at hpump
        | caller => simpa [DumpSystem.pump] using hpump.symm

/-- What a step inside `pop_and_process` adds to the numbers returned. -/
lemma PumpStep.losses {ring ring' : RingSystem capacity Pid} {b : Action Pid} {pc pc' : PumpPc}
    (hstep : PumpStep ring pc b pc' ring') (h : History Pid) :
    pc.reportsLoss = false ∧
      ((pc'.reportsLoss = false ∧ (h.record ring b).losses = h.losses) ∨
        ∃ messagesLost, pc' = .overflowing messagesLost ∧
          (h.record ring b).losses = h.losses ++ [messagesLost]) := by
  cases hstep with
  | resetLoad hpc => exact ⟨rfl, .inl ⟨rfl, rfl⟩⟩
  | popFound hpc hset => exact ⟨rfl, .inl ⟨rfl, rfl⟩⟩
  | popNothing hpc hclear => exact ⟨rfl, .inl ⟨rfl, rfl⟩⟩
  | @popUnlock i result hpc =>
      refine ⟨rfl, .inl ⟨?_, rfl⟩⟩
      cases result <;> rfl
  | insidePop hb hstep =>
      refine ⟨rfl, .inl ⟨rfl, ?_⟩⟩
      cases b <;> first | rfl | cases hb
  | @resetStore overflow hpc =>
      have hlosses : (h.record ring .resetStore).losses =
          h.losses ++ [overflow].filter (0 < ·) := by
        simp [History.losses, History.record, hpc, List.filter_append]
      refine ⟨rfl, ?_⟩
      by_cases hpos : 0 < overflow
      · exact .inr ⟨overflow, if_pos hpos, by simp [hlosses, hpos]⟩
      · exact .inl ⟨by rw [if_neg hpos]; rfl, by simp [hlosses, hpos]⟩

/-- A producer's step returns no number. -/
lemma History.losses_of_byProducer {b : Action Pid} (hb : b.byProducer = true) (h : History Pid)
    (ring : RingSystem capacity Pid) : (h.record ring b).losses = h.losses := by
  cases b <;> first | rfl | cases hb

omit [DecidableEq Pid] in
lemma ReportedAt.of_reportsLoss {pc : PumpPc} (hpc : pc.reportsLoss = false) :
    ReportedAt traceMessageCapacity dump h pc ↔
      List.Forall₂ (Shown.ReportOf traceMessageCapacity) h.reports h.ring.losses := by
  cases pc with
  | overflowing | overflowed => cases hpc
  | resetting | popping | processing | returned => exact Iff.rfl

/-- A step of the dump in use keeps its reports up. -/
lemma DumpStep.reported {a : DumpAction Pid} (hstep : DumpStep kind dump a dump')
    (ho : OneConsumer dump) (hs : s.dump = dump)
    (hcap : dump.ring.message.capacity = traceMessageCapacity)
    (hr : Reported traceMessageCapacity dump h) :
    Reported traceMessageCapacity dump' (h.record s (.run a)) := by
  subst hs
  have hcontrol := hstep
  cases hstep with
  | @produce b ring hb hring =>
      have hmessage := (consumer_of_byProducer (Step.of_step hring) hb).2
      exact hr.congr (s.dump.pump_ring ring) hmessage rfl (h.ring.losses_of_byProducer hb _)
  | @consume who b pc pc' ring hpc hnext hring =>
      have hat := hr.pumping who pc hpc
      obtain ⟨hbefore, hafter⟩ := (PumpStep.of_next hnext (Step.of_step hring)).losses h.ring
      rw [ReportedAt.of_reportsLoss hbefore] at hat
      refine Reported.setPump ?_ fun who' hne =>
        (s.dump.pump_ring ring who').trans (ho.lifecycle.exclusive hpc hne)
      rcases hafter with ⟨hafter, hlosses⟩ | ⟨messagesLost, rfl, hlosses⟩
      · rw [ReportedAt.of_reportsLoss hafter]
        show List.Forall₂ _ h.reports (h.ring.record s.dump.ring b).losses
        rwa [hlosses]
      · exact ⟨h.ring.losses, hlosses, hat⟩
  | @fillOverflow who pid tvSec tvUsec messagesLost hpc =>
      obtain ⟨losses, hlosses, hall⟩ := hr.pumping who _ hpc
      have hreport := reportOf_overflowMessage s.dump.ring.message pid tvSec tvUsec messagesLost
      rw [hcap] at hreport
      refine Reported.setPump ?_ fun who' hne =>
        (s.dump.pump_ring _ who').trans (ho.lifecycle.exclusive hpc hne)
      show List.Forall₂ _ (h.reports ++ [_]) h.ring.losses
      rw [hlosses]
      refine List.rel_append hall (.cons ?_ .nil)
      rw [DumpSystem.ring_setPump]
      exact hreport
  | @processOverflow who hpc =>
      have hat := hr.pumping who _ hpc
      have hentry : OutputHistory.entryOf s.dump who = .report s.dump.ring.message.shown := by
        simp [OutputHistory.entryOf, hpc]
      refine Reported.setPump ?_ fun who' hne => ho.lifecycle.exclusive hpc hne
      show List.Forall₂ _ (OutputHistory.reports _) h.ring.losses
      rw [OutputHistory.record, OutputHistory.reports_process, hentry]
      exact hat
  | @process who hpc =>
      have hat : List.Forall₂ _ h.reports h.ring.losses := hr.pumping who _ hpc
      have hentry : OutputHistory.entryOf s.dump who = .message s.dump.ring.message.shown := by
        simp [OutputHistory.entryOf, hpc]
      refine Reported.setPump ?_ fun who' hne => ho.lifecycle.exclusive hpc hne
      show List.Forall₂ _ (OutputHistory.reports _) h.ring.losses
      rw [OutputHistory.record, OutputHistory.reports_process, hentry, LogEntry.toReport,
        Option.toList_none, List.append_nil]
      exact hat
  | _ =>
      have hring := (hcontrol.control ho.lifecycle rfl).ring
      rcases hcontrol.control_pump ho.lifecycle rfl with hsame | ⟨hdone, hstarts⟩
      · exact hr.congr hsame (by rw [hring]) rfl rfl
      · exact Reported.of_resetting (hr.all hdone) hstarts

/-- **Every number returned is in one report**, in order, whichever dump it was returned to. -/
theorem reported_of_reachable {x : TraceOutput capacity Pid × OutputHistory Pid}
    (hx : (tracedOutput capacity traceMessageCapacity Pid).Reachable x) :
    Reported traceMessageCapacity x.1.dump x.2 := by
  refine tracedOutput_invariant
    (I := fun s h => Reported traceMessageCapacity s.dump h) hx ?_ ?_
  · intro elementMemory messageMemory memory
    refine Reported.of_resetting .nil fun who pc hpc => ?_
    cases who <;> cases hpc
  · intro s h a s' hreach hr hstep
    have ho : OneConsumer s.dump := oneConsumer_of_reachable hreach
    cases hstep with
    | run hstep =>
        exact hstep.reported ho rfl (bufferCapacity_of_reachable hreach).dump hr
    | construct hnext => exact hr
    | @replace kind message hnext hdestroyed =>
        have hall := hr.quiet (ho.lifecycle.pump_of_destroyed hdestroyed)
        refine Reported.of_resetting ?_ fun who pc hpc => ?_
        · simpa only [OutputHistory.record, OutputHistory.reports,
            OutputHistory.entries_replace] using hall
        · rw [DumpSystem.pump_renew] at hpc
          cases hpc

end Reported

/-! ## The account -/

section Account

variable [DecidableEq Pid] [Fintype Pid]

omit [DecidableEq Pid] [Fintype Pid] in
lemma History.sum_losses (h : History Pid) : h.losses.sum = h.reports.sum := by
  have hfilter : ∀ l : List ℕ, (l.filter (0 < ·)).sum = l.sum := by
    intro l
    induction l with
    | nil => rfl
    | cons n l ih =>
        by_cases hn : 0 < n
        · simp [hn, ih]
        · obtain rfl : n = 0 := by omega
          simpa using ih
  exact hfilter h.reports

lemma reservationsBalance_of_reachable (hc : 0 < capacity)
    {x : RingSystem capacity Pid × History Pid}
    (hx : (tracedRing capacity traceMessageCapacity Pid).Reachable x) :
    ReservationsBalance x.1 x.2 := by
  refine tracedRing_invariant (I := ReservationsBalance) hx (fun _ _ _ => ?_)
    fun _ _ _ _ hreach hbal hstep => hstep.reservationsBalance
      (slotBounds_of_reachable hc hreach.fst) (popCommitted_of_reachable hreach.fst) hbal
  have hdata : tally (Finset.range capacity) (· = true) (fun _ => false) = 0 :=
    (tally_eq_zero _ _).mpr (by simp)
  rw [ReservationsBalance, RingSystem.countProducers_start _ rfl]
  simp [History.reservations, RingSystem.start, TraceMessageRingBuffer.construct,
    TraceMessageRingBuffer.occupied, hdata]

/-- **The logs account for every push.**  Whenever no push and no run of `pop_and_process` is under
way, after any number of dumps: the messages in the logs are those popped, in order; the reports in
the logs are one for each value other than 0 that `get_and_reset_overflow_counter` returned, in
order and with that number; and every push is one of the messages, has its message in the buffer,
or is counted as lost: in one of the reports, by the counter for the next one, or as an increment
that a reset of the counter overwrote. -/
theorem rotation_accounts (hc : ∃ k, capacity = 2 ^ k)
    {x : TraceOutput capacity Pid × OutputHistory Pid}
    (hx : (tracedOutput capacity traceMessageCapacity Pid).Reachable x)
    (hidle : ∀ p, x.1.dump.ring.producers p = .idle) (hquiet : ∀ who, x.1.dump.pump who = none) :
    x.2.messages = x.2.ring.deliveries.map Delivery.shown ∧
      List.Forall₂ (Shown.ReportOf traceMessageCapacity) x.2.reports x.2.ring.losses ∧
      x.2.ring.tickets = x.2.messages.length + x.1.dump.ring.buffer.occupied +
        x.2.ring.losses.sum + x.1.dump.ring.buffer.resettableOverflowCounter + x.2.ring.lost := by
  obtain ⟨message, hring⟩ := ring_of_reachable_output hx
  have hconsumer := (oneConsumer_of_reachable hx).pumping.quiet hquiet
  have hnot : ¬ x.1.dump.Holding := by
    rintro (hcopied | ⟨who, hpc⟩)
    · rw [hconsumer] at hcopied
      cases hcopied
    · rw [hquiet who] at hpc
      cases hpc
  have hmessages : x.2.messages = x.2.ring.deliveries.map Delivery.shown :=
    (handedOver_of_reachable hx).done hnot
  refine ⟨hmessages, (reported_of_reachable hx).quiet hquiet, ?_⟩
  have hpassed : x.2.ring.reservations capacity = x.2.ring.tickets := by
    calc x.2.ring.reservations capacity
        = ∑ i ∈ Finset.range capacity, Nat.count (· % capacity = i) x.2.ring.tickets :=
          Finset.sum_congr rfl fun i hi =>
            passed_of_idle hc hring hidle (Finset.mem_range.mp hi)
      _ = x.2.ring.tickets := sum_count_residue (capacity_pos hc) _
  have hreservations : x.2.ring.reservations capacity = x.1.dump.ring.buffer.occupied +
      x.2.ring.cleared + x.1.dump.ring.buffer.overflowCounter +
        x.1.dump.ring.countProducers ProducerPc.owesOverflow :=
    reservationsBalance_of_reachable (capacity_pos hc) hring
  have hreports : x.2.ring.reports.sum + x.1.dump.ring.unreported + x.2.ring.lost +
      x.1.dump.ring.countProducers ProducerPc.owesResettable =
        x.1.dump.ring.buffer.overflowCounter := reports_balance hring
  have hcleared : x.2.ring.deliveries.length =
      x.2.ring.cleared + x.1.dump.ring.consumer.emptying.isSome.toNat :=
    clearsDeliveries_of_reachable hring
  have hoverflow : x.1.dump.ring.countProducers ProducerPc.owesOverflow = 0 :=
    (tally_eq_zero _ _).mpr fun p _ => by simp [hidle p, ProducerPc.owesOverflow]
  have hresettable : x.1.dump.ring.countProducers ProducerPc.owesResettable = 0 :=
    (tally_eq_zero _ _).mpr fun p _ => by simp [hidle p, ProducerPc.owesResettable]
  have hunreported : x.1.dump.ring.unreported =
      x.1.dump.ring.buffer.resettableOverflowCounter := by
    rw [RingSystem.unreported, hconsumer]
  have hnone : x.1.dump.ring.consumer.emptying = none := by rw [hconsumer]; rfl
  have hlength : x.2.messages.length = x.2.ring.deliveries.length := by
    rw [hmessages, List.length_map]
  rw [hnone, Option.isSome_none, Bool.toNat_false] at hcleared
  have hsum := x.2.ring.sum_losses
  omega

/-- Three pushes into two slots. -/
def pushThreeOverrun : List (Action Bool) :=
  [.headInc true, .producerLock true, .markData true, .edit true (.write (.ofBuffer [97])),
    .commitPush true, .headInc true, .producerLock true, .markData true,
    .edit true (.write (.ofBuffer [98])), .commitPush true, .headInc true, .headMask true,
    .producerLock true, .markData true, .overflowInc true, .resettableInc true,
    .edit true (.write (.ofBuffer [99])), .commitPush true]

/-- The dump's thread reports the overrun and processes a message. -/
def reportAndProcess : List (DumpAction Bool) :=
  [.callStart, .threadTest, .consume .thread .resetLoad, .consume .thread .resetStore,
    .fillOverflow .thread 5 0 0, .process .thread, .consume .thread .popTest,
    .consume .thread .consumerLock, .consume .thread .popRetest, .consume .thread .popCopy,
    .consume .thread .popRecycle, .consume .thread .popClear, .consume .thread .popUnlock,
    .process .thread, .threadNext]

/-- The destructor is called on the running dump. -/
def destroyRunning : List (DumpAction Bool) := [.callStop true, .threadTest, .join, .testSink]

/-- After three pushes, a file dump reports the overrun and processes the message in slot 0.  It is
destroyed, which drains slot 1, and replaced.  Then there is one more push. -/
def overrunThenRotate : List (OutputAction Bool) :=
  [.construct (.fileTraceDump true) fun _ => 7, .replace] ++
    pushThreeOverrun.map (fun b => .run (.produce b)) ++ reportAndProcess.map .run ++
    [.construct (.fileTraceDump true) fun _ => 7] ++ destroyRunning.map .run ++
    drainOne.map .run ++ [.run .stopReturn, .replace, .run (.produce (.headInc true)),
      .run (.produce (.producerLock true)), .run (.produce (.markData true)),
      .run (.produce (.commitPush true))]

theorem rotation_accounts_overrunThenRotate :
    ∃ x, (tracedOutput 2 64 Bool).exec (.start 64 (fun _ _ => 7) (fun _ => 7) (fun _ => 7), {})
        overrunThenRotate = some x ∧
      (x.2.messages = x.2.ring.deliveries.map Delivery.shown ∧
        List.Forall₂ (Shown.ReportOf 64) x.2.reports x.2.ring.losses ∧
        x.2.ring.tickets = x.2.messages.length + x.1.dump.ring.buffer.occupied +
          x.2.ring.losses.sum + x.1.dump.ring.buffer.resettableOverflowCounter + x.2.ring.lost) ∧
      x.2.messages = [⟨[97, 99], -1, 0⟩, ⟨[98], -1, 0⟩] ∧ x.2.ring.losses = [1] := by
  have h : ((tracedOutput 2 64 Bool).exec
      (.start 64 (fun _ _ => 7) (fun _ => 7) (fun _ => 7), {}) overrunThenRotate).any (fun x =>
        decide ((∀ p, x.1.dump.ring.producers p = .idle) ∧ x.1.dump.caller = .idle ∧
          x.1.dump.thread = .absent ∧ x.2.messages = [⟨[97, 99], -1, 0⟩, ⟨[98], -1, 0⟩] ∧
          x.2.ring.losses = [1])) = true := by
    decide +kernel
  obtain ⟨x, hx, hx'⟩ := (Option.any_eq_true _ _).mp h
  obtain ⟨hidle, hcaller, hthread, hmessages, hlosses⟩ := of_decide_eq_true hx'
  have hreach := Machine.reachable_of_exec (M := tracedOutput 2 64 Bool) ⟨⟨_, _, _, rfl⟩, rfl⟩ hx
  refine ⟨x, hx, rotation_accounts ⟨1, rfl⟩ hreach hidle fun who => ?_, hmessages, hlosses⟩
  cases who <;> simp [DumpSystem.pump, hcaller, hthread]

end Account

end InfiTracing
