import InfiTracing.TraceDump.Rotation

/-!
# What one trace dump leaves to the next

The runs of the module without overruns (`unoverrunOutput`).  Nothing is asked of the producers
otherwise: they go on while a dump is stopped, destroyed and replaced.

The logs, one after another, are then the messages of the first pushes, each once and in order, and
there is no report in them.  A `stop()` that drains sees to the pushes that were committed, and all
before them, when it was called: they are in the logs when it returns, whoever popped them
(`rotation_delivers`).  What is pushed later may be left to the next dump.
-/

namespace InfiTracing

open Framework

variable {kind : DumpKind} {capacity traceMessageCapacity : ℕ} {Pid : Type} [DecidableEq Pid]

/-! ## The runs -/

/-- The runs of the module without overruns. -/
def unoverrunOutput (capacity traceMessageCapacity : ℕ) (Pid : Type) [DecidableEq Pid] :
    Machine (TraceOutput capacity Pid × OutputHistory Pid) (OutputAction Pid) :=
  (tracedOutput capacity traceMessageCapacity Pid).restrict fun x a =>
    overRing (fun x b => noOverrun x b = true) x a

/-- **The invariant rule for runs without overruns**: check the predicate where there is no dump
yet, and along each way a step can go. -/
theorem unoverrunOutput_invariant {I : TraceOutput capacity Pid → OutputHistory Pid → Prop}
    {x : TraceOutput capacity Pid × OutputHistory Pid}
    (hx : (unoverrunOutput capacity traceMessageCapacity Pid).Reachable x)
    (hinit : ∀ elementMemory messageMemory memory,
      I (.start traceMessageCapacity elementMemory messageMemory memory) {})
    (hstep : ∀ s h a s', (unoverrunOutput capacity traceMessageCapacity Pid).Reachable (s, h) →
      (unoverrunOutput capacity traceMessageCapacity Pid).Reachable (s', h.record s a) →
      I s h → OutputStep traceMessageCapacity s a s' → I s' (h.record s a)) : I x.1 x.2 := by
  refine hx.invariant (I := fun x => I x.1 x.2) ?_ ?_
  · rintro ⟨s, h⟩ ⟨⟨elementMemory, messageMemory, memory, rfl⟩, rfl⟩
    exact hinit elementMemory messageMemory memory
  · rintro ⟨s, h⟩ a ⟨s', h'⟩ hreach hI hx'
    have hreach' := hreach.step a hx'
    obtain ⟨-, htraced⟩ := Machine.restrict_step_eq_some.mp hx'
    obtain ⟨hs, rfl⟩ := Machine.withHistory_step_eq_some.mp htraced
    exact hstep s h a s' hreach hreach' hI (OutputStep.of_step hs)

/-- The ring buffer has no overruns. -/
lemma unoverrunRing_of_reachable {x : TraceOutput capacity Pid × OutputHistory Pid}
    (hx : (unoverrunOutput capacity traceMessageCapacity Pid).Reachable x) :
    ∃ message, (unoverrunRing capacity traceMessageCapacity Pid).Reachable
      (x.1.dump.ring.setMessage message, x.2.ring) := by
  refine ring_of_restrict (G := fun x b => noOverrun x b = true) ?_ hx
  intro s h message b hb
  cases b <;> exact hb

/-! ## Nothing is reported -/

section Reports

variable {s s' : RingSystem capacity Pid} {h : History Pid} {a : Action Pid}

omit [DecidableEq Pid] in
lemma History.losses_eq_nil_iff : h.losses = [] ↔ ∀ n ∈ h.reports, n = 0 := by
  simp [losses]

lemma Step.losses_eq_nil (hstep : Step s a s') (hn : NothingLost s) (hlosses : h.losses = []) :
    (h.record s a).losses = [] := by
  cases hstep with
  | @resetStore r hpc =>
      obtain rfl := hn.reported r hpc
      rw [History.losses_eq_nil_iff] at hlosses ⊢
      simpa [History.record, hpc, or_imp, forall_and] using hlosses
  | _ => exact hlosses

/-- Without overruns `get_and_reset_overflow_counter` only returns 0. -/
theorem losses_eq_nil_of_reachable {x : RingSystem capacity Pid × History Pid}
    (hx : (unoverrunRing capacity traceMessageCapacity Pid).Reachable x) : x.2.losses = [] := by
  refine (tracedRing_restrict_invariant
    (I := fun s h => NothingLost s ∧ h.losses = []) hx ?_ ?_).2
  · intro elementMemory message memory
    exact ⟨⟨fun _ => rfl, rfl, fun r hr => by cases hr⟩, rfl⟩
  · rintro s h a s' - ⟨hn, hlosses⟩ hG hstep
    exact ⟨hstep.nothingLost hG hn, hstep.losses_eq_nil hn hlosses⟩

omit [DecidableEq Pid] in
/-- Where only 0 was returned, nothing is reported. -/
lemma Reported.reports_eq_nil {dump : DumpSystem capacity Pid} {h : OutputHistory Pid}
    (hr : Reported traceMessageCapacity dump h) (hlosses : h.ring.losses = []) :
    h.reports = [] := by
  by_cases hnone : ∀ who, dump.pump who = none
  · have hall := hr.quiet hnone
    rwa [hlosses, List.forall₂_nil_right_iff] at hall
  · obtain ⟨who, hwho⟩ := not_forall.mp hnone
    obtain ⟨pc, hpc⟩ := Option.ne_none_iff_exists'.mp hwho
    have hat := hr.pumping who pc hpc
    cases pc with
    | overflowing messagesLost =>
        obtain ⟨losses, hmore, -⟩ := hat
        simp [hlosses] at hmore
    | overflowed =>
        rw [ReportedAt, hlosses, List.forall₂_nil_right_iff] at hat
        simp at hat
    | resetting | popping | processing | returned =>
        rwa [ReportedAt, hlosses, List.forall₂_nil_right_iff] at hat

end Reports

/-! ## The messages of the first pushes -/

/-- The logs, one after another, are the messages of the first pushes, in order. -/
def LogsInTurn (traceMessageCapacity : ℕ) (h : OutputHistory Pid) : Prop :=
  h.messages.map some = (List.range h.messages.length).map fun k =>
    (h.ring.written k).map (Draft.shown traceMessageCapacity)

theorem logsInTurn_of_reachable (hc : ∃ k, capacity = 2 ^ k)
    {x : TraceOutput capacity Pid × OutputHistory Pid}
    (hx : (unoverrunOutput capacity traceMessageCapacity Pid).Reachable x) :
    LogsInTurn traceMessageCapacity x.2 := by
  obtain ⟨message, hring⟩ := unoverrunRing_of_reachable hx
  have hturn := inTurn_of_reachable hc hring
  have hheld := (handedOver_of_reachable hx.of_restrict).held
  refine List.ext_getElem (by simp) fun k hk hk' => ?_
  have hlt : k < x.2.messages.length := by simpa using hk
  have hmessage : (x.2.messages ++ x.1.dump.held)[k]? = some x.2.messages[k] := by
    rw [List.getElem?_append_left hlt, List.getElem?_eq_getElem hlt]
  rw [hheld, List.getElem?_map, Option.map_eq_some_iff] at hmessage
  obtain ⟨d, hd, hdelivery⟩ := hmessage
  obtain ⟨w, hw, hshown⟩ := hturn.delivered k d hd
  have hwritten : x.2.ring.written k = some w := hw
  simp [hwritten, ← hdelivery, hshown]

/-! ## What a stop has seen to -/

/-- A `stop()` is under way that is going to drain the ring buffer, and has not found it empty
yet. -/
def DumpSystem.draining (kind : DumpKind) (s : DumpSystem capacity Pid) : Bool :=
  match s.caller with
  | .joining | .joined => kind.drains s.sinkOpen
  | .draining (.returned false) => false
  | .draining _ => true
  | .idle | .closing | .returning | .destroyed => false

omit [DecidableEq Pid] in
lemma History.written_of_lt_settled (h : History Pid) {k : ℕ} (hk : k < h.settled) :
    (h.written k).isSome = true := by
  have hmem := List.getElem_mem hk
  have hget : ((List.range h.tickets).takeWhile fun k => (h.written k).isSome)[k] = k := by
    have hbegins := List.takeWhile_prefix (l := List.range h.tickets)
      fun k => (h.written k).isSome
    rw [hbegins.getElem hk, List.getElem_range]
  have hall := List.mem_takeWhile_imp hmem
  rwa [hget] at hall

/-- What is committed stays so. -/
lemma History.written_record (h : History Pid) (s : RingSystem capacity Pid) (b : Action Pid)
    {k : ℕ} (hk : (h.written k).isSome = true) : ((h.record s b).written k).isSome = true := by
  cases b with
  | commitPush p =>
      by_cases heq : k = h.ticketOf p
      · simp [record, heq]
      · simpa [record, heq] using hk
  | _ => exact hk

/-- The pushes that a `stop()` has to see to are committed, and in the logs when it is done. -/
structure SeenTo (s : TraceOutput capacity Pid) (h : OutputHistory Pid) : Prop where
  written : ∀ k < h.due, (h.ring.written k).isSome = true
  inLogs : s.dump.draining s.kind = false → h.due ≤ h.messages.length

section SeenTo

variable {s s' : TraceOutput capacity Pid} {h : OutputHistory Pid}
  {dump dump' : DumpSystem capacity Pid} {who : Runner} {pc : PumpPc}

omit [DecidableEq Pid] in
lemma SeenTo.congr {h' : OutputHistory Pid} (hs : SeenTo s h)
    (hdraining : s'.dump.draining s'.kind = false → s.dump.draining s.kind = false)
    (hdue : h'.due = h.due)
    (hwritten : ∀ k, (h.ring.written k).isSome = true → (h'.ring.written k).isSome = true)
    (hmessages : h.messages.length ≤ h'.messages.length) : SeenTo s' h' := by
  refine ⟨fun k hk => hwritten k (hs.written k (hdue ▸ hk)), fun hnot => ?_⟩
  rw [hdue]
  exact (hs.inLogs (hdraining hnot)).trans hmessages

omit [DecidableEq Pid] in
/-- A `stop()` is called. -/
lemma SeenTo.callStop (hs : SeenTo s h) (hidle : s.dump.caller = .idle)
    (hsink : dump.sinkOpen = s.dump.sinkOpen)
    (hcaller : dump.caller = .joining ∨ dump.caller = .joined) :
    SeenTo { s with dump } { h with
      due := if s.kind.drains s.dump.sinkOpen then h.ring.settled else h.due } := by
  by_cases hdrains : s.kind.drains s.dump.sinkOpen = true
  · rw [if_pos hdrains]
    refine ⟨fun k hk => h.ring.written_of_lt_settled hk, fun hnot => ?_⟩
    rcases hcaller with hcaller | hcaller <;>
      simp [DumpSystem.draining, hcaller, hsink, hdrains] at hnot
  · rw [if_neg hdrains]
    exact hs.congr (fun _ => by rw [DumpSystem.draining, hidle]) rfl (fun _ hk => hk) le_rfl

omit [DecidableEq Pid] in
/-- A run of `pop_and_process` goes on; if it is the drain's, it is not over before the logs have
what is due. -/
lemma SeenTo.setPump {h' : OutputHistory Pid} (hs : SeenTo s h)
    (hdump : dump.caller = s.dump.caller) (hsink : dump.sinkOpen = s.dump.sinkOpen)
    (hdue : h'.due = h.due)
    (hwritten : ∀ k, (h.ring.written k).isSome = true → (h'.ring.written k).isSome = true)
    (hmessages : h.messages.length ≤ h'.messages.length)
    (hdrained : who = .caller → pc = .returned false → h.due ≤ h'.messages.length) :
    SeenTo { s with dump := dump.setPump who pc } h' := by
  cases who with
  | thread =>
      refine hs.congr (fun hnot => ?_) hdue hwritten hmessages
      simpa only [DumpSystem.draining, DumpSystem.setPump, hdump, hsink] using hnot
  | caller =>
      refine ⟨fun k hk => hwritten k (hs.written k (hdue ▸ hk)), fun hdraining => ?_⟩
      rw [hdue]
      refine hdrained rfl ?_
      cases pc with
      | returned result =>
          cases result with
          | false => rfl
          | true => cases hdraining
      | _ => cases hdraining

/-- When `pop` has found the ring buffer empty, the logs have what is due. -/
lemma due_le_of_drained (hc : ∃ k, capacity = 2 ^ k) {h' : OutputHistory Pid}
    (hreach' : (unoverrunOutput capacity traceMessageCapacity Pid).Reachable
      ({ s with dump := dump'.setPump who (.returned false) }, h'))
    (htail : dump'.ring.buffer.hasData dump'.ring.buffer.tail = false)
    (hwritten : ∀ k < h.due, (h'.ring.written k).isSome = true) :
    h.due ≤ h'.messages.length := by
  obtain ⟨message, hring⟩ := unoverrunRing_of_reachable hreach'
  have ho : OneConsumer (dump'.setPump who (.returned false)) :=
    oneConsumer_of_reachable hreach'.of_restrict
  have hpc := DumpSystem.pump_setPump dump' who (.returned false)
  have hnot : ¬ (dump'.setPump who (.returned false)).Holding :=
    DumpSystem.not_holding ho.lifecycle hpc (ho.pumping.fits who _ hpc) (by simp)
  have hmessages : h'.messages = h'.ring.deliveries.map Delivery.shown :=
    (handedOver_of_reachable hreach'.of_restrict).done hnot
  rw [hmessages, List.length_map]
  refine le_delivered_of_tail hc hring ?_ hwritten
  show (dump'.setPump who _).ring.buffer.hasData (dump'.setPump who _).ring.buffer.tail = false
  rw [DumpSystem.ring_setPump]
  exact htail

/-- A step of the dump in use sees to what is due. -/
lemma DumpStep.seenTo (hc : ∃ k, capacity = 2 ^ k) {a : DumpAction Pid}
    (hstep : DumpStep s.kind s.dump a dump')
    (hreach : (unoverrunOutput capacity traceMessageCapacity Pid).Reachable (s, h))
    (hreach' : (unoverrunOutput capacity traceMessageCapacity Pid).Reachable
      ({ s with dump := dump' }, h.record s (.run a)))
    (hs : SeenTo s h) : SeenTo { s with dump := dump' } (h.record s (.run a)) := by
  have hkeeps : ∀ b k, (h.ring.written k).isSome = true →
      ((h.ring.record s.dump.ring b).written k).isSome = true :=
    fun b _ hk => h.ring.written_record s.dump.ring b hk
  cases hstep with
  | @produce b ring hb hring => exact hs.congr id rfl (hkeeps b) le_rfl
  | @consume who b pc pc' ring hpc hnext hring =>
      refine hs.setPump rfl rfl rfl (hkeeps b) le_rfl ?_
      rintro - rfl
      obtain ⟨message, htraced⟩ := ring_of_reachable_output hreach.of_restrict
      have hpop := popCommitted_of_reachable htraced.fst
      refine due_le_of_drained hc hreach' ?_ fun k hk => hkeeps b k (hs.written k hk)
      exact (PumpStep.of_next hnext (Step.of_step hring)).tail_empty rfl
        ⟨hpop.hasData, hpop.succeeds⟩
  | fillOverflow hpc =>
      exact hs.setPump rfl rfl rfl (fun _ hk => hk) le_rfl fun _ h => by cases h
  | processOverflow hpc | process hpc =>
      refine hs.setPump rfl rfl rfl (fun _ hk => hk) ?_ fun _ h => by cases h
      rw [OutputHistory.record, OutputHistory.messages_process]
      simp
  | threadExit | threadPump | threadNext | startRunning | start =>
      exact hs.congr id rfl (fun _ hk => hk) le_rfl
  | stopRunning hpc => exact hs.callStop hpc rfl (.inl rfl)
  | stopIdle hpc => exact hs.callStop hpc rfl (.inr rfl)
  | join hpc =>
      refine hs.congr (fun hnot => ?_) rfl (fun _ hk => hk) le_rfl
      rw [DumpSystem.draining, hpc]
      exact hnot
  | drain | drainOn => exact hs.congr (fun hnot => by cases hnot) rfl (fun _ hk => hk) le_rfl
  | leave hpc hdrains =>
      refine hs.congr (fun _ => ?_) rfl (fun _ hk => hk) le_rfl
      rw [DumpSystem.draining, hpc]
      exact hdrains
  | drained hpc | drainedOpen hpc | closeSink hpc | stopReturn hpc =>
      refine hs.congr (fun _ => ?_) rfl (fun _ hk => hk) le_rfl
      rw [DumpSystem.draining, hpc]

theorem seenTo_of_reachable (hc : ∃ k, capacity = 2 ^ k)
    {x : TraceOutput capacity Pid × OutputHistory Pid}
    (hx : (unoverrunOutput capacity traceMessageCapacity Pid).Reachable x) : SeenTo x.1 x.2 := by
  refine unoverrunOutput_invariant hx ?_ ?_
  · intro elementMemory messageMemory memory
    exact ⟨fun k hk => absurd hk (Nat.not_lt_zero k), fun _ => le_rfl⟩
  · intro s h a s' hreach hreach' hs hstep
    cases hstep with
    | run hstep => exact hstep.seenTo hc hreach hreach' hs
    | construct hnext => exact hs.congr id rfl (fun _ hk => hk) le_rfl
    | replace hnext hdestroyed =>
        refine hs.congr (fun _ => ?_) rfl (fun _ hk => hk) ?_
        · rw [DumpSystem.draining, hdestroyed]
        · rw [OutputHistory.record, OutputHistory.messages, OutputHistory.messages,
            OutputHistory.entries_replace]

end SeenTo

/-! ## The logs of a run -/

/-- **Nothing is lost or written twice while dumps replace one another.**  In every run without
overruns, the logs of all dumps, one after another, are the messages of the first pushes, each once
and in order, and report no loss; and unless a `stop()` that drains is still under way, they have
every push that was committed, with all before it, when the last one was called. -/
theorem rotation_delivers (hc : ∃ k, capacity = 2 ^ k)
    {x : TraceOutput capacity Pid × OutputHistory Pid}
    (hx : (unoverrunOutput capacity traceMessageCapacity Pid).Reachable x) :
    LogsInTurn traceMessageCapacity x.2 ∧ x.2.reports = [] ∧
      (x.1.dump.draining x.1.kind = false → x.2.due ≤ x.2.messages.length) := by
  refine ⟨logsInTurn_of_reachable hc hx, ?_, (seenTo_of_reachable hc hx).inLogs⟩
  obtain ⟨message, hring⟩ := unoverrunRing_of_reachable hx
  exact (reported_of_reachable hx.of_restrict).reports_eq_nil (losses_eq_nil_of_reachable hring)

/-- A dump that was not started is destroyed, with one message in the ring buffer. -/
def drainOnDestruction : List (DumpAction Bool) :=
  [.callStop true, .testSink] ++ drainOne ++ [.stopReturn]

/-- A push, and the ticket of another. -/
def pushAndReserve : List (Action Bool) :=
  [.headInc true, .producerLock true, .markData true, .edit true (.write (.ofBuffer [97])),
    .commitPush true, .headInc false]

/-- The rest of the other push. -/
def pushReserved : List (Action Bool) :=
  [.producerLock false, .markData false, .edit false (.write (.ofBuffer [98])),
    .commitPush false]

/-- The first dump in use is destroyed and replaced in the middle of a push; then the second is
destroyed. -/
def pushAcrossRotation : List (OutputAction Bool) :=
  [.construct (.fileTraceDump true) fun _ => 7, .replace] ++
    pushAndReserve.map (fun b => .run (.produce b)) ++ [.construct .syslogTraceDump fun _ => 7] ++
    drainOnDestruction.map .run ++ [.replace] ++
    pushReserved.map (fun b => .run (.produce b)) ++ drainOnDestruction.map .run

theorem rotation_delivers_pushAcrossRotation :
    ∃ x, (unoverrunOutput 2 4 Bool).exec (.start 4 (fun _ _ => 7) (fun _ => 7) (fun _ => 7), {})
        pushAcrossRotation = some x ∧
      (LogsInTurn 4 x.2 ∧ x.2.reports = [] ∧
        (x.1.dump.draining x.1.kind = false → x.2.due ≤ x.2.messages.length)) ∧
      x.2.earlier.length = 2 ∧ x.2.due = 2 ∧ x.2.messages = [⟨[97], -1, 0⟩, ⟨[98], -1, 0⟩] := by
  have h : ((unoverrunOutput 2 4 Bool).exec
      (.start 4 (fun _ _ => 7) (fun _ => 7) (fun _ => 7), {}) pushAcrossRotation).any (fun x =>
        decide (x.2.earlier.length = 2 ∧ x.2.due = 2 ∧
          x.2.messages = [⟨[97], -1, 0⟩, ⟨[98], -1, 0⟩])) = true := by
    decide +kernel
  obtain ⟨x, hx, hx'⟩ := (Option.any_eq_true _ _).mp h
  refine ⟨x, hx, rotation_delivers ⟨1, rfl⟩ ?_, of_decide_eq_true hx'⟩
  exact Machine.reachable_of_exec (M := unoverrunOutput 2 4 Bool) ⟨⟨_, _, _, rfl⟩, rfl⟩ hx

end InfiTracing
