import InfiTracing.TraceDump.Lifecycle

/-!
# Starting and stopping a dump again and again

`start` and `stop` may be called in any order and any number of times.  Three variables say
what has happened: `thread_running`, which `stop` clears again; the handle or socket, which is
closed once and for good; and `shutdown`, which `stop` sets when it finds the thread running
and nothing ever clears.  `CallRecord` records the calls of a run, and every statement here is
about all runs with that record, with the thread and the producers interleaved in any way.

**The sink.**  It is closed at most once in every run.  A `stop` that finds no thread closes it
without setting `shutdown`; a thread started after that would process what it pops on a closed
sink.  `sink_used_open`: without such a `start` no message is processed on a closed sink.

**The thread.**  It consumes from a `start` to the next `stop` exactly if no earlier `stop` found
a thread running (`consumes_iff`): after that `shutdown` is set, and a new thread returns at once.
-/

namespace InfiTracing

open Framework

variable {kind : DumpKind} {capacity traceMessageCapacity : ℕ} {Pid : Type}

/-! ## The record of the calls -/

/-- What the calls of a run did. -/
structure CallRecord where
  /-- The latest call is `start()`. -/
  started : Bool := false
  /-- A `stop()` has found the thread running. -/
  joined : Bool := false
  /-- How often the handle or the socket was closed. -/
  closes : ℕ := 0
  /-- `process()` has run with the handle or the socket `NULL`. -/
  usedClosed : Bool := false
  deriving DecidableEq, Repr

/-- The record after action `a` is taken in state `s`. -/
def CallRecord.record (s : DumpSystem capacity Pid) (a : DumpAction Pid) (r : CallRecord) :
    CallRecord :=
  match a with
  | .callStart => { r with started := true }
  | .callStop _ => { r with started := false, joined := r.joined || s.threadRunning }
  | .closeSink => { r with closes := r.closes + 1 }
  | .process _ => { r with usedClosed := r.usedClosed || !s.sinkOpen }
  | _ => r

/-- A dump with the record of the calls. -/
def recordedDump (kind : DumpKind) (capacity traceMessageCapacity : ℕ) (Pid : Type)
    [DecidableEq Pid] : Machine (DumpSystem capacity Pid × CallRecord) (DumpAction Pid) :=
  (traceDump kind capacity traceMessageCapacity Pid).withHistory {} CallRecord.record

section Calls

variable [DecidableEq Pid]

/-- **The invariant rule with the record**: check the predicate on a new dump and along each way
a step can go. -/
theorem recordedDump_invariant {I : DumpSystem capacity Pid → CallRecord → Prop}
    {x : DumpSystem capacity Pid × CallRecord}
    (hx : (recordedDump kind capacity traceMessageCapacity Pid).Reachable x)
    (hinit : ∀ elementMemory messageMemory memory,
      I (.construct traceMessageCapacity elementMemory messageMemory memory) {})
    (hstep : ∀ s r a s', (traceDump kind capacity traceMessageCapacity Pid).Reachable s →
      I s r → DumpStep kind s a s' → I s' (r.record s a)) : I x.1 x.2 := by
  refine hx.invariant (I := fun x => I x.1 x.2) ?_ ?_
  · rintro ⟨s, r⟩ ⟨⟨elementMemory, messageMemory, memory, rfl⟩, rfl⟩
    exact hinit elementMemory messageMemory memory
  · rintro ⟨s, r⟩ a ⟨s', r'⟩ hreach hI h
    obtain ⟨h, rfl⟩ := Machine.withHistory_step_eq_some.mp h
    exact hstep s r a s' hreach.fst hI (DumpStep.of_step h)

end Calls

/-! ## Steps inside `pop_and_process` -/

/-- From `s` to `s'` no flag changes, and a party in `pop_and_process` stays in it. -/
structure Within (s s' : DumpSystem capacity Pid) : Prop where
  shutdown : s'.shutdown = s.shutdown
  threadRunning : s'.threadRunning = s.threadRunning
  sinkOpen : s'.sinkOpen = s.sinkOpen
  thread : s'.thread = s.thread ∨ ∃ pc pc', s.thread = .pumping pc ∧ s'.thread = .pumping pc'
  caller : s'.caller = s.caller ∨ ∃ pc pc', s.caller = .draining pc ∧ s'.caller = .draining pc'

section Within

variable {s s' : DumpSystem capacity Pid}

lemma DumpSystem.thread_of_pump {pc : PumpPc} (hpc : s.pump .thread = some pc) :
    s.thread = .pumping pc := by
  cases hthread : s.thread <;> simp_all [DumpSystem.pump]

lemma DumpSystem.caller_of_pump {pc : PumpPc} (hpc : s.pump .caller = some pc) :
    s.caller = .draining pc := by
  cases hcaller : s.caller <;> simp_all [DumpSystem.pump]

/-- The ring buffer goes on, and with it a run of `pop_and_process`. -/
lemma Within.setPump {who : Runner} {pc pc' : PumpPc} (hpc : s.pump who = some pc)
    (ring : RingSystem capacity Pid) : Within s (({ s with ring }).setPump who pc') := by
  cases who with
  | thread =>
      exact ⟨rfl, rfl, rfl, .inr ⟨pc, pc', DumpSystem.thread_of_pump hpc, rfl⟩, .inl rfl⟩
  | caller =>
      exact ⟨rfl, rfl, rfl, .inl rfl, .inr ⟨pc, pc', DumpSystem.caller_of_pump hpc, rfl⟩⟩

/-- Nobody enters or leaves `process_remaining`. -/
lemma Within.inDrain (hw : Within s s') : s'.caller.inDrain = s.caller.inDrain := by
  rcases hw.caller with hsame | ⟨pc, pc', hpc, hpc'⟩
  · rw [hsame]
  · rw [hpc, hpc']
    rfl

lemma Within.caller_iff (hw : Within s s') {pc : CallerPc} (hpc : ∀ q, pc ≠ .draining q) :
    s'.caller = pc ↔ s.caller = pc := by
  rcases hw.caller with hsame | ⟨q, q', hq, hq'⟩
  · rw [hsame]
  · rw [hq, hq']
    exact iff_of_false (fun h => hpc q' h.symm) fun h => hpc q h.symm

lemma Within.thread_iff (hw : Within s s') {pc : ThreadPc} (hpc : ∀ q, pc ≠ .pumping q) :
    s'.thread = pc ↔ s.thread = pc := by
  rcases hw.thread with hsame | ⟨q, q', hq, hq'⟩
  · rw [hsame]
  · rw [hq, hq']
    exact iff_of_false (fun h => hpc q' h.symm) fun h => hpc q h.symm

end Within

/-! ## What the record says of the flags -/

/-- `shutdown` says whether a `stop` has found the thread running. -/
structure Recorded (s : DumpSystem capacity Pid) (r : CallRecord) : Prop where
  shutdown : s.shutdown = r.joined
  started : r.started = true → s.caller = .idle ∧ s.threadRunning = true
  exited : s.thread = .exited → s.shutdown = true

section Recorded

variable {s s' : DumpSystem capacity Pid} {r r' : CallRecord} {a : DumpAction Pid}

lemma Recorded.within (hr : Recorded s r) (hw : Within s s') (hjoined : r'.joined = r.joined)
    (hstarted : r'.started = r.started) : Recorded s' r' := by
  refine ⟨?_, fun h => ?_, fun h => ?_⟩
  · rw [hw.shutdown, hjoined]
    exact hr.shutdown
  · rw [hstarted] at h
    obtain ⟨hidle, hrunning⟩ := hr.started h
    exact ⟨(hw.caller_iff (by simp)).mpr hidle, hw.threadRunning.trans hrunning⟩
  · rw [hw.shutdown]
    exact hr.exited ((hw.thread_iff (by simp)).mp h)

/-- The caller goes on inside `stop`. -/
lemma Recorded.inStop (hr : Recorded s r) (hcaller : s.caller ≠ .idle)
    (hshutdown : s'.shutdown = s.shutdown) (hjoined : r'.joined = r.joined)
    (hstarted : r'.started = r.started) (hexited : s'.thread = .exited → s.thread = .exited) :
    Recorded s' r' := by
  refine ⟨?_, fun h => ?_, fun h => ?_⟩
  · rw [hshutdown, hjoined]
    exact hr.shutdown
  · rw [hstarted] at h
    exact absurd (hr.started h).1 hcaller
  · rw [hshutdown]
    exact hr.exited (hexited h)

variable [DecidableEq Pid]

lemma DumpStep.recorded (hstep : DumpStep kind s a s') (hr : Recorded s r) :
    Recorded s' (r.record s a) := by
  cases hstep with
  | @produce b ring hb hring =>
      exact hr.within ⟨rfl, rfl, rfl, .inl rfl, .inl rfl⟩ rfl rfl
  | consume hpc | fillOverflow hpc | processOverflow hpc | process hpc =>
      exact hr.within (Within.setPump hpc _) rfl rfl
  | threadExit hpc hshutdown => exact ⟨hr.shutdown, hr.started, fun _ => hshutdown⟩
  | threadPump | threadNext => exact ⟨hr.shutdown, hr.started, by simp⟩
  | startRunning hpc hrunning => exact ⟨hr.shutdown, fun _ => ⟨hpc, hrunning⟩, hr.exited⟩
  | start hpc hrunning => exact ⟨hr.shutdown, fun _ => ⟨hpc, rfl⟩, by simp⟩
  | stopRunning hpc hclass hrunning =>
      refine ⟨?_, by simp [CallRecord.record], fun _ => rfl⟩
      simp [CallRecord.record, hrunning]
  | stopIdle hpc hclass hrunning =>
      refine ⟨?_, by simp [CallRecord.record], hr.exited⟩
      simp [CallRecord.record, hrunning, hr.shutdown]
  | join hpc =>
      exact hr.inStop (by simp [hpc]) rfl rfl rfl (by simp)
  | drain hpc | leave hpc | drainOn hpc | drained hpc | drainedOpen hpc | closeSink hpc
  | stopReturn hpc =>
      exact hr.inStop (by simp [hpc]) rfl rfl rfl id

theorem recorded_of_reachable {x : DumpSystem capacity Pid × CallRecord}
    (hx : (recordedDump kind capacity traceMessageCapacity Pid).Reachable x) :
    Recorded x.1 x.2 := by
  refine recordedDump_invariant hx ?_ ?_
  · intro elementMemory messageMemory memory
    exact ⟨rfl, by simp, by simp [DumpSystem.construct]⟩
  · intro s r a s' _ hr hstep
    exact hstep.recorded hr

end Recorded

/-! ## The sink -/

/-- The sink is open until it is closed the one time, and while `stop` drains. -/
structure SinkRecord (kind : DumpKind) (s : DumpSystem capacity Pid) (r : CallRecord) :
    Prop where
  closes : r.closes = if s.sinkOpen then 0 else 1
  closing : s.caller = .closing → kind.closes = true
  stays : kind.closes = false → s.sinkOpen = true
  draining : s.caller.inDrain = true → s.sinkOpen = true

section SinkRecord

variable {s s' : DumpSystem capacity Pid} {r r' : CallRecord} {a : DumpAction Pid}

lemma DumpKind.open_of_drains {sinkOpen : Bool} (h : kind.drains sinkOpen = true)
    (hstays : kind.closes = false → sinkOpen = true) : sinkOpen = true := by
  cases kind with
  | traceDump => exact hstays rfl
  | fileTraceDump closeHandle => exact (Bool.and_eq_true_iff.mp h).2
  | syslogTraceDump => exact h

/-- The sink is left alone, and `stop` does not get further into draining. -/
lemma SinkRecord.keep (hr : SinkRecord kind s r) (hsink : s'.sinkOpen = s.sinkOpen)
    (hcloses : r'.closes = r.closes) (hclosing : s'.caller = .closing → s.caller = .closing)
    (hdrain : s'.caller.inDrain = true → s.caller.inDrain = true) : SinkRecord kind s' r' := by
  refine ⟨?_, fun h => hr.closing (hclosing h), fun h => ?_, fun h => ?_⟩
  · rw [hcloses, hsink]
    exact hr.closes
  · rw [hsink]
    exact hr.stays h
  · rw [hsink]
    exact hr.draining (hdrain h)

lemma SinkRecord.within (hr : SinkRecord kind s r) (hw : Within s s')
    (hcloses : r'.closes = r.closes) : SinkRecord kind s' r' :=
  hr.keep hw.sinkOpen hcloses (hw.caller_iff (by simp)).mp fun h => hw.inDrain ▸ h

variable [DecidableEq Pid]

lemma DumpStep.sinkRecord (hstep : DumpStep kind s a s') (hr : SinkRecord kind s r) :
    SinkRecord kind s' (r.record s a) := by
  cases hstep with
  | produce | threadExit | threadPump | threadNext | startRunning | start =>
      exact hr.keep rfl rfl id id
  | consume hpc | fillOverflow hpc | processOverflow hpc | process hpc =>
      exact hr.within (Within.setPump hpc _) rfl
  | stopRunning hpc | stopIdle hpc | join hpc | leave hpc | drainedOpen hpc =>
      exact hr.keep rfl rfl (by simp) (by simp [CallerPc.inDrain])
  | drain hpc hdrains =>
      refine ⟨hr.closes, by simp, hr.stays, fun _ => DumpKind.open_of_drains hdrains hr.stays⟩
  | drainOn hpc => exact hr.keep rfl rfl (by simp) fun _ => by rw [hpc]; rfl
  | drained hpc hcloses =>
      exact ⟨hr.closes, fun _ => hcloses, hr.stays, fun _ => hr.draining (by rw [hpc]; rfl)⟩
  | closeSink hpc =>
      have hopen := hr.draining (by rw [hpc]; rfl)
      have hclosing := hr.closing hpc
      have hcount := hr.closes
      rw [hopen, if_pos rfl] at hcount
      refine ⟨?_, by simp, fun h => ?_, by simp [CallerPc.inDrain]⟩
      · simp [CallRecord.record, hcount]
      · rw [hclosing] at h
        cases h
  | stopReturn hpc =>
      refine hr.keep rfl rfl (fun h => ?_) fun h => ?_
      · cases hd : s.destroying <;> simp [hd] at h
      · cases hd : s.destroying <;> simp [hd, CallerPc.inDrain] at h

theorem sinkRecord_of_reachable {x : DumpSystem capacity Pid × CallRecord}
    (hx : (recordedDump kind capacity traceMessageCapacity Pid).Reachable x) :
    SinkRecord kind x.1 x.2 := by
  refine recordedDump_invariant hx ?_ ?_
  · intro elementMemory messageMemory memory
    exact ⟨rfl, by simp [DumpSystem.construct], fun _ => rfl, fun _ => rfl⟩
  · intro s r a s' _ hr hstep
    exact hstep.sinkRecord hr

end SinkRecord

/-- A new thread finds the sink open, or `shutdown` set. -/
def startsOpen (x : DumpSystem capacity Pid × CallRecord) : DumpAction Pid → Bool
  | .callStart => x.1.threadRunning || x.1.sinkOpen || x.2.joined
  | _ => true

/-- Past the closing of the sink the thread is in no `pop_and_process`, and will not be. -/
structure Sealed (s : DumpSystem capacity Pid) (r : CallRecord) : Prop where
  pump : s.sinkOpen = false → s.pump .thread = none
  testing : s.sinkOpen = false → s.thread = .testing → s.shutdown = true
  unused : r.usedClosed = false

section Sealed

variable {s s' : DumpSystem capacity Pid} {r r' : CallRecord} {a : DumpAction Pid}

lemma Sealed.within (hs : Sealed s r) (hw : Within s s') (hunused : r'.usedClosed = false) :
    Sealed s' r' := by
  refine ⟨fun hclosed => ?_, fun hclosed htesting => ?_, hunused⟩
  · rw [hw.sinkOpen] at hclosed
    have hnone := hs.pump hclosed
    rcases hw.thread with hsame | ⟨pc, pc', hpc, -⟩
    · simpa only [DumpSystem.pump, hsame] using hnone
    · simp [DumpSystem.pump, hpc] at hnone
  · rw [hw.sinkOpen] at hclosed
    rw [hw.shutdown]
    exact hs.testing hclosed ((hw.thread_iff (by simp)).mp htesting)

/-- Whoever runs `pop_and_process` has an open sink. -/
lemma Sealed.open_of_pump (hs : Sealed s r) (hr : SinkRecord kind s r) {who : Runner}
    {pc : PumpPc} (hpc : s.pump who = some pc) : s.sinkOpen = true := by
  cases who with
  | thread =>
      by_contra hclosed
      rw [hs.pump (Bool.eq_false_iff.mpr hclosed)] at hpc
      cases hpc
  | caller => exact hr.draining (DumpSystem.inDrain_of_pump hpc)

variable [DecidableEq Pid]

lemma DumpStep.sealed (hstep : DumpStep kind s a s') (hl : Lifecycle s) (hr : Recorded s r)
    (hsink : SinkRecord kind s r) (hG : startsOpen (s, r) a = true) (hs : Sealed s r) :
    Sealed s' (r.record s a) := by
  cases hstep with
  | produce => exact hs.within ⟨rfl, rfl, rfl, .inl rfl, .inl rfl⟩ hs.unused
  | consume hpc | fillOverflow hpc => exact hs.within (Within.setPump hpc _) hs.unused
  | processOverflow hpc | process hpc =>
      refine hs.within (Within.setPump hpc _) ?_
      simp [CallRecord.record, hs.unused, hs.open_of_pump hsink hpc]
  | threadExit => exact ⟨fun _ => rfl, by simp, hs.unused⟩
  | threadPump hpc hshutdown =>
      -- the thread is told to pump only while the sink is open
      have hopen : s.sinkOpen = true := by
        by_contra hclosed
        rw [hs.testing (Bool.eq_false_iff.mpr hclosed) hpc] at hshutdown
        cases hshutdown
      exact ⟨by simp [hopen], by simp, hs.unused⟩
  | @threadNext result hpc =>
      have hpump : s.pump .thread = some (.returned result) := by simp [DumpSystem.pump, hpc]
      have hopen := hs.open_of_pump hsink hpump
      exact ⟨fun _ => rfl, by simp [hopen], hs.unused⟩
  | startRunning | stopIdle | drain | leave | drainOn | drained | drainedOpen | stopReturn =>
      exact ⟨hs.pump, hs.testing, hs.unused⟩
  | start hpc hrunning =>
      refine ⟨fun _ => rfl, fun hclosed _ => ?_, hs.unused⟩
      rw [hr.shutdown]
      simpa [startsOpen, hrunning, show s.sinkOpen = false from hclosed] using hG
  | stopRunning => exact ⟨hs.pump, fun _ _ => rfl, hs.unused⟩
  | join => exact ⟨fun _ => rfl, by simp, hs.unused⟩
  | closeSink hpc =>
      have habsent : s.thread = .absent := hl.alone (by rw [hpc]; rfl)
      exact ⟨fun _ => by simp [DumpSystem.pump, habsent], by simp [habsent], hs.unused⟩

end Sealed

section Sink

variable [DecidableEq Pid]

/-- **A closed sink is never used.**  In every run in which a new thread is started only while
the sink is open or after a `stop` that found a thread running, `process` never runs on a closed
sink, and the sink is closed at most once. -/
theorem sink_used_open {x : DumpSystem capacity Pid × CallRecord}
    (hx : ((recordedDump kind capacity traceMessageCapacity Pid).restrict
      fun x a => startsOpen x a).Reachable x) :
    x.2.usedClosed = false ∧ x.2.closes ≤ 1 := by
  have hsealed : Sealed x.1 x.2 := by
    refine hx.invariant (I := fun x => Sealed x.1 x.2) ?_ ?_
    · rintro ⟨s, r⟩ ⟨⟨elementMemory, messageMemory, memory, rfl⟩, rfl⟩
      exact ⟨fun _ => rfl, by simp [DumpSystem.construct], rfl⟩
    · rintro ⟨s, r⟩ a ⟨s', r'⟩ hreach hs hstep
      obtain ⟨hG, hstep⟩ := Machine.restrict_step_eq_some.mp hstep
      obtain ⟨hstep, rfl⟩ := Machine.withHistory_step_eq_some.mp hstep
      have hreach := hreach.of_restrict
      exact (DumpStep.of_step hstep).sealed (lifecycle_of_reachable hreach.fst)
        (recorded_of_reachable hreach) (sinkRecord_of_reachable hreach) hG hs
  refine ⟨hsealed.unused, ?_⟩
  rw [(sinkRecord_of_reachable hx.of_restrict).closes]
  split <;> omega

/-- `stop` on a new dump, whose sink it closes. -/
def stopFirst : List (DumpAction Bool) :=
  [.callStop false, .testSink, .consume .caller .resetLoad, .consume .caller .resetStore,
    .consume .caller .popTest, .drainNext, .closeSink, .stopReturn]

/-- A message is pushed, and the thread processes it. -/
def pushAndProcess : List (DumpAction Bool) :=
  [.produce (.headInc true), .produce (.producerLock true), .produce (.markData true),
    .produce (.commitPush true), .threadTest, .consume .thread .resetLoad,
    .consume .thread .resetStore, .consume .thread .popTest, .consume .thread .consumerLock,
    .consume .thread .popRetest, .consume .thread .popCopy, .consume .thread .popRecycle,
    .consume .thread .popClear, .consume .thread .popUnlock, .process .thread]

/-- `start` after such a `stop`. -/
theorem fileTraceDump_uses_closed_sink :
    ¬ ∀ x : DumpSystem 2 Bool × CallRecord,
      (recordedDump (.fileTraceDump true) 2 4 Bool).Reachable x →
        x.2.usedClosed = false ∧ x.2.closes ≤ 1 := by
  intro hall
  have h : ((recordedDump (.fileTraceDump true) 2 4 Bool).exec
      (.construct 4 (fun _ _ => 7) (fun _ => 7) (fun _ => 7), {})
        (stopFirst ++ .callStart :: pushAndProcess)).any
          (fun x => decide (x.2.usedClosed = true)) = true := by
    decide
  obtain ⟨x, hx, hx'⟩ := (Option.any_eq_true _ _).mp h
  have hused := (hall x (Machine.reachable_of_exec ⟨⟨_, _, _, rfl⟩, rfl⟩ hx)).1
  rw [of_decide_eq_true hx'] at hused
  cases hused

/-- The dump is started before it is stopped, and then started again. -/
def startStopStart : List (DumpAction Bool) :=
  [.callStart] ++ pushAndProcess ++ [.threadNext, .callStop false, .threadTest, .join, .testSink,
    .consume .caller .resetLoad, .consume .caller .resetStore, .consume .caller .popTest,
    .drainNext, .closeSink, .stopReturn, .callStart, .threadTest]

theorem sink_used_open_startStopStart :
    ∃ x, ((recordedDump .syslogTraceDump 2 4 Bool).restrict fun x a => startsOpen x a).exec
        (.construct 4 (fun _ _ => 7) (fun _ => 7) (fun _ => 7), {}) startStopStart = some x ∧
      x.1.sinkOpen = false ∧ x.1.thread = .exited ∧ x.2.usedClosed = false ∧ x.2.closes ≤ 1 := by
  have h : (((recordedDump .syslogTraceDump 2 4 Bool).restrict fun x a => startsOpen x a).exec
      (.construct 4 (fun _ _ => 7) (fun _ => 7) (fun _ => 7), {}) startStopStart).any
        (fun x => decide (x.1.sinkOpen = false ∧ x.1.thread = .exited)) = true := by
    decide
  obtain ⟨x, hx, hx'⟩ := (Option.any_eq_true _ _).mp h
  obtain ⟨hclosed, hexited⟩ := of_decide_eq_true hx'
  exact ⟨x, hx, hclosed, hexited,
    sink_used_open (Machine.reachable_of_exec ⟨⟨_, _, _, rfl⟩, rfl⟩ hx)⟩

end Sink

/-! ## The thread -/

/-- The thread runs its loop, and nothing tells it to leave. -/
structure Consumes (s : DumpSystem capacity Pid) : Prop where
  running : s.threadRunning = true
  shutdown : s.shutdown = false
  inLoop : s.thread ≠ .absent ∧ s.thread ≠ .exited

/-- `start` is called before any `stop` has found the thread running. -/
def startsFirst (x : DumpSystem capacity Pid × CallRecord) : DumpAction Pid → Bool
  | .callStart => !x.2.joined
  | _ => true

section Consumes

variable {s s' : DumpSystem capacity Pid} {r r' : CallRecord} {a : DumpAction Pid}

/-- The two flags put the thread in its loop. -/
lemma consumes_of_flags (hl : Lifecycle s) (hr : Recorded s r) (hrunning : s.threadRunning = true)
    (hshutdown : s.shutdown = false) : Consumes s := by
  refine ⟨hrunning, hshutdown, hl.running.mp hrunning, fun hexited => ?_⟩
  rw [hr.exited hexited] at hshutdown
  cases hshutdown

variable [DecidableEq Pid]

omit [DecidableEq Pid] in
lemma Within.flags {p : Prop} (hw : Within s s')
    (hP : p → s.threadRunning = true ∧ s.shutdown = false) :
    p → s'.threadRunning = true ∧ s'.shutdown = false := by
  intro h
  rw [hw.threadRunning, hw.shutdown]
  exact hP h

/-- Between `start` and the next `stop` nothing but `start` itself can find the flags wrong. -/
lemma DumpStep.flags_iff (hstep : DumpStep kind s a s') (hr : Recorded s r)
    (hP : r.started = true → s.threadRunning = true ∧ s.shutdown = false) :
    ((r.record s a).started = true → s'.threadRunning = true ∧ s'.shutdown = false) ↔
      startsFirst (s, r) a = true := by
  cases hstep with
  | startRunning hpc hrunning =>
      simp [CallRecord.record, startsFirst, hrunning, hr.shutdown]
  | start hpc hrunning => simp [CallRecord.record, startsFirst, hr.shutdown]
  | stopRunning | stopIdle => simp [CallRecord.record, startsFirst]
  | @produce b ring hb hring => exact iff_of_true hP rfl
  | consume hpc | fillOverflow hpc | processOverflow hpc | process hpc =>
      exact iff_of_true ((Within.setPump hpc _).flags hP) rfl
  | threadExit | threadPump | threadNext | drain | leave | drainOn | drained | drainedOpen
  | closeSink | stopReturn => exact iff_of_true hP rfl
  | join hpc =>
      refine iff_of_true (fun h => ?_) rfl
      have hidle := (hr.started h).1
      rw [hpc] at hidle
      cases hidle

/-- **A dump consumes from `start` to `stop`** in every state of a run exactly if every `start` of
the run comes before any `stop` that found the thread running. -/
theorem consumes_iff {x y : DumpSystem capacity Pid × CallRecord} {acts : List (DumpAction Pid)}
    (hinit : (recordedDump kind capacity traceMessageCapacity Pid).init x)
    (hrun : (recordedDump kind capacity traceMessageCapacity Pid).exec x acts = some y) :
    (∀ pre t, pre <+: acts →
        (recordedDump kind capacity traceMessageCapacity Pid).exec x pre = some t →
          t.2.started = true → Consumes t.1) ↔
      ((recordedDump kind capacity traceMessageCapacity Pid).restrict
        fun x a => startsFirst x a).exec x acts = some y := by
  have hflags := Machine.exec_forall_iff (M := recordedDump kind capacity traceMessageCapacity Pid)
    (G := fun x a => startsFirst x a = true)
    (P := fun x => x.2.started = true → x.1.threadRunning = true ∧ x.1.shutdown = false)
    ?_ (.init hinit) ?_ hrun
  · rw [← hflags]
    refine ⟨fun h pre t hpre ht hstarted => ?_, fun h pre t hpre ht hstarted => ?_⟩
    · obtain ⟨hrunning, hshutdown, -⟩ := h pre t hpre ht hstarted
      exact ⟨hrunning, hshutdown⟩
    · have hreach := (Machine.Reachable.init hinit).exec ht
      obtain ⟨hrunning, hshutdown⟩ := h pre t hpre ht hstarted
      exact consumes_of_flags (lifecycle_of_reachable hreach.fst) (recorded_of_reachable hreach)
        hrunning hshutdown
  · rintro ⟨s, r⟩ a ⟨s', r'⟩ hreach hP hstep
    obtain ⟨hstep, rfl⟩ := Machine.withHistory_step_eq_some.mp hstep
    exact (DumpStep.of_step hstep).flags_iff (recorded_of_reachable hreach) hP
  · obtain ⟨s, r⟩ := x
    obtain ⟨-, rfl⟩ := hinit
    intro hstarted
    cases hstarted

/-- `stop` ends the thread before it has popped anything. -/
def stopThread : List (DumpAction Bool) :=
  [.callStop false, .threadTest, .join, .testSink, .stopReturn]

/-- A dump that leaves its handle open does not consume after a restart. -/
theorem fileTraceDump_restart_stalls :
    ¬ ∀ x : DumpSystem 2 Bool × CallRecord,
      (recordedDump (.fileTraceDump false) 2 4 Bool).Reachable x →
        x.2.started = true → Consumes x.1 := by
  intro hall
  have h : ((recordedDump (.fileTraceDump false) 2 4 Bool).exec
      (.construct 4 (fun _ _ => 7) (fun _ => 7) (fun _ => 7), {})
        ([.callStart] ++ stopThread ++ [.callStart])).any
          (fun x => decide (x.2.started = true ∧ x.1.shutdown = true)) = true := by
    decide
  obtain ⟨x, hx, hx'⟩ := (Option.any_eq_true _ _).mp h
  obtain ⟨hstarted, hshutdown⟩ := of_decide_eq_true hx'
  have hconsumes := hall x (Machine.reachable_of_exec ⟨⟨_, _, _, rfl⟩, rfl⟩ hx) hstarted
  rw [hconsumes.shutdown] at hshutdown
  cases hshutdown

/-- A `stop` before the first `start` does no harm. -/
def stopThenStart : List (DumpAction Bool) :=
  [.callStop false, .testSink, .stopReturn, .callStart] ++ pushAndProcess ++ [.threadNext]

theorem consumes_iff_stopThenStart :
    ∃ y, (recordedDump (.fileTraceDump false) 2 4 Bool).exec
        (.construct 4 (fun _ _ => 7) (fun _ => 7) (fun _ => 7), {}) stopThenStart = some y ∧
      y.2.started = true ∧ Consumes y.1 := by
  have h : (((recordedDump (.fileTraceDump false) 2 4 Bool).restrict
      fun x a => startsFirst x a).exec
        (.construct 4 (fun _ _ => 7) (fun _ => 7) (fun _ => 7), {}) stopThenStart).any
          (fun x => decide (x.2.started = true)) = true := by
    decide
  obtain ⟨y, hy, hy'⟩ := (Option.any_eq_true _ _).mp h
  have hrun := Machine.exec_of_restrict hy
  have hall := (consumes_iff ⟨⟨_, _, _, rfl⟩, rfl⟩ hrun).mpr hy
  have hstarted := of_decide_eq_true hy'
  exact ⟨y, hrun, hstarted, hall stopThenStart y (List.prefix_refl _) hrun hstarted⟩

end Consumes

end InfiTracing
