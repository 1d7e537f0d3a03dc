import InfiTracing.TraceDump.Processed

/-!
# What `stop` has processed

The thread of a dump can leave its loop at any point, so messages may be left in the ring
buffer when `stop` has joined it.  `stop` is to process them before it returns.

In the quiet runs of `TraceDump/Processed.lean` a class of dump that drains has everything
delivered from then on (`stopping_of_reachable`).  `stop_processes_all_iff` is the outcome:
`stop` of a `TraceDump`, of a `SyslogTraceDump` and of a `FileTraceDump` that closes its handle
always returns with every message processed.  A `FileTraceDump` with `close_handle` false skips
`process_remaining` together with `fclose`: its `stop` does so only if the thread happened to
leave nothing in the buffer (`fileTraceDump_stop_leaves` is a run in which it did not).
-/

namespace InfiTracing

open Framework

variable {kind : DumpKind} {capacity traceMessageCapacity : ℕ} {Pid : Type}

/-! ## What a drain leaves -/

/-- `process_remaining` has returned, or was not called. -/
def CallerPc.drained : CallerPc → Bool
  | .draining (.returned false) | .closing | .returning => true
  | _ => false

/-- Once `stop` has been called the producers are done.  A class of dump that drains has
everything delivered when it has drained, and ever after; the one that does not returns with
what `shutdown_thread` has left. -/
structure Stopping (kind : DumpKind) (s : DumpSystem capacity Pid) (h : DumpHistory Pid) :
    Prop where
  begun : s.caller ≠ .idle → h.stopped = true
  closed : s.sinkOpen = false → h.stopped = true
  idle : h.stopped = true → ∀ p, s.ring.producers p = .idle
  drained : s.caller.drained = true ∨ s.sinkOpen = false → kind ≠ .fileTraceDump false →
    h.ring.deliveries.length = h.ring.tickets
  left : s.caller = .returning → kind = .fileTraceDump false →
    h.leftover = s.ring.buffer.hasData

section Stopping

variable {s s' : DumpSystem capacity Pid} {h : DumpHistory Pid} {a : DumpAction Pid}

/-- The thread does not run while `stop` is about to return. -/
lemma Lifecycle.not_returning (hl : Lifecycle s) {pc : PumpPc}
    (hpc : s.pump .thread = some pc) : s.caller ≠ .returning := by
  intro hreturning
  have habsent : s.thread = .absent := hl.alone (by rw [hreturning]; rfl)
  simp [DumpSystem.pump, habsent] at hpc

/-- A class other than `FileTraceDump` with an open handle drains as long as it has a sink. -/
lemma DumpKind.closed_of_not_drains {sinkOpen : Bool} (h : kind.drains sinkOpen = false)
    (hkind : kind ≠ .fileTraceDump false) : sinkOpen = false := by
  cases kind with
  | traceDump => cases h
  | fileTraceDump closeHandle =>
      cases closeHandle with
      | false => exact absurd rfl hkind
      | true => exact h
  | syslogTraceDump => exact h

/-- The caller goes on, and has not drained. -/
lemma Stopping.undrained (hs : Stopping kind s h) {h' : DumpHistory Pid}
    (hstopped : h'.stopped = true) (hidle : ∀ p, s'.ring.producers p = .idle)
    (hring : h'.ring = h.ring) (hsink : s'.sinkOpen = s.sinkOpen)
    (hcaller : s'.caller.drained = false) : Stopping kind s' h' := by
  refine ⟨fun _ => hstopped, fun _ => hstopped, fun _ => hidle, ?_, fun hreturning => ?_⟩
  · rw [hcaller, hsink, hring]
    rintro (hdrained | hclosed) hkind
    · cases hdrained
    · exact hs.drained (.inr hclosed) hkind
  · rw [hreturning] at hcaller
    cases hcaller

variable [DecidableEq Pid] [Fintype Pid]

/-- A step inside `pop_and_process`. -/
lemma Stopping.consume (hs : Stopping kind s h) (hc : ∃ k, capacity = 2 ^ k) (hl : Lifecycle s)
    {who : Runner} {b : Action Pid} {pc pc' : PumpPc} {ring : RingSystem capacity Pid}
    (hpc : s.pump who = some pc) (hnext : pc.next s.ring b = some pc')
    (hstep : Step s.ring b ring) (hpop : PopCommitted s.ring)
    (hreach : (unoverrunRing capacity traceMessageCapacity Pid).Reachable
      (ring, h.ring.record s.ring b)) :
    Stopping kind ({ s with ring }.setPump who pc') (h.record s (.consume who b)) := by
  have hb := byProducer_of_next hnext
  have hproducers := producers_of_consumer hstep hb
  have hidle : h.stopped = true → ∀ p, ring.producers p = .idle := by
    rw [hproducers]
    exact hs.idle
  -- what is delivered stays delivered, and there are no more tickets
  have hkeeps : h.ring.deliveries.length = h.ring.tickets →
      (h.ring.record s.ring b).deliveries.length = (h.ring.record s.ring b).tickets := by
    intro hall
    have hmore := h.ring.length_deliveries_le s.ring b
    have hbound : (h.ring.record s.ring b).deliveries.length ≤
        (h.ring.record s.ring b).tickets := delivered_le_tickets hc hreach
    have htickets := h.ring.tickets_of_consumer s.ring hb
    omega
  cases who with
  | thread =>
      have hnot := hl.not_returning hpc
      exact ⟨hs.begun, hs.closed, hidle, fun hdrained hkind => hkeeps (hs.drained hdrained hkind),
        fun hreturning => absurd hreturning hnot⟩
  | caller =>
      have hstopped : h.stopped = true := by
        apply hs.begun
        intro hcaller
        simp [DumpSystem.pump, hcaller] at hpc
      refine ⟨fun _ => hstopped, hs.closed, hidle, ?_, fun hreturning => by cases hreturning⟩
      rintro (hdrained | hclosed) hkind
      · -- the drain is over because the slot under the tail is empty
        have hreturned : pc' = .returned false := by
          cases pc' with
          | returned result =>
              cases result with
              | false => rfl
              | true => cases hdrained
          | _ => cases hdrained
        have htail := (PumpStep.of_next hnext hstep).tail_empty hreturned hpop
        exact delivered_all_of_tail hc hreach (hidle hstopped) htail
      · exact hkeeps (hs.drained (.inr hclosed) hkind)

lemma DumpStep.stopping (hstep : DumpStep kind s a s') (hc : ∃ k, capacity = 2 ^ k)
    (hl : Lifecycle s) (hdrain : s.caller.inDrain = true → kind.drains s.sinkOpen = true)
    (hf : LossFree traceMessageCapacity s h) (hf' : LossFree traceMessageCapacity s' (h.record s a))
    (hG : quietStop (s, h) a = true) (hs : Stopping kind s h) :
    Stopping kind s' (h.record s a) := by
  cases hstep with
  | produce hb hring =>
      simp only [quietStop, Bool.and_eq_true, Bool.not_eq_true'] at hG
      -- no `stop` has been called yet
      have hnot : h.stopped ≠ true := by simp [hG.1]
      have hcaller : s.caller = .idle := by
        by_contra hne
        exact hnot (hs.begun hne)
      refine ⟨hs.begun, hs.closed, fun hstopped => absurd hstopped hnot, ?_, ?_⟩
      · rintro (hdrained | hclosed) hkind
        · simp [hcaller, CallerPc.drained] at hdrained
        · exact absurd (hs.closed hclosed) hnot
      · intro hreturning
        simp [hcaller] at hreturning
  | consume hpc hnext hring =>
      have hreach := hf'.ring
      rw [DumpSystem.ring_setPump] at hreach
      exact hs.consume hc hl hpc hnext (Step.of_step hring)
        (popCommitted_of_reachable hf.ring.of_restrict.fst) hreach
  | fillOverflow hpc | processOverflow hpc => cases hf.pump _ _ hpc
  | @process who hpc =>
      cases who with
      | thread =>
          have hnot := hl.not_returning hpc
          exact ⟨hs.begun, hs.closed, hs.idle, hs.drained, fun hreturning => absurd hreturning hnot⟩
      | caller =>
          have hstopped : h.stopped = true := by
            apply hs.begun
            intro hcaller
            simp [DumpSystem.pump, hcaller] at hpc
          exact hs.undrained hstopped (hs.idle hstopped) rfl rfl rfl
  | threadExit | threadPump | threadNext | startRunning | start =>
      exact ⟨hs.begun, hs.closed, hs.idle, hs.drained, hs.left⟩
  | stopRunning hpc | stopIdle hpc =>
      have hidle : ∀ p, s.ring.producers p = .idle := by simpa [quietStop] using hG
      exact hs.undrained rfl hidle rfl rfl rfl
  | join hpc | drain hpc | drainOn hpc =>
      have hstopped := hs.begun (by simp [hpc])
      exact hs.undrained hstopped (hs.idle hstopped) rfl rfl rfl
  | leave hpc hdrains =>
      refine ⟨fun _ => hs.begun (by simp [hpc]), hs.closed, hs.idle, fun _ hkind => ?_,
        fun _ _ => rfl⟩
      exact hs.drained (.inr (DumpKind.closed_of_not_drains hdrains hkind)) hkind
  | drained hpc =>
      exact ⟨fun _ => hs.begun (by simp [hpc]), hs.closed, hs.idle,
        fun _ hkind => hs.drained (.inl (by rw [hpc]; rfl)) hkind,
        fun hreturning => by cases hreturning⟩
  | drainedOpen hpc hcloses =>
      refine ⟨fun _ => hs.begun (by simp [hpc]), hs.closed, hs.idle,
        fun _ hkind => hs.drained (.inl (by rw [hpc]; rfl)) hkind, fun _ hkind => ?_⟩
      subst hkind
      cases hcloses
  | closeSink hpc =>
      have hopen := hdrain (by rw [hpc]; rfl)
      have hstopped := hs.begun (by simp [hpc])
      refine ⟨fun _ => hstopped, fun _ => hstopped, hs.idle,
        fun _ hkind => hs.drained (.inl (by rw [hpc]; rfl)) hkind, fun _ hkind => ?_⟩
      -- a dump that leaves its handle open does not come here
      subst hkind
      cases hopen
  | stopReturn hpc =>
      have hstopped := hs.begun (by simp [hpc])
      refine ⟨fun _ => hstopped, hs.closed, hs.idle, ?_, fun hreturning => ?_⟩
      · exact fun _ hkind => hs.drained (.inl (by rw [hpc]; rfl)) hkind
      · cases hd : s.destroying <;> simp [hd] at hreturning

theorem stopping_of_reachable (hc : ∃ k, capacity = 2 ^ k)
    {x : DumpSystem capacity Pid × DumpHistory Pid}
    (hx : (quietDump kind capacity traceMessageCapacity Pid).Reachable x) :
    Stopping kind x.1 x.2 := by
  refine quietDump_invariant hx ?_ ?_
  · intro elementMemory messageMemory memory
    refine ⟨fun hne => absurd rfl hne, fun hclosed => (by cases hclosed), fun hs => (by cases hs),
      ?_, fun hreturning => (by cases hreturning)⟩
    rintro (hdrained | hclosed)
    · cases hdrained
    · cases hclosed
  · intro s h a s' hreach hreach' hs hG hstep
    have hdump := traceDump_of_quietDump hreach
    exact hstep.stopping hc (lifecycle_of_reachable hdump) (drains_of_reachable hdump)
      (lossFree_of_reachable hreach) (lossFree_of_reachable hreach') hG hs

end Stopping

/-! ## When `stop` returns -/

section Returning

variable [DecidableEq Pid]

/-- Everything is processed once everything is delivered and handed on. -/
lemma allProcessed_iff_delivered (hc : ∃ k, capacity = 2 ^ k)
    {x : DumpSystem capacity Pid × DumpHistory Pid}
    (hring : (unoverrunRing capacity traceMessageCapacity Pid).Reachable (x.1.ring, x.2.ring))
    (hprocessed : x.2.processed = x.2.ring.deliveries.map Delivery.shown) :
    AllProcessed traceMessageCapacity x ↔ x.2.ring.deliveries.length = x.2.ring.tickets := by
  unfold AllProcessed
  rw [hprocessed]
  constructor
  · intro hall
    simpa using congrArg List.length hall
  · intro hall
    have hturn := inTurn_of_reachable hc hring
    rw [← hall]
    refine List.ext_getElem (by simp) fun k hk hk' => ?_
    have hlt : k < x.2.ring.deliveries.length := by simpa using hk
    obtain ⟨w, hw, hshown⟩ := hturn.delivered k _ (List.getElem?_eq_getElem hlt)
    have hw : x.2.ring.written k = some w := hw
    simp [hw, hshown]

variable [Fintype Pid]

/-- Everything popped is processed when `stop` returns. -/
lemma processed_of_returning {x : DumpSystem capacity Pid × DumpHistory Pid}
    (hx : (quietDump kind capacity traceMessageCapacity Pid).Reachable x)
    (hreturning : x.1.caller = .returning) :
    x.1.ring.consumer = .idle ∧
      x.2.processed = x.2.ring.deliveries.map Delivery.shown := by
  have hdump := traceDump_of_quietDump hx
  have hl := lifecycle_of_reachable hdump
  have habsent : x.1.thread = .absent := hl.alone (by rw [hreturning]; rfl)
  have hnone : ∀ who, x.1.pump who = none := by
    intro who
    cases who <;> simp [DumpSystem.pump, hreturning, habsent]
  have hidle := (pumping_of_reachable hdump).quiet hnone
  refine ⟨hidle, (handed_of_reachable hx).done ?_⟩
  rintro (hcopied | ⟨who, hpc⟩)
  · rw [hidle] at hcopied
    cases hcopied
  · rw [hnone who] at hpc
    cases hpc

/-- A class of dump that drains has processed every message when `stop` returns. -/
lemma allProcessed_of_returning (hc : ∃ k, capacity = 2 ^ k) (hkind : kind ≠ .fileTraceDump false)
    {x : DumpSystem capacity Pid × DumpHistory Pid}
    (hx : (quietDump kind capacity traceMessageCapacity Pid).Reachable x)
    (hreturning : x.1.caller = .returning) : AllProcessed traceMessageCapacity x := by
  have hprocessed := (processed_of_returning hx hreturning).2
  rw [allProcessed_iff_delivered hc (lossFree_of_reachable hx).ring hprocessed]
  exact (stopping_of_reachable hc hx).drained (.inl (by rw [hreturning]; rfl)) hkind

/-- **What `stop` has processed.**  Whenever `stop` returns, in any run without overruns in
which every push is committed before `stop` is first called: every message has been passed to
`process` exactly once, in the order of the pushes, if and only if the dump is not one that
leaves its handle open or the thread has left no slot with data. -/
theorem stop_processes_all_iff (hc : ∃ k, capacity = 2 ^ k)
    {x : DumpSystem capacity Pid × DumpHistory Pid}
    (hx : (quietDump kind capacity traceMessageCapacity Pid).Reachable x)
    (hreturning : x.1.caller = .returning) :
    AllProcessed traceMessageCapacity x ↔
      (kind = .fileTraceDump false → ∀ i < capacity, x.2.leftover i = false) := by
  have hring := (lossFree_of_reachable hx).ring
  have hs := stopping_of_reachable hc hx
  obtain ⟨hidle, hprocessed⟩ := processed_of_returning hx hreturning
  have hproducers := hs.idle (hs.begun (by simp [hreturning]))
  rw [allProcessed_iff_delivered hc hring hprocessed]
  by_cases hkind : kind = .fileTraceDump false
  · have hslots : ∀ i, x.1.ring.unread i = x.2.leftover i := by
      intro i
      rw [hs.left hreturning hkind]
      simp [RingSystem.unread, hidle, ConsumerPc.emptying]
    have hdelivered := delivered_all_iff hc hring hproducers
    simp only [hslots] at hdelivered
    rw [hdelivered]
    exact (imp_iff_right hkind).symm
  · refine iff_of_true (hs.drained (.inl (by rw [hreturning]; rfl)) hkind) fun h => ?_
    exact absurd h hkind

/-- The thread is started, a message is pushed, and `stop` is called before the thread has tested
`shutdown` for the first time. -/
def stopBeforeTest : List (DumpAction Bool) :=
  [.callStart, .produce (.headInc true), .produce (.producerLock true),
    .produce (.markData true), .produce (.edit true (.write (.ofBuffer [97]))),
    .produce (.commitPush true), .callStop false, .threadTest, .join, .testSink]

/-- `stop` of a `FileTraceDump` with `close_handle` false returns with the message in the ring
buffer. -/
theorem fileTraceDump_stop_leaves :
    ¬ ∀ (kind : DumpKind) (x : DumpSystem 2 Bool × DumpHistory Bool),
      (quietDump kind 2 4 Bool).Reachable x → x.1.caller = .returning → AllProcessed 4 x := by
  intro hall
  have h : ((quietDump (.fileTraceDump false) 2 4 Bool).exec
      (.construct 4 (fun _ _ => 7) (fun _ => 7) (fun _ => 7), {}) stopBeforeTest).any (fun x =>
        decide (x.1.caller = .returning ∧ ¬ AllProcessed 4 x)) = true := by
    decide
  obtain ⟨x, hx, hx'⟩ := (Option.any_eq_true _ _).mp h
  obtain ⟨hreturning, hnot⟩ := of_decide_eq_true hx'
  exact hnot (hall _ x (Machine.reachable_of_exec ⟨⟨_, _, _, rfl⟩, rfl⟩ hx) hreturning)

/-- `process_remaining` on a ring buffer with one message. -/
def drainOne : List (DumpAction Bool) :=
  [.consume .caller .resetLoad, .consume .caller .resetStore, .consume .caller .popTest,
    .consume .caller .consumerLock, .consume .caller .popRetest, .consume .caller .popCopy,
    .consume .caller .popRecycle, .consume .caller .popClear, .consume .caller .popUnlock,
    .process .caller, .drainNext, .consume .caller .resetLoad, .consume .caller .resetStore,
    .consume .caller .popTest, .drainNext, .closeSink]

/-- The same run with `close_handle` true. -/
theorem stop_processes_all_iff_closing :
    ∃ x, (quietDump (.fileTraceDump true) 2 4 Bool).exec
        (.construct 4 (fun _ _ => 7) (fun _ => 7) (fun _ => 7), {}) (stopBeforeTest ++ drainOne) =
          some x ∧ x.1.caller = .returning ∧ x.2.processed = [⟨[97], -1, 0⟩] ∧
      (AllProcessed 4 x ↔ (DumpKind.fileTraceDump true = .fileTraceDump false →
        ∀ i < 2, x.2.leftover i = false)) := by
  have h : ((quietDump (.fileTraceDump true) 2 4 Bool).exec
      (.construct 4 (fun _ _ => 7) (fun _ => 7) (fun _ => 7), {}) (stopBeforeTest ++ drainOne)).any
        (fun x => decide (x.1.caller = .returning ∧ x.2.processed = [⟨[97], -1, 0⟩])) = true := by
    decide
  obtain ⟨x, hx, hx'⟩ := (Option.any_eq_true _ _).mp h
  obtain ⟨hreturning, hprocessed⟩ := of_decide_eq_true hx'
  exact ⟨x, hx, hreturning, hprocessed, stop_processes_all_iff ⟨1, rfl⟩
    (Machine.reachable_of_exec ⟨⟨_, _, _, rfl⟩, rfl⟩ hx) hreturning⟩

end Returning

end InfiTracing
