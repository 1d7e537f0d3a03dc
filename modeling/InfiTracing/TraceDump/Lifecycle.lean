import InfiTracing.TraceDump.Basic

/-!
# One consumer at a time

The ring buffer is written for one consumer, and a trace dump has two parties that pop from
it: its thread and the caller of `stop` in `process_remaining`.  They never do so at the same
time.  `lifecycle_of_reachable` is why: from `mint_thread_join` on, and until `stop` has
returned, there is no thread.  `pumping_of_reachable` says where the consumer of the ring
buffer is while one of them is in `pop_and_process`, and that it is in no call while neither is.

Both hold in every interleaving of every class of dump, for any order of calls.
-/

namespace InfiTracing

open Framework

variable {kind : DumpKind} {capacity traceMessageCapacity : ℕ} {Pid : Type}

/-! ## The thread and the flags -/

/-- `shutdown_thread` has returned, and `stop` has not. -/
def CallerPc.pastJoin : CallerPc → Bool
  | .idle | .joining => false
  | .joined | .draining _ | .closing | .returning | .destroyed => true

/-- `thread_running` says whether there is a thread; there is none past the join. -/
structure Lifecycle (s : DumpSystem capacity Pid) : Prop where
  running : s.threadRunning = true ↔ s.thread ≠ .absent
  joining : s.caller = .joining → s.shutdown = true ∧ s.threadRunning = true
  alone : s.caller.pastJoin = true → s.thread = .absent

section Lifecycle

variable {s s' : DumpSystem capacity Pid} {a : DumpAction Pid}

lemma Lifecycle.absent (hl : Lifecycle s) (h : s.threadRunning = false) :
    s.thread = .absent := by
  by_contra hne
  rw [hl.running.mpr hne] at h
  cases h

lemma DumpSystem.pump_ring (s : DumpSystem capacity Pid) (ring : RingSystem capacity Pid)
    (who : Runner) : ({ s with ring } : DumpSystem capacity Pid).pump who = s.pump who := by
  cases who <;> rfl

/-- A caller in `process_remaining` is past the join. -/
lemma DumpSystem.pastJoin_of_pump {pc : PumpPc} (hpc : s.pump .caller = some pc) :
    s.caller.pastJoin = true := by
  cases hcaller : s.caller <;> simp_all [DumpSystem.pump, CallerPc.pastJoin]

/-- The thread goes on. -/
lemma Lifecycle.setThread (hl : Lifecycle s) (hpc : s.thread ≠ .absent) {pc : ThreadPc}
    (hne : pc ≠ .absent) : Lifecycle { s with thread := pc } :=
  ⟨iff_of_true (hl.running.mpr hpc) hne, hl.joining, fun h => absurd (hl.alone h) hpc⟩

/-- The caller goes on, past the join. -/
lemma Lifecycle.setCaller (hl : Lifecycle s) (hpc : s.caller.pastJoin = true) {pc : CallerPc}
    (hne : pc ≠ .joining) : Lifecycle { s with caller := pc } :=
  ⟨hl.running, fun h => absurd h hne, fun _ => hl.alone hpc⟩

lemma Lifecycle.setPump (hl : Lifecycle s) {who : Runner} {pc pc' : PumpPc}
    (hpc : s.pump who = some pc) : Lifecycle (s.setPump who pc') := by
  cases who with
  | thread =>
      refine hl.setThread (fun habsent => ?_) (by simp)
      simp [DumpSystem.pump, habsent] at hpc
  | caller =>
      exact hl.setCaller (DumpSystem.pastJoin_of_pump hpc) (by simp)

/-- While there is a thread, no caller is in `process_remaining`. -/
lemma Lifecycle.pump_caller (hl : Lifecycle s) (hthread : s.thread ≠ .absent) :
    s.pump .caller = none := by
  by_contra hsome
  obtain ⟨pc, hpc⟩ := Option.ne_none_iff_exists'.mp hsome
  exact hthread (hl.alone (DumpSystem.pastJoin_of_pump hpc))

/-- No two runs of `pop_and_process` at the same time. -/
lemma Lifecycle.exclusive (hl : Lifecycle s) {who who' : Runner} {pc : PumpPc}
    (hpc : s.pump who = some pc) (hne : who' ≠ who) : s.pump who' = none := by
  cases who with
  | thread =>
      cases who' with
      | thread => exact absurd rfl hne
      | caller =>
          apply hl.pump_caller
          intro habsent
          simp [DumpSystem.pump, habsent] at hpc
  | caller =>
      cases who' with
      | thread =>
          have habsent : s.thread = .absent := hl.alone (DumpSystem.pastJoin_of_pump hpc)
          simp [DumpSystem.pump, habsent]
      | caller => exact absurd rfl hne

variable [DecidableEq Pid]

lemma DumpStep.lifecycle (hstep : DumpStep kind s a s') (hl : Lifecycle s) : Lifecycle s' := by
  cases hstep with
  | produce | startRunning => exact ⟨hl.running, hl.joining, hl.alone⟩
  | @consume who b pc pc' ring hpc hnext hring =>
      have hring : Lifecycle { s with ring } := ⟨hl.running, hl.joining, hl.alone⟩
      exact hring.setPump ((s.pump_ring ring who).trans hpc)
  | @fillOverflow who pid tvSec tvUsec messagesLost hpc =>
      have hmessage : Lifecycle (s.setMessage
          (overflowMessage s.ring.message pid tvSec tvUsec messagesLost)) :=
        ⟨hl.running, hl.joining, hl.alone⟩
      exact hmessage.setPump ((s.pump_ring _ who).trans hpc)
  | processOverflow hpc | process hpc => exact hl.setPump hpc
  | threadExit hpc | threadPump hpc | threadNext hpc =>
      exact hl.setThread (by simp [hpc]) (by simp)
  | start hpc hrunning =>
      exact ⟨iff_of_true rfl (by simp), by simp [hpc], by simp [hpc, CallerPc.pastJoin]⟩
  | stopRunning hpc hclass hrunning =>
      exact ⟨hl.running, fun _ => ⟨rfl, hrunning⟩, by simp [CallerPc.pastJoin]⟩
  | stopIdle hpc hclass hrunning =>
      exact ⟨hl.running, by simp, fun _ => hl.absent hrunning⟩
  | join hpc hexited => exact ⟨by simp, by simp, fun _ => rfl⟩
  | drain hpc | leave hpc | drainOn hpc | drained hpc | drainedOpen hpc =>
      exact hl.setCaller (by rw [hpc]; rfl) (by simp)
  | closeSink hpc =>
      exact ⟨hl.running, by simp, fun _ => hl.alone (by rw [hpc]; rfl)⟩
  | stopReturn hpc =>
      refine hl.setCaller (by rw [hpc]; rfl) ?_
      split <;> simp

theorem lifecycle_of_reachable
    (hs : (traceDump kind capacity traceMessageCapacity Pid).Reachable s) : Lifecycle s := by
  refine hs.invariant ?_ ?_
  · rintro s ⟨elementMemory, messageMemory, memory, rfl⟩
    exact ⟨by simp [DumpSystem.construct], by simp [DumpSystem.construct],
      by simp [DumpSystem.construct, CallerPc.pastJoin]⟩
  · intro s a s' _ hl hstep
    exact (DumpStep.of_step hstep).lifecycle hl

end Lifecycle

/-! ## When `stop` drains -/

/-- In `process_remaining`, or about to close the sink after it. -/
def CallerPc.inDrain : CallerPc → Bool
  | .draining _ | .closing => true
  | .idle | .joining | .joined | .returning | .destroyed => false

section Drains

variable [DecidableEq Pid] {s s' : DumpSystem capacity Pid} {a : DumpAction Pid}

omit [DecidableEq Pid] in
lemma DumpSystem.inDrain_of_pump {pc : PumpPc} (hpc : s.pump .caller = some pc) :
    s.caller.inDrain = true := by
  cases hcaller : s.caller <;> simp_all [DumpSystem.pump, CallerPc.inDrain]

/-- The guard of `process_remaining` still holds while `stop` drains. -/
lemma DumpStep.drains (hstep : DumpStep kind s a s')
    (h : s.caller.inDrain = true → kind.drains s.sinkOpen = true) :
    s'.caller.inDrain = true → kind.drains s'.sinkOpen = true := by
  cases hstep with
  | @consume who b pc pc' ring hpc | @fillOverflow who pid tvSec tvUsec messagesLost hpc
  | @processOverflow who hpc | @process who hpc =>
      cases who with
      | thread => exact h
      | caller => exact fun _ => h (DumpSystem.inDrain_of_pump hpc)
  | drain hpc hdrains => exact fun _ => hdrains
  | drainOn hpc | drained hpc => exact fun _ => h (by rw [hpc]; rfl)
  | produce | threadExit | threadPump | threadNext | startRunning | start => exact h
  | stopRunning | stopIdle | join | leave | drainedOpen | closeSink =>
      exact fun hin => absurd hin (by simp [CallerPc.inDrain])
  | stopReturn hpc =>
      refine fun hin => absurd hin ?_
      cases hd : s.destroying <;> simp [CallerPc.inDrain]

theorem drains_of_reachable
    (hs : (traceDump kind capacity traceMessageCapacity Pid).Reachable s) :
    s.caller.inDrain = true → kind.drains s.sinkOpen = true := by
  refine hs.invariant
    (I := fun s => s.caller.inDrain = true → kind.drains s.sinkOpen = true) ?_ ?_
  · rintro s ⟨elementMemory, messageMemory, memory, rfl⟩ hin
    cases hin
  · intro s a s' _ h hstep
    exact (DumpStep.of_step hstep).drains h

end Drains

/-! ## Where the consumer is -/

/-- Where the consumer of the ring buffer can be while `pop_and_process` is at `pc`. -/
def PumpPc.Fits : PumpPc → ConsumerPc → Prop
  | .resetting, cpc => cpc = .idle ∨ ∃ r, cpc = .resetting r
  | .popping, cpc => ∀ r, cpc ≠ .resetting r
  | .overflowing _, cpc | .overflowed, cpc | .processing, cpc | .returned _, cpc => cpc = .idle

/-- The consumer is where the one run of `pop_and_process` under way has it. -/
structure Pumping (s : DumpSystem capacity Pid) : Prop where
  fits : ∀ who pc, s.pump who = some pc → pc.Fits s.ring.consumer
  quiet : (∀ who, s.pump who = none) → s.ring.consumer = .idle

section Pumping

variable {s s' t : DumpSystem capacity Pid} {a : DumpAction Pid}

lemma DumpSystem.pump_setPump (s : DumpSystem capacity Pid) (who : Runner) (pc : PumpPc) :
    (s.setPump who pc).pump who = some pc := by
  cases who <;> rfl

lemma DumpSystem.pump_setPump_of_ne {who who' : Runner} (hne : who' ≠ who) (pc : PumpPc) :
    (s.setPump who pc).pump who' = s.pump who' := by
  cases who <;> cases who'
  · exact absurd rfl hne
  · rfl
  · rfl
  · exact absurd rfl hne

@[simp] lemma DumpSystem.ring_setPump (s : DumpSystem capacity Pid) (who : Runner)
    (pc : PumpPc) : (s.setPump who pc).ring = s.ring := by
  cases who <;> rfl

/-- A step that leaves the runs of `pop_and_process` alone. -/
lemma Pumping.congr (hp : Pumping s) (hpump : ∀ who, s'.pump who = s.pump who)
    (hconsumer : s'.ring.consumer = s.ring.consumer) : Pumping s' := by
  constructor
  · simpa only [hpump, hconsumer] using hp.fits
  · simpa only [hpump, hconsumer] using hp.quiet

/-- A party's run of `pop_and_process` goes on, or starts while there is no other. -/
lemma Pumping.setPump {who : Runner} {pc : PumpPc} (hfits : pc.Fits t.ring.consumer)
    (hother : ∀ who', who' ≠ who → t.pump who' = none) : Pumping (t.setPump who pc) := by
  constructor
  · intro who' pc' hpc'
    rw [DumpSystem.ring_setPump]
    by_cases hne : who' = who
    · subst hne
      rw [DumpSystem.pump_setPump] at hpc'
      exact Option.some.inj hpc' ▸ hfits
    · rw [DumpSystem.pump_setPump_of_ne hne, hother who' hne] at hpc'
      cases hpc'
  · intro hnone
    have hwho := hnone who
    rw [DumpSystem.pump_setPump] at hwho
    cases hwho

/-- A run of `pop_and_process` starts. -/
lemma Pumping.start (hp : Pumping s) (who : Runner) (hnone : ∀ who, s.pump who = none) :
    Pumping (s.setPump who .resetting) :=
  Pumping.setPump (.inl (hp.quiet hnone)) fun who' _ => hnone who'

/-- The only run of `pop_and_process` returns. -/
lemma Pumping.end (hp : Pumping s) {who : Runner} {result : Bool}
    (hpc : s.pump who = some (.returned result)) (hnone : ∀ who, s'.pump who = none)
    (hring : s'.ring = s.ring) : Pumping s' := by
  refine ⟨fun who' pc' hpc' => ?_, fun _ => ?_⟩
  · rw [hnone who'] at hpc'
    cases hpc'
  · rw [hring]
    exact hp.fits who _ hpc

variable [DecidableEq Pid]

lemma consumer_of_byProducer {ring ring' : RingSystem capacity Pid} {b : Action Pid}
    (hstep : Step ring b ring') (hb : b.byProducer = true) :
    ring'.consumer = ring.consumer ∧ ring'.message = ring.message := by
  cases hstep with
  | headInc | headIncOver | headMask | producerLock | producerSpin | producerWait | markData
  | markOverrun | overflowInc | resettableInc | edit | commitPush => exact ⟨rfl, rfl⟩
  | popFound | popNothing | consumerLock | consumerSpin | consumerWait | popRetest | popGone
  | popCopy | popRecycle | popClear | popUnlock | resetLoad | resetStore => cases hb

/-- `pop_and_process` and the consumer of the ring buffer go on together. -/
lemma PumpStep.fits {ring ring' : RingSystem capacity Pid} {b : Action Pid} {pc pc' : PumpPc}
    (hstep : PumpStep ring pc b pc' ring') : pc'.Fits ring'.consumer := by
  cases hstep with
  | resetLoad hpc => exact .inr ⟨_, rfl⟩
  | resetStore hpc =>
      split
      · exact rfl
      · simp [PumpPc.Fits]
  | popFound hpc hset => simp [PumpPc.Fits]
  | popNothing hpc hclear => exact rfl
  | insidePop hb hstep =>
      cases hstep with
      | @consumerLock i collision hpc hbusy =>
          cases collision <;> simp [PumpPc.Fits, RingSystem.consumerAcquired]
      | consumerSpin | consumerWait | popRetest | popGone | popCopy | popRecycle | popClear =>
          simp [PumpPc.Fits]
      | _ => cases hb
  | popUnlock hpc => split <;> exact rfl

lemma DumpStep.pumping (hstep : DumpStep kind s a s') (hl : Lifecycle s) (hp : Pumping s) :
    Pumping s' := by
  cases hstep with
  | @produce b ring hb hring =>
      have hsame := consumer_of_byProducer (Step.of_step hring) hb
      exact hp.congr (s.pump_ring ring) hsame.1
  | @consume who b pc pc' ring hpc hnext hring =>
      refine Pumping.setPump (PumpStep.of_next hnext (Step.of_step hring)).fits fun who' hne => ?_
      rw [DumpSystem.pump_ring]
      exact hl.exclusive hpc hne
  | @fillOverflow who pid tvSec tvUsec messagesLost hpc =>
      have hidle : s.ring.consumer = .idle := hp.fits who _ hpc
      refine Pumping.setPump hidle fun who' hne => ?_
      exact (s.pump_ring _ who').trans (hl.exclusive hpc hne)
  | @processOverflow who hpc =>
      have hidle : s.ring.consumer = .idle := hp.fits who _ hpc
      exact Pumping.setPump (by simp [PumpPc.Fits, hidle]) fun who' hne => hl.exclusive hpc hne
  | @process who hpc =>
      have hidle : s.ring.consumer = .idle := hp.fits who _ hpc
      exact Pumping.setPump hidle fun who' hne => hl.exclusive hpc hne
  | threadPump hpc hshutdown =>
      refine hp.start .thread fun who => ?_
      cases who with
      | thread => simp [DumpSystem.pump, hpc]
      | caller => exact hl.pump_caller (by simp [hpc])
  | drain hpc =>
      have habsent : s.thread = .absent := hl.alone (by rw [hpc]; rfl)
      refine hp.start .caller fun who => ?_
      cases who <;> simp [DumpSystem.pump, hpc, habsent]
  | @threadNext result hpc =>
      have hreturned : s.pump .thread = some (.returned result) := by simp [DumpSystem.pump, hpc]
      refine hp.end hreturned (fun who => ?_) rfl
      cases who with
      | thread => rfl
      | caller => exact hl.pump_caller (by simp [hpc])
  | drained hpc | drainedOpen hpc =>
      have hreturned : s.pump .caller = some (.returned false) := by simp [DumpSystem.pump, hpc]
      refine hp.end hreturned (fun who => ?_) rfl
      have habsent : s.thread = .absent := hl.alone (by rw [hpc]; rfl)
      cases who <;> simp [DumpSystem.pump, habsent]
  | drainOn hpc =>
      have hreturned : s.pump .caller = some (.returned true) := by simp [DumpSystem.pump, hpc]
      show Pumping (s.setPump .caller .resetting)
      exact Pumping.setPump (.inl (hp.fits _ _ hreturned)) fun who' hne =>
        hl.exclusive hreturned hne
  | startRunning => exact hp
  | start hpc hrunning =>
      have habsent := hl.absent hrunning
      refine hp.congr (fun who => ?_) rfl
      cases who <;> simp [DumpSystem.pump, habsent]
  | threadExit hpc | stopRunning hpc | stopIdle hpc | leave hpc | closeSink hpc =>
      refine hp.congr (fun who => ?_) rfl
      cases who <;> simp [DumpSystem.pump, hpc]
  | join hpc hexited =>
      refine hp.congr (fun who => ?_) rfl
      cases who <;> simp [DumpSystem.pump, hpc, hexited]
  | stopReturn hpc =>
      refine hp.congr (fun who => ?_) rfl
      cases who <;> cases hd : s.destroying <;> simp [DumpSystem.pump, hpc]

theorem pumping_of_reachable
    (hs : (traceDump kind capacity traceMessageCapacity Pid).Reachable s) : Pumping s := by
  refine hs.invariant ?_ ?_
  · rintro s ⟨elementMemory, messageMemory, memory, rfl⟩
    refine ⟨fun who pc hpc => ?_, fun _ => rfl⟩
    cases who <;> cases hpc
  · intro s a s' hreach hp hstep
    exact (DumpStep.of_step hstep).pumping (lifecycle_of_reachable hreach) hp

end Pumping

end InfiTracing
