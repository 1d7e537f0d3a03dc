import InfiTracing.RingBuffer.NoOverrun
import InfiTracing.TraceDump.Lifecycle

/-!
# What a dump processes

A dump with the record of its run: what the ring buffer's record says, and every message that
`process` was called on.

The runs are those without overruns in which the producers are done when `stop` is first
called (`quietDump`).  In them nothing is ever reported lost, so the ring buffer runs as it
does in `RingBuffer/NoOverrun.lean` (`lossFree_of_reachable`), and every message popped is
handed to `process` once, in order (`handed_of_reachable`).
-/

namespace InfiTracing

open Framework

variable {kind : DumpKind} {capacity traceMessageCapacity : ℕ} {Pid : Type}

/-! ## The runs -/

/-- The record of a run of a dump. -/
structure DumpHistory (Pid : Type) where
  /-- The record of the ring buffer. -/
  ring : History Pid := {}
  /-- What the message buffer showed at each call of `process()`, in order. -/
  processed : List Shown := []
  /-- `stop()` has been called. -/
  stopped : Bool := false
  /-- The flags of the slots when `shutdown_thread()` last returned. -/
  leftover : ℕ → Bool := fun _ => false

section Runs

variable [DecidableEq Pid]

/-- The record after action `a` is taken in state `s`. -/
def DumpHistory.record (s : DumpSystem capacity Pid) (a : DumpAction Pid)
    (h : DumpHistory Pid) : DumpHistory Pid :=
  match a with
  | .produce b | .consume _ b => { h with ring := h.ring.record s.ring b }
  | .process _ => { h with processed := h.processed ++ [s.ring.message.shown] }
  | .callStop _ => { h with stopped := true }
  | .testSink => { h with leftover := s.ring.buffer.hasData }
  | _ => h

/-- A dump with the record of the run. -/
def tracedDump (kind : DumpKind) (capacity traceMessageCapacity : ℕ) (Pid : Type)
    [DecidableEq Pid] : Machine (DumpSystem capacity Pid × DumpHistory Pid) (DumpAction Pid) :=
  (traceDump kind capacity traceMessageCapacity Pid).withHistory {} DumpHistory.record

variable [Fintype Pid]

/-- The action overruns no slot; `stop` is called when every push is committed, and no push
follows. -/
def quietStop (x : DumpSystem capacity Pid × DumpHistory Pid) : DumpAction Pid → Bool
  | .produce b => !x.2.stopped && noOverrun (x.1.ring, x.2.ring) b
  | .callStop _ => decide (∀ p, x.1.ring.producers p = .idle)
  | _ => true

/-- The runs without overruns in which the producers are done before `stop` is called. -/
def quietDump (kind : DumpKind) (capacity traceMessageCapacity : ℕ) (Pid : Type)
    [DecidableEq Pid] [Fintype Pid] :
    Machine (DumpSystem capacity Pid × DumpHistory Pid) (DumpAction Pid) :=
  (tracedDump kind capacity traceMessageCapacity Pid).restrict fun x a => quietStop x a

/-- `process()` was called on the message of every ticket, once and in the order of the
tickets, and on nothing else. -/
def AllProcessed (traceMessageCapacity : ℕ) (x : DumpSystem capacity Pid × DumpHistory Pid) :
    Prop :=
  x.2.processed.map some = (List.range x.2.ring.tickets).map fun k =>
    (x.2.ring.written k).map (Draft.shown traceMessageCapacity)

instance (x : DumpSystem capacity Pid × DumpHistory Pid) :
    Decidable (AllProcessed traceMessageCapacity x) :=
  inferInstanceAs (Decidable (_ = _))

/-- **The invariant rule for quiet runs**: check the predicate on a new dump, and along each way
a step can go. -/
theorem quietDump_invariant {I : DumpSystem capacity Pid → DumpHistory Pid → Prop}
    {x : DumpSystem capacity Pid × DumpHistory Pid}
    (hx : (quietDump kind capacity traceMessageCapacity Pid).Reachable x)
    (hinit : ∀ elementMemory messageMemory memory,
      I (.construct traceMessageCapacity elementMemory messageMemory memory) {})
    (hstep : ∀ s h a s', (quietDump kind capacity traceMessageCapacity Pid).Reachable (s, h) →
      (quietDump kind capacity traceMessageCapacity Pid).Reachable (s', h.record s a) →
      I s h → quietStop (s, h) a = true → DumpStep kind s a s' → I s' (h.record s a)) :
    I x.1 x.2 := by
  refine hx.invariant (I := fun x => I x.1 x.2) ?_ ?_
  · rintro ⟨s, h⟩ ⟨⟨elementMemory, messageMemory, memory, rfl⟩, rfl⟩
    exact hinit elementMemory messageMemory memory
  · rintro ⟨s, h⟩ a ⟨s', h'⟩ hreach hI hx'
    have hreach' := hreach.step a hx'
    obtain ⟨hG, htraced⟩ := Machine.restrict_step_eq_some.mp hx'
    obtain ⟨hs, rfl⟩ := Machine.withHistory_step_eq_some.mp htraced
    exact hstep s h a s' hreach hreach' hI hG (DumpStep.of_step hs)

lemma traceDump_of_quietDump {x : DumpSystem capacity Pid × DumpHistory Pid}
    (hx : (quietDump kind capacity traceMessageCapacity Pid).Reachable x) :
    (traceDump kind capacity traceMessageCapacity Pid).Reachable x.1 :=
  hx.of_restrict.fst

end Runs

/-! ## Steps of the ring buffer's consumer -/

section Consumer

variable {ring ring' : RingSystem capacity Pid} {b : Action Pid} {pc pc' : PumpPc}

lemma byProducer_of_next (hnext : pc.next ring b = some pc') : b.byProducer = false := by
  cases pc with
  | resetting | popping => cases b <;> first | rfl | cases hnext
  | overflowing | overflowed | processing | returned => cases hnext

variable [DecidableEq Pid]

omit [DecidableEq Pid] in
lemma noOverrun_of_consumer (x : RingSystem capacity Pid × History Pid)
    (hb : b.byProducer = false) : noOverrun x b = true := by
  cases b <;> first | rfl | cases hb

lemma producers_of_consumer (hstep : Step ring b ring') (hb : b.byProducer = false) :
    ring'.producers = ring.producers := by
  cases hstep <;> first | rfl | cases hb

lemma History.tickets_of_consumer (h : History Pid) (ring : RingSystem capacity Pid)
    (hb : b.byProducer = false) : (h.record ring b).tickets = h.tickets := by
  cases b <;> first | rfl | cases hb

lemma History.length_deliveries_le (h : History Pid) (ring : RingSystem capacity Pid)
    (b : Action Pid) : h.deliveries.length ≤ (h.record ring b).deliveries.length := by
  cases b with
  | popCopy => simp [record]
  | _ => exact le_rfl

/-- `pop` returns `false` only on an empty slot under the tail. -/
lemma PumpStep.tail_empty (hstep : PumpStep ring pc b pc' ring') (hfalse : pc' = .returned false)
    (hpop : PopCommitted ring) : ring'.buffer.hasData ring'.buffer.tail = false := by
  cases hstep with
  | resetLoad | popFound | insidePop => cases hfalse
  | resetStore hpc => split at hfalse <;> cases hfalse
  | popNothing hpc hclear => exact hclear
  | @popUnlock i result hpc =>
      obtain rfl := hpop.succeeds i result hpc
      cases hfalse

end Consumer

/-! ## Steps of control -/

/-- The action is a step of `thread_func`, `start` or `stop` themselves. -/
def DumpAction.isControl : DumpAction Pid → Bool
  | .produce _ | .consume _ _ | .fillOverflow _ _ _ _ | .process _ => false
  | .threadTest | .threadNext | .callStart | .callStop _ | .join | .testSink | .drainNext
  | .closeSink | .stopReturn => true

/-- Such a step leaves the ring buffer alone; a run of `pop_and_process` can start or end in it,
but not between `pop` and `process`. -/
structure Control (s s' : DumpSystem capacity Pid) : Prop where
  ring : s'.ring = s.ring
  pump : ∀ who, s'.pump who = s.pump who ∨
    (s.pump who ≠ some .processing ∧ ∀ pc, s'.pump who = some pc → pc = .resetting)

section Control

variable [DecidableEq Pid] {s s' : DumpSystem capacity Pid} {a : DumpAction Pid}

lemma DumpStep.control (hstep : DumpStep kind s a s') (hl : Lifecycle s)
    (ha : a.isControl = true) : Control s s' := by
  cases hstep with
  | produce | consume | fillOverflow | processOverflow | process => cases ha
  | startRunning => exact ⟨rfl, fun who => .inl rfl⟩
  | threadExit hpc | threadPump hpc | threadNext hpc =>
      refine ⟨rfl, fun who => ?_⟩
      cases who with
      | thread => exact .inr (by simp [DumpSystem.pump, hpc])
      | caller => exact .inl rfl
  | stopRunning hpc | stopIdle hpc | drain hpc | leave hpc | drainOn hpc | drained hpc
  | drainedOpen hpc | closeSink hpc =>
      refine ⟨rfl, fun who => ?_⟩
      cases who with
      | thread => exact .inl rfl
      | caller => exact .inr (by simp [DumpSystem.pump, hpc])
  | start hpc hrunning =>
      have habsent := hl.absent hrunning
      refine ⟨rfl, fun who => ?_⟩
      cases who with
      | thread => exact .inr (by simp [DumpSystem.pump, habsent])
      | caller => exact .inl rfl
  | join hpc hexited =>
      refine ⟨rfl, fun who => ?_⟩
      cases who with
      | thread => exact .inr (by simp [DumpSystem.pump, hexited])
      | caller => exact .inr (by simp [DumpSystem.pump, hpc])
  | stopReturn hpc =>
      refine ⟨rfl, fun who => ?_⟩
      cases who with
      | thread => exact .inl rfl
      | caller =>
          refine .inr ⟨by simp [DumpSystem.pump, hpc], fun pc hpc' => ?_⟩
          cases hd : s.destroying <;> simp [DumpSystem.pump, hd] at hpc'

end Control

/-! ## Nothing to report -/

/-- In `process_overflow`. -/
def PumpPc.reportsLoss : PumpPc → Bool
  | .overflowing _ | .overflowed => true
  | .resetting | .popping | .processing | .returned _ => false

/-- The ring buffer runs on its own, without overruns, and `process_overflow` is not called. -/
structure LossFree (traceMessageCapacity : ℕ) [DecidableEq Pid] (s : DumpSystem capacity Pid)
    (h : DumpHistory Pid) : Prop where
  ring : (unoverrunRing capacity traceMessageCapacity Pid).Reachable (s.ring, h.ring)
  pump : ∀ who pc, s.pump who = some pc → pc.reportsLoss = false

section LossFree

variable [DecidableEq Pid] {s s' : DumpSystem capacity Pid} {h : DumpHistory Pid}
  {a : DumpAction Pid}

lemma PumpStep.reportsLoss {ring ring' : RingSystem capacity Pid} {b : Action Pid}
    {pc pc' : PumpPc} (hstep : PumpStep ring pc b pc' ring') (hn : NothingLost ring) :
    pc'.reportsLoss = false := by
  cases hstep with
  | resetLoad | popFound | popNothing | insidePop => rfl
  | @resetStore overflow hpc =>
      obtain rfl := hn.reported overflow hpc
      rfl
  | @popUnlock i result hpc => cases result <;> rfl

/-- A party's run of `pop_and_process` goes on, on a ring buffer without losses. -/
lemma LossFree.setPump (hf : LossFree traceMessageCapacity s h) {h' : DumpHistory Pid}
    {ring : RingSystem capacity Pid}
    (hring : (unoverrunRing capacity traceMessageCapacity Pid).Reachable (ring, h'.ring))
    {who : Runner} {pc : PumpPc} (hpc : pc.reportsLoss = false) :
    LossFree traceMessageCapacity ({ s with ring }.setPump who pc) h' := by
  refine ⟨by rwa [DumpSystem.ring_setPump], fun who' pc' hpc' => ?_⟩
  by_cases hne : who' = who
  · subst hne
    rw [DumpSystem.pump_setPump] at hpc'
    exact Option.some.inj hpc' ▸ hpc
  · rw [DumpSystem.pump_setPump_of_ne hne] at hpc'
    rw [DumpSystem.pump_ring] at hpc'
    exact hf.pump who' pc' hpc'

/-- A step of control. -/
lemma LossFree.control (hf : LossFree traceMessageCapacity s h)
    {h' : DumpHistory Pid} (hcontrol : Control s s') (hh : h'.ring = h.ring) :
    LossFree traceMessageCapacity s' h' := by
  refine ⟨by rw [hcontrol.ring, hh]; exact hf.ring, fun who pc hpc => ?_⟩
  rcases hcontrol.pump who with hsame | ⟨-, hstarts⟩
  · exact hf.pump who pc (hsame ▸ hpc)
  · rw [hstarts pc hpc]
    rfl

variable [Fintype Pid]

lemma DumpStep.lossFree (hstep : DumpStep kind s a s') (hl : Lifecycle s)
    (hG : quietStop (s, h) a = true) (hf : LossFree traceMessageCapacity s h) :
    LossFree traceMessageCapacity s' (h.record s a) := by
  have hcontrol := hstep
  have hnext : ∀ {b ring}, s.ring.step b = some ring → noOverrun (s.ring, h.ring) b = true →
      (unoverrunRing capacity traceMessageCapacity Pid).Reachable
        (ring, h.ring.record s.ring b) := by
    intro b ring hring hG
    refine hf.ring.step b (Machine.restrict_step_eq_some.mpr ⟨hG, ?_⟩)
    exact Machine.withHistory_step_eq_some.mpr ⟨hring, rfl⟩
  have hloss := nothingLost_of_reachable hf.ring
  cases hstep with
  | produce hb hring =>
      simp only [quietStop, Bool.and_eq_true] at hG
      refine ⟨hnext hring hG.2, fun who pc hpc => hf.pump who pc ?_⟩
      rwa [DumpSystem.pump_ring] at hpc
  | consume hpc hpcnext hring =>
      have hG := noOverrun_of_consumer (s.ring, h.ring) (byProducer_of_next hpcnext)
      have hreport := (PumpStep.of_next hpcnext (Step.of_step hring)).reportsLoss hloss
      exact hf.setPump (hnext hring hG) hreport
  | fillOverflow hpc | processOverflow hpc => cases hf.pump _ _ hpc
  | process hpc =>
      have hreturned : (PumpPc.returned true).reportsLoss = false := rfl
      refine hf.setPump ?_ hreturned
      exact hf.ring
  | _ => exact hf.control (hcontrol.control hl rfl) rfl

theorem lossFree_of_reachable {x : DumpSystem capacity Pid × DumpHistory Pid}
    (hx : (quietDump kind capacity traceMessageCapacity Pid).Reachable x) :
    LossFree traceMessageCapacity x.1 x.2 := by
  refine quietDump_invariant hx ?_ ?_
  · intro elementMemory messageMemory memory
    refine ⟨.init ⟨⟨_, _, _, rfl⟩, rfl⟩, fun who pc hpc => ?_⟩
    cases who <;> cases hpc
  · intro s h a s' hreach _ hf hG hstep
    have hl := lifecycle_of_reachable (traceDump_of_quietDump hreach)
    exact hstep.lossFree hl hG hf

end LossFree

/-! ## Every message popped is processed -/

/-- The consumer has copied a message and `pop` has not returned. -/
def ConsumerPc.copied : ConsumerPc → Bool
  | .recycling _ | .clearing _ => true
  | .unlocking _ result => result
  | .idle | .locking _ _ | .waited _ | .retesting _ | .copying _ | .resetting _ => false

/-- The message buffer has a popped message that `process` has not been called on. -/
def DumpSystem.Holding (s : DumpSystem capacity Pid) : Prop :=
  s.ring.consumer.copied = true ∨ ∃ who, s.pump who = some .processing

/-- The messages delivered are those processed, and the one in the message buffer. -/
structure Handed (s : DumpSystem capacity Pid) (h : DumpHistory Pid) : Prop where
  holding : s.Holding →
    h.processed ++ [s.ring.message.shown] = h.ring.deliveries.map Delivery.shown
  done : ¬ s.Holding → h.processed = h.ring.deliveries.map Delivery.shown

section Handed

variable {s s' : DumpSystem capacity Pid} {h h' : DumpHistory Pid} {a : DumpAction Pid}
  {ring ring' : RingSystem capacity Pid} {b : Action Pid} {pc pc' : PumpPc}

/-- While one party is in `pop_and_process`, only that party can be about to process. -/
lemma DumpSystem.holding_of_pump (hl : Lifecycle s) {who : Runner} (hpc : s.pump who = some pc) :
    s.Holding ↔ s.ring.consumer.copied = true ∨ pc = .processing := by
  constructor
  · rintro (hcopied | ⟨who', hpc'⟩)
    · exact .inl hcopied
    · by_cases hne : who' = who
      · subst hne
        rw [hpc] at hpc'
        exact .inr (Option.some.inj hpc')
      · rw [hl.exclusive hpc hne] at hpc'
        cases hpc'
  · rintro (hcopied | rfl)
    · exact .inl hcopied
    · exact .inr ⟨who, hpc⟩

lemma Control.holding (hcontrol : Control s s') : s'.Holding ↔ s.Holding := by
  unfold DumpSystem.Holding
  rw [hcontrol.ring]
  refine or_congr Iff.rfl (exists_congr fun who => ?_)
  rcases hcontrol.pump who with hsame | ⟨hnot, hstarts⟩
  · rw [hsame]
  · refine iff_of_false (fun hpc => ?_) hnot
    cases hstarts _ hpc

lemma Handed.congr (hh : Handed s h) (hholding : s'.Holding ↔ s.Holding)
    (hmessage : s'.ring.message = s.ring.message) (hprocessed : h'.processed = h.processed)
    (hdeliveries : h'.ring.deliveries = h.ring.deliveries) : Handed s' h' := by
  constructor
  · simpa only [hholding, hmessage, hprocessed, hdeliveries] using hh.holding
  · simpa only [hholding, hprocessed, hdeliveries] using hh.done

variable [DecidableEq Pid]

/-- A step inside `pop_and_process` copies the next message, or moves the one it has on. -/
lemma PumpStep.copied (hstep : PumpStep ring pc b pc' ring') :
    (b = .popCopy ∧ ring.consumer.copied = false ∧ ring'.consumer.copied = true) ∨
      (b ≠ .popCopy ∧ ring'.message = ring.message ∧
        (ring'.consumer.copied = true ∨ pc' = .processing ↔ ring.consumer.copied = true)) := by
  cases hstep with
  | resetLoad hpc => exact .inr ⟨by simp, rfl, by simp [hpc, ConsumerPc.copied]⟩
  | @resetStore overflow hpc =>
      have hne : (if 0 < overflow then .overflowing overflow else .popping) ≠
          PumpPc.processing := by split <;> simp
      exact .inr ⟨by simp, rfl, by simp [hpc, ConsumerPc.copied, hne]⟩
  | popFound hpc hset => exact .inr ⟨by simp, rfl, by simp [hpc, ConsumerPc.copied]⟩
  | popNothing hpc hclear => exact .inr ⟨by simp, rfl, by simp [hpc, ConsumerPc.copied]⟩
  | insidePop hb hstep =>
      cases hstep with
      | @consumerLock i collision hpc hbusy =>
          refine .inr ⟨by simp, rfl, ?_⟩
          cases collision <;> simp [hpc, ConsumerPc.copied, RingSystem.consumerAcquired]
      | consumerSpin hpc | consumerWait hpc | popRetest hpc | popGone hpc | popRecycle hpc
      | popClear hpc => exact .inr ⟨by simp, rfl, by simp [hpc, ConsumerPc.copied]⟩
      | popCopy hpc => exact .inl ⟨rfl, by rw [hpc]; rfl, rfl⟩
      | _ => cases hb
  | @popUnlock i result hpc =>
      refine .inr ⟨by simp, rfl, ?_⟩
      cases result <;> simp [hpc, ConsumerPc.copied]

/-- The copy delivers what the message buffer then shows. -/
lemma History.map_shown_popCopy (h : History Pid) (hstep : Step ring .popCopy ring') :
    (h.record ring .popCopy).deliveries.map Delivery.shown =
      h.deliveries.map Delivery.shown ++ [ring'.message.shown] := by
  obtain ⟨d, hd, hshown⟩ := h.deliveries_popCopy hstep
  simp [hd, hshown]

lemma DumpStep.handed (hstep : DumpStep kind s a s') (hl : Lifecycle s) (hp : Pumping s)
    (hf : LossFree traceMessageCapacity s h) (hh : Handed s h) : Handed s' (h.record s a) := by
  have hcontrol := hstep
  have hl' := hstep.lifecycle hl
  cases hstep with
  | @produce b ring hb hring =>
      have hne : b ≠ .popCopy := by rintro rfl; cases hb
      obtain ⟨hconsumer, hmessage⟩ := consumer_of_byProducer (Step.of_step hring) hb
      refine hh.congr ?_ hmessage rfl (History.deliveries_record _ hne)
      unfold DumpSystem.Holding
      simp only [hconsumer, DumpSystem.pump_ring]
  | @consume who b pc pc' ring hpc hnext hring =>
      have hstep := Step.of_step hring
      have hbefore := DumpSystem.holding_of_pump hl hpc
      have hafter := DumpSystem.holding_of_pump hl' (DumpSystem.pump_setPump _ who pc')
      have hpc_ne : pc ≠ .processing := by rintro rfl; cases hnext
      rw [DumpSystem.ring_setPump] at hafter
      simp only [hpc_ne, or_false] at hbefore
      rcases (PumpStep.of_next hnext hstep).copied with ⟨rfl, hcopied, hcopied'⟩ | ⟨hb, hmessage, hiff⟩
      · -- the message buffer was free, and has the delivery now
        have hdone := hh.done (by rw [hbefore, hcopied]; simp)
        have hdeliveries := h.ring.map_shown_popCopy hstep
        refine ⟨fun _ => ?_, fun hnot => absurd (hafter.mpr (.inl hcopied')) hnot⟩
        rw [DumpSystem.ring_setPump]
        show h.processed ++ [ring.message.shown] = _
        rw [hdone]
        exact hdeliveries.symm
      · refine hh.congr (hafter.trans (hiff.trans hbefore.symm)) ?_ rfl
          (History.deliveries_record _ hb)
        rw [DumpSystem.ring_setPump]
        exact hmessage
  | fillOverflow hpc | processOverflow hpc => cases hf.pump _ _ hpc
  | @process who hpc =>
      have hidle : s.ring.consumer = .idle := hp.fits who _ hpc
      have hafter := DumpSystem.holding_of_pump hl' (DumpSystem.pump_setPump s who (.returned true))
      have hheld := hh.holding (.inr ⟨who, hpc⟩)
      have hnot : ¬ (s.setPump who (.returned true)).Holding := by
        rw [hafter, DumpSystem.ring_setPump, hidle]
        simp [ConsumerPc.copied]
      exact ⟨fun hholding => absurd hholding hnot, fun _ => hheld⟩
  | _ =>
      have hcontrol := hcontrol.control hl rfl
      exact hh.congr hcontrol.holding (by rw [hcontrol.ring]) rfl rfl

variable [Fintype Pid]

theorem handed_of_reachable {x : DumpSystem capacity Pid × DumpHistory Pid}
    (hx : (quietDump kind capacity traceMessageCapacity Pid).Reachable x) :
    Handed x.1 x.2 := by
  refine quietDump_invariant hx ?_ ?_
  · intro elementMemory messageMemory memory
    refine ⟨fun hholding => ?_, fun _ => rfl⟩
    rcases hholding with hcopied | ⟨who, hpc⟩
    · cases hcopied
    · cases who <;> cases hpc
  · intro s h a s' hreach _ hh _ hstep
    have hs := traceDump_of_quietDump hreach
    exact hstep.handed (lifecycle_of_reachable hs) (pumping_of_reachable hs)
      (lossFree_of_reachable hreach) hh

end Handed

end InfiTracing
