import InfiTracing.RingBuffer.Sequential
import InfiTracing.RingBuffer.Locks

/-!
# `PyWriter.write` and arguments that do not convert

`PyWriter.write(severity, message_str)` reserves a slot, fills it and commits it.  The conversion
of `severity` to a C `int` and of `message_str` to a C string stand between the reservation and
the commit, and where one of them raises, the commit is left out: there is no `try`/`finally`
around it as there is in `log_call`.

`PyWriter.write` is the method as one caller runs it; `writerRing` lets any number of calls, each
a producer of its own, and the consumer run on one buffer in atomic steps.
`write_leaves_no_lock_iff` says what comes of the missing `finally`: a call leaves the locks as
it found them exactly if both its arguments convert, and every lock that is held in any state
reached will be given back exactly if the arguments of all calls do.
-/

namespace InfiTracing

open Framework TraceMessageRingBuffer

variable {capacity : ℕ}

/-! ## The method -/

/-- What the conversions of the two arguments give; `none` where one raises. -/
structure WriteArguments where
  severity : Option Int32
  messageStr : Option CString

/-- Both arguments convert. -/
def WriteArguments.Converts (args : WriteArguments) : Prop :=
  args.severity.isSome = true ∧ args.messageStr.isSome = true

instance (args : WriteArguments) : Decidable args.Converts :=
  inferInstanceAs (Decidable (_ ∧ _))

/-- How a call ends. -/
inductive WriteResult
  | returned
  | raised
  deriving DecidableEq

/-- `write(severity, message_str)` by a lone caller, given what `gettimeofday` returns; `none`
where `reserve_push` waits for ever. -/
def PyWriter.write (ringBuffer : TraceMessageRingBuffer capacity) (tvSec tvUsec : ℕ)
    (args : WriteArguments) : Option (WriteResult × TraceMessageRingBuffer capacity) :=
  ringBuffer.reservePush.map fun (message, b) =>
    let b := b.modifyElement message fun m => m.setTimestamp tvSec tvUsec
    match args.severity with
    | none => (.raised, b)
    | some severity =>
        let b := b.modifyElement message fun m => m.setSeverity severity.toInt
        match args.messageStr with
        | none => (.raised, b)
        | some messageStr =>
            (.returned, (b.modifyElement message fun m => (m.write messageStr).2).commitPush
              message)

/-- Where `reserve_push` does not wait, it takes the lock of a free slot and marks its data. -/
lemma reservePush_spec {b b' : TraceMessageRingBuffer capacity} {i : ℕ}
    (h : b.reservePush = some (i, b')) :
    b.busy i = false ∧ b'.busy = Function.update b.busy i true ∧
      b'.hasData = Function.update b.hasData i true := by
  have hbusy : b.takeSpace.2.busy = b.busy := by
    unfold takeSpace
    dsimp only
    split_ifs <;> rfl
  have hdata : b.takeSpace.2.hasData = b.hasData := by
    unfold takeSpace
    dsimp only
    split_ifs <;> rfl
  simp only [reservePush, lockElement, testAndSet, hbusy] at h
  cases hi : b.busy b.takeSpace.1 with
  | true => simp [hi] at h
  | false =>
      simp only [hi, Bool.not_false, Option.map_some, Option.some.injEq, Prod.mk.injEq] at h
      obtain ⟨rfl, rfl⟩ := h
      refine ⟨hi, ?_, ?_⟩ <;> unfold markData testAndSet <;> dsimp only <;> rw [hdata] <;>
        cases b.hasData b.takeSpace.1 <;> rfl

/-- **One call.**  The locks are as before, and no slot gained data by a call that raised,
exactly if both arguments convert. -/
lemma PyWriter.write_leaves_iff {b b' : TraceMessageRingBuffer capacity} {tvSec tvUsec : ℕ}
    {args : WriteArguments} {result : WriteResult}
    (h : PyWriter.write b tvSec tvUsec args = some (result, b')) :
    (b'.busy = b.busy ∧ (result = .raised → b'.hasData = b.hasData)) ↔ args.Converts := by
  obtain ⟨⟨i, c⟩, hreserve, hresult⟩ := Option.map_eq_some_iff.mp h
  obtain ⟨hfree, hbusy, -⟩ := reservePush_spec hreserve
  have hkept : Function.update b.busy i true ≠ b.busy := by
    intro heq
    have := congrFun heq i
    simp [hfree] at this
  obtain ⟨severity, messageStr⟩ := args
  cases severity with
  | none =>
      obtain ⟨rfl, rfl⟩ := Prod.mk.inj hresult
      refine iff_of_false (fun hleft => hkept ?_) (fun hconverts => Bool.noConfusion hconverts.1)
      exact hbusy.symm.trans hleft.1
  | some severity =>
      cases messageStr with
      | none =>
          obtain ⟨rfl, rfl⟩ := Prod.mk.inj hresult
          refine iff_of_false (fun hleft => hkept ?_)
            (fun hconverts => Bool.noConfusion hconverts.2)
          exact hbusy.symm.trans hleft.1
      | some messageStr =>
          obtain ⟨rfl, rfl⟩ := Prod.mk.inj hresult
          refine iff_of_true ⟨?_, fun hraised => WriteResult.noConfusion hraised⟩ ⟨rfl, rfl⟩
          simp only [commitPush, unlockElement, modifyElement, hbusy, Function.update_idem]
          exact Function.update_eq_self_iff.mpr hfree.symm

/-! ## Calls at the same time -/

/-- Where a call of `write` stands. -/
inductive WriterPhase
  /-- Not begun, in `reserve_push`, or about to call `set_timestamp`. -/
  | reserving
  /-- The conversion of `severity` comes next. -/
  | stamped
  /-- The conversion of `message_str` comes next. -/
  | graded
  /-- `commit_push` comes next. -/
  | written
  | returned
  | raised
  deriving DecidableEq

/-- The ring buffer with its parties, and where the call of each producer stands. -/
structure WriterSystem (capacity : ℕ) (Pid : Type) where
  ring : RingSystem capacity Pid
  phase : Pid → WriterPhase

/-- A step of `reserve_push` or of the consumer, or a step of `write` outside of
`reserve_push`. -/
inductive WriterAction (Pid : Type)
  | ring (a : Action Pid)
  | setTimestamp (p : Pid) (tvSec tvUsec : ℕ)
  | setSeverity (p : Pid)
  | write (p : Pid)
  | commitPush (p : Pid)

/-- The producer that takes the step. -/
def Action.caller {Pid : Type} : Action Pid → Option Pid
  | .headInc p | .headMask p | .producerLock p | .producerWait p | .markData p | .overflowInc p
  | .resettableInc p | .edit p _ | .commitPush p => some p
  | .popTest | .consumerLock | .consumerWait | .popRetest | .popCopy | .popRecycle | .popClear
  | .popUnlock | .resetLoad | .resetStore => none

namespace WriterSystem

variable {Pid : Type} [DecidableEq Pid]

/-- A step of `reserve_push` by a call that is in it, or a step of the consumer. -/
def allows (x : WriterSystem capacity Pid) : Action Pid → Bool
  | .edit _ _ | .commitPush _ => false
  | a => match a.caller with
    | some p => x.phase p = .reserving
    | none => true

/-- Producer `p` takes the step and goes on at `phase`. -/
def advance (x : WriterSystem capacity Pid) (p : Pid) (phase : WriterPhase) (a : Action Pid) :
    Option (WriterSystem capacity Pid) :=
  (x.ring.step a).map fun s => { ring := s, phase := Function.update x.phase p phase }

/-- The step that comes next in a call, or the consumer's. -/
def step (args : Pid → WriteArguments) (x : WriterSystem capacity Pid) :
    WriterAction Pid → Option (WriterSystem capacity Pid)
  | .ring a =>
      if x.allows a then (x.ring.step a).map fun s => { x with ring := s } else none
  | .setTimestamp p tvSec tvUsec =>
      if x.phase p = .reserving then x.advance p .stamped (.edit p (.setTimestamp tvSec tvUsec))
      else none
  | .setSeverity p =>
      if x.phase p = .stamped then match (args p).severity with
        | none => some { x with phase := Function.update x.phase p .raised }
        | some severity => x.advance p .graded (.edit p (.setSeverity severity.toInt))
      else none
  | .write p =>
      if x.phase p = .graded then match (args p).messageStr with
        | none => some { x with phase := Function.update x.phase p .raised }
        | some messageStr => x.advance p .written (.edit p (.write messageStr))
      else none
  | .commitPush p =>
      if x.phase p = .written then x.advance p .returned (.commitPush p) else none

end WriterSystem

/-- All interleavings of calls with the given arguments, and of the consumer, on a new buffer. -/
def writerRing (capacity traceMessageCapacity : ℕ) {Pid : Type} [DecidableEq Pid]
    (args : Pid → WriteArguments) : Machine (WriterSystem capacity Pid) (WriterAction Pid) where
  init x := (ring capacity traceMessageCapacity Pid).init x.ring ∧ ∀ p, x.phase p = .reserving
  step := WriterSystem.step args

/-! ## What a step can do -/

section Steps

variable {Pid : Type} [DecidableEq Pid] {args : Pid → WriteArguments}
  {x x' : WriterSystem capacity Pid} {act : WriterAction Pid} {p : Pid}

/-- The phases one after the other, each behind the conversions it needs. -/
def WriterPhase.Next (args : WriteArguments) : WriterPhase → WriterPhase → Prop
  | .reserving, .stamped => True
  | .stamped, .graded => args.severity.isSome = true
  | .graded, .written => args.messageStr.isSome = true
  | _, _ => False

/-- The conversion that comes next raises. -/
def WriterPhase.Raises (args : WriteArguments) : WriterPhase → Prop
  | .stamped => args.severity = none
  | .graded => args.messageStr = none
  | _ => False

/-- The ways a step can go. -/
inductive WriterStep (args : Pid → WriteArguments) (x : WriterSystem capacity Pid) :
    WriterSystem capacity Pid → Prop
  | ring {a : Action Pid} {s : RingSystem capacity Pid} (hallows : x.allows a = true)
      (hstep : x.ring.step a = some s) : WriterStep args x { x with ring := s }
  | edit {p : Pid} {e : MessageEdit} {next : WriterPhase} {s : RingSystem capacity Pid}
      (hnext : (x.phase p).Next (args p) next) (hstep : x.ring.step (.edit p e) = some s) :
      WriterStep args x { ring := s, phase := Function.update x.phase p next }
  | commit {p : Pid} {s : RingSystem capacity Pid} (hphase : x.phase p = .written)
      (hstep : x.ring.step (.commitPush p) = some s) :
      WriterStep args x { ring := s, phase := Function.update x.phase p .returned }
  | raise {p : Pid} (hraises : (x.phase p).Raises (args p)) :
      WriterStep args x { x with phase := Function.update x.phase p .raised }

/-- **Inversion.** -/
lemma WriterStep.of_step (hstep : x.step args act = some x') : WriterStep args x x' := by
  cases act with
  | ring a =>
      simp only [WriterSystem.step] at hstep
      split_ifs at hstep with hallows
      obtain ⟨s, hs, rfl⟩ := Option.map_eq_some_iff.mp hstep
      exact .ring hallows hs
  | setTimestamp p tvSec tvUsec =>
      simp only [WriterSystem.step] at hstep
      split_ifs at hstep with hphase
      obtain ⟨s, hs, rfl⟩ := Option.map_eq_some_iff.mp hstep
      exact .edit (by rw [hphase]; trivial) hs
  | setSeverity p =>
      simp only [WriterSystem.step] at hstep
      split_ifs at hstep with hphase
      cases hseverity : (args p).severity with
      | none =>
          rw [hseverity] at hstep
          exact Option.some.inj hstep ▸ .raise (by rw [hphase]; exact hseverity)
      | some severity =>
          rw [hseverity] at hstep
          obtain ⟨s, hs, rfl⟩ := Option.map_eq_some_iff.mp hstep
          exact .edit (by rw [hphase]; exact Option.isSome_iff_exists.mpr ⟨_, hseverity⟩) hs
  | write p =>
      simp only [WriterSystem.step] at hstep
      split_ifs at hstep with hphase
      cases hmessageStr : (args p).messageStr with
      | none =>
          rw [hmessageStr] at hstep
          exact Option.some.inj hstep ▸ .raise (by rw [hphase]; exact hmessageStr)
      | some messageStr =>
          rw [hmessageStr] at hstep
          obtain ⟨s, hs, rfl⟩ := Option.map_eq_some_iff.mp hstep
          exact .edit (by rw [hphase]; exact Option.isSome_iff_exists.mpr ⟨_, hmessageStr⟩) hs
  | commitPush p =>
      simp only [WriterSystem.step] at hstep
      split_ifs at hstep with hphase
      obtain ⟨s, hs, rfl⟩ := Option.map_eq_some_iff.mp hstep
      exact .commit hphase hs

/-- A step leaves the other producers where they are. -/
lemma Step.producers_of_ne {s s' : RingSystem capacity Pid} {a : Action Pid} (hstep : Step s a s')
    {q : Pid} (hq : a.caller ≠ some q) : s'.producers q = s.producers q := by
  cases hstep with
  | popFound | popNothing | consumerLock | consumerSpin | consumerWait | popRetest | popGone
  | popCopy | popRecycle | popClear | popUnlock | resetLoad | resetStore => rfl
  | _ => exact Function.update_of_ne (fun heq => hq (congrArg some heq.symm)) _ _

/-- An edit stays at the slot that is written. -/
lemma producers_of_edit {s s' : RingSystem capacity Pid} {e : MessageEdit}
    (hstep : s.step (.edit p e) = some s') : ∃ i, s.producers p = .writing i ∧
      s'.producers p = .writing i := by
  cases Step.of_step hstep with
  | edit hpc => exact ⟨_, hpc, Function.update_self ..⟩

omit [DecidableEq Pid] in
/-- A step of a call in `reserve_push` is not one of a producer that writes its message. -/
lemma caller_of_allows {a : Action Pid} {q : Pid} (hallows : x.allows a = true)
    (hq : x.phase q ≠ .reserving) : a.caller ≠ some q := by
  intro hcaller
  cases a <;> simp_all [WriterSystem.allows, Action.caller]

lemma caller_of_writing {a : Action Pid} {s : RingSystem capacity Pid} {i : ℕ}
    (hallows : x.allows a = true) (hstep : x.ring.step a = some s)
    (hpc : x.ring.producers p = .writing i) : a.caller ≠ some p := by
  intro hcaller
  cases Step.of_step hstep <;> simp_all [WriterSystem.allows, Action.caller]

end Steps

/-! ## Where a call stands -/

section Consistent

variable {Pid : Type} [DecidableEq Pid] {args : Pid → WriteArguments}
  {x x' : WriterSystem capacity Pid}

/-- What the phase of a call says of its arguments and of its producer. -/
def WriterPhase.Consistent (args : WriteArguments) (pc : ProducerPc) : WriterPhase → Prop
  | .reserving => True
  | .stamped => ∃ i, pc = .writing i
  | .graded => (∃ i, pc = .writing i) ∧ args.severity.isSome = true
  | .written => (∃ i, pc = .writing i) ∧ args.Converts
  | .returned => pc = .idle ∧ args.Converts
  | .raised => (∃ i, pc = .writing i) ∧ ¬ args.Converts

lemma WriterPhase.Consistent.next {a : WriteArguments} {pc : ProducerPc}
    {phase next : WriterPhase} (hphase : phase.Consistent a pc) (hnext : phase.Next a next)
    (hpc : ∃ i, pc = .writing i) : next.Consistent a pc := by
  cases phase <;> cases next <;> simp only [Next] at hnext
  · exact hpc
  · exact ⟨hpc, hnext⟩
  · exact ⟨hpc, hphase.2, hnext⟩

lemma WriterPhase.Consistent.raise {a : WriteArguments} {pc : ProducerPc} {phase : WriterPhase}
    (hphase : phase.Consistent a pc) (hraises : phase.Raises a) :
    WriterPhase.raised.Consistent a pc := by
  cases phase <;> simp only [Raises] at hraises
  · exact ⟨hphase, fun hconverts => by simp [WriteArguments.Converts, hraises] at hconverts⟩
  · exact ⟨hphase.1, fun hconverts => by simp [WriteArguments.Converts, hraises] at hconverts⟩

/-- Every call stands where its phase says. -/
def Phased (args : Pid → WriteArguments) (x : WriterSystem capacity Pid) : Prop :=
  ∀ p, (x.phase p).Consistent (args p) (x.ring.producers p)

lemma WriterStep.phased (hstep : WriterStep args x x') (hx : Phased args x) :
    Phased args x' := by
  intro q
  cases hstep with
  | @ring a s hallows hstep =>
      by_cases hq : x.phase q = .reserving
      · show (x.phase q).Consistent _ _
        rw [hq]
        trivial
      · show (x.phase q).Consistent (args q) (s.producers q)
        rw [(Step.of_step hstep).producers_of_ne (caller_of_allows hallows hq)]
        exact hx q
  | @edit p e next s hnext hstep =>
      by_cases hq : q = p
      · obtain ⟨i, hpc, hpc'⟩ := producers_of_edit hstep
        have hnow := (hpc ▸ hx p).next hnext ⟨i, rfl⟩
        simpa [hq, hpc'] using hnow
      · have hother := (Step.of_step hstep).producers_of_ne (q := q)
          (fun heq => hq (Option.some.inj heq).symm)
        simpa [hq, hother] using hx q
  | @commit p s hphase hstep =>
      by_cases hq : q = p
      · have hwritten := hx p
        rw [hphase] at hwritten
        cases Step.of_step hstep with
        | commitPush hpc => simpa [hq] using ⟨rfl, hwritten.2⟩
      · have hother := (Step.of_step hstep).producers_of_ne (q := q)
          (fun heq => hq (Option.some.inj heq).symm)
        simpa [hq, hother] using hx q
  | @raise p hraises =>
      by_cases hq : q = p
      · simpa [hq] using (hx p).raise hraises
      · simpa [hq] using hx q

variable {traceMessageCapacity : ℕ}

theorem phased_of_reachable (hx : (writerRing capacity traceMessageCapacity args).Reachable x) :
    Phased args x := by
  refine hx.invariant (I := Phased args) (fun x hinit p => ?_) fun x act x' _ hphased hstep => ?_
  · rw [hinit.2 p]
    trivial
  · exact (WriterStep.of_step hstep).phased hphased

/-- Forgetting the phases gives a run of the ring. -/
lemma ring_of_reachable (hx : (writerRing capacity traceMessageCapacity args).Reachable x) :
    (ring capacity traceMessageCapacity Pid).Reachable x.ring := by
  refine hx.invariant
    (I := fun x => (ring capacity traceMessageCapacity Pid).Reachable x.ring)
    (fun x hinit => .init hinit.1) fun x act x' _ hring hstep => ?_
  cases WriterStep.of_step hstep with
  | @ring a s _ hs => exact .step a hring hs
  | @edit p e _ s _ hs => exact .step (.edit p e) hring hs
  | @commit p s _ hs => exact .step (.commitPush p) hring hs
  | raise _ => exact hring

end Consistent

/-! ## Locks that are given back -/

section Release

variable {Pid : Type} [DecidableEq Pid]

/-- Some continuation gives the lock of slot `i` back. -/
def Releasable (capacity traceMessageCapacity : ℕ) (args : Pid → WriteArguments)
    (x : WriterSystem capacity Pid) (i : ℕ) : Prop :=
  ∃ acts x', (writerRing capacity traceMessageCapacity args).exec x acts = some x' ∧
    x'.ring.buffer.busy i = false

variable {traceMessageCapacity : ℕ} {args : Pid → WriteArguments}
  {x x' : WriterSystem capacity Pid} {p : Pid} {i : ℕ}

lemma Releasable.of_clear (h : x.ring.buffer.busy i = false) :
    Releasable capacity traceMessageCapacity args x i := ⟨[], x, rfl, h⟩

lemma Releasable.of_step (act : WriterAction Pid) (hstep : x.step args act = some x')
    (h : Releasable capacity traceMessageCapacity args x' i) :
    Releasable capacity traceMessageCapacity args x i := by
  obtain ⟨acts, y, hrun, hclear⟩ := h
  exact ⟨act :: acts, y, Option.bind_eq_some_iff.mpr ⟨x', hstep, hrun⟩, hclear⟩

lemma Releasable.of_ring {a : Action Pid} {s : RingSystem capacity Pid}
    (hallows : x.allows a = true) (hstep : x.ring.step a = some s)
    (h : Releasable capacity traceMessageCapacity args { x with ring := s } i) :
    Releasable capacity traceMessageCapacity args x i := by
  refine h.of_step (.ring a) ?_
  rw [WriterSystem.step, if_pos hallows, hstep]
  rfl

/-- How many steps of `pop` are left at most until the lock is given back. -/
def ConsumerPc.remaining : ConsumerPc → ℕ
  | .waited _ => 6
  | .retesting _ => 5
  | .copying _ => 4
  | .recycling _ => 3
  | .clearing _ => 2
  | .unlocking _ _ => 1
  | _ => 0

/-- The consumer's next step gives back the lock it holds, or brings it nearer to that. -/
lemma exists_consumer_step (hheld : x.ring.consumer.held = some i) :
    ∃ a, x.allows a = true ∧ ∃ s, x.ring.step a = some s ∧ (s.buffer.busy i = false ∨
      s.consumer.held = some i ∧ s.consumer.remaining < x.ring.consumer.remaining) := by
  cases hpc : x.ring.consumer with
  | idle | locking | resetting => simp [hpc, ConsumerPc.held] at hheld
  | waited j =>
      obtain rfl : j = i := by simpa [hpc, ConsumerPc.held] using hheld
      exact ⟨.consumerWait, rfl, by
        simp [RingSystem.step, hpc, ConsumerPc.held, ConsumerPc.remaining]⟩
  | retesting j =>
      obtain rfl : j = i := by simpa [hpc, ConsumerPc.held] using hheld
      refine ⟨.popRetest, rfl, ?_⟩
      cases hdata : x.ring.buffer.hasData j <;>
        simp [RingSystem.step, hpc, hdata, ConsumerPc.held, ConsumerPc.remaining]
  | copying j =>
      obtain rfl : j = i := by simpa [hpc, ConsumerPc.held] using hheld
      exact ⟨.popCopy, rfl, by
        simp [RingSystem.step, hpc, ConsumerPc.held, ConsumerPc.remaining]⟩
  | recycling j =>
      obtain rfl : j = i := by simpa [hpc, ConsumerPc.held] using hheld
      exact ⟨.popRecycle, rfl, by
        simp [RingSystem.step, hpc, ConsumerPc.held, ConsumerPc.remaining]⟩
  | clearing j =>
      obtain rfl : j = i := by simpa [hpc, ConsumerPc.held] using hheld
      exact ⟨.popClear, rfl, by
        simp [RingSystem.step, hpc, ConsumerPc.held, ConsumerPc.remaining]⟩
  | unlocking j result =>
      obtain rfl : j = i := by simpa [hpc, ConsumerPc.held] using hheld
      exact ⟨.popUnlock, rfl, by simp [RingSystem.step, hpc, unlockElement]⟩

/-- The consumer gives back what it holds, by induction on the steps that are left. -/
lemma releasable_of_consumer (hheld : x.ring.consumer.held = some i) :
    Releasable capacity traceMessageCapacity args x i := by
  induction hk : x.ring.consumer.remaining using Nat.strong_induction_on generalizing x with
  | _ k ih =>
      obtain ⟨a, hallows, s, hstep, hclear | ⟨hheld', hlt⟩⟩ := exists_consumer_step hheld
      · exact .of_ring hallows hstep (.of_clear hclear)
      · exact .of_ring hallows hstep (ih _ (hk ▸ hlt) hheld' rfl)

/-- An edit by the call that writes slot `i`, to the next phase. -/
lemma exists_advance (hpc : x.ring.producers p = .writing i) (e : MessageEdit)
    (phase : WriterPhase) : ∃ y, x.advance p phase (.edit p e) = some y ∧
      y.ring.producers p = .writing i ∧ y.phase p = phase := by
  simp [WriterSystem.advance, RingSystem.step, hpc]

/-- A call whose arguments convert commits the message it writes: from the commit backwards. -/
lemma releasable_of_writing (hconverts : (args p).Converts)
    (hpc : x.ring.producers p = .writing i)
    (hphase : (x.phase p).Consistent (args p) (.writing i)) :
    Releasable capacity traceMessageCapacity args x i := by
  obtain ⟨severity, hseverity⟩ := Option.isSome_iff_exists.mp hconverts.1
  obtain ⟨messageStr, hmessageStr⟩ := Option.isSome_iff_exists.mp hconverts.2
  have written : ∀ x : WriterSystem capacity Pid, x.ring.producers p = .writing i →
      x.phase p = .written → Releasable capacity traceMessageCapacity args x i := by
    intro x hpc hphase
    obtain ⟨y, hy, hclear⟩ : ∃ y, x.advance p .returned (.commitPush p) = some y ∧
        y.ring.buffer.busy i = false := by
      simp [WriterSystem.advance, RingSystem.step, hpc, commitPush, unlockElement]
    refine .of_step (.commitPush p) ?_ (.of_clear hclear)
    rw [WriterSystem.step, if_pos hphase, hy]
  have graded : ∀ x : WriterSystem capacity Pid, x.ring.producers p = .writing i →
      x.phase p = .graded → Releasable capacity traceMessageCapacity args x i := by
    intro x hpc hphase
    obtain ⟨y, hy, hpc', hphase'⟩ := exists_advance hpc (.write messageStr) .written
    refine .of_step (.write p) ?_ (written y hpc' hphase')
    rw [WriterSystem.step, if_pos hphase, hmessageStr]
    exact hy
  have stamped : ∀ x : WriterSystem capacity Pid, x.ring.producers p = .writing i →
      x.phase p = .stamped → Releasable capacity traceMessageCapacity args x i := by
    intro x hpc hphase
    obtain ⟨y, hy, hpc', hphase'⟩ := exists_advance hpc (.setSeverity severity.toInt) .graded
    refine .of_step (.setSeverity p) ?_ (graded y hpc' hphase')
    rw [WriterSystem.step, if_pos hphase, hseverity]
    exact hy
  cases hnow : x.phase p with
  | reserving =>
      obtain ⟨y, hy, hpc', hphase'⟩ := exists_advance hpc (.setTimestamp 0 0) .stamped
      refine .of_step (.setTimestamp p 0 0) ?_ (stamped y hpc' hphase')
      rw [WriterSystem.step, if_pos hnow, hy]
  | stamped => exact stamped x hpc hnow
  | graded => exact graded x hpc hnow
  | written => exact written x hpc hnow
  | returned =>
      rw [hnow] at hphase
      cases hphase.1
  | raised =>
      rw [hnow] at hphase
      exact absurd hconverts hphase.2

omit [DecidableEq Pid] in
/-- A call in the middle of `reserve_push` is in its first phase. -/
lemma Phased.reserving (hx : Phased args x) (hidle : x.ring.producers p ≠ .idle)
    (hwriting : ∀ j, x.ring.producers p ≠ .writing j) : x.phase p = .reserving := by
  have hphase := hx p
  cases hnow : x.phase p <;> simp_all [WriterPhase.Consistent]

omit [DecidableEq Pid] in
/-- In that phase it may take the steps of `reserve_push`. -/
lemma allows_of_reserving {a : Action Pid} (hphase : x.phase p = .reserving)
    (hcaller : a.caller = some p) (hedit : ∀ e, a ≠ .edit p e) (hcommit : a ≠ .commitPush p) :
    x.allows a = true := by
  cases a <;> simp_all [WriterSystem.allows, Action.caller]

/-- How many steps of `reserve_push` are left at most after a slot is locked. -/
def ProducerPc.remaining : ProducerPc → ℕ
  | .waited _ => 4
  | .marking _ => 3
  | .overflowing _ => 2
  | .overflowed _ => 1
  | _ => 0

/-- In `reserve_push` a producer that holds a slot can always step, nearer to its end. -/
lemma exists_reserving_step (hphase : x.phase p = .reserving)
    (hheld : (x.ring.producers p).held = some i) (hwriting : x.ring.producers p ≠ .writing i) :
    ∃ a, x.allows a = true ∧ ∃ s, x.ring.step a = some s ∧ (s.producers p).held = some i ∧
      (s.producers p).remaining < (x.ring.producers p).remaining := by
  cases hpc : x.ring.producers p with
  | idle | masking | locking => simp [hpc, ProducerPc.held] at hheld
  | waited j =>
      obtain rfl : j = i := by simpa [hpc, ProducerPc.held] using hheld
      exact ⟨.producerWait p, allows_of_reserving hphase rfl (by simp) (by simp), by
        simp [RingSystem.step, hpc, ProducerPc.held, ProducerPc.remaining]⟩
  | marking j =>
      obtain rfl : j = i := by simpa [hpc, ProducerPc.held] using hheld
      refine ⟨.markData p, allows_of_reserving hphase rfl (by simp) (by simp), ?_⟩
      cases hdata : x.ring.buffer.hasData j <;>
        simp [RingSystem.step, hpc, testAndSet, hdata, ProducerPc.held, ProducerPc.remaining]
  | overflowing j =>
      obtain rfl : j = i := by simpa [hpc, ProducerPc.held] using hheld
      exact ⟨.overflowInc p, allows_of_reserving hphase rfl (by simp) (by simp), by
        simp [RingSystem.step, hpc, ProducerPc.held, ProducerPc.remaining]⟩
  | overflowed j =>
      obtain rfl : j = i := by simpa [hpc, ProducerPc.held] using hheld
      exact ⟨.resettableInc p, allows_of_reserving hphase rfl (by simp) (by simp), by
        simp [RingSystem.step, hpc, ProducerPc.held, ProducerPc.remaining]⟩
  | writing j =>
      obtain rfl : j = i := by simpa [hpc, ProducerPc.held] using hheld
      exact absurd hpc hwriting

/-- A call in `reserve_push` gives back the slot it has locked, by induction on the steps of
`reserve_push` that are left. -/
lemma releasable_of_reserving (hconverts : (args p).Converts) (hphase : x.phase p = .reserving)
    (hheld : (x.ring.producers p).held = some i) :
    Releasable capacity traceMessageCapacity args x i := by
  induction hk : (x.ring.producers p).remaining using Nat.strong_induction_on generalizing x with
  | _ k ih =>
      by_cases hwriting : x.ring.producers p = .writing i
      · exact releasable_of_writing hconverts hwriting (by rw [hphase]; trivial)
      · obtain ⟨a, hallows, s, hstep, hheld', hlt⟩ := exists_reserving_step hphase hheld hwriting
        exact .of_ring hallows hstep (ih _ (hk ▸ hlt) hphase hheld' rfl)

/-- A call that holds a slot and whose arguments convert gives it back. -/
lemma releasable_of_producer (hx : Phased args x) (hconverts : (args p).Converts)
    (hheld : (x.ring.producers p).held = some i) :
    Releasable capacity traceMessageCapacity args x i := by
  by_cases hwriting : x.ring.producers p = .writing i
  · exact releasable_of_writing hconverts hwriting (hwriting ▸ hx p)
  · have hother : ∀ j, x.ring.producers p ≠ .writing j := by
      intro j hpc
      obtain rfl : j = i := by simpa [hpc, ProducerPc.held] using hheld
      exact hwriting hpc
    have hbusy : x.ring.producers p ≠ .idle := by
      intro hpc
      simp [hpc, ProducerPc.held] at hheld
    exact releasable_of_reserving hconverts (hx.reserving hbusy hother) hheld

end Release

/-! ## Locks that are not -/

section Stuck

variable {Pid : Type} [DecidableEq Pid] {traceMessageCapacity : ℕ} {args : Pid → WriteArguments}
  {x x' : WriterSystem capacity Pid} {p : Pid} {i : ℕ}

/-- A call with an argument that does not convert stays at the slot it has reserved. -/
lemma WriterStep.stuck (hstep : WriterStep args x x') (hx : Phased args x)
    (hnot : ¬ (args p).Converts) (hpc : x.ring.producers p = .writing i) :
    x'.ring.producers p = .writing i := by
  cases hstep with
  | @ring a s hallows hstep =>
      exact ((Step.of_step hstep).producers_of_ne (caller_of_writing hallows hstep hpc)).trans hpc
  | @edit q e next s hnext hstep =>
      by_cases hq : p = q
      · obtain ⟨j, hj, hj'⟩ := producers_of_edit hstep
        rw [← hq] at hj hj'
        rw [← hpc, hj]
        exact hj'
      · exact ((Step.of_step hstep).producers_of_ne
          (fun heq => hq (Option.some.inj heq).symm)).trans hpc
  | @commit q s hphase hstep =>
      by_cases hq : p = q
      · have hwritten := hx p
        rw [hq, hphase, ← hq] at hwritten
        exact absurd hwritten.2 hnot
      · exact ((Step.of_step hstep).producers_of_ne
          (fun heq => hq (Option.some.inj heq).symm)).trans hpc
  | raise => exact hpc

/-- Nobody ever gives its lock back. -/
lemma not_releasable (hreach : (writerRing capacity traceMessageCapacity args).Reachable x)
    (hnot : ¬ (args p).Converts) (hpc : x.ring.producers p = .writing i) :
    ¬ Releasable capacity traceMessageCapacity args x i := by
  rintro ⟨acts, y, hrun, hclear⟩
  have hstay : (writerRing capacity traceMessageCapacity args).Reachable y ∧
      y.ring.producers p = .writing i := by
    refine Machine.exec_invariant (M := writerRing capacity traceMessageCapacity args)
      (I := fun y => (writerRing capacity traceMessageCapacity args).Reachable y ∧
        y.ring.producers p = .writing i) (A := fun _ => True)
      (fun y act y' _ hy hstep => ⟨.step act hy.1 hstep, ?_⟩) (fun _ _ => trivial)
      ⟨hreach, hpc⟩ hrun
    exact (WriterStep.of_step hstep).stuck (phased_of_reachable hy.1) hnot hy.2
  have hlocks := lockTable_of_reachable (ring_of_reachable hstay.1)
  have hheld : y.ring.held (some p) = some i := by simp [RingSystem.held, hstay.2,
    ProducerPc.held]
  rw [(hlocks.busy_iff i).mpr ⟨some p, hheld⟩] at hclear
  cases hclear

/-- Steps of `reserve_push` alone. -/
lemma exec_ring {acts : List (Action Pid)} (hallows : ∀ a ∈ acts, x.allows a = true)
    {s : RingSystem capacity Pid}
    (hrun : (ring capacity traceMessageCapacity Pid).exec x.ring acts = some s) :
    (writerRing capacity traceMessageCapacity args).exec x (acts.map .ring) =
      some { x with ring := s } := by
  induction acts generalizing x with
  | nil => rw [← Option.some.inj hrun]; rfl
  | cons a acts ih =>
      obtain ⟨t, ht, hrest⟩ := Option.bind_eq_some_iff.mp hrun
      have hstep : (writerRing capacity traceMessageCapacity args).step x (.ring a) =
          some { x with ring := t } := by
        change x.step args (.ring a) = _
        rw [WriterSystem.step, if_pos (hallows a List.mem_cons_self)]
        exact Option.map_eq_some_iff.mpr ⟨t, ht, rfl⟩
      rw [List.map_cons, Machine.exec_cons, hstep]
      exact ih (x := { x with ring := t }) (fun b hb => hallows b (List.mem_cons_of_mem a hb)) hrest

omit [DecidableEq Pid] in
lemma mem_reserveActions {b : TraceMessageRingBuffer capacity} {a : Action Pid}
    (ha : a ∈ reserveActions b p) : a = .headInc p ∨ a = .headMask p ∨ a = .producerLock p ∨
      a = .markData p ∨ a = .overflowInc p ∨ a = .resettableInc p := by
  unfold reserveActions at ha
  split_ifs at ha <;> simp at ha <;> tauto

variable (traceMessageCapacity args) in
/-- A call alone on the buffer comes through `reserve_push`. -/
lemma exec_reserve (hidle : x.ring.producers p = .idle) (hphase : x.phase p = .reserving)
    (hfree : ∀ i, x.ring.buffer.busy i = false) :
    ∃ i b, x.ring.buffer.reservePush = some (i, b) ∧
      (writerRing capacity traceMessageCapacity args).exec x
          ((reserveActions x.ring.buffer p).map .ring) =
        some { x with ring := x.ring.produce p (.writing i) b } := by
  obtain ⟨i, b, hreserve, hrun⟩ := exec_reserveActions traceMessageCapacity x.ring hidle hfree
  refine ⟨i, b, hreserve, exec_ring (fun a ha => ?_) hrun⟩
  rcases mem_reserveActions ha with rfl | rfl | rfl | rfl | rfl | rfl <;>
    exact allows_of_reserving hphase rfl (by simp) (by simp)

variable (args p) in
/-- Every call gets to a slot: alone on a new buffer. -/
lemma exists_writing (capacity traceMessageCapacity : ℕ) :
    ∃ x i, (writerRing capacity traceMessageCapacity args).Reachable x ∧
      x.ring.producers p = .writing i := by
  have hinit : (writerRing capacity traceMessageCapacity args).init
      ⟨.start traceMessageCapacity (fun _ _ => 0) .empty fun _ => 0, fun _ => .reserving⟩ :=
    ⟨⟨_, _, _, rfl⟩, fun _ => rfl⟩
  obtain ⟨i, b, -, hrun⟩ := exec_reserve traceMessageCapacity args (p := p)
    (x := ⟨.start traceMessageCapacity (fun _ _ => 0) .empty fun _ => 0, fun _ => .reserving⟩)
    rfl rfl fun _ => rfl
  exact ⟨_, i, (Machine.Reachable.init hinit).exec hrun, Function.update_self ..⟩

/-- **The method is a run of its steps**: a call alone on the buffer ends as `PyWriter.write`
says. -/
theorem exec_write (hidle : x.ring.producers p = .idle) (hphase : x.phase p = .reserving)
    (hfree : ∀ i, x.ring.buffer.busy i = false) (tvSec tvUsec : ℕ) :
    ∃ acts y result b, PyWriter.write x.ring.buffer tvSec tvUsec (args p) = some (result, b) ∧
      (writerRing capacity traceMessageCapacity args).exec x acts = some y ∧
      y.ring.buffer = b ∧
      y.phase p = match result with
        | .returned => .returned
        | .raised => .raised := by
  obtain ⟨i, b, hreserve, hrun⟩ := exec_reserve traceMessageCapacity args hidle hphase hfree
  refine ⟨(reserveActions x.ring.buffer p).map .ring ++
    .setTimestamp p tvSec tvUsec :: .setSeverity p ::
      (if (args p).severity = none then []
        else .write p :: (if (args p).messageStr = none then [] else [.commitPush p])), ?_⟩
  simp only [PyWriter.write, hreserve, Option.map_some, Machine.exec_append, hrun,
    Option.bind_some]
  cases hseverity : (args p).severity with
  | none =>
      simp [writerRing, WriterSystem.step, WriterSystem.advance, RingSystem.step, hphase,
        hseverity]
      rfl
  | some severity =>
      cases hmessageStr : (args p).messageStr <;>
        simp [writerRing, WriterSystem.step, WriterSystem.advance, RingSystem.step, hphase,
          hseverity, hmessageStr] <;> rfl

end Stuck

/-! ## The law of `write` -/

/-- **When `write` leaves no slot locked.**  For every buffer and all arguments, a call that ends
leaves the locks as they were, and no new data if it raised, exactly if both its arguments
convert.  For all calls at the same time: in every state reached, a call that has ended holds no
lock and every lock that is held can still be given back, exactly if the arguments of every call
convert. -/
theorem write_leaves_no_lock_iff (capacity traceMessageCapacity : ℕ) (Pid : Type)
    [DecidableEq Pid] :
    (∀ (b b' : TraceMessageRingBuffer capacity) (tvSec tvUsec : ℕ) (args : WriteArguments)
      (result : WriteResult), PyWriter.write b tvSec tvUsec args = some (result, b') →
        ((b'.busy = b.busy ∧ (result = .raised → b'.hasData = b.hasData)) ↔ args.Converts)) ∧
    ∀ args : Pid → WriteArguments,
      (∀ x, (writerRing capacity traceMessageCapacity args).Reachable x →
        (∀ p, x.phase p = .returned ∨ x.phase p = .raised →
          (x.ring.producers p).held = none) ∧
        ∀ i, x.ring.buffer.busy i = true →
          Releasable capacity traceMessageCapacity args x i) ↔
      ∀ p, (args p).Converts := by
  refine ⟨fun b b' tvSec tvUsec args result h => PyWriter.write_leaves_iff h, fun args => ?_⟩
  constructor
  · intro hall p
    by_contra hnot
    obtain ⟨x, i, hreach, hpc⟩ := exists_writing args p capacity traceMessageCapacity
    have hlocks := lockTable_of_reachable (ring_of_reachable hreach)
    have hbusy := (hlocks.busy_iff i).mpr ⟨some p, by simp [RingSystem.held, hpc,
      ProducerPc.held]⟩
    exact not_releasable hreach hnot hpc ((hall x hreach).2 i hbusy)
  · intro hconverts x hreach
    have hx := phased_of_reachable hreach
    refine ⟨fun p hended => ?_, fun i hbusy => ?_⟩
    · have hphase := hx p
      rcases hended with hended | hended <;> rw [hended] at hphase
      · rw [hphase.1]
        rfl
      · exact absurd (hconverts p) hphase.2
    · have hlocks := lockTable_of_reachable (ring_of_reachable hreach)
      obtain ⟨party, hheld⟩ := (hlocks.busy_iff i).mp hbusy
      cases party with
      | none => exact releasable_of_consumer hheld
      | some p => exact releasable_of_producer hx (hconverts p) hheld

/-- **A slot lost.**  In a buffer of one slot, a call whose severity does not convert raises and
leaves the slot locked and marked; the next call and the next pop wait for ever. -/
theorem write_raised_keeps_lock :
    ∃ b : TraceMessageRingBuffer 1,
      PyWriter.write (.construct 4 fun _ _ => 7) 0 0 ⟨none, some ⟨[97], by decide⟩⟩ =
        some (.raised, b) ∧
      b.busy 0 = true ∧ b.hasData 0 = true ∧
      PyWriter.write b 0 0 ⟨some 4, some ⟨[98], by decide⟩⟩ = none ∧
      b.pop .empty (fun _ => 7) = none :=
  ⟨_, rfl, by decide, by decide, by decide, by decide⟩

end InfiTracing
