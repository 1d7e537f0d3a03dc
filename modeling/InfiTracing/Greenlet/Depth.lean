import InfiTracing.Greenlet.Session

/-!
# The depths a session reports

`greenlet_trace_func` gives each event a depth: a counter in the storage of its greenlet, set
from the length of the `f_back` chain where the storage is created, counted up before a call is
reported and down after a return is.

Where the first event of a greenlet is a call, the depth of every event is the height of the
stack with the frame of the event on top.  Where it is a return, the storage is created with the
number of frames *below* the returning one and the event is reported with that, one less than the
height; all later events of the greenlet are one less as well.  `depths_right_iff` says that this
is the only way to a wrong depth, and that what is logged is logged at the depth of its event.
-/

namespace InfiTracing

open Framework

/-! ## The depth of an event -/

/-- The height of the stack at an event, with the frame of the event on top. -/
def Occurrence.height (o : Occurrence) : ℤ := o.below.length + 1

/-- The `depth` of an event in `greenlet_trace_func`. -/
def Session.depth (s : Session) (o : Occurrence) : Option ℤ :=
  let (ptr, tstore) := s.tstore.acquire o.gid o.frame o.back o.what
  (tstore.heap ptr).map fun gstore => (gstore.countDepth o.what).1

/-- An event with its depth, and the depth of the record that is logged of it, if one is. -/
structure DepthReport where
  height : ℤ
  depth : Option ℤ
  logged : Option ℤ
  deriving DecidableEq

/-- What is seen of a session: the event of each step, its depth, and the record of the step. -/
def depthReport (filterFunc : Filter) (gids : Finset UInt64) (s : Session) (e : GreenletEvent) :
    Option DepthReport := do
  let o ← occurs gids s.stackOf e
  let record ← eventRecord filterFunc gids s e
  some ⟨o.height, s.depth o, record.map LogRecord.depth⟩

section Law

variable {filterFunc : Filter} {gids : Finset UInt64} {s : Session} {e : GreenletEvent}
  {o : Occurrence}

/-- The depth logged is the depth of the event. -/
lemma depth_eq_of_logged (hwhat : o.what = .call ∨ o.what = .ret) {tstore : ThreadStorage}
    {r : LogRecord} (h : s.trace filterFunc o = some (tstore, some r)) :
    s.depth o = some r.depth := by
  rw [Session.trace, greenletTraceFunc_eq hwhat] at h
  simp only [traceStorage, Option.bind_eq_bind, Option.bind_eq_some_iff, Option.some.injEq,
    Prod.exists, Prod.mk.injEq] at h
  obtain ⟨gstore, hderef, gstore', record, hhandle, -, rfl⟩ := h
  simp only [Session.depth, hderef, Option.map_some, Option.some.injEq]
  simp only [GreenletStorage.handle, GreenletStorage.traceEvent] at hhandle
  split_ifs at hhandle
  · obtain ⟨⟨traceLevel, lru, calls⟩, -, hrest⟩ := Option.bind_eq_some_iff.mp hhandle
    dsimp only at hrest
    split_ifs at hrest <;> cases hrest
    rfl
  · cases hhandle
  · cases hhandle

/-- So it is in the report. -/
lemma depth_eq_of_mem_logged {r : DepthReport} (hr : r ∈ depthReport filterFunc gids s e) :
    ∀ depth ∈ r.logged, r.depth = some depth := by
  simp only [depthReport, eventRecord, Option.bind_eq_bind, Option.mem_def,
    Option.bind_eq_some_iff, Option.some.injEq, Prod.exists] at hr
  obtain ⟨o, ho, record, ⟨o', ho', tstore, record', htrace, rfl⟩, rfl⟩ := hr
  obtain rfl := Option.some.inj (ho.symm.trans ho')
  intro depth hdepth
  obtain ⟨logged, rfl, rfl⟩ := Option.map_eq_some_iff.mp hdepth
  exact depth_eq_of_logged (what_of_occurs ho) htrace

variable (hgids : Set.InjOn lowInt (gids : Set UInt64))

include hgids

/-- The depth of an event comes from the storage of its greenlet, old or new. -/
lemma Session.Consistent.depth_eq (hs : s.Consistent gids)
    (ho : occurs gids s.stackOf e = some o) :
    s.depth o = some ((s.tstore.storageOrNew o.gid o.back).countDepth o.what).1 := by
  have hacq := hs.linked.slowGstore hgids (occurs_cases ho).1
    (o.what.nextFrame o.frame o.back) o.back
  rw [depth, ThreadStorage.acquire, ThreadStorage.getGstore_eq_slowGstore (hs.rightAbout ho)]
  simp only [hacq.deref, Option.map_some]

end Law

/-! ## The invariant -/

/-- The depth of every greenlet with a storage is the height of its stack. -/
def Session.CountsFrames (gids : Finset UInt64) (s : Session) : Prop :=
  ∀ gid ∈ gids, ∀ gstore, s.tstore.storageOf gid = some gstore →
    gstore.depth = (s.stackOf gid).length

/-- The event is not a return in a greenlet that has no storage yet. -/
def NotSeenAtReturn (gids : Finset UInt64) (s : Session) (e : GreenletEvent) : Prop :=
  ∀ o ∈ occurs gids s.stackOf e, o.what = .ret → s.tstore.findGstorage o.gid ≠ none

instance (gids : Finset UInt64) (s : Session) (e : GreenletEvent) :
    Decidable (NotSeenAtReturn gids s e) :=
  inferInstanceAs (Decidable (∀ o ∈ occurs gids s.stackOf e, _ → _))

section Event

variable {gids : Finset UInt64} {stackOf : Stacks} {e : GreenletEvent} {o : Occurrence}
  (ho : occurs gids stackOf e = some o) {gstore : GreenletStorage}

include ho

/-- An event is given its height exactly if the counter was at the height of the stack. -/
lemma countDepth_eq_height_iff :
    (gstore.countDepth o.what).1 = o.height ↔ gstore.depth = (stackOf o.gid).length := by
  rcases (occurs_cases ho).2 with ⟨hwhat, -, hstack, -⟩ | ⟨hwhat, hstack⟩
  · simp only [GreenletStorage.countDepth, hwhat, if_true, Occurrence.height, hstack]
    omega
  · simp [GreenletStorage.countDepth, hwhat, Occurrence.height, hstack]

/-- The counter goes with the stack. -/
lemma countDepth_depth_eq (h : gstore.depth = (stackOf o.gid).length) (logged : Bool) :
    (gstore.countDepth o.what).2.depth = (o.after logged).length := by
  rcases (occurs_cases ho).2 with ⟨hwhat, -, hstack, -⟩ | ⟨hwhat, hstack⟩
  · simp [GreenletStorage.countDepth, hwhat, Occurrence.after, h, hstack]
  · simp [GreenletStorage.countDepth, hwhat, Occurrence.after, h, hstack]

/-- A new storage is at the height of the stack before a call, and one short of it before a
return. -/
lemma back_length_eq_iff : (o.back.length : ℤ) = (stackOf o.gid).length ↔ o.what ≠ .ret := by
  rcases (occurs_cases ho).2 with ⟨hwhat, -, hstack, -⟩ | ⟨hwhat, hstack⟩
  · simp [hwhat, hstack, Occurrence.back]
  · simp [hwhat, hstack, Occurrence.back]

end Event

namespace Session

variable {filterFunc : Filter} {capacity : ℕ} {gids : Finset UInt64} {s s' : Session}
  {e : GreenletEvent} {o : Occurrence}

lemma countsFrames_of_init (h : (sessionMachine filterFunc capacity gids).init s) :
    s.CountsFrames gids := by
  obtain ⟨⟨id, hid⟩, -, -⟩ := h
  intro gid _ gstore hstorage
  simp [hid] at hstorage

lemma CountsFrames.storageOrNew_iff (hs : s.CountsFrames gids)
    (ho : occurs gids s.stackOf e = some o) (hlinked : s.tstore.Linked gids)
    (hgids : Set.InjOn lowInt (gids : Set UInt64)) :
    (s.tstore.storageOrNew o.gid o.back).depth = (s.stackOf o.gid).length ↔
      (o.what = .ret → s.tstore.findGstorage o.gid ≠ none) := by
  have hgid := (occurs_cases ho).1
  unfold ThreadStorage.storageOrNew
  cases hfind : s.tstore.findGstorage o.gid with
  | none =>
      have hnone : s.tstore.storageOf o.gid = none := by
        rw [ThreadStorage.storageOf, hfind, Option.bind_none]
      rw [hnone, Option.getD_none, back_length_eq_iff ho]
      simp
  | some ptr =>
      obtain ⟨gstore, hheap, -⟩ := hlinked.exists_of_find hgids hgid hfind
      have hsome : s.tstore.storageOf o.gid = some gstore := by
        rw [ThreadStorage.storageOf, hfind, Option.bind_some, hheap]
      rw [hsome, Option.getD_some]
      exact iff_of_true (hs o.gid hgid gstore hsome) (by simp)

variable (hgids : Set.InjOn lowInt (gids : Set UInt64))

include hgids

/-- **The depth of one event.**  As long as the depths have been right, it is the height exactly
if the event is not a return in a greenlet without a storage. -/
lemma CountsFrames.report_right_iff (hs : s.CountsFrames gids) (hcons : s.Consistent gids)
    (hstep : (sessionMachine filterFunc capacity gids).step s e = some s') :
    (∀ r ∈ depthReport filterFunc gids s e, r.depth = some r.height) ↔
      NotSeenAtReturn gids s e := by
  obtain ⟨o, record, ho, htrace, -⟩ := sessionMachine_step_eq_some.mp hstep
  have hrecord : eventRecord filterFunc gids s e = some record := by
    simp [eventRecord, ho, htrace]
  simp only [depthReport, NotSeenAtReturn, ho, hrecord, Option.bind_eq_bind, Option.bind_some,
    Option.mem_some_iff, forall_eq', hcons.depth_eq hgids ho, Option.some.injEq,
    countDepth_eq_height_iff ho, hs.storageOrNew_iff ho hcons.linked hgids]

/-- **An event at the right depth keeps the depths right.** -/
lemma CountsFrames.step (hs : s.CountsFrames gids) (hcons : s.Consistent gids)
    (hstep : (sessionMachine filterFunc capacity gids).step s e = some s')
    (hseen : NotSeenAtReturn gids s e) : s'.CountsFrames gids := by
  obtain ⟨o, gstore, record, ho, -, hhandle, hhandled, hstack⟩ := hcons.exists_handled hgids hstep
  have hbefore := (hs.storageOrNew_iff ho hcons.linked hgids).mpr (hseen o ho)
  intro gid hgid gstore' hstorage
  rw [hstack]
  by_cases hown : gid = o.gid
  · rw [hown, hhandled.storage] at hstorage
    obtain ⟨-, hsome⟩ := Option.ite_none_left_eq_some.mp hstorage
    rw [← Option.some.inj hsome, hown, Function.update_self, GreenletStorage.handle_depth hhandle]
    exact countDepth_depth_eq ho hbefore _
  · rw [hhandled.others gid hgid hown] at hstorage
    rw [Function.update_of_ne hown]
    exact hs gid hgid gstore' hstorage

end Session

/-! ## When depths are heights -/

/-- **Depths are heights, unless a greenlet is first seen at a return.**  In a session on fresh
thread storage, every event of a run is given the height of its greenlet's stack exactly if no
step of the run is a return in a greenlet that has no storage then; and every record that is
logged has the depth its event is given. -/
theorem depths_right_iff {filterFunc : Filter} {capacity : ℕ} {gids : Finset UInt64}
    (hgids : Set.InjOn lowInt (gids : Set UInt64)) {s s' : Session} {events : List GreenletEvent}
    (hinit : (sessionMachine filterFunc capacity gids).init s)
    (hrun : (sessionMachine filterFunc capacity gids).exec s events = some s') :
    ((∀ r ∈ (sessionMachine filterFunc capacity gids).traceOf (depthReport filterFunc gids) s
        events, r.depth = some r.height) ↔
      ((sessionMachine filterFunc capacity gids).restrict (NotSeenAtReturn gids)).exec s events =
        some s') ∧
    ∀ r ∈ (sessionMachine filterFunc capacity gids).traceOf (depthReport filterFunc gids) s events,
      ∀ depth ∈ r.logged, r.depth = some depth := by
  refine ⟨Machine.forall_traceOf_iff (I := Session.CountsFrames gids) ?_ ?_ (.init hinit)
    (Session.countsFrames_of_init hinit) hrun, fun r hr => ?_⟩
  · intro s e s' hs hcounts hstep
    exact hcounts.report_right_iff hgids (Session.consistent_of_reachable hgids hs) hstep
  · intro s e s' hs hcounts hstep hseen
    exact hcounts.step hgids (Session.consistent_of_reachable hgids hs) hstep hseen
  · obtain ⟨t, e, -, -, -, hobs⟩ := Machine.exists_of_mem_traceOf (.init hinit) hrun hr
    exact depth_eq_of_mem_logged hobs

/-- The first greenlet is seen at a call first, and the second at one too. -/
def calledFirst : List GreenletEvent :=
  [.call 0x10 ⟨0x2000, 0x5001, by decide⟩, .call 0x20 ⟨0x3000, 0x5002, by decide⟩,
    .ret 0x20, .ret 0x10, .ret 0x10]

/-- All five events are logged, at the heights of the two stacks. -/
theorem depths_right_iff_calls :
    ∃ s, (sessionMachine (fun _ => .int 4) 4 {0x10, 0x20}).exec twoGreenlets calledFirst =
        some s ∧
      ((sessionMachine (fun _ => .int 4) 4 {0x10, 0x20}).traceOf
        (depthReport (fun _ => .int 4) {0x10, 0x20}) twoGreenlets calledFirst).map
          DepthReport.logged = [some 2, some 1, some 1, some 2, some 1] ∧
      ∀ r ∈ (sessionMachine (fun _ => .int 4) 4 {0x10, 0x20}).traceOf
          (depthReport (fun _ => .int 4) {0x10, 0x20}) twoGreenlets calledFirst,
        r.depth = some r.height ∧ ∀ depth ∈ r.logged, r.depth = some depth := by
  have hrun : (((sessionMachine (fun _ => .int 4) 4 {0x10, 0x20}).restrict
      (NotSeenAtReturn {0x10, 0x20})).exec twoGreenlets calledFirst).isSome = true := by
    decide +kernel
  obtain ⟨s, hs⟩ := Option.isSome_iff_exists.mp hrun
  have hexec := Machine.exec_of_restrict hs
  obtain ⟨hiff, hlogged⟩ :=
    depths_right_iff lowInt_injOn_twoGreenlets (twoGreenlets_init _) hexec
  exact ⟨s, hexec, by decide +kernel, fun r hr => ⟨hiff.mpr hs r hr, hlogged r hr⟩⟩

/-- **A greenlet first seen at a return.**  The return of a main program of height 1 is logged
at the depth 0. -/
theorem depth_wrong_at_return :
    ¬ ∀ (filterFunc : Filter) (capacity : ℕ) (gids : Finset UInt64),
      Set.InjOn lowInt (gids : Set UInt64) → ∀ (s s' : Session) (events : List GreenletEvent),
      (sessionMachine filterFunc capacity gids).init s →
      (sessionMachine filterFunc capacity gids).exec s events = some s' →
      ∀ r ∈ (sessionMachine filterFunc capacity gids).traceOf (depthReport filterFunc gids) s
        events, ∀ depth ∈ r.logged, depth = r.height := by
  intro h
  have hrun : ((sessionMachine (fun _ => .int 4) 4 {0x10, 0x20}).exec twoGreenlets
      [.ret 0x10]).isSome = true := by
    decide +kernel
  obtain ⟨s, hs⟩ := Option.isSome_iff_exists.mp hrun
  have hright := h _ 4 {0x10, 0x20} lowInt_injOn_twoGreenlets twoGreenlets s [.ret 0x10]
    (twoGreenlets_init _) hs ⟨1, some 0, some 0⟩ (by decide +kernel) 0 rfl
  exact absurd hright (by decide)

end InfiTracing
