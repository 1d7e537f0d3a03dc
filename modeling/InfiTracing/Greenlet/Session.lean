import InfiTracing.Framework.Machine
import InfiTracing.Greenlet.TraceFunc
import Mathlib.Data.Finset.Card

/-!
# A tracing session on one thread

The greenlets of a thread, their stacks, and the calls and returns the interpreter reports to
`greenlet_trace_func` from the start of the session on.  Which greenlet goes on is the
scheduler's choice: an action names the greenlet, so a run is an interleaving.

The stacks at the start are arbitrary, and their frames can only return.  A call can be made at
any address that is on no other greenlet's stack; a greenlet has finished when its stack is
empty, and a later one may take over its id.  Beside each frame the model keeps whether its call
was logged, for frames called in the session.

`Session.Consistent` is the invariant of what the thread's storage remembers: the remembered
frame is on the live stack of the remembered greenlet, and the remembered storage is linked for
that greenlet.
-/

namespace InfiTracing

open Framework

/-! ## Stacks and events -/

/-- A frame on a stack; `callLogged` is `none` for a frame that was there before the session. -/
structure Activation where
  frame : Frame
  callLogged : Option Bool
  deriving DecidableEq

/-- The stack of each greenlet, from the top. -/
abbrev Stacks := UInt64 → List Activation

/-- Frames on the stacks of different greenlets are at different addresses. -/
def Stacks.Apart (gids : Finset UInt64) (stackOf : Stacks) : Prop :=
  ∀ gid ∈ gids, ∀ gid' ∈ gids, gid ≠ gid' →
    ∀ x ∈ stackOf gid, ∀ y ∈ stackOf gid', x.frame.address ≠ y.frame.address

/-- No frame of another greenlet is at the address. -/
def Stacks.FreeFor (gids : Finset UInt64) (stackOf : Stacks) (gid address : UInt64) : Prop :=
  ∀ other ∈ gids, other ≠ gid → ∀ x ∈ stackOf other, x.frame.address ≠ address

-- the instance for all `UInt64`s would enumerate them
instance (gids : Finset UInt64) (stackOf : Stacks) (gid address : UInt64) :
    Decidable (stackOf.FreeFor gids gid address) :=
  Finset.decidableDforallFinset

/-- What a greenlet does next. -/
inductive GreenletEvent
  | call (gid : UInt64) (frame : Frame)
  | ret (gid : UInt64)

/-- A call or a return about to be reported: the frame, and the stack below it. -/
structure Occurrence where
  what : PyTrace
  gid : UInt64
  activation : Activation
  below : List Activation
  deriving DecidableEq

namespace Occurrence

/-- The frame of the event. -/
def frame (o : Occurrence) : Frame := o.activation.frame

/-- The chain of the frame's `f_back`s. -/
def back (o : Occurrence) : List Frame := o.below.map Activation.frame

/-- The stack after the event, where `logged` says whether the event has been logged. -/
def after (o : Occurrence) (logged : Bool) : List Activation :=
  if o.what = .ret then o.below else ⟨o.frame, some logged⟩ :: o.below

end Occurrence

/-- The event that is reported, if the greenlet can do what it is asked to. -/
def occurs (gids : Finset UInt64) (stackOf : Stacks) : GreenletEvent → Option Occurrence
  | .call gid frame =>
      if gid ∈ gids ∧ stackOf.FreeFor gids gid frame.address then
        some ⟨.call, gid, ⟨frame, none⟩, stackOf gid⟩
      else none
  | .ret gid =>
      match stackOf gid with
      | [] => none
      | x :: below => if gid ∈ gids then some ⟨.ret, gid, x, below⟩ else none

section Occurs

variable {gids : Finset UInt64} {stackOf : Stacks} {e : GreenletEvent} {o : Occurrence}

/-- What an event says about the stacks. -/
lemma occurs_cases (h : occurs gids stackOf e = some o) :
    o.gid ∈ gids ∧
      ((o.what = .call ∧ o.activation.callLogged = none ∧ stackOf o.gid = o.below ∧
          stackOf.FreeFor gids o.gid o.frame.address) ∨
        (o.what = .ret ∧ stackOf o.gid = o.activation :: o.below)) := by
  cases e with
  | call gid frame =>
      obtain ⟨⟨hgid, hapart⟩, ho⟩ := Option.ite_none_right_eq_some.mp h
      obtain rfl := Option.some.inj ho
      exact ⟨hgid, .inl ⟨rfl, rfl, rfl, hapart⟩⟩
  | ret gid =>
      simp only [occurs] at h
      split at h
      · cases h
      · next x below hstack =>
          obtain ⟨hgid, ho⟩ := Option.ite_none_right_eq_some.mp h
          obtain rfl := Option.some.inj ho
          exact ⟨hgid, .inr ⟨rfl, hstack⟩⟩

lemma what_of_occurs (h : occurs gids stackOf e = some o) : o.what = .call ∨ o.what = .ret :=
  (occurs_cases h).2.imp And.left And.left

/-- A frame that makes an event take the fast path is on the stack of the event's greenlet. -/
lemma cachedFrame_mem (h : occurs gids stackOf e = some o)
    (hne : o.what.cachedFrame o.frame o.back ≠ 0) :
    ∃ x ∈ stackOf o.gid, x.frame.address = o.what.cachedFrame o.frame o.back := by
  rcases (occurs_cases h).2 with ⟨hwhat, -, hstack, -⟩ | ⟨hwhat, hstack⟩
  · cases hbelow : o.below with
    | nil => simp [hwhat, PyTrace.cachedFrame, Occurrence.back, hbelow, fBack] at hne
    | cons x rest =>
        refine ⟨x, by simp [hstack, hbelow], ?_⟩
        simp [hwhat, PyTrace.cachedFrame, Occurrence.back, hbelow, fBack]
  · exact ⟨o.activation, by simp [hstack], by simp [hwhat, PyTrace.cachedFrame, Occurrence.frame]⟩

/-- So is the frame an event leaves its greenlet at, after the event. -/
lemma nextFrame_mem (h : occurs gids stackOf e = some o)
    (hne : o.what.nextFrame o.frame o.back ≠ 0) (logged : Bool) :
    ∃ x ∈ o.after logged, x.frame.address = o.what.nextFrame o.frame o.back := by
  rcases what_of_occurs h with hwhat | hwhat
  · exact ⟨⟨o.frame, some logged⟩, by simp [Occurrence.after, hwhat],
      by simp [PyTrace.nextFrame, hwhat]⟩
  · cases hbelow : o.below with
    | nil => simp [hwhat, PyTrace.nextFrame, Occurrence.back, hbelow, fBack] at hne
    | cons x rest =>
        refine ⟨x, by simp [Occurrence.after, hwhat, hbelow], ?_⟩
        simp [hwhat, PyTrace.nextFrame, Occurrence.back, hbelow, fBack]

/-- An event leaves the stacks apart. -/
lemma Stacks.Apart.update (hapart : stackOf.Apart gids) (h : occurs gids stackOf e = some o)
    (logged : Bool) : Stacks.Apart gids (Function.update stackOf o.gid (o.after logged)) := by
  have hfar : ∀ other ∈ gids, other ≠ o.gid → ∀ x ∈ stackOf other, ∀ y ∈ o.after logged,
      x.frame.address ≠ y.frame.address := by
    intro other hother hne x hx y hy
    obtain ⟨hgid, ⟨hwhat, -, hstack, hfresh⟩ | ⟨hwhat, hstack⟩⟩ := occurs_cases h
    · simp only [Occurrence.after, hwhat, reduceCtorEq, if_false, List.mem_cons] at hy
      rcases hy with rfl | hy
      · exact hfresh other hother hne x hx
      · exact hapart other hother o.gid hgid hne x hx y (hstack ▸ hy)
    · simp only [Occurrence.after, hwhat, if_true] at hy
      exact hapart other hother o.gid hgid hne x hx y (hstack ▸ List.mem_cons_of_mem _ hy)
  intro gid hgid gid' hgid' hne x hx y hy
  by_cases heq : gid = o.gid
  · subst heq
    rw [Function.update_self] at hx
    rw [Function.update_of_ne hne.symm] at hy
    exact (hfar gid' hgid' hne.symm y hy x hx).symm
  · rw [Function.update_of_ne heq] at hx
    by_cases heq' : gid' = o.gid
    · subst heq'
      rw [Function.update_self] at hy
      exact hfar gid hgid heq x hx y hy
    · rw [Function.update_of_ne heq'] at hy
      exact hapart gid hgid gid' hgid' hne x hx y hy

/-- Whether stacks are apart depends on their frames alone. -/
lemma Stacks.Apart.congr {stackOf' : Stacks} (hapart : stackOf.Apart gids)
    (h : ∀ gid, (stackOf' gid).map Activation.frame = (stackOf gid).map Activation.frame) :
    stackOf'.Apart gids := by
  have hframe : ∀ gid, ∀ x ∈ stackOf' gid, ∃ y ∈ stackOf gid, y.frame = x.frame := by
    intro gid x hx
    exact List.mem_map.mp (h gid ▸ List.mem_map_of_mem hx)
  intro gid hgid gid' hgid' hne x hx y hy
  obtain ⟨x', hx', hxframe⟩ := hframe gid x hx
  obtain ⟨y', hy', hyframe⟩ := hframe gid' y hy
  rw [← hxframe, ← hyframe]
  exact hapart gid hgid gid' hgid' hne x' hx' y' hy'

end Occurs

/-! ## The session -/

/-- The thread's storage and the stacks of its greenlets. -/
structure Session where
  tstore : ThreadStorage
  stackOf : Stacks

/-- The trace function, called for an event. -/
def Session.trace (filterFunc : Filter) (s : Session) (o : Occurrence) :
    Option (ThreadStorage × Option LogRecord) :=
  greenletTraceFunc filterFunc o.gid s.tstore o.frame o.back o.what

/-- What is logged of an event. -/
def eventRecord (filterFunc : Filter) (gids : Finset UInt64) (s : Session) (e : GreenletEvent) :
    Option (Option LogRecord) := do
  let o ← occurs gids s.stackOf e
  let (_, record) ← s.trace filterFunc o
  some record

/-- A session of the greenlets `gids` on a thread that has not been traced before. -/
def sessionMachine (filterFunc : Filter) (traceLevelLruCapacity : ℕ) (gids : Finset UInt64) :
    Machine Session GreenletEvent where
  init s := (∃ id, s.tstore = .create id traceLevelLruCapacity) ∧ s.stackOf.Apart gids ∧
    ∀ gid ∈ gids, ∀ x ∈ s.stackOf gid, x.callLogged = none
  step s e := do
    let o ← occurs gids s.stackOf e
    let (tstore, record) ← s.trace filterFunc o
    some ⟨tstore, Function.update s.stackOf o.gid (o.after record.isSome)⟩

section Machine

variable {filterFunc : Filter} {capacity : ℕ} {gids : Finset UInt64} {s s' : Session}
  {e : GreenletEvent}

lemma sessionMachine_step_eq_some :
    (sessionMachine filterFunc capacity gids).step s e = some s' ↔
      ∃ o record, occurs gids s.stackOf e = some o ∧
        s.trace filterFunc o = some (s'.tstore, record) ∧
        s'.stackOf = Function.update s.stackOf o.gid (o.after record.isSome) := by
  obtain ⟨tstore', stackOf'⟩ := s'
  simp only [sessionMachine, Option.bind_eq_bind, Option.bind_eq_some_iff, Option.some.injEq,
    Prod.exists, Session.mk.injEq]
  constructor
  · rintro ⟨o, ho, tstore, record, htrace, rfl, rfl⟩
    exact ⟨o, record, ho, htrace, rfl⟩
  · rintro ⟨o, record, ho, htrace, rfl⟩
    exact ⟨o, ho, _, record, htrace, rfl, rfl⟩

end Machine

/-! ## What the thread's storage remembers -/

/-- The remembered frame is on the stack of the remembered greenlet, and the remembered storage
is the one linked for it. -/
structure Session.Consistent (gids : Finset UInt64) (s : Session) : Prop where
  linked : s.tstore.Linked gids
  apart : s.stackOf.Apart gids
  gid_mem : s.tstore.lastFrame ≠ 0 → s.tstore.lastGid ∈ gids
  gstorage : s.tstore.lastFrame ≠ 0 → ∃ ptr, s.tstore.lastGstorage = some ptr ∧
    s.tstore.findGstorage s.tstore.lastGid = some ptr
  frame : s.tstore.lastFrame ≠ 0 →
    ∃ x ∈ s.stackOf s.tstore.lastGid, x.frame.address = s.tstore.lastFrame

namespace Session

variable {filterFunc : Filter} {capacity : ℕ} {gids : Finset UInt64} {s s' : Session}
  {e : GreenletEvent} {o : Occurrence}

lemma consistent_of_init (h : (sessionMachine filterFunc capacity gids).init s) :
    s.Consistent gids := by
  obtain ⟨⟨id, hid⟩, hapart, -⟩ := h
  have hframe : s.tstore.lastFrame = 0 := by rw [hid]; rfl
  exact ⟨hid ▸ ThreadStorage.linked_create _ _ _, hapart, fun h => absurd hframe h,
    fun h => absurd hframe h, fun h => absurd hframe h⟩

/-- **The cache is right at every event.**  The frame that would make the event take the fast
path is on one stack only. -/
lemma Consistent.rightAbout (hs : s.Consistent gids) (ho : occurs gids s.stackOf e = some o) :
    s.tstore.RightAbout o.gid (o.what.cachedFrame o.frame o.back) := by
  intro hne heq
  obtain ⟨x, hx, hxaddr⟩ := hs.frame hne
  obtain ⟨y, hy, hyaddr⟩ := cachedFrame_mem ho (heq ▸ hne)
  have hgid : s.tstore.lastGid = o.gid := by
    by_contra hdiff
    exact hs.apart _ (hs.gid_mem hne) _ (occurs_cases ho).1 hdiff x hx y hy
      (hxaddr.trans (heq.trans hyaddr.symm))
  exact ⟨hgid, hgid ▸ hs.gstorage hne⟩

variable (hgids : Set.InjOn lowInt (gids : Set UInt64))

include hgids

/-- **The law of an event** in a session: what it does to the storage of its greenlet. -/
lemma Consistent.trace (hs : s.Consistent gids) (ho : occurs gids s.stackOf e = some o)
    (filterFunc : Filter) :
    ∃ after : GreenletStorage → ThreadStorage,
      s.trace filterFunc o =
        ((s.tstore.storageOrNew o.gid o.back).handle filterFunc s.tstore.enabled s.tstore.id
          o.what o.frame).map (fun (gstore, record) => (after gstore, record)) ∧
      ∀ gstore record, (s.tstore.storageOrNew o.gid o.back).handle filterFunc
          s.tstore.enabled s.tstore.id o.what o.frame = some (gstore, record) →
        ThreadStorage.Handled gids o.gid (o.what.nextFrame o.frame o.back) s.tstore
          (after gstore) (if o.what = .ret ∧ o.back = [] then none else some gstore) :=
  hs.linked.greenletTraceFunc hgids (occurs_cases ho).1 filterFunc (what_of_occurs ho) o.frame
    o.back (hs.rightAbout ho)

omit hgids in
/-- **An event keeps what is remembered right.** -/
lemma Consistent.of_handled (hs : s.Consistent gids) (ho : occurs gids s.stackOf e = some o)
    {t : ThreadStorage} {gstore : GreenletStorage}
    (h : ThreadStorage.Handled gids o.gid (o.what.nextFrame o.frame o.back) s.tstore t
      (if o.what = .ret ∧ o.back = [] then none else some gstore)) (logged : Bool) :
    Consistent gids ⟨t, Function.update s.stackOf o.gid (o.after logged)⟩ := by
  refine ⟨h.linked, hs.apart.update ho logged, fun _ => h.lastGid ▸ (occurs_cases ho).1,
    fun hne => ?_, fun hne => ?_⟩
  · -- the storage is deleted only where no frame is left to remember
    rw [h.lastFrame] at hne
    rw [h.lastGid]
    refine h.cached ?_
    rw [if_neg]
    · exact Option.some_ne_none _
    · rintro ⟨hwhat, hback⟩
      simp [hwhat, hback, PyTrace.nextFrame, fBack] at hne
  · rw [h.lastFrame] at hne ⊢
    rw [h.lastGid]
    obtain ⟨x, hx, haddr⟩ := nextFrame_mem ho hne logged
    exact ⟨x, by simpa using hx, haddr⟩

/-- **The law of a step.** -/
lemma Consistent.exists_handled (hs : s.Consistent gids)
    (h : (sessionMachine filterFunc capacity gids).step s e = some s') :
    ∃ o gstore record, occurs gids s.stackOf e = some o ∧
      s.trace filterFunc o = some (s'.tstore, record) ∧
      (s.tstore.storageOrNew o.gid o.back).handle filterFunc s.tstore.enabled s.tstore.id
        o.what o.frame = some (gstore, record) ∧
      ThreadStorage.Handled gids o.gid (o.what.nextFrame o.frame o.back) s.tstore s'.tstore
        (if o.what = .ret ∧ o.back = [] then none else some gstore) ∧
      s'.stackOf = Function.update s.stackOf o.gid (o.after record.isSome) := by
  obtain ⟨o, record, ho, htrace, hstack⟩ := sessionMachine_step_eq_some.mp h
  obtain ⟨after, hlaw, hafter⟩ := hs.trace hgids ho filterFunc
  have hresult := hlaw.symm.trans htrace
  obtain ⟨⟨gstore, record'⟩, hhandle, heq⟩ := Option.map_eq_some_iff.mp hresult
  obtain ⟨htstore, rfl⟩ := Prod.mk.inj heq
  exact ⟨o, gstore, record', ho, htrace, hhandle, htstore ▸ hafter gstore record' hhandle,
    hstack⟩

lemma Consistent.step (hs : s.Consistent gids)
    (h : (sessionMachine filterFunc capacity gids).step s e = some s') : s'.Consistent gids := by
  obtain ⟨o, gstore, record, ho, -, -, hhandled, hstack⟩ := hs.exists_handled hgids h
  obtain ⟨tstore', stackOf'⟩ := s'
  obtain rfl := hstack
  exact hs.of_handled ho hhandled _

theorem consistent_of_reachable
    (hs : (sessionMachine filterFunc capacity gids).Reachable s) : s.Consistent gids :=
  hs.invariant (fun _ => consistent_of_init) fun _ _ _ _ hcons hstep => hcons.step hgids hstep

end Session

/-! ## The cached path and the slow path -/

/-- **The cache of the last greenlet is sound.**  At every event of every interleaving the
storage found through the remembered frame is the one the slow path would find or create; and
while a frame is remembered, the remembered storage is linked under the remembered id and has
not been deleted. -/
theorem gstore_cache_sound {filterFunc : Filter} {capacity : ℕ} {gids : Finset UInt64}
    (hgids : Set.InjOn lowInt (gids : Set UInt64)) {s : Session}
    (hs : (sessionMachine filterFunc capacity gids).Reachable s) :
    (∀ e o, occurs gids s.stackOf e = some o →
      (o.what = .call → getGstoreOnCall o.gid s.tstore o.frame o.back =
        s.tstore.slowGstore o.frame.address o.gid o.back) ∧
      (o.what = .ret → getGstoreOnReturn o.gid s.tstore o.frame o.back =
        s.tstore.slowGstore (fBack o.back) o.gid o.back)) ∧
    (s.tstore.lastFrame ≠ 0 → ∃ ptr gstore, s.tstore.lastGstorage = some ptr ∧
      ⟨ptr, lowInt s.tstore.lastGid⟩ ∈ s.tstore.gidMap.items ∧
      s.tstore.heap ptr = some gstore ∧ gstore.gid = s.tstore.lastGid) := by
  have hcons := Session.consistent_of_reachable hgids hs
  refine ⟨fun e o ho => ?_, fun hne => ?_⟩
  · have hright := hcons.rightAbout ho
    constructor
    · intro hwhat
      rw [hwhat] at hright
      exact ThreadStorage.getGstore_eq_slowGstore hright _ _
    · intro hwhat
      rw [hwhat] at hright
      exact ThreadStorage.getGstore_eq_slowGstore hright _ _
  · obtain ⟨ptr, hlast, hfind⟩ := hcons.gstorage hne
    obtain ⟨gstore, hheap, hown⟩ :=
      hcons.linked.exists_of_find hgids (hcons.gid_mem hne) hfind
    exact ⟨ptr, gstore, hlast, hcons.linked.findGstorage_eq_some_iff.mp hfind, hheap, hown⟩

/-- Two greenlets, one of which is in its main program when the session starts. -/
def twoGreenlets : Session where
  tstore := .create 7 4
  stackOf gid := if gid = 0x10 then [⟨⟨0x1000, 0x5000, by decide⟩, none⟩] else []

lemma lowInt_injOn_twoGreenlets :
    Set.InjOn lowInt (({0x10, 0x20} : Finset UInt64) : Set UInt64) :=
  Finset.card_image_iff.mp (by decide)

lemma twoGreenlets_init (filterFunc : Filter) :
    (sessionMachine filterFunc 4 {0x10, 0x20}).init twoGreenlets := by
  have hstack : ∀ gid, ∀ x ∈ twoGreenlets.stackOf gid, gid = 0x10 ∧ x.callLogged = none := by
    intro gid x hx
    simp only [twoGreenlets] at hx
    split_ifs at hx with hgid
    · obtain rfl := List.mem_singleton.mp hx
      exact ⟨hgid, rfl⟩
    · cases hx
  refine ⟨⟨7, rfl⟩, fun gid _ gid' _ hne x hx y hy => ?_, fun gid _ x hx => (hstack gid x hx).2⟩
  exact absurd ((hstack gid x hx).1.trans (hstack gid' y hy).1.symm) hne

/-- After a call in the first greenlet, and a call and a return in the second. -/
theorem gstore_cache_sound_twoGreenlets :
    ∃ s, (sessionMachine (fun _ => .int 4) 4 {0x10, 0x20}).exec twoGreenlets
        [.call 0x10 ⟨0x2000, 0x5001, by decide⟩, .call 0x20 ⟨0x3000, 0x5002, by decide⟩,
          .ret 0x20, .ret 0x10] = some s ∧
      s.tstore.lastFrame = 0x1000 ∧
      (∀ e o, occurs {0x10, 0x20} s.stackOf e = some o →
        (o.what = .call → getGstoreOnCall o.gid s.tstore o.frame o.back =
          s.tstore.slowGstore o.frame.address o.gid o.back) ∧
        (o.what = .ret → getGstoreOnReturn o.gid s.tstore o.frame o.back =
          s.tstore.slowGstore (fBack o.back) o.gid o.back)) ∧
      (s.tstore.lastFrame ≠ 0 → ∃ ptr gstore, s.tstore.lastGstorage = some ptr ∧
        ⟨ptr, lowInt s.tstore.lastGid⟩ ∈ s.tstore.gidMap.items ∧
        s.tstore.heap ptr = some gstore ∧ gstore.gid = s.tstore.lastGid) := by
  have hrun : ((sessionMachine (fun _ => .int 4) 4 {0x10, 0x20}).exec twoGreenlets
      [.call 0x10 ⟨0x2000, 0x5001, by decide⟩, .call 0x20 ⟨0x3000, 0x5002, by decide⟩,
        .ret 0x20, .ret 0x10]).any (fun s => decide (s.tstore.lastFrame = 0x1000)) = true := by
    decide +kernel
  obtain ⟨s, hs, hframe⟩ := (Option.any_eq_true _ _).mp hrun
  exact ⟨s, hs, of_decide_eq_true hframe,
    gstore_cache_sound lowInt_injOn_twoGreenlets
      (Machine.reachable_of_exec (twoGreenlets_init _) hs)⟩

end InfiTracing
