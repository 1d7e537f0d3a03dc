import InfiTracing.Framework.Threshold
import InfiTracing.Greenlet.Session

/-!
# What a session logs

A filter gives a frame the level `NO_TRACE_NESTED` to suppress whatever is called from it.
`greenlet_trace_func` has no stack of such frames, only a depth and a threshold for each
greenlet; `event_logged_iff` says that they do what a stack would: an event is logged exactly
if its frame has a level to be logged and no frame called in the session below it on the stack
of its greenlet is suppressing.

The threshold of a greenlet tracks its stack in the sense of `Framework.Tracks`
(`GreenletStorage.InStep`).  Depths are counted from 1 where the first event of a greenlet is a
call and from 0 where it is a return, and the threshold is counted with them.
-/

namespace InfiTracing

open Framework

/-! ## The rule -/

section Rule

variable (filterFunc : Filter)

/-- The level of a frame. -/
def Activation.level (x : Activation) : ℤ := (filterFunc x.frame.fCode).traceLevel

/-- The frame was called in the session, and nothing called from it is to be logged. -/
def Activation.Suppresses (x : Activation) : Prop :=
  x.callLogged.isSome = true ∧ x.level filterFunc = noTraceNested

/-- The rule for the events of a frame above the frames `below`. -/
def Activation.ToBeLogged (x : Activation) (below : List Activation) : Prop :=
  x.level filterFunc ≠ noTrace ∧ x.level filterFunc ≠ noTraceNested ∧
    ∀ y ∈ below, ¬ y.Suppresses filterFunc

instance : DecidablePred (Activation.Suppresses filterFunc) := fun x =>
  inferInstanceAs (Decidable (x.callLogged.isSome = true ∧ x.level filterFunc = noTraceNested))

instance (x : Activation) (below : List Activation) : Decidable (x.ToBeLogged filterFunc below) :=
  inferInstanceAs (Decidable (_ ∧ _ ∧ ∀ y ∈ below, ¬ y.Suppresses filterFunc))

end Rule

/-- The bounds of a session: stacks are lower than `NO_TRACE_FROM_DEPTH_DISABLED`, and the code
objects of their frames are among `codes`. -/
def Session.Bounded (gids codes : Finset UInt64) (s : Session) : Prop :=
  ∀ gid ∈ gids, ((s.stackOf gid).length : ℤ) < noTraceFromDepthDisabled ∧
    ∀ x ∈ s.stackOf gid, x.frame.fCode ∈ codes

instance (gids codes : Finset UInt64) : DecidablePred (Session.Bounded gids codes) := fun _ =>
  Finset.decidableDforallFinset

/-! ## The invariant of a greenlet -/

/-- A storage is in step with the stack of its greenlet: its cache holds levels of the filter,
and its threshold tracks the suppressing frames, at depths counted from 1 or less. -/
structure GreenletStorage.InStep (filterFunc : Filter) (codes : Finset UInt64)
    (gstore : GreenletStorage) (stack : List Activation) : Prop where
  caches : CachesIn codes filterFunc gstore.traceLevelLru
  base_le : gstore.depth ≤ stack.length
  tracks : Tracks (Activation.Suppresses filterFunc) (gstore.depth - stack.length + 1)
    gstore.noTraceFromDepth stack

/-- Every storage is in step, and a greenlet without one has no frame called in the session;
frames called in the session remember of their call what the rule says. -/
structure Session.Levelled (filterFunc : Filter) (gids codes : Finset UInt64) (s : Session) :
    Prop where
  capacity : 1 ≤ s.tstore.traceLevelLruCapacity
  enabled : 0 < s.tstore.enabled
  unseen : ∀ gid ∈ gids, s.tstore.storageOf gid = none →
    ∀ x ∈ s.stackOf gid, x.callLogged = none
  inStep : ∀ gid ∈ gids, ∀ gstore, s.tstore.storageOf gid = some gstore →
    gstore.InStep filterFunc codes (s.stackOf gid)
  recorded : ∀ gid ∈ gids, ∀ x below, x :: below <:+ s.stackOf gid → ∀ logged,
    x.callLogged = some logged → (logged = true ↔ x.ToBeLogged filterFunc below)

section Invariant

variable {filterFunc : Filter} {gids codes : Finset UInt64} {capacity : ℕ} {s s' : Session}
  {e : GreenletEvent} {o : Occurrence}

lemma Session.levelled_of_init (hcap : 1 ≤ capacity)
    (h : (sessionMachine filterFunc capacity gids).init s) :
    s.Levelled filterFunc gids codes := by
  obtain ⟨⟨id, hid⟩, -, hunseen⟩ := h
  refine ⟨by simpa [hid, ThreadStorage.create] using hcap, by simp [hid, ThreadStorage.create],
    fun gid hgid _ => hunseen gid hgid, fun gid _ gstore hstorage => ?_,
    fun gid hgid x below hsuffix logged hlogged => ?_⟩
  · simp [hid] at hstorage
  · rw [hunseen gid hgid x (hsuffix.subset List.mem_cons_self)] at hlogged
    cases hlogged

/-- The storage an event starts from, old or new, is in step with the stack before it. -/
lemma Session.Levelled.storageOrNew (hs : s.Levelled filterFunc gids codes)
    (hbounded : s.Bounded gids codes) (ho : occurs gids s.stackOf e = some o) :
    (s.tstore.storageOrNew o.gid o.back).InStep filterFunc codes (s.stackOf o.gid) := by
  have hgid := (occurs_cases ho).1
  unfold ThreadStorage.storageOrNew
  cases hstorage : s.tstore.storageOf o.gid with
  | some gstore => exact hs.inStep _ hgid gstore hstorage
  | none =>
      have hclear : Clear (Activation.Suppresses filterFunc) (s.stackOf o.gid) := by
        intro x hx hsuppress
        rw [Activation.Suppresses, hs.unseen _ hgid hstorage x hx] at hsuppress
        cases hsuppress.1
      have hlen : (o.back.length : ℤ) ≤ (s.stackOf o.gid).length := by
        rw [Occurrence.back, List.length_map]
        rcases (occurs_cases ho).2 with ⟨-, -, hstack, -⟩ | ⟨-, hstack⟩ <;> simp [hstack]
      have hheight := (hbounded _ hgid).1
      refine ⟨cachesIn_create _ _ hs.capacity, hlen, hclear.tracks ?_⟩
      simp only [Option.getD_none, GreenletStorage.create]
      omega

/-- The depth of an event is the number of frames below its own, counted from the base of the
greenlet's depths. -/
lemma depth_eq (ho : occurs gids s.stackOf e = some o) (gstore : GreenletStorage) :
    (gstore.countDepth o.what).1 =
      (gstore.depth - (s.stackOf o.gid).length + 1) + o.below.length := by
  rcases (occurs_cases ho).2 with ⟨hwhat, -, hstack, -⟩ | ⟨hwhat, hstack⟩
  · simp only [GreenletStorage.countDepth, hwhat, if_true, hstack]
    omega
  · simp only [GreenletStorage.countDepth, hwhat, reduceCtorEq, if_false, hstack,
      List.length_cons]
    omega

/-- The frames below that of an event are a lower part of the stack before it. -/
lemma below_suffix_of_occurs (ho : occurs gids s.stackOf e = some o) :
    o.below <:+ s.stackOf o.gid := by
  rcases (occurs_cases ho).2 with ⟨-, -, hstack, -⟩ | ⟨-, hstack⟩
  · rw [hstack]
  · rw [hstack]
    exact List.suffix_cons _ _

/-- **An event keeps a storage in step.** -/
lemma GreenletStorage.InStep.event {gstore : GreenletStorage}
    (h : gstore.InStep filterFunc codes (s.stackOf o.gid))
    (ho : occurs gids s.stackOf e = some o)
    (hheight : (o.below.length : ℤ) + 1 < noTraceFromDepthDisabled) {lru : Lru}
    (hlru : CachesIn codes filterFunc lru) (logged : Bool) :
    GreenletStorage.InStep filterFunc codes
      { (gstore.countDepth o.what).2 with
        noTraceFromDepth := nextThreshold noTraceFromDepthDisabled (gstore.countDepth o.what).1
          gstore.noTraceFromDepth (o.activation.level filterFunc = noTraceNested)
        traceLevelLru := lru }
      (o.after logged) := by
  have hbase := h.base_le
  have htracks := h.tracks
  rw [depth_eq ho gstore]
  rcases (occurs_cases ho).2 with ⟨hwhat, -, hstack, -⟩ | ⟨hwhat, hstack⟩
  · -- a call: the frame is pushed, and suppresses if its level says so
    rw [hstack] at htracks hbase ⊢
    have hsame : gstore.depth + 1 - ((o.below.length + 1 : ℕ) : ℤ) + 1 =
        gstore.depth - o.below.length + 1 := by omega
    refine ⟨hlru, ?_, ?_⟩
    · simp only [Occurrence.after, countDepth, hwhat, reduceCtorEq, if_true, if_false,
        List.length_cons]
      omega
    · simp only [Occurrence.after, countDepth, hwhat, reduceCtorEq, if_true, if_false,
        List.length_cons, hsame]
      exact htracks.push (by omega) ⟨And.right, And.intro rfl⟩
  · -- a return: the frame is popped
    rw [hstack, List.length_cons] at hbase ⊢
    rw [hstack, List.length_cons] at htracks
    have hsame : gstore.depth - 1 - (o.below.length : ℤ) + 1 =
        gstore.depth - ((o.below.length + 1 : ℕ) : ℤ) + 1 := by omega
    refine ⟨hlru, ?_, ?_⟩
    · simp only [Occurrence.after, countDepth, hwhat, reduceCtorEq, if_true, if_false]
      omega
    · simp only [Occurrence.after, countDepth, hwhat, reduceCtorEq, if_true, if_false, hsame]
      exact htracks.pop (by omega) _

/-- What is visible of a greenlet, by its storage: an event above which no frame suppresses. -/
lemma GreenletStorage.InStep.visible_iff {gstore : GreenletStorage}
    (h : gstore.InStep filterFunc codes (s.stackOf o.gid))
    (ho : occurs gids s.stackOf e = some o) :
    (gstore.countDepth o.what).1 ≤ gstore.noTraceFromDepth ↔
      ∀ y ∈ o.below, ¬ y.Suppresses filterFunc := by
  rw [depth_eq ho gstore]
  exact h.tracks _ (below_suffix_of_occurs ho)

/-- What is logged of an event, given its depth. -/
def Occurrence.record (filterFunc : Filter) (tid : UInt64) (depth : ℤ) (o : Occurrence) :
    LogRecord :=
  ⟨o.what, o.activation.level filterFunc, tid, o.gid, depth, o.frame⟩

/-- **One event of a greenlet.**  It is logged by the rule, and its storage stays in step. -/
lemma GreenletStorage.InStep.exists_handle {gstore : GreenletStorage}
    (h : gstore.InStep filterFunc codes (s.stackOf o.gid)) (hown : gstore.gid = o.gid)
    (hcodes : Set.InjOn lowInt (codes : Set UInt64)) (ho : occurs gids s.stackOf e = some o)
    (hcode : o.frame.fCode ∈ codes)
    (hheight : (o.below.length : ℤ) + 1 < noTraceFromDepthDisabled) {enabled : ℤ}
    (henabled : 0 < enabled) (tid : UInt64) :
    ∃ gstore', gstore.handle filterFunc enabled tid o.what o.frame =
        some (gstore', if o.activation.ToBeLogged filterFunc o.below then
          some (o.record filterFunc tid (gstore.countDepth o.what).1) else none) ∧
      ∀ logged, gstore'.InStep filterFunc codes (o.after logged) := by
  obtain ⟨lru, hlru, hhandle⟩ := GreenletStorage.exists_handle hcodes h.caches hcode henabled
    tid o.what
  refine ⟨_, hhandle.trans ?_, fun logged => h.event ho hheight hlru logged⟩
  have hrule : ((gstore.countDepth o.what).1 ≤ gstore.noTraceFromDepth ∧
      (filterFunc o.frame.fCode).traceLevel ≠ noTrace ∧
      (filterFunc o.frame.fCode).traceLevel ≠ noTraceNested) ↔
      o.activation.ToBeLogged filterFunc o.below := by
    rw [h.visible_iff ho, Activation.ToBeLogged, and_comm, and_assoc]
    rfl
  simp only [hrule, hown]
  rfl

namespace Session

/-- What is recorded of a call is what the rule says, after an event as before. -/
lemma Levelled.recorded_update (hs : s.Levelled filterFunc gids codes)
    (ho : occurs gids s.stackOf e = some o) {logged : Bool}
    (hrule : logged = true ↔ o.activation.ToBeLogged filterFunc o.below) {gid : UInt64}
    (hgid : gid ∈ gids) {x : Activation} {below : List Activation}
    (hsuffix : x :: below <:+ Function.update s.stackOf o.gid (o.after logged) gid)
    {called : Bool} (hcalled : x.callLogged = some called) :
    called = true ↔ x.ToBeLogged filterFunc below := by
  by_cases heq : gid = o.gid
  · subst heq
    rw [Function.update_self] at hsuffix
    rcases (occurs_cases ho).2 with ⟨hwhat, -, hstack, -⟩ | ⟨hwhat, hstack⟩
    · simp only [Occurrence.after, hwhat, reduceCtorEq, if_false] at hsuffix
      rcases List.suffix_cons_iff.mp hsuffix with hwhole | hsuffix
      · -- the frame called now
        obtain ⟨rfl, rfl⟩ := List.cons_eq_cons.mp hwhole
        obtain rfl := Option.some.inj hcalled
        exact hrule
      · exact hs.recorded _ hgid x below (hstack ▸ hsuffix) called hcalled
    · simp only [Occurrence.after, hwhat, if_true] at hsuffix
      exact hs.recorded _ hgid x below
        (hstack ▸ hsuffix.trans (List.suffix_cons _ _)) called hcalled
  · rw [Function.update_of_ne heq] at hsuffix
    exact hs.recorded gid hgid x below hsuffix called hcalled

/-- An event that keeps the storage of its greenlet in step and goes by the rule keeps a session
levelled. -/
lemma Levelled.of_handled (hs : s.Levelled filterFunc gids codes)
    (ho : occurs gids s.stackOf e = some o) {t : ThreadStorage} {gstore : GreenletStorage}
    (hhandled : ThreadStorage.Handled gids o.gid (o.what.nextFrame o.frame o.back) s.tstore t
      (if o.what = .ret ∧ o.back = [] then none else some gstore)) {logged : Bool}
    (hin : gstore.InStep filterFunc codes (o.after logged))
    (hrule : logged = true ↔ o.activation.ToBeLogged filterFunc o.below) :
    Levelled filterFunc gids codes ⟨t, Function.update s.stackOf o.gid (o.after logged)⟩ := by
  refine ⟨hhandled.capacity.symm ▸ hs.capacity, hhandled.enabled.symm ▸ hs.enabled,
    fun gid hgid hnone => ?_, fun gid hgid gstore' hstorage => ?_,
    fun gid hgid x below hsuffix called hcalled =>
      hs.recorded_update ho hrule hgid hsuffix hcalled⟩
  · by_cases heq : gid = o.gid
    · -- the storage is deleted where the stack is empty
      subst heq
      rw [hhandled.storage] at hnone
      have hlast : o.what = .ret ∧ o.back = [] := by
        by_contra hlast
        simp [hlast] at hnone
      have hbelow : o.below = [] := List.map_eq_nil_iff.mp hlast.2
      simp [Occurrence.after, hlast.1, hbelow]
    · rw [hhandled.others gid hgid heq] at hnone
      simpa [Function.update_of_ne heq] using hs.unseen gid hgid hnone
  · by_cases heq : gid = o.gid
    · subst heq
      rw [hhandled.storage] at hstorage
      obtain ⟨-, hsome⟩ := Option.ite_none_left_eq_some.mp hstorage
      obtain rfl := Option.some.inj hsome
      simpa using hin
    · rw [hhandled.others gid hgid heq] at hstorage
      simpa [Function.update_of_ne heq] using hs.inStep gid hgid gstore' hstorage

/-- **One event of a session.**  It is logged by the rule, and the session stays levelled. -/
lemma Levelled.exists_trace (hs : s.Levelled filterFunc gids codes)
    (hgids : Set.InjOn lowInt (gids : Set UInt64)) (hcodes : Set.InjOn lowInt (codes : Set UInt64))
    (hcons : s.Consistent gids) (hbounded : s.Bounded gids codes)
    (ho : occurs gids s.stackOf e = some o) (hcode : o.frame.fCode ∈ codes)
    (hheight : (o.below.length : ℤ) + 1 < noTraceFromDepthDisabled) :
    ∃ tstore gstore record, s.trace filterFunc o = some (tstore, record) ∧
      record = (if o.activation.ToBeLogged filterFunc o.below then
        some (o.record filterFunc s.tstore.id
          ((s.tstore.storageOrNew o.gid o.back).countDepth o.what).1) else none) ∧
      (s.tstore.storageOrNew o.gid o.back).handle filterFunc s.tstore.enabled s.tstore.id
        o.what o.frame = some (gstore, record) ∧
      ThreadStorage.Handled gids o.gid (o.what.nextFrame o.frame o.back) s.tstore tstore
        (if o.what = .ret ∧ o.back = [] then none else some gstore) ∧
      Levelled filterFunc gids codes
        ⟨tstore, Function.update s.stackOf o.gid (o.after record.isSome)⟩ := by
  obtain ⟨after, hlaw, hafter⟩ := hcons.trace hgids ho filterFunc
  obtain ⟨gstore, hhandle, hin⟩ := (hs.storageOrNew hbounded ho).exists_handle
    (hcons.linked.storageOrNew_gid hgids (occurs_cases ho).1 o.back) hcodes ho hcode hheight
    hs.enabled s.tstore.id
  have hhandled := hafter gstore _ hhandle
  refine ⟨after gstore, gstore, _, ?_, rfl, hhandle, hhandled,
    hs.of_handled ho hhandled (hin _) ?_⟩
  · rw [hlaw, hhandle, Option.map_some]
  · split_ifs with hrule
    · exact iff_of_true rfl hrule
    · exact iff_of_false (by simp) hrule

/-- The frame of an event that leads to a bounded session is within the bounds. -/
lemma Bounded.occurrence (hbounded : s.Bounded gids codes)
    (ho : occurs gids s.stackOf e = some o) {tstore : ThreadStorage} {logged : Bool}
    (hafter : Bounded gids codes ⟨tstore, Function.update s.stackOf o.gid (o.after logged)⟩) :
    o.frame.fCode ∈ codes ∧ (o.below.length : ℤ) + 1 < noTraceFromDepthDisabled := by
  obtain ⟨hgid, ⟨hwhat, -, -, -⟩ | ⟨-, hstack⟩⟩ := occurs_cases ho
  · obtain ⟨hlen, hcode⟩ := hafter o.gid hgid
    simp only [Function.update_self, Occurrence.after, hwhat, reduceCtorEq, if_false,
      List.length_cons, List.mem_cons, forall_eq_or_imp] at hlen hcode
    exact ⟨hcode.1, by omega⟩
  · obtain ⟨hlen, hcode⟩ := hbounded o.gid hgid
    rw [hstack] at hlen hcode
    rw [List.length_cons] at hlen
    exact ⟨hcode _ List.mem_cons_self, by omega⟩

theorem levelled_of_reachable (hgids : Set.InjOn lowInt (gids : Set UInt64))
    (hcodes : Set.InjOn lowInt (codes : Set UInt64)) (hcap : 1 ≤ capacity)
    (hs : ((sessionMachine filterFunc capacity gids).confine (Bounded gids codes)).Reachable s) :
    s.Levelled filterFunc gids codes := by
  refine hs.invariant (fun s hinit => levelled_of_init hcap hinit.1)
    fun s e s' hs hlevelled hstep => ?_
  obtain ⟨hreach, hbounded⟩ := hs.of_confine
  obtain ⟨hstep, hbounded'⟩ := Machine.confine_step_eq_some.mp hstep
  obtain ⟨o, record, ho, htrace, hstack⟩ := sessionMachine_step_eq_some.mp hstep
  obtain ⟨tstore', stackOf'⟩ := s'
  obtain rfl := hstack
  obtain ⟨hcode, hheight⟩ := hbounded.occurrence ho hbounded'
  obtain ⟨tstore, gstore, record', htrace', -, -, -, hlevelled'⟩ := hlevelled.exists_trace hgids
    hcodes (consistent_of_reachable hgids hreach) hbounded ho hcode hheight
  obtain ⟨rfl, rfl⟩ := Prod.mk.inj (Option.some.inj (htrace.symm.trans htrace'))
  exact hlevelled'

end Session

end Invariant

/-! ## What is logged -/

/-- **One threshold does what a stack would.**  In every interleaving of greenlets, and for
every event one of them can have next, the trace function logs the event exactly if the level
of its frame is neither `NO_TRACE` nor `NO_TRACE_NESTED` and no frame below it on the stack,
called in the session, has level `NO_TRACE_NESTED`; and a return of a frame called in the
session is logged exactly if its call was. -/
theorem event_logged_iff {filterFunc : Filter} {capacity : ℕ} {gids codes : Finset UInt64}
    (hgids : Set.InjOn lowInt (gids : Set UInt64)) (hcodes : Set.InjOn lowInt (codes : Set UInt64))
    (hcap : 1 ≤ capacity) {s : Session}
    (hs : ((sessionMachine filterFunc capacity gids).confine
      (Session.Bounded gids codes)).Reachable s) {e : GreenletEvent} {o : Occurrence}
    (ho : occurs gids s.stackOf e = some o) (hcode : o.frame.fCode ∈ codes)
    (hheight : (o.below.length : ℤ) + 1 < noTraceFromDepthDisabled) :
    ∃ tstore record,
      greenletTraceFunc filterFunc o.gid s.tstore o.frame o.back o.what =
        some (tstore, record) ∧
      (record.isSome = true ↔
        (filterFunc o.frame.fCode).traceLevel ≠ noTrace ∧
        (filterFunc o.frame.fCode).traceLevel ≠ noTraceNested ∧
        ∀ y ∈ o.below, y.callLogged.isSome = true →
          (filterFunc y.frame.fCode).traceLevel ≠ noTraceNested) ∧
      (∀ r ∈ record, r.what = o.what ∧ r.gid = o.gid ∧ r.frame = o.frame) ∧
      ∀ logged, o.activation.callLogged = some logged → (record.isSome = true ↔ logged = true) := by
  obtain ⟨hreach, hbounded⟩ := hs.of_confine
  have hlevelled := Session.levelled_of_reachable hgids hcodes hcap hs
  obtain ⟨tstore, gstore, record, htrace, hrecord, -⟩ := hlevelled.exists_trace hgids hcodes
    (Session.consistent_of_reachable hgids hreach) hbounded ho hcode hheight
  have hrule : record.isSome = true ↔ o.activation.ToBeLogged filterFunc o.below := by
    rw [hrecord]
    split_ifs with hrule
    · exact iff_of_true rfl hrule
    · exact iff_of_false (by simp) hrule
  refine ⟨tstore, record, htrace, ?_, fun r hr => ?_, fun logged hlogged => ?_⟩
  · simpa [Activation.ToBeLogged, Activation.Suppresses, Activation.level, Occurrence.frame]
      using hrule
  · rw [hrecord] at hr
    split_ifs at hr
    · obtain rfl := Option.mem_some_iff.mp hr
      exact ⟨rfl, rfl, rfl⟩
    · cases hr
  · -- the call of a frame that returns remembers what the rule said
    obtain ⟨hgid, ⟨-, hnone, -, -⟩ | ⟨-, hstack⟩⟩ := occurs_cases ho
    · rw [hnone] at hlogged
      cases hlogged
    · rw [hrule, hlevelled.recorded o.gid hgid o.activation o.below
        (hstack ▸ List.suffix_rfl) logged hlogged]

/-- The code object `0x5001` is not to be traced with whatever it calls, and all others are. -/
def nestedFilter : Filter := fun fCode => .int (if fCode = 0x5001 then 1 else 4)

/-- A function called from a suppressing frame is not logged. -/
theorem event_logged_iff_underNested :
    ∃ s, ((sessionMachine nestedFilter 4 {0x10, 0x20}).confine
        (Session.Bounded {0x10, 0x20} {0x5000, 0x5001, 0x5002})).exec twoGreenlets
          [.call 0x20 ⟨0x3000, 0x5002, by decide⟩, .call 0x10 ⟨0x2000, 0x5001, by decide⟩] =
        some s ∧
      ∃ tstore, greenletTraceFunc nestedFilter 0x10 s.tstore ⟨0x2100, 0x5002, by decide⟩
        [⟨0x2000, 0x5001, by decide⟩, ⟨0x1000, 0x5000, by decide⟩] .call =
          some (tstore, none) := by
  have hrun : (((sessionMachine nestedFilter 4 {0x10, 0x20}).confine
      (Session.Bounded {0x10, 0x20} {0x5000, 0x5001, 0x5002})).exec twoGreenlets
        [.call 0x20 ⟨0x3000, 0x5002, by decide⟩, .call 0x10 ⟨0x2000, 0x5001, by decide⟩]).any
      (fun s => decide (occurs {0x10, 0x20} s.stackOf
        (.call 0x10 ⟨0x2100, 0x5002, by decide⟩) = some
          ⟨.call, 0x10, ⟨⟨0x2100, 0x5002, by decide⟩, none⟩,
            [⟨⟨0x2000, 0x5001, by decide⟩, some false⟩, ⟨⟨0x1000, 0x5000, by decide⟩, none⟩]⟩)) =
        true := by
    decide +kernel
  obtain ⟨s, hs, hoccurs⟩ := (Option.any_eq_true _ _).mp hrun
  have hcodes : Set.InjOn lowInt (({0x5000, 0x5001, 0x5002} : Finset UInt64) : Set UInt64) :=
    Finset.card_image_iff.mp (by decide)
  have hbounded : Session.Bounded {0x10, 0x20} {0x5000, 0x5001, 0x5002} twoGreenlets := by
    decide
  obtain ⟨tstore, record, htrace, hrule, -⟩ := event_logged_iff lowInt_injOn_twoGreenlets
    hcodes (by decide)
    (Machine.reachable_of_exec ⟨twoGreenlets_init _, hbounded⟩ hs) (of_decide_eq_true hoccurs)
    (by decide) (by decide)
  refine ⟨s, hs, tstore, ?_⟩
  have hnone : record = none := by
    rw [← Option.not_isSome_iff_eq_none, hrule]
    simp [nestedFilter, FilterResult.traceLevel, noTraceNested]
  rw [hnone] at htrace
  exact htrace

end InfiTracing
