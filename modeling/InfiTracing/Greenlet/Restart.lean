import InfiTracing.Greenlet.Masking
import InfiTracing.Greenlet.Thread

/-!
# A session on a thread that has been traced before

Depths, thresholds and the remembered frame stay from one session to the next, while the greenlets
go on unseen.  A session is compared here with the same session on freshly created storage.

The two log the same as long as each greenlet is met in a state that a fresh start would have
produced (`CleanStart`): its storage, if it has one left, is at the depth its stack gives and not
suppressing, the remembered frame is not another greenlet's, and tracing is not suspended.  The
invariants of the earlier sessions that this rests on (`Thread.Sane`) hold after any history,
including one that has mixed greenlets up.
-/

namespace InfiTracing

open Framework

/-! ## What any history leaves -/

/-- While a frame is remembered, it is remembered with a greenlet and with the storage linked for
it, though not always with the greenlet the frame is on. -/
structure ThreadStorage.Remembers (gids : Set UInt64) (t : ThreadStorage) : Prop where
  linked : t.Linked gids
  gid_mem : t.lastFrame ≠ 0 → t.lastGid ∈ gids
  gstorage : t.lastFrame ≠ 0 → ∃ ptr, t.lastGstorage = some ptr ∧
    t.findGstorage t.lastGid = some ptr

/-- A storage with a cache of levels of the filter, and a threshold no higher than
`NO_TRACE_FROM_DEPTH_DISABLED`. -/
structure GreenletStorage.Sound (filterFunc : Filter) (codes : Set UInt64)
    (gstore : GreenletStorage) : Prop where
  caches : CachesIn codes filterFunc gstore.traceLevelLru
  threshold : gstore.noTraceFromDepth ≤ noTraceFromDepthDisabled

namespace ThreadStorage

variable {gids : Set UInt64} {t t' : ThreadStorage} {gid nextFrame : UInt64}
  {result : Option GreenletStorage}

lemma remembers_create (gids : Set UInt64) (id : UInt64) (capacity : ℕ) :
    (create id capacity).Remembers gids :=
  ⟨linked_create _ _ _, fun h => absurd rfl h, fun h => absurd rfl h⟩

/-- What is remembered with the right greenlet is right about it. -/
lemma Remembers.rightAbout (ht : t.Remembers gids) {frame : UInt64}
    (h : t.lastFrame ≠ 0 → t.lastFrame = frame → t.lastGid = gid) : t.RightAbout gid frame := by
  intro hne heq
  obtain ⟨ptr, hlast, hfind⟩ := ht.gstorage hne
  exact ⟨h hne heq, ptr, hlast, h hne heq ▸ hfind⟩

/-- **Every event is some greenlet's.**  It goes to the current greenlet, or to the one
remembered with its frame. -/
lemma Remembers.exists_gid (ht : t.Remembers gids) (hgid : gid ∈ gids) (filterFunc : Filter)
    (frame : Frame) (back : List Frame) {what : PyTrace} (hwhat : what = .call ∨ what = .ret) :
    ∃ gid' ∈ gids, t.RightAbout gid' (what.cachedFrame frame back) ∧
      InfiTracing.greenletTraceFunc filterFunc gid t frame back what =
        InfiTracing.greenletTraceFunc filterFunc gid' t frame back what := by
  by_cases hhit : t.lastFrame ≠ 0 ∧ t.lastFrame = what.cachedFrame frame back
  · refine ⟨t.lastGid, ht.gid_mem hhit.1, ht.rightAbout fun _ _ => rfl, ?_⟩
    rw [greenletTraceFunc_eq hwhat, greenletTraceFunc_eq hwhat]
    simp only [acquire, getGstore, if_pos hhit]
  · exact ⟨gid, hgid, fun hne heq => absurd ⟨hne, heq⟩ hhit, rfl⟩

lemma Handled.remembers (h : Handled gids gid nextFrame t t' result) (hgid : gid ∈ gids)
    (hlast : result = none → nextFrame = 0) : t'.Remembers gids := by
  refine ⟨h.linked, fun _ => h.lastGid ▸ hgid, fun hne => ?_⟩
  rw [h.lastFrame] at hne
  rw [h.lastGid]
  exact h.cached fun hnone => hne (hlast hnone)

end ThreadStorage

/-- A threshold is moved to the depth of an event below it, or out of reach. -/
lemma GreenletStorage.handle_threshold_le {filterFunc : Filter} {enabled : ℤ} {tid : UInt64}
    {what : PyTrace} {frame : Frame} {gstore gstore' : GreenletStorage}
    {record : Option LogRecord} (hle : gstore.noTraceFromDepth ≤ noTraceFromDepthDisabled)
    (h : gstore.handle filterFunc enabled tid what frame = some (gstore', record)) :
    gstore'.noTraceFromDepth ≤ noTraceFromDepthDisabled := by
  simp only [handle, traceEvent, countDepth_noTraceFromDepth] at h
  split_ifs at h with henabled hdepth
  · obtain ⟨⟨level, lru⟩, -, hrest⟩ := Option.bind_eq_some_iff.mp h
    dsimp only at hrest
    split_ifs at hrest <;> cases hrest
    · exact hdepth.trans hle
    · exact le_rfl
    · exact le_rfl
  · cases h
    rwa [countDepth_noTraceFromDepth]
  · cases h
    rwa [countDepth_noTraceFromDepth]

/-- New storages have room in their caches, and the code objects on the stacks are among
`codes`. -/
def Thread.Fits (gids codes : Finset UInt64) (th : Thread) : Prop :=
  1 ≤ th.traceLevelLruCapacity ∧ th.Within gids codes

instance (gids codes : Finset UInt64) : DecidablePred (Thread.Fits gids codes) := fun th =>
  inferInstanceAs (Decidable (1 ≤ th.traceLevelLruCapacity ∧ th.Within gids codes))

/-- A `set_tracing` is one with the filter. -/
def ThreadAction.Installs (filterFunc : Filter) (a : ThreadAction) : Prop :=
  ∀ filterFunc' capacity, a = .setTracing filterFunc' capacity → filterFunc' = filterFunc

/-- What every history of sessions with one filter leaves of a thread. -/
structure Thread.Sane (id : UInt64) (filterFunc : Filter) (gids codes : Finset UInt64)
    (th : Thread) : Prop where
  profile : ∀ filterFunc' ∈ th.profile, filterFunc' = filterFunc
  apart : th.stackOf.Apart gids
  remembers : (th.getThreadStorage id).Remembers gids
  sound : (th.getThreadStorage id).Every (GreenletStorage.Sound filterFunc codes)
  tid : (th.getThreadStorage id).id = id
  capacity : 1 ≤ (th.getThreadStorage id).traceLevelLruCapacity

section History

variable {id : UInt64} {filterFunc : Filter} {gids codes : Finset UInt64} {th th' : Thread}
  {a : ThreadAction} {e : GreenletEvent} {o : Occurrence}

lemma GreenletStorage.sound_create (filterFunc : Filter) (codes : Set UInt64) (gid : UInt64)
    (depth : ℤ) {capacity : ℕ} (hcap : 1 ≤ capacity) :
    GreenletStorage.Sound filterFunc codes
      { GreenletStorage.create gid capacity with depth := depth } :=
  ⟨cachesIn_create _ _ hcap, le_rfl⟩

/-- A thread whose storage has not been touched. -/
lemma Thread.Sane.of_tstore (h : th.Sane id filterFunc gids codes)
    (htstore : th'.tstore = th.tstore) (hcap : 1 ≤ th'.traceLevelLruCapacity)
    (hprofile : ∀ filterFunc' ∈ th'.profile, filterFunc' = filterFunc)
    (hapart : th'.stackOf.Apart gids) : th'.Sane id filterFunc gids codes := by
  cases hold : th.tstore with
  | none =>
      have hnew : th'.getThreadStorage id = .create id th'.traceLevelLruCapacity := by
        rw [getThreadStorage, htstore, hold, Option.getD_none]
      refine ⟨hprofile, hapart, ?_, ?_, ?_, ?_⟩ <;> rw [hnew]
      · exact ThreadStorage.remembers_create _ _ _
      · exact ThreadStorage.every_create _ _ _
      · rfl
      · exact hcap
  | some t =>
      have hsame : th'.getThreadStorage id = th.getThreadStorage id := by
        rw [getThreadStorage, getThreadStorage, htstore, hold, Option.getD_some,
          Option.getD_some]
      exact ⟨hprofile, hapart, hsame ▸ h.remembers, hsame ▸ h.sound, hsame ▸ h.tid,
        hsame ▸ h.capacity⟩

/-- **The law of an event on a thread**, whatever it remembers. -/
lemma Thread.Sane.trace (h : th.Sane id filterFunc gids codes)
    (hgids : Set.InjOn lowInt (gids : Set UInt64)) (hcodes : Set.InjOn lowInt (codes : Set UInt64))
    (ho : occurs gids th.stackOf e = some o) (hcode : o.frame.fCode ∈ codes)
    {tstore : ThreadStorage} {record : Option LogRecord}
    (htrace : greenletTraceFunc filterFunc o.gid (th.getThreadStorage id) o.frame o.back o.what =
      some (tstore, record)) :
    tstore.Remembers gids ∧ tstore.Every (GreenletStorage.Sound filterFunc codes) ∧
      tstore.id = id ∧ 1 ≤ tstore.traceLevelLruCapacity := by
  have hwhat := what_of_occurs ho
  obtain ⟨before, after, -, hhandle, hhandledWith⟩ :=
    ThreadStorage.exists_handledWith hwhat htrace
  obtain ⟨gid', hgid', hright, hsame⟩ := h.remembers.exists_gid (occurs_cases ho).1 filterFunc
    o.frame o.back hwhat
  rw [hsame] at htrace
  obtain ⟨result, hlaw, hhandled⟩ := h.remembers.linked.greenletTraceFunc hgids hgid' filterFunc
    hwhat o.frame o.back hright
  rw [hlaw] at htrace
  obtain ⟨⟨gstore, record'⟩, hhandle', heq⟩ := Option.map_eq_some_iff.mp htrace
  obtain ⟨rfl, rfl⟩ := Prod.mk.inj heq
  refine ⟨(hhandled gstore record' hhandle').remembers hgid' fun hnone => ?_, ?_,
    hhandledWith.id.trans h.tid, h.capacity.trans_eq hhandledWith.capacity.symm⟩
  · -- the storage is deleted only where no frame is left to remember
    have hlast : o.what = .ret ∧ o.back = [] := by
      by_contra hlast
      simp [hlast] at hnone
    simp [PyTrace.nextFrame, hlast.1, hlast.2, fBack]
  · refine (hhandledWith.every h.sound
      (fun gid depth => GreenletStorage.sound_create _ _ _ _ h.capacity) fun hbefore => ?_).2
    exact ⟨GreenletStorage.cachesIn_of_handle hcodes hbefore.caches hcode hhandle,
      GreenletStorage.handle_threshold_le hbefore.threshold hhandle⟩

/-- **A step keeps a thread sane.** -/
lemma Thread.Sane.step (h : th.Sane id filterFunc gids codes)
    (hgids : Set.InjOn lowInt (gids : Set UInt64)) (hcodes : Set.InjOn lowInt (codes : Set UInt64))
    (hwithin : th.Within gids codes) (hinstalls : a.Installs filterFunc)
    (hstep : ((threadMachine id gids).confine (Thread.Fits gids codes)).step th a = some th') :
    th'.Sane id filterFunc gids codes := by
  obtain ⟨hstep, hcap, hwithin'⟩ := Machine.confine_step_eq_some.mp hstep
  have hcounted : ∀ enabled, Thread.Sane id filterFunc gids codes
      { th with tstore := some { th.getThreadStorage id with enabled := enabled } } :=
    fun enabled => ⟨h.profile, h.apart,
      ⟨h.remembers.linked.congr rfl rfl rfl, h.remembers.gid_mem, h.remembers.gstorage⟩, h.sound,
      h.tid, h.capacity⟩
  cases a with
  | setTracing filterFunc' capacity =>
      obtain rfl := Option.some.inj hstep
      refine h.of_tstore rfl hcap (fun f hf => ?_) h.apart
      rw [← Option.some.inj hf]
      exact hinstalls filterFunc' capacity rfl
  | unsetTracing =>
      obtain rfl := Option.some.inj hstep
      exact h.of_tstore rfl hcap (fun f hf => by cases hf) h.apart
  | event e =>
      rcases threadMachine_step_cases hstep with
        ⟨hnone, -⟩ | ⟨e', o, -, ho, -, rfl⟩ |
          ⟨e', o, filterFunc', tstore, record, heq, ho, hprofile, htrace, rfl⟩ |
          ⟨enabled, hnone, -⟩
      · exact absurd rfl (hnone e)
      · refine h.of_tstore rfl hcap h.profile ((h.apart.update ho false).congr fun gid => ?_)
        by_cases heq : gid = o.gid
        · rw [heq]
          simp only [Function.update_self]
          exact o.map_frame_unseen false
        · simp only [Function.update_of_ne heq]
      · cases heq
        obtain rfl := h.profile filterFunc' hprofile
        have hcode : o.frame.fCode ∈ codes := hwithin.occurrence ho hwithin'
        obtain ⟨hremembers, hsound, hid, hcap'⟩ := h.trace hgids hcodes ho hcode htrace
        exact ⟨h.profile, h.apart.update ho _, hremembers, hsound, hid, hcap'⟩
      · exact absurd rfl (hnone e)
  | suspend =>
      obtain ⟨-, hs⟩ := Option.ite_none_right_eq_some.mp hstep
      rw [← Option.some.inj hs]
      exact hcounted _
  | resume =>
      obtain ⟨-, hs⟩ := Option.ite_none_right_eq_some.mp hstep
      obtain ⟨enabled, henabled⟩ := (th.getThreadStorage id).resume_eq
      rw [← Option.some.inj hs, henabled]
      exact hcounted enabled

end History

/-! ## A new session -/

/-- The session of a thread as it finds it, with the profile function that is set. -/
def newSessionMachine (id : UInt64) (gids : Finset UInt64) : Machine Thread GreenletEvent where
  init th := th.profile.isSome = true
  step th e := (threadMachine id gids).step th (.event e)

/-- The thread with storage freshly created. -/
def Thread.fresh (id : UInt64) (th : Thread) : Thread :=
  { th with tstore := some (.create id th.traceLevelLruCapacity) }

/-- What is logged of an event on the thread. -/
def threadRecord (id : UInt64) (gids : Finset UInt64) (th : Thread) (e : GreenletEvent) :
    Option (Option LogRecord) := do
  let o ← occurs gids th.stackOf e
  let (_, record) ← th.event id o
  some record

/-- The greenlets an event of the session has been seen of. -/
def noteSeen (gids : Finset UInt64) (th : Thread) (e : GreenletEvent) (seen : Finset UInt64) :
    Finset UInt64 :=
  match occurs gids th.stackOf e with
  | some o => insert o.gid seen
  | none => seen

/-- The storage an event would find is as if it were new: at the depth of the frame, and with
the depth of the event at its threshold or below. -/
def GreenletStorage.AsNew (o : Occurrence) (gstore : GreenletStorage) : Prop :=
  gstore.depth = calcNewGreenletDepth o.back ∧
    (gstore.countDepth o.what).1 ≤ gstore.noTraceFromDepth

instance (o : Occurrence) (gstore : GreenletStorage) : Decidable (gstore.AsNew o) :=
  inferInstanceAs (Decidable (_ ∧ _))

/-- The event meets nothing of an earlier session that a fresh start would not have produced:
tracing is not suspended, the frame is not remembered with another greenlet, and at its
greenlet's first event in the session a storage left over is as if it were new. -/
def CleanStart (id : UInt64) (gids : Finset UInt64) (p : Thread × Finset UInt64)
    (e : GreenletEvent) : Prop :=
  ∀ o ∈ occurs gids p.1.stackOf e,
    0 < (p.1.getThreadStorage id).enabled ∧
    ((p.1.getThreadStorage id).lastFrame ≠ 0 →
      (p.1.getThreadStorage id).lastFrame = o.what.cachedFrame o.frame o.back →
        (p.1.getThreadStorage id).lastGid = o.gid) ∧
    (o.gid ∉ p.2 → ∀ gstore ∈ (p.1.getThreadStorage id).storageOf o.gid, gstore.AsNew o)

instance (id : UInt64) (gids : Finset UInt64) (p : Thread × Finset UInt64) (e : GreenletEvent) :
    Decidable (CleanStart id gids p e) :=
  inferInstanceAs (Decidable (∀ o ∈ occurs gids p.1.stackOf e, _ ∧ (_ → _ → _) ∧
    (_ → ∀ gstore ∈ (p.1.getThreadStorage id).storageOf o.gid, _)))

/-- The members of a storage that outcomes depend on. -/
def GreenletStorage.counters (gstore : GreenletStorage) : ℤ × ℤ :=
  (gstore.depth, gstore.noTraceFromDepth)

/-- The session on the thread as it is and on fresh storage: the greenlets seen in the session
have the same counters in both, and the others have no storage in the second. -/
structure Thread.StartedClean (id : UInt64) (filterFunc : Filter) (gids codes : Finset UInt64)
    (p : Thread × Finset UInt64) (th' : Thread) : Prop where
  sane : p.1.Sane id filterFunc gids codes
  sane' : th'.Sane id filterFunc gids codes
  profile : p.1.profile = some filterFunc
  profile' : th'.profile = some filterFunc
  stackOf : th'.stackOf = p.1.stackOf
  consistent : Session.Consistent gids ⟨th'.getThreadStorage id, th'.stackOf⟩
  enabled : 0 < (th'.getThreadStorage id).enabled
  seen : ∀ gid ∈ gids, gid ∈ p.2 →
    ((p.1.getThreadStorage id).storageOf gid).map GreenletStorage.counters =
      ((th'.getThreadStorage id).storageOf gid).map GreenletStorage.counters
  unseen : ∀ gid ∈ gids, gid ∉ p.2 → (th'.getThreadStorage id).storageOf gid = none

namespace GreenletStorage

/-- Two storages an event has the same outcome for. -/
structure Alike (filterFunc : Filter) (codes : Set UInt64) (what : PyTrace)
    (gstore gstore' : GreenletStorage) : Prop where
  caches : CachesIn codes filterFunc gstore.traceLevelLru
  caches' : CachesIn codes filterFunc gstore'.traceLevelLru
  gid : gstore.gid = gstore'.gid
  depth : gstore.depth = gstore'.depth
  threshold : gstore.noTraceFromDepth = gstore'.noTraceFromDepth ∨
    (gstore.countDepth what).1 ≤ gstore.noTraceFromDepth ∧
      (gstore'.countDepth what).1 ≤ gstore'.noTraceFromDepth

/-- **The same outcome.** -/
lemma Alike.exists_handle {filterFunc : Filter} {codes : Finset UInt64} {what : PyTrace}
    {gstore gstore' : GreenletStorage} (h : Alike filterFunc codes what gstore gstore')
    (hcodes : Set.InjOn lowInt (codes : Set UInt64)) {frame : Frame}
    (hcode : frame.fCode ∈ codes) {enabled enabled' : ℤ} (henabled : 0 < enabled)
    (henabled' : 0 < enabled') (tid : UInt64) :
    ∃ after after' record,
      gstore.handle filterFunc enabled tid what frame = some (after, record) ∧
      gstore'.handle filterFunc enabled' tid what frame = some (after', record) ∧
      after.counters = after'.counters := by
  obtain ⟨lru, -, hhandle⟩ := GreenletStorage.exists_handle hcodes h.caches hcode henabled tid what
  obtain ⟨lru', -, hhandle'⟩ :=
    GreenletStorage.exists_handle hcodes h.caches' hcode henabled' tid what
  obtain ⟨hevent, hcounted⟩ := countDepth_congr h.depth what
  rw [← hevent, ← h.gid] at hhandle'
  have hthreshold : gstore.noTraceFromDepth = gstore'.noTraceFromDepth ∨
      (gstore.countDepth what).1 ≤ gstore.noTraceFromDepth ∧
        (gstore.countDepth what).1 ≤ gstore'.noTraceFromDepth := by
    rw [hevent]
    exact h.threshold.imp_right fun hle => ⟨hevent ▸ hle.1, hle.2⟩
  have hvisible : (gstore.countDepth what).1 ≤ gstore'.noTraceFromDepth ↔
      (gstore.countDepth what).1 ≤ gstore.noTraceFromDepth := by
    rcases hthreshold with heq | ⟨hle, hle'⟩
    · rw [heq]
    · exact iff_of_true hle' hle
  simp only [hvisible] at hhandle'
  refine ⟨_, _, _, hhandle, hhandle', Prod.ext hcounted ?_⟩
  change nextThreshold _ _ gstore.noTraceFromDepth _ =
    nextThreshold _ _ gstore'.noTraceFromDepth _
  rcases hthreshold with heq | ⟨hle, hle'⟩
  · rw [heq]
  · rw [nextThreshold, nextThreshold, if_pos hle, if_pos hle']

end GreenletStorage

section NewSession

variable {id : UInt64} {filterFunc : Filter} {gids codes : Finset UInt64}
  {p : Thread × Finset UInt64} {th th' : Thread} {e : GreenletEvent} {o : Occurrence}

lemma Thread.Sane.storageOrNew (h : th.Sane id filterFunc gids codes) (gid : UInt64)
    (back : List Frame) :
    ((th.getThreadStorage id).storageOrNew gid back).Sound filterFunc codes := by
  unfold ThreadStorage.storageOrNew
  cases hstorage : (th.getThreadStorage id).storageOf gid with
  | none => exact GreenletStorage.sound_create _ _ _ _ h.capacity
  | some gstore =>
      obtain ⟨ptr, -, hheap⟩ := Option.bind_eq_some_iff.mp hstorage
      exact h.sound ptr gstore hheap

/-- **A clean event finds storages that are alike.** -/
lemma Thread.StartedClean.alike (h : Thread.StartedClean id filterFunc gids codes p th')
    (hgids : Set.InjOn lowInt (gids : Set UInt64)) (ho : occurs gids p.1.stackOf e = some o)
    (hclean : CleanStart id gids p e) :
    GreenletStorage.Alike filterFunc codes o.what
      ((p.1.getThreadStorage id).storageOrNew o.gid o.back)
      ((th'.getThreadStorage id).storageOrNew o.gid o.back) := by
  have hgid := (occurs_cases ho).1
  have hsound := h.sane.storageOrNew o.gid o.back
  have hsound' := h.sane'.storageOrNew o.gid o.back
  suffices hcounters : ((p.1.getThreadStorage id).storageOrNew o.gid o.back).depth =
        ((th'.getThreadStorage id).storageOrNew o.gid o.back).depth ∧
      (((p.1.getThreadStorage id).storageOrNew o.gid o.back).noTraceFromDepth =
          ((th'.getThreadStorage id).storageOrNew o.gid o.back).noTraceFromDepth ∨
        (((p.1.getThreadStorage id).storageOrNew o.gid o.back).countDepth o.what).1 ≤
            ((p.1.getThreadStorage id).storageOrNew o.gid o.back).noTraceFromDepth ∧
          (((th'.getThreadStorage id).storageOrNew o.gid o.back).countDepth o.what).1 ≤
            ((th'.getThreadStorage id).storageOrNew o.gid o.back).noTraceFromDepth) from
    ⟨hsound.caches, hsound'.caches,
      (h.sane.remembers.linked.storageOrNew_gid hgids hgid o.back).trans
        (h.sane'.remembers.linked.storageOrNew_gid hgids hgid o.back).symm,
      hcounters.1, hcounters.2⟩
  by_cases hseen : o.gid ∈ p.2
  · -- met before in the session
    have hcounters := h.seen o.gid hgid hseen
    unfold ThreadStorage.storageOrNew
    cases hs : (p.1.getThreadStorage id).storageOf o.gid with
    | none =>
        rw [hs, Option.map_none] at hcounters
        rw [Option.map_eq_none_iff.mp hcounters.symm]
        exact ⟨rfl, .inl rfl⟩
    | some gstore =>
        rw [hs, Option.map_some] at hcounters
        obtain ⟨gstore', hs', heq⟩ := Option.map_eq_some_iff.mp hcounters.symm
        rw [hs', Option.getD_some, Option.getD_some]
        exact ⟨(congrArg Prod.fst heq).symm, .inl (congrArg Prod.snd heq).symm⟩
  · -- met for the first time: a storage left over is as if it were new
    have hnew := (hclean o ho).2.2 hseen
    have hnone := h.unseen o.gid hgid hseen
    unfold ThreadStorage.storageOrNew
    rw [hnone]
    cases hs : (p.1.getThreadStorage id).storageOf o.gid with
    | none => exact ⟨rfl, .inl rfl⟩
    | some gstore =>
        obtain ⟨hdepth, hvisible⟩ := hnew gstore hs
        rw [calcNewGreenletDepth_eq] at hdepth
        rw [Option.getD_some, Option.getD_none]
        refine ⟨hdepth, .inr ⟨hvisible, ?_⟩⟩
        obtain ⟨ptr, -, hheap⟩ := Option.bind_eq_some_iff.mp hs
        have hle := (h.sane.sound ptr gstore hheap).threshold
        rw [← (@GreenletStorage.countDepth_congr gstore _ hdepth o.what).1]
        exact hvisible.trans hle

/-- An event that the profile function sees. -/
lemma newSession_step (ho : occurs gids th.stackOf e = some o)
    (hprofile : th.profile = some filterFunc) {tstore : ThreadStorage}
    {record : Option LogRecord}
    (htrace : greenletTraceFunc filterFunc o.gid (th.getThreadStorage id) o.frame o.back o.what =
      some (tstore, record)) :
    (newSessionMachine id gids).step th e = some
        { th with
          tstore := some tstore
          stackOf := Function.update th.stackOf o.gid (o.after record.isSome) } ∧
      threadRecord id gids th e = some record := by
  constructor
  · simp [newSessionMachine, threadMachine, ho, Thread.event, hprofile, htrace]
  · simp [threadRecord, ho, Thread.event, hprofile, htrace]

/-- **One event of the new session.** -/
lemma Thread.StartedClean.event (h : Thread.StartedClean id filterFunc gids codes p th')
    (hgids : Set.InjOn lowInt (gids : Set UInt64)) (hcodes : Set.InjOn lowInt (codes : Set UInt64))
    (hwithin : p.1.Within gids codes) (hclean : CleanStart id gids p e)
    (hstep : ((newSessionMachine id gids).confine (Thread.Fits gids codes)).step p.1 e = some th) :
    ∃ th'' record, (newSessionMachine id gids).step th' e = some th'' ∧
      Thread.StartedClean id filterFunc gids codes (th, noteSeen gids p.1 e p.2) th'' ∧
      threadRecord id gids p.1 e = some record ∧ threadRecord id gids th' e = some record := by
  obtain ⟨hstep, hfits⟩ := Machine.confine_step_eq_some.mp hstep
  have hevent : (threadMachine id gids).step p.1 (.event e) = some th := hstep
  rcases threadMachine_step_cases hevent with
    ⟨hnone, -⟩ | ⟨e', o, heq, ho, hprofile, -⟩ |
      ⟨e', o, f, tstore, record, heq, ho, hprofile, htrace, rfl⟩ | ⟨enabled, hnone, -⟩
  · exact absurd rfl (hnone e)
  · rw [h.profile] at hprofile
    cases hprofile
  · cases heq
    obtain rfl : f = filterFunc := Option.some.inj (hprofile.symm.trans h.profile)
    have hgid := (occurs_cases ho).1
    have hcode : o.frame.fCode ∈ codes := hwithin.occurrence ho hfits.2
    have ho' : occurs gids th'.stackOf e = some o := by rw [h.stackOf]; exact ho
    obtain ⟨henabled, hlast, -⟩ := hclean o ho
    obtain ⟨gstore, gstore', record', hhandle, hhandle', hcounters⟩ :=
      (h.alike hgids ho hclean).exists_handle hcodes hcode henabled h.enabled id
    -- the event on the storage as it is
    obtain ⟨after, hlaw, hafter⟩ := h.sane.remembers.linked.greenletTraceFunc hgids hgid f
      (what_of_occurs ho) o.frame o.back (h.sane.remembers.rightAbout hlast)
    rw [h.sane.tid, hhandle, htrace] at hlaw
    obtain ⟨rfl, rfl⟩ := Prod.mk.inj (Option.some.inj hlaw)
    have hhandled := hafter gstore record (by rw [h.sane.tid]; exact hhandle)
    -- the event on fresh storage
    obtain ⟨after', hlaw', hafter'⟩ := h.consistent.trace hgids ho' f
    rw [h.sane'.tid, hhandle', Option.map_some] at hlaw'
    have hhandled' := hafter' gstore' record (by rw [h.sane'.tid]; exact hhandle')
    obtain ⟨hstep', hrecord'⟩ := newSession_step ho' h.profile' hlaw'
    obtain ⟨hremembers, hsound, htid, hcap⟩ := h.sane.trace hgids hcodes ho hcode htrace
    obtain ⟨hremembers', hsound', htid', hcap'⟩ := h.sane'.trace hgids hcodes ho' hcode hlaw'
    refine ⟨_, record, hstep',
      ⟨⟨h.sane.profile, h.sane.apart.update ho _, hremembers, hsound, htid, hcap⟩,
        ⟨h.sane'.profile, h.sane'.apart.update ho' _, hremembers', hsound', htid', hcap'⟩,
        h.profile, h.profile', by simp only [h.stackOf], h.consistent.of_handled ho' hhandled' _,
        h.enabled.trans_eq hhandled'.enabled.symm, fun gid hmem hseen => ?_,
        fun gid hmem hseen => ?_⟩,
      (newSession_step ho hprofile htrace).2, hrecord'⟩
    · simp only [noteSeen, ho, Finset.mem_insert] at hseen
      by_cases heq : gid = o.gid
      · rw [heq]
        change ((after gstore).storageOf o.gid).map _ = ((after' gstore').storageOf o.gid).map _
        rw [hhandled.storage, hhandled'.storage]
        split_ifs
        · rfl
        · exact congrArg some hcounters
      · change ((after gstore).storageOf gid).map _ = ((after' gstore').storageOf gid).map _
        rw [hhandled.others gid hmem heq, hhandled'.others gid hmem heq]
        exact h.seen gid hmem (hseen.resolve_left heq)
    · simp only [noteSeen, ho, Finset.mem_insert, not_or] at hseen
      exact (hhandled'.others gid hmem hseen.1).trans (h.unseen gid hmem hseen.2)
  · exact absurd rfl (hnone e)

/-- The new session, with the greenlets seen in it. -/
def seeingMachine (id : UInt64) (gids codes : Finset UInt64) :
    Machine (Thread × Finset UInt64) GreenletEvent :=
  ((newSessionMachine id gids).confine (Thread.Fits gids codes)).withHistory ∅ (noteSeen gids)

/-- A clean session and the session on fresh storage in lockstep. -/
def restartLockstep (id : UInt64) (filterFunc : Filter)
    (hgids : Set.InjOn lowInt (gids : Set UInt64))
    (hcodes : Set.InjOn lowInt (codes : Set UInt64)) :
    Machine.Lockstep ((seeingMachine id gids codes).restrict (CleanStart id gids))
      (newSessionMachine id gids) some (fun p => threadRecord id gids p.1) (threadRecord id gids)
      Eq fun _ _ => True where
  rel p th' := Thread.StartedClean id filterFunc gids codes p th' ∧ p.1.Within gids codes
  skip _ _ _ _ _ _ _ h := by cases h
  step p th' e p' e' _ hrel hstep heq := by
    obtain rfl := Option.some.inj heq
    obtain ⟨hclean, hstep⟩ := Machine.restrict_step_eq_some.mp hstep
    obtain ⟨hstep, hseen⟩ := Machine.withHistory_step_eq_some.mp hstep
    obtain ⟨th'', record, hstep', hrel', hrecord, hrecord'⟩ :=
      hrel.1.event hgids hcodes hrel.2 hclean hstep
    rw [← hseen] at hrel'
    exact ⟨th'', record, record, hstep',
      ⟨hrel', (Machine.confine_step_eq_some.mp hstep).2.2⟩, hrecord, hrecord', by simp⟩

/-- A thread that has just been set to be traced, and the same thread with fresh storage. -/
lemma Thread.Sane.startedClean (h : th.Sane id filterFunc gids codes) {capacity : ℕ}
    (hcap : 1 ≤ capacity) :
    Thread.StartedClean id filterFunc gids codes (th.setTracing filterFunc capacity, ∅)
      ((th.setTracing filterFunc capacity).fresh id) := by
  have hprofile : ∀ filterFunc' ∈ (th.setTracing filterFunc capacity).profile,
      filterFunc' = filterFunc := fun f hf => (Option.some.inj hf).symm
  refine ⟨h.of_tstore rfl hcap hprofile h.apart, ⟨hprofile, h.apart,
      ThreadStorage.remembers_create _ _ _, ThreadStorage.every_create _ _ _, rfl, hcap⟩, rfl,
    rfl, rfl, ⟨ThreadStorage.linked_create _ _ _, h.apart, fun h => absurd rfl h,
      fun h => absurd rfl h, fun h => absurd rfl h⟩, zero_lt_one, fun gid _ hseen => ?_,
    fun _ _ _ => rfl⟩
  simp at hseen

end NewSession

/-! ## When a session starts clean -/

/-- **A clean start.**  After any history of sessions with one filter, a session every event of
which meets nothing that a fresh start would not have produced logs what the session logs on
storage freshly created. -/
theorem session_starts_clean {id : UInt64} {filterFunc : Filter} {gids codes : Finset UInt64}
    (hgids : Set.InjOn lowInt (gids : Set UInt64)) (hcodes : Set.InjOn lowInt (codes : Set UInt64))
    {th₀ th : Thread} {history : List ThreadAction}
    (hinit : ((threadMachine id gids).confine (Thread.Fits gids codes)).init th₀)
    (hsame : ∀ a ∈ history, a.Installs filterFunc)
    (hhistory : ((threadMachine id gids).confine (Thread.Fits gids codes)).exec th₀ history =
      some th)
    {capacity : ℕ} (hcap : 1 ≤ capacity) {events : List GreenletEvent}
    {p : Thread × Finset UInt64}
    (hrun : ((seeingMachine id gids codes).restrict (CleanStart id gids)).exec
      (th.setTracing filterFunc capacity, ∅) events = some p) :
    ∃ th', (newSessionMachine id gids).exec
        ((th.setTracing filterFunc capacity).fresh id) events = some th' ∧
      (newSessionMachine id gids).traceOf (threadRecord id gids)
          (th.setTracing filterFunc capacity) events =
        (newSessionMachine id gids).traceOf (threadRecord id gids)
          ((th.setTracing filterFunc capacity).fresh id) events := by
  have hinv : th.Sane id filterFunc gids codes ∧ th.Within gids codes := by
    refine Machine.exec_invariant (I := fun th => th.Sane id filterFunc gids codes ∧
      th.Within gids codes) (fun th a th' hinstalls hth hstep => ?_) hsame ?_ hhistory
    · exact ⟨hth.1.step hgids hcodes hth.2 hinstalls hstep,
        (Machine.confine_step_eq_some.mp hstep).2.2⟩
    · obtain ⟨⟨hprofile, -, -, htstore, hapart, -⟩, hcap₀, hwithin⟩ := hinit
      have hnew : th₀.getThreadStorage id = .create id th₀.traceLevelLruCapacity := by
        rw [Thread.getThreadStorage, htstore, Option.getD_none]
      exact ⟨⟨by simp [hprofile], hapart, hnew ▸ ThreadStorage.remembers_create _ _ _,
        hnew ▸ ThreadStorage.every_create _ _ _, hnew ▸ rfl, hnew ▸ hcap₀⟩, hwithin⟩
  have hexec := Machine.exec_of_restrict hrun
  have hstart : ((seeingMachine id gids codes).restrict (CleanStart id gids)).Reachable
      (th.setTracing filterFunc capacity, ∅) := .init ⟨⟨rfl, hcap, hinv.2⟩, rfl⟩
  obtain ⟨th', hexec', -, hforall⟩ :=
    (restartLockstep id filterFunc hgids hcodes).exec_agree hstart
      ⟨hinv.1.startedClean hcap, hinv.2⟩ hrun
  obtain ⟨hexec'', htrace⟩ := Machine.exec_of_withHistory (threadRecord id gids) hexec
  rw [List.filterMap_some] at hexec' hforall
  rw [List.forall₂_eq_eq_eq, Machine.traceOf_of_restrict hrun, seeingMachine, htrace,
    Machine.traceOf_of_confine hexec''] at hforall
  exact ⟨th', hexec', hforall⟩

/-- A session that ends inside a frame, and what happens unseen after it. -/
def firstSession (unseen : List GreenletEvent) : List ThreadAction :=
  [.setTracing nestedFilter 4, .event (.call 0x20 (frameAt 0x2000 0x5002)), .unsetTracing] ++
    unseen.map ThreadAction.event

lemma firstSession_installs (unseen : List GreenletEvent) :
    ∀ a ∈ firstSession unseen, a.Installs nestedFilter := by
  rintro a ha filterFunc' capacity rfl
  have hinstalled : filterFunc' = nestedFilter ∧ capacity = 4 := by
    simpa [firstSession] using (List.mem_append.mp ha).resolve_right (by simp)
  exact hinstalled.1

lemma untracedThread_fits :
    ((threadMachine 7 {0x20}).confine
      (Thread.Fits {0x20} {0x5000, 0x5001, 0x5002})).init untracedThread :=
  ⟨untracedThread_init 7 {0x20}, by decide⟩

lemma lowInt_injOn_nestedCodes :
    Set.InjOn lowInt (({0x5000, 0x5001, 0x5002} : Finset UInt64) : Set UInt64) :=
  Finset.card_image_iff.mp (by decide)

/-- The second session goes on in the frame the first has left, after a call and its return
unseen. -/
theorem session_starts_clean_inFrame :
    ∃ th th', ((threadMachine 7 {0x20}).confine
        (Thread.Fits {0x20} {0x5000, 0x5001, 0x5002})).exec untracedThread
          (firstSession [.call 0x20 (frameAt 0x2100 0x5000), .ret 0x20]) = some th ∧
      (newSessionMachine 7 {0x20}).exec ((th.setTracing nestedFilter 4).fresh 7)
        [.call 0x20 (frameAt 0x2200 0x5000), .ret 0x20, .ret 0x20] = some th' ∧
      (newSessionMachine 7 {0x20}).traceOf (threadRecord 7 {0x20})
          (th.setTracing nestedFilter 4)
          [.call 0x20 (frameAt 0x2200 0x5000), .ret 0x20, .ret 0x20] =
        (newSessionMachine 7 {0x20}).traceOf (threadRecord 7 {0x20})
          ((th.setTracing nestedFilter 4).fresh 7)
          [.call 0x20 (frameAt 0x2200 0x5000), .ret 0x20, .ret 0x20] := by
  have hrun : ((((threadMachine 7 {0x20}).confine
      (Thread.Fits {0x20} {0x5000, 0x5001, 0x5002})).exec untracedThread
        (firstSession [.call 0x20 (frameAt 0x2100 0x5000), .ret 0x20])).bind fun th =>
      ((seeingMachine 7 {0x20} {0x5000, 0x5001, 0x5002}).restrict (CleanStart 7 {0x20})).exec
        (th.setTracing nestedFilter 4, ∅)
        [.call 0x20 (frameAt 0x2200 0x5000), .ret 0x20, .ret 0x20]).isSome = true := by
    decide +kernel
  obtain ⟨p, hp⟩ := Option.isSome_iff_exists.mp hrun
  obtain ⟨th, hhistory, hsession⟩ := Option.bind_eq_some_iff.mp hp
  obtain ⟨th', hexec, htrace⟩ := session_starts_clean (by simp) lowInt_injOn_nestedCodes
    untracedThread_fits (firstSession_installs _) hhistory (by decide) hsession
  exact ⟨th, th', hhistory, hexec, htrace⟩

/-- **A session that does not start clean.**  The frame of the first session has returned unseen,
and its depth is still there: the first call of the second session is logged at depth 2. -/
theorem session_starts_stale :
    ¬ ∀ (id : UInt64) (filterFunc : Filter) (gids codes : Finset UInt64),
      Set.InjOn lowInt (gids : Set UInt64) → Set.InjOn lowInt (codes : Set UInt64) →
      ∀ (th₀ th : Thread) (history : List ThreadAction),
      ((threadMachine id gids).confine (Thread.Fits gids codes)).init th₀ →
      (∀ a ∈ history, a.Installs filterFunc) →
      ((threadMachine id gids).confine (Thread.Fits gids codes)).exec th₀ history = some th →
      ∀ (capacity : ℕ) (events : List GreenletEvent) (th₁ th₂ : Thread), 1 ≤ capacity →
      ((newSessionMachine id gids).confine (Thread.Fits gids codes)).exec
        (th.setTracing filterFunc capacity) events = some th₁ →
      ((newSessionMachine id gids).confine (Thread.Fits gids codes)).exec
        ((th.setTracing filterFunc capacity).fresh id) events = some th₂ →
      (newSessionMachine id gids).traceOf (threadRecord id gids)
          (th.setTracing filterFunc capacity) events =
        (newSessionMachine id gids).traceOf (threadRecord id gids)
          ((th.setTracing filterFunc capacity).fresh id) events := by
  intro h
  have hrun : (((threadMachine 7 {0x20}).confine
      (Thread.Fits {0x20} {0x5000, 0x5001, 0x5002})).exec untracedThread
        (firstSession [.ret 0x20])).any (fun th =>
      (((newSessionMachine 7 {0x20}).confine
        (Thread.Fits {0x20} {0x5000, 0x5001, 0x5002})).exec (th.setTracing nestedFilter 4)
          [.call 0x20 (frameAt 0x2200 0x5000)]).isSome &&
      (((newSessionMachine 7 {0x20}).confine
        (Thread.Fits {0x20} {0x5000, 0x5001, 0x5002})).exec
          ((th.setTracing nestedFilter 4).fresh 7)
          [.call 0x20 (frameAt 0x2200 0x5000)]).isSome &&
      decide ((newSessionMachine 7 {0x20}).traceOf (threadRecord 7 {0x20})
          (th.setTracing nestedFilter 4) [.call 0x20 (frameAt 0x2200 0x5000)] ≠
        (newSessionMachine 7 {0x20}).traceOf (threadRecord 7 {0x20})
          ((th.setTracing nestedFilter 4).fresh 7)
          [.call 0x20 (frameAt 0x2200 0x5000)])) = true := by
    decide +kernel
  obtain ⟨th, hhistory, hrest⟩ := (Option.any_eq_true _ _).mp hrun
  simp only [Bool.and_eq_true, decide_eq_true_eq] at hrest
  obtain ⟨⟨hstale, hfresh⟩, hdiff⟩ := hrest
  obtain ⟨th₁, hth₁⟩ := Option.isSome_iff_exists.mp hstale
  obtain ⟨th₂, hth₂⟩ := Option.isSome_iff_exists.mp hfresh
  exact hdiff (h 7 nestedFilter {0x20} {0x5000, 0x5001, 0x5002} (by simp)
    lowInt_injOn_nestedCodes _ th _ untracedThread_fits (firstSession_installs _) hhistory 4 _ th₁
    th₂ (by decide) hth₁ hth₂)

end InfiTracing
