import InfiTracing.Framework.Threshold
import InfiTracing.ThreadStorage
import InfiTracing.TraceLevelCache

/-!
# `greenlet_trace_func`

The profile function of `ctracing.pyx`, and the two functions that find the storage of the
current greenlet.  A frame comes with the chain of its `f_back`s, which is the stack of its
greenlet; the id of the current greenlet, which the source asks `PyGreenlet_GetCurrent` for, is
an argument.

`none` is a null or dangling pointer followed.  What the law at the end says
(`Linked.greenletTraceFunc`) is that an event changes the storage of one greenlet only, by what
its own members say (`GreenletStorage.handle`), provided the remembered frame is right about the
greenlet it is on.
-/

namespace InfiTracing

open Framework

/-! ## Frames and events -/

/-- A `PyFrameObject`, less its `f_back`. -/
structure Frame where
  address : UInt64
  fCode : UInt64
  address_ne_zero : address ≠ 0
  deriving DecidableEq

/-- `frame.f_back`, where `back` is the chain below the frame. -/
def fBack (back : List Frame) : UInt64 := back.head?.elim 0 Frame.address

/-- What a profile function is called for. -/
inductive PyTrace
  | call
  | ret
  | cCall
  | cException
  | cReturn
  deriving DecidableEq

/-- The arguments of `log_call` and `log_return`; which of the two it is, `what` says. -/
structure LogRecord where
  what : PyTrace
  traceLevel : ℤ
  tid : UInt64
  gid : UInt64
  depth : ℤ
  frame : Frame
  deriving DecidableEq

/-- `calc_new_greenlet_depth(frame)`: the number of `f_back` links to follow. -/
def calcNewGreenletDepth : List Frame → ℤ
  | [] => 0
  | _ :: back => calcNewGreenletDepth back + 1

lemma calcNewGreenletDepth_eq (back : List Frame) : calcNewGreenletDepth back = back.length := by
  induction back with
  | nil => rfl
  | cons f back ih => simp [calcNewGreenletDepth, ih]

/-! ## Finding the storage -/

namespace ThreadStorage

/-- `ptr.depth = depth`. -/
def setDepth (t : ThreadStorage) (ptr : ℕ) (depth : ℤ) : ThreadStorage :=
  { t with
    heap := Function.update t.heap ptr
      ((t.heap ptr).map fun gstore => { gstore with depth := depth }) }

/-- The storage in the map, or a new one at the depth of the frame. -/
def findOrNewGstorage (t : ThreadStorage) (gid : UInt64) (back : List Frame) :
    ℕ × ThreadStorage :=
  match t.findGstorage gid with
  | some gstore => (gstore, t)
  | none =>
      let (gstore, t) := t.newGstorage gid
      (gstore, t.setDepth gstore (calcNewGreenletDepth back))

/-- The greenlet of the event, and the frame it is left at. -/
def remember (t : ThreadStorage) (gid nextFrame : UInt64) : ThreadStorage :=
  { t with lastGid := gid, lastFrame := nextFrame }

/-- The slow path: the greenlet is known, and its storage is looked up or created. -/
def slowGstore (t : ThreadStorage) (nextFrame gid : UInt64) (back : List Frame) :
    ℕ × ThreadStorage :=
  let (gstore, t) := (t.remember gid nextFrame).findOrNewGstorage gid back
  (gstore, { t with lastGstorage := some gstore })

/-- What `get_gstore_on_call` and `get_gstore_on_return` have in common: the remembered
storage if the remembered frame is `cachedFrame`, and the slow path otherwise. -/
def getGstore (t : ThreadStorage) (cachedFrame nextFrame currentGid : UInt64)
    (back : List Frame) : ℕ × ThreadStorage :=
  let (gid, gstore) :=
    if t.lastFrame ≠ 0 ∧ t.lastFrame = cachedFrame then (t.lastGid, t.lastGstorage)
    else (currentGid, none)
  match gstore with
  | some gstore => (gstore, t.remember gid nextFrame)
  | none => t.slowGstore nextFrame gid back

end ThreadStorage

/-- `get_gstore_on_call(tstore, frame)`. -/
def getGstoreOnCall (currentGid : UInt64) (tstore : ThreadStorage) (frame : Frame)
    (back : List Frame) : ℕ × ThreadStorage :=
  tstore.getGstore (fBack back) frame.address currentGid back

/-- `get_gstore_on_return(tstore, frame)`. -/
def getGstoreOnReturn (currentGid : UInt64) (tstore : ThreadStorage) (frame : Frame)
    (back : List Frame) : ℕ × ThreadStorage :=
  tstore.getGstore frame.address (fBack back) currentGid back

/-! ## The trace function -/

/-- The depth of the event, and the storage with its depth counted up before a call or down
after a return. -/
def GreenletStorage.countDepth (gstore : GreenletStorage) (what : PyTrace) :
    ℤ × GreenletStorage :=
  if what = .call then (gstore.depth + 1, { gstore with depth := gstore.depth + 1 })
  else (gstore.depth, { gstore with depth := gstore.depth - 1 })

/-- The block guarded by `tstore.enabled > 0`. -/
def GreenletStorage.traceEvent (filterFunc : Filter) (enabled : ℤ) (tid : UInt64)
    (what : PyTrace) (frame : Frame) (depth : ℤ) (gstore : GreenletStorage) :
    Option (GreenletStorage × Option LogRecord) :=
  if enabled > 0 then
    if depth ≤ gstore.noTraceFromDepth then do
      let (traceLevel, lru, _) ←
        findTraceLevelOrCallFilter frame.fCode filterFunc gstore.traceLevelLru
      let gstore :=
        { gstore with noTraceFromDepth := noTraceFromDepthDisabled, traceLevelLru := lru }
      if traceLevel = noTraceNested then
        some ({ gstore with noTraceFromDepth := depth }, none)
      else if traceLevel ≠ noTrace then
        some (gstore, some ⟨what, traceLevel, tid, gstore.gid, depth, frame⟩)
      else some (gstore, none)
    else some (gstore, none)
  else some (gstore, none)

/-- What an event does to the storage of its greenlet. -/
def GreenletStorage.handle (filterFunc : Filter) (enabled : ℤ) (tid : UInt64) (what : PyTrace)
    (frame : Frame) (gstore : GreenletStorage) : Option (GreenletStorage × Option LogRecord) :=
  let (depth, gstore) := gstore.countDepth what
  gstore.traceEvent filterFunc enabled tid what frame depth

/-- The end of the trace function: what has been assigned to members of `*gstore`, and
`del_gstorage` at the return of the last frame. -/
def ThreadStorage.finish (t : ThreadStorage) (what : PyTrace) (back : List Frame) (ptr : ℕ)
    (gstore : GreenletStorage) : ThreadStorage :=
  if what = .ret ∧ back = [] then (t.assign ptr gstore).delGstorage ptr
  else t.assign ptr gstore

/-- `greenlet_trace_func` from where the storage has been found. -/
def traceStorage (filterFunc : Filter) (what : PyTrace) (frame : Frame) (back : List Frame)
    (acquired : ℕ × ThreadStorage) : Option (ThreadStorage × Option LogRecord) := do
  let (ptr, tstore) := acquired
  let gstore ← tstore.heap ptr
  let (gstore, record) ← gstore.handle filterFunc tstore.enabled tstore.id what frame
  some (tstore.finish what back ptr gstore, record)

/-- `greenlet_trace_func(filter_func, frame, what, arg)`: the thread's storage afterwards, and
what is logged. -/
def greenletTraceFunc (filterFunc : Filter) (currentGid : UInt64) (tstore : ThreadStorage)
    (frame : Frame) (back : List Frame) (what : PyTrace) :
    Option (ThreadStorage × Option LogRecord) :=
  match what with
  | .call => traceStorage filterFunc what frame back
      (getGstoreOnCall currentGid tstore frame back)
  | .ret => traceStorage filterFunc what frame back
      (getGstoreOnReturn currentGid tstore frame back)
  | _ => some (tstore, none)

/-! ## The laws of finding the storage -/

namespace ThreadStorage

/-- The storage of the current greenlet has been found, as `*ptr = gstore`, and is remembered
with the frame the greenlet is left at. -/
structure Acquired (gids : Set UInt64) (gid nextFrame : UInt64) (t t' : ThreadStorage) (ptr : ℕ)
    (gstore : GreenletStorage) : Prop where
  linked : t'.Linked gids
  find : t'.findGstorage gid = some ptr
  deref : t'.heap ptr = some gstore
  own : gstore.gid = gid
  others : ∀ gid' ∈ gids, gid' ≠ gid → t'.storageOf gid' = t.storageOf gid'
  lastGid : t'.lastGid = gid
  lastFrame : t'.lastFrame = nextFrame
  lastGstorage : t'.lastGstorage = some ptr
  enabled : t'.enabled = t.enabled
  id : t'.id = t.id
  capacity : t'.traceLevelLruCapacity = t.traceLevelLruCapacity

/-- The storage of a greenlet, or the one it is given at its first event. -/
def storageOrNew (t : ThreadStorage) (gid : UInt64) (back : List Frame) : GreenletStorage :=
  (t.storageOf gid).getD
    { GreenletStorage.create gid t.traceLevelLruCapacity with depth := back.length }

@[simp] lemma findGstorage_remember (t : ThreadStorage) (gid nextFrame gid' : UInt64) :
    (t.remember gid nextFrame).findGstorage gid' = t.findGstorage gid' := rfl

lemma setDepth_eq_assign {t : ThreadStorage} {ptr : ℕ} {gstore : GreenletStorage}
    (h : t.heap ptr = some gstore) (depth : ℤ) :
    t.setDepth ptr depth = t.assign ptr { gstore with depth := depth } := by
  rw [setDepth, h, assign, Option.map_some]

/-- If the remembered frame is `frame`, it is remembered with the greenlet `gid` and with the
storage linked for it. -/
def RightAbout (t : ThreadStorage) (gid frame : UInt64) : Prop :=
  t.lastFrame ≠ 0 → t.lastFrame = frame →
    t.lastGid = gid ∧ ∃ ptr, t.lastGstorage = some ptr ∧ t.findGstorage gid = some ptr

section Laws

variable {gids : Set UInt64} (hgids : Set.InjOn lowInt gids) {t : ThreadStorage} {gid : UInt64}

include hgids

/-- **The law of the slow path.** -/
theorem Linked.slowGstore (ht : t.Linked gids) (hgid : gid ∈ gids) (nextFrame : UInt64)
    (back : List Frame) :
    Acquired gids gid nextFrame t (t.slowGstore nextFrame gid back).2
      (t.slowGstore nextFrame gid back).1 (t.storageOrNew gid back) := by
  have ht' : (t.remember gid nextFrame).Linked gids := ht.congr rfl rfl rfl
  unfold ThreadStorage.slowGstore findOrNewGstorage storageOrNew storageOf
  cases hfind : t.findGstorage gid with
  | some ptr =>
      obtain ⟨gstore, hheap, hown⟩ := ht.exists_of_find hgids hgid hfind
      rw [findGstorage_remember, hfind]
      simp only [Option.bind_some, hheap, Option.getD_some]
      exact ⟨ht.congr rfl rfl rfl, hfind, hheap, hown, fun _ _ _ => rfl, rfl, rfl, rfl, rfl,
        rfl, rfl⟩
  | none =>
      obtain ⟨hlinked, hfind', hheap, hothers⟩ := ht'.newGstorage hgids hgid hfind
      have hown : { GreenletStorage.create gid t.traceLevelLruCapacity with
        depth := (back.length : ℤ) }.gid = gid := rfl
      obtain ⟨hassign, -, hothers'⟩ := hlinked.assign hgids hgid hfind' hown
      rw [findGstorage_remember, hfind]
      simp only [setDepth_eq_assign hheap, calcNewGreenletDepth_eq]
      exact ⟨hassign.congr rfl rfl rfl, hfind', Function.update_self .., rfl,
        fun gid' hgid' hne => (hothers' gid' hgid' hne).trans (hothers gid' hgid' hne), rfl, rfl,
        rfl, rfl, rfl, rfl⟩

lemma Linked.storageOrNew_gid (ht : t.Linked gids) (hgid : gid ∈ gids) (back : List Frame) :
    (t.storageOrNew gid back).gid = gid := (ht.slowGstore hgids hgid 0 back).own

omit hgids in
/-- **The law of the fast path.**  Where what is remembered with a frame is right, the fast path
does what the slow path does. -/
theorem getGstore_eq_slowGstore {cachedFrame : UInt64} (hcache : t.RightAbout gid cachedFrame)
    (nextFrame : UInt64) (back : List Frame) :
    t.getGstore cachedFrame nextFrame gid back = t.slowGstore nextFrame gid back := by
  unfold getGstore
  by_cases hhit : t.lastFrame ≠ 0 ∧ t.lastFrame = cachedFrame
  · obtain ⟨hgid, ptr, hlast, hfind⟩ := hcache hhit.1 hhit.2
    simp only [if_pos hhit, hlast, hgid, ThreadStorage.slowGstore, findOrNewGstorage,
      findGstorage_remember, hfind]
    simp [remember, ← hlast]
  · simp only [if_neg hhit]

end Laws

end ThreadStorage

/-! ## The law of the trace function -/

namespace GreenletStorage

variable {filterFunc : Filter} {enabled : ℤ} {tid : UInt64} {what : PyTrace} {frame : Frame}
  {gstore gstore' : GreenletStorage} {record : Option LogRecord}

@[simp] lemma countDepth_gid : (gstore.countDepth what).2.gid = gstore.gid := by
  unfold countDepth
  split_ifs <;> rfl

@[simp] lemma countDepth_noTraceFromDepth :
    (gstore.countDepth what).2.noTraceFromDepth = gstore.noTraceFromDepth := by
  unfold countDepth
  split_ifs <;> rfl

@[simp] lemma countDepth_traceLevelLru :
    (gstore.countDepth what).2.traceLevelLru = gstore.traceLevelLru := by
  unfold countDepth
  split_ifs <;> rfl

/-- Of a storage, `traceEvent` changes the threshold and the cache only. -/
lemma traceEvent_keeps {depth : ℤ}
    (h : gstore.traceEvent filterFunc enabled tid what frame depth = some (gstore', record)) :
    gstore'.gid = gstore.gid ∧ gstore'.depth = gstore.depth := by
  unfold traceEvent at h
  split_ifs at h
  · obtain ⟨⟨traceLevel, lru, calls⟩, -, hrest⟩ := Option.bind_eq_some_iff.mp h
    dsimp only at hrest
    split_ifs at hrest <;> cases hrest <;> exact ⟨rfl, rfl⟩
  · cases h
    exact ⟨rfl, rfl⟩
  · cases h
    exact ⟨rfl, rfl⟩

/-- A storage stays the storage of its greenlet. -/
lemma handle_gid (h : gstore.handle filterFunc enabled tid what frame = some (gstore', record)) :
    gstore'.gid = gstore.gid :=
  (traceEvent_keeps h).1.trans countDepth_gid

/-- Every event is counted, traced or not. -/
lemma handle_depth (h : gstore.handle filterFunc enabled tid what frame = some (gstore', record)) :
    gstore'.depth = (gstore.countDepth what).2.depth :=
  (traceEvent_keeps h).2

/-- **The law of an event** on a thread that is not suspended.  The level is the filter's, the
threshold moves by it, and what is logged is what is at the threshold or below and has a level
to be logged. -/
theorem exists_handle {codes : Set UInt64} (hcodes : Set.InjOn lowInt codes)
    (hcaches : CachesIn codes filterFunc gstore.traceLevelLru) (hcode : frame.fCode ∈ codes)
    (henabled : 0 < enabled) (tid : UInt64) (what : PyTrace) :
    ∃ lru, CachesIn codes filterFunc lru ∧
      gstore.handle filterFunc enabled tid what frame = some
        ({ (gstore.countDepth what).2 with
            noTraceFromDepth := nextThreshold noTraceFromDepthDisabled
              (gstore.countDepth what).1 gstore.noTraceFromDepth
              ((filterFunc frame.fCode).traceLevel = noTraceNested)
            traceLevelLru := lru },
          if (gstore.countDepth what).1 ≤ gstore.noTraceFromDepth ∧
              (filterFunc frame.fCode).traceLevel ≠ noTrace ∧
              (filterFunc frame.fCode).traceLevel ≠ noTraceNested then
            some ⟨what, (filterFunc frame.fCode).traceLevel, tid, gstore.gid,
              (gstore.countDepth what).1, frame⟩
          else none) := by
  by_cases hdepth : (gstore.countDepth what).1 ≤ gstore.noTraceFromDepth
  · obtain ⟨lru, calls, hlookup, hcaches'⟩ := hcaches.findTraceLevelOrCallFilter_eq hcodes hcode
    refine ⟨lru, hcaches', ?_⟩
    simp only [handle, traceEvent, henabled, hdepth, hlookup, nextThreshold, if_true, true_and,
      countDepth_gid, countDepth_noTraceFromDepth, countDepth_traceLevelLru,
      Option.bind_eq_bind, Option.bind_some]
    by_cases hnested : (filterFunc frame.fCode).traceLevel = noTraceNested
    · simp [hnested]
    · by_cases hnone : (filterFunc frame.fCode).traceLevel = noTrace <;> simp_all
  · refine ⟨gstore.traceLevelLru, hcaches, ?_⟩
    simp only [handle, traceEvent, henabled, hdepth, nextThreshold, if_true, if_false, false_and,
      countDepth_noTraceFromDepth]
    unfold countDepth
    split_ifs <;> rfl

end GreenletStorage

namespace ThreadStorage

/-- An event of the greenlet `gid` has been handled: its storage is `result` now, those of the
others are as they were, and what is remembered is right. -/
structure Handled (gids : Set UInt64) (gid nextFrame : UInt64) (t t' : ThreadStorage)
    (result : Option GreenletStorage) : Prop where
  linked : t'.Linked gids
  storage : t'.storageOf gid = result
  others : ∀ gid' ∈ gids, gid' ≠ gid → t'.storageOf gid' = t.storageOf gid'
  lastGid : t'.lastGid = gid
  lastFrame : t'.lastFrame = nextFrame
  cached : result ≠ none →
    ∃ ptr, t'.lastGstorage = some ptr ∧ t'.findGstorage gid = some ptr
  enabled : t'.enabled = t.enabled
  id : t'.id = t.id
  capacity : t'.traceLevelLruCapacity = t.traceLevelLruCapacity

variable {gids : Set UInt64} (hgids : Set.InjOn lowInt gids) {t t' : ThreadStorage}
  {gid nextFrame : UInt64} {ptr : ℕ} {gstore gstore' : GreenletStorage}

include hgids

lemma Acquired.finish (h : Acquired gids gid nextFrame t t' ptr gstore) (hgid : gid ∈ gids)
    (hown : gstore'.gid = gid) (what : PyTrace) (back : List Frame) :
    Handled gids gid nextFrame t (t'.finish what back ptr gstore')
      (if what = .ret ∧ back = [] then none else some gstore') := by
  obtain ⟨hassign, hstorage, hothers⟩ := h.linked.assign hgids hgid h.find hown
  unfold ThreadStorage.finish
  split_ifs with hlast
  · obtain ⟨hlinked, hnone, hothers'⟩ := hassign.delGstorage hgids hgid h.find
    exact ⟨hlinked, hnone,
      fun gid' hgid' hne => ((hothers' gid' hgid' hne).trans (hothers gid' hgid' hne)).trans
        (h.others gid' hgid' hne),
      h.lastGid, h.lastFrame, fun hne => absurd rfl hne, h.enabled, h.id, h.capacity⟩
  · exact ⟨hassign, hstorage,
      fun gid' hgid' hne => (hothers gid' hgid' hne).trans (h.others gid' hgid' hne),
      h.lastGid, h.lastFrame, fun _ => ⟨ptr, h.lastGstorage, h.find⟩, h.enabled, h.id,
      h.capacity⟩

omit hgids in
lemma Acquired.traceStorage (h : Acquired gids gid nextFrame t t' ptr gstore)
    (filterFunc : Filter) (what : PyTrace) (frame : Frame) (back : List Frame) :
    InfiTracing.traceStorage filterFunc what frame back (ptr, t') =
      (gstore.handle filterFunc t.enabled t.id what frame).map fun (gstore', record) =>
        (t'.finish what back ptr gstore', record) := by
  simp only [InfiTracing.traceStorage, h.deref, h.enabled, h.id, Option.bind_eq_bind,
    Option.bind_some]
  cases gstore.handle filterFunc t.enabled t.id what frame <;> rfl

end ThreadStorage

/-- The frame whose being remembered makes an event take the fast path. -/
def PyTrace.cachedFrame (what : PyTrace) (frame : Frame) (back : List Frame) : UInt64 :=
  if what = .ret then frame.address else fBack back

/-- The frame an event leaves its greenlet at. -/
def PyTrace.nextFrame (what : PyTrace) (frame : Frame) (back : List Frame) : UInt64 :=
  if what = .ret then fBack back else frame.address

/-- The storage an event is handled with, and the thread's storage when it has been found. -/
def ThreadStorage.acquire (t : ThreadStorage) (currentGid : UInt64) (frame : Frame)
    (back : List Frame) (what : PyTrace) : ℕ × ThreadStorage :=
  t.getGstore (what.cachedFrame frame back) (what.nextFrame frame back) currentGid back

/-- A call or a return is handled with the storage acquired for it. -/
lemma greenletTraceFunc_eq {filterFunc : Filter} {currentGid : UInt64} {t : ThreadStorage}
    {frame : Frame} {back : List Frame} {what : PyTrace} (hwhat : what = .call ∨ what = .ret) :
    greenletTraceFunc filterFunc currentGid t frame back what =
      traceStorage filterFunc what frame back (t.acquire currentGid frame back what) := by
  rcases hwhat with rfl | rfl <;> rfl

/-- **The law of the trace function.**  A call or a return in the greenlet `gid` does to the
thread's storage what it does to the storage of `gid`. -/
theorem ThreadStorage.Linked.greenletTraceFunc {gids : Set UInt64}
    (hgids : Set.InjOn lowInt gids) {t : ThreadStorage} (ht : t.Linked gids) {gid : UInt64}
    (hgid : gid ∈ gids) (filterFunc : Filter) {what : PyTrace} (hwhat : what = .call ∨ what = .ret)
    (frame : Frame) (back : List Frame)
    (hright : t.RightAbout gid (what.cachedFrame frame back)) :
    ∃ after : GreenletStorage → ThreadStorage,
      InfiTracing.greenletTraceFunc filterFunc gid t frame back what =
        ((t.storageOrNew gid back).handle filterFunc t.enabled t.id what frame).map
          (fun (gstore, record) => (after gstore, record)) ∧
      ∀ gstore record, (t.storageOrNew gid back).handle filterFunc t.enabled t.id what frame =
          some (gstore, record) →
        Handled gids gid (what.nextFrame frame back) t (after gstore)
          (if what = .ret ∧ back = [] then none else some gstore) := by
  have hacq := ht.slowGstore hgids hgid (what.nextFrame frame back) back
  refine ⟨fun gstore => (t.slowGstore (what.nextFrame frame back) gid back).2.finish what back
    (t.slowGstore (what.nextFrame frame back) gid back).1 gstore, ?_,
    fun gstore record hhandle =>
      hacq.finish hgids hgid ((GreenletStorage.handle_gid hhandle).trans hacq.own) what back⟩
  rw [← hacq.traceStorage, ← getGstore_eq_slowGstore hright]
  exact greenletTraceFunc_eq hwhat

/-! ## Every storage on the heap -/

/-- A storage is one the thread had, or a new one. -/
def ThreadStorage.OldOrNew (t : ThreadStorage) (ptr : ℕ) (gstore : GreenletStorage) : Prop :=
  t.heap ptr = some gstore ∨
    ∃ gid depth, gstore =
      { GreenletStorage.create gid t.traceLevelLruCapacity with depth := depth }

/-- What an event has made of the heap: the storage it was handled with has become `after`, and
all others are as they were. -/
structure ThreadStorage.HandledWith (t t' : ThreadStorage) (ptr : ℕ)
    (before after : GreenletStorage) : Prop where
  found : t.OldOrNew ptr before
  heap : ∀ ptr' gstore, t'.heap ptr' = some gstore →
    ptr' = ptr ∧ gstore = after ∨ ptr' ≠ ptr ∧ t.OldOrNew ptr' gstore
  enabled : t'.enabled = t.enabled
  id : t'.id = t.id
  capacity : t'.traceLevelLruCapacity = t.traceLevelLruCapacity

namespace ThreadStorage

/-- What `find_gstorage` and `new_gstorage` leave of the heap. -/
lemma findOrNewGstorage_heap {t : ThreadStorage} {gid : UInt64} {back : List Frame} {ptr : ℕ}
    {gstore : GreenletStorage}
    (h : (t.findOrNewGstorage gid back).2.heap ptr = some gstore) : t.OldOrNew ptr gstore := by
  unfold findOrNewGstorage at h
  cases hfind : t.findGstorage gid with
  | some _ => exact .inl (by rwa [hfind] at h)
  | none =>
      simp only [hfind, newGstorage, setDepth, Function.update_self, Option.map_some] at h
      by_cases hptr : ptr = t.fresh
      · rw [hptr, Function.update_self] at h
        exact .inr ⟨gid, _, (Option.some.inj h).symm⟩
      · rw [Function.update_of_ne hptr, Function.update_of_ne hptr] at h
        exact .inl h

/-- Finding a storage leaves those there as they are, and the thread's own members. -/
lemma acquire_spec (t : ThreadStorage) (currentGid : UInt64) (frame : Frame) (back : List Frame)
    (what : PyTrace) :
    (∀ ptr gstore, (t.acquire currentGid frame back what).2.heap ptr = some gstore →
      t.OldOrNew ptr gstore) ∧
    (t.acquire currentGid frame back what).2.enabled = t.enabled ∧
    (t.acquire currentGid frame back what).2.id = t.id ∧
    (t.acquire currentGid frame back what).2.traceLevelLruCapacity = t.traceLevelLruCapacity := by
  have hslow : ∀ next gid, (∀ ptr gstore, (t.slowGstore next gid back).2.heap ptr = some gstore →
      t.OldOrNew ptr gstore) ∧ (t.slowGstore next gid back).2.enabled = t.enabled ∧
      (t.slowGstore next gid back).2.id = t.id ∧
      (t.slowGstore next gid back).2.traceLevelLruCapacity = t.traceLevelLruCapacity := by
    intro next gid
    refine ⟨fun ptr gstore h =>
      @findOrNewGstorage_heap (t.remember gid next) gid back ptr gstore h, ?_⟩
    unfold slowGstore findOrNewGstorage
    cases (t.remember gid next).findGstorage gid <;> exact ⟨rfl, rfl, rfl⟩
  unfold acquire getGstore
  by_cases hhit : t.lastFrame ≠ 0 ∧ t.lastFrame = what.cachedFrame frame back
  · simp only [if_pos hhit]
    cases t.lastGstorage with
    | some ptr => exact ⟨fun _ _ => Or.inl, rfl, rfl, rfl⟩
    | none => exact hslow _ _
  · simp only [if_neg hhit]
    exact hslow _ _

/-- What the end of the trace function leaves of the heap. -/
lemma finish_heap {t : ThreadStorage} {what : PyTrace} {back : List Frame} {ptr ptr' : ℕ}
    {gstore gstore' : GreenletStorage}
    (h : (t.finish what back ptr gstore).heap ptr' = some gstore') :
    ptr' = ptr ∧ gstore' = gstore ∨ ptr' ≠ ptr ∧ t.heap ptr' = some gstore' := by
  unfold finish at h
  by_cases hptr : ptr' = ptr
  · subst hptr
    split_ifs at h
    · simp [delGstorage] at h
    · simp only [assign, Function.update_self] at h
      exact .inl ⟨rfl, (Option.some.inj h).symm⟩
  · refine .inr ⟨hptr, ?_⟩
    split_ifs at h
    · simpa [delGstorage, assign, Function.update_of_ne hptr] using h
    · simpa [assign, Function.update_of_ne hptr] using h

lemma finish_members (t : ThreadStorage) (what : PyTrace) (back : List Frame) (ptr : ℕ)
    (gstore : GreenletStorage) :
    (t.finish what back ptr gstore).enabled = t.enabled ∧
      (t.finish what back ptr gstore).id = t.id ∧
      (t.finish what back ptr gstore).traceLevelLruCapacity = t.traceLevelLruCapacity := by
  unfold finish
  split_ifs <;> exact ⟨rfl, rfl, rfl⟩

/-- **The law of the trace function, storage by storage.**  Whatever the thread's storage
remembers, an event changes no storage but the one it is handled with. -/
theorem exists_handledWith {filterFunc : Filter} {currentGid : UInt64} {t t' : ThreadStorage}
    {frame : Frame} {back : List Frame} {what : PyTrace} {record : Option LogRecord}
    (hwhat : what = .call ∨ what = .ret)
    (h : InfiTracing.greenletTraceFunc filterFunc currentGid t frame back what =
      some (t', record)) :
    ∃ before after, (t.acquire currentGid frame back what).2.heap
        (t.acquire currentGid frame back what).1 = some before ∧
      before.handle filterFunc t.enabled t.id what frame = some (after, record) ∧
      HandledWith t t' (t.acquire currentGid frame back what).1 before after := by
  obtain ⟨hheap, henabled, hid, hcap⟩ := t.acquire_spec currentGid frame back what
  rw [greenletTraceFunc_eq hwhat] at h
  simp only [InfiTracing.traceStorage, Option.bind_eq_bind, Option.bind_eq_some_iff,
    Option.some.injEq, Prod.exists, Prod.mk.injEq] at h
  obtain ⟨before, hderef, after, record', hhandle, rfl, rfl⟩ := h
  obtain ⟨henabled', hid', hcap'⟩ := finish_members (t.acquire currentGid frame back what).2 what
    back (t.acquire currentGid frame back what).1 after
  refine ⟨before, after, hderef, by rwa [henabled, hid] at hhandle, hheap _ _ hderef,
    fun ptr gstore hptr => ?_, henabled'.trans henabled, hid'.trans hid, hcap'.trans hcap⟩
  exact (finish_heap hptr).imp_right fun h => ⟨h.1, hheap _ _ h.2⟩

/-- Every storage on the heap is as `p` says. -/
def Every (p : GreenletStorage → Prop) (t : ThreadStorage) : Prop :=
  ∀ ptr gstore, t.heap ptr = some gstore → p gstore

lemma every_create (p : GreenletStorage → Prop) (id : UInt64) (capacity : ℕ) :
    (create id capacity).Every p := by
  simp [Every, create]

/-- What holds of new storages and is kept by the event holds of every storage. -/
lemma HandledWith.every {p : GreenletStorage → Prop} {t t' : ThreadStorage} {ptr : ℕ}
    {before after : GreenletStorage} (h : HandledWith t t' ptr before after) (ht : t.Every p)
    (hnew : ∀ gid depth,
      p { GreenletStorage.create gid t.traceLevelLruCapacity with depth := depth })
    (hevent : p before → p after) : p before ∧ t'.Every p := by
  have hold : ∀ ptr gstore, t.OldOrNew ptr gstore → p gstore := by
    rintro ptr gstore (hheap | ⟨gid, depth, rfl⟩)
    · exact ht ptr gstore hheap
    · exact hnew gid depth
  have hbefore := hold _ _ h.found
  refine ⟨hbefore, fun ptr' gstore hptr => ?_⟩
  rcases h.heap ptr' gstore hptr with ⟨-, rfl⟩ | ⟨-, hrest⟩
  · exact hevent hbefore
  · exact hold _ _ hrest

end ThreadStorage

end InfiTracing
