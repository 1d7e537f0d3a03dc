import InfiTracing.Greenlet.Thread

/-!
# Levels from earlier sessions

The level cache of a greenlet is part of its storage, and its storage outlives the session.  A
code object that has an entry from an earlier session is given the level of the filter installed
then, whatever filter has been installed since.

The machine is observed at its lookups, with a record beside it of the filter each entry has been
stored under (`noteStored`).  `levels_current_iff` says that the level is that of the current
filter exactly in the runs in which every lookup that finds an entry finds one stored under a
filter of the same level, and that the trace function goes by the level it has looked up.
-/

namespace InfiTracing

open Framework

/-! ## Lookups -/

/-- Whether an event of a storage gets as far as the filter. -/
def GreenletStorage.LooksUp (enabled : ℤ) (what : PyTrace) (gstore : GreenletStorage) : Prop :=
  0 < enabled ∧ (gstore.countDepth what).1 ≤ gstore.noTraceFromDepth

instance (enabled : ℤ) (what : PyTrace) (gstore : GreenletStorage) :
    Decidable (gstore.LooksUp enabled what) :=
  inferInstanceAs (Decidable (_ ∧ _))

/-- The threshold after an event, by the level that has been looked up for it. -/
def GreenletStorage.thresholdAt (what : PyTrace) (gstore : GreenletStorage) : Option ℤ → ℤ
  | some level =>
      if level = noTraceNested then (gstore.countDepth what).1 else noTraceFromDepthDisabled
  | none => gstore.noTraceFromDepth

/-- The level a frame is logged at, by the level that has been looked up for it. -/
def levelLogged (level : Option ℤ) : Option ℤ :=
  level.filter fun level => level ≠ noTrace ∧ level ≠ noTraceNested

/-- An event asks its storage's cache for the level exactly if it gets as far as the filter, and
goes by that level: in what it logs, and in where it puts the threshold. -/
lemma GreenletStorage.handle_lookup {filterFunc : Filter} {enabled : ℤ} {tid : UInt64}
    {what : PyTrace} {frame : Frame} {gstore gstore' : GreenletStorage}
    {record : Option LogRecord}
    (h : gstore.handle filterFunc enabled tid what frame = some (gstore', record)) :
    (gstore.LooksUp enabled what ∧ ∃ level calls,
        findTraceLevelOrCallFilter frame.fCode filterFunc gstore.traceLevelLru =
          some (level, gstore'.traceLevelLru, calls) ∧
        record.map LogRecord.traceLevel = levelLogged (some level) ∧
        gstore'.noTraceFromDepth = gstore.thresholdAt what (some level)) ∨
      (¬ gstore.LooksUp enabled what ∧ gstore'.traceLevelLru = gstore.traceLevelLru ∧
        record = none ∧ gstore'.noTraceFromDepth = gstore.thresholdAt what none) := by
  simp only [handle, traceEvent, countDepth_noTraceFromDepth, countDepth_traceLevelLru] at h
  unfold LooksUp
  split_ifs at h with henabled hdepth
  · obtain ⟨⟨level, lru, calls⟩, hlookup, hrest⟩ := Option.bind_eq_some_iff.mp h
    refine .inl ⟨⟨henabled, hdepth⟩, level, calls, ?_⟩
    dsimp only at hrest
    split_ifs at hrest with hnested hlisted <;> cases hrest <;>
      refine ⟨hlookup, ?_, ?_⟩ <;> simp [levelLogged, thresholdAt, Option.filter, *]
  · cases h
    exact .inr ⟨fun hlook => hdepth hlook.2, countDepth_traceLevelLru, rfl,
      countDepth_noTraceFromDepth⟩
  · cases h
    exact .inr ⟨fun hlook => henabled hlook.1, countDepth_traceLevelLru, rfl,
      countDepth_noTraceFromDepth⟩

/-- A lookup: the storage it is made in, the cache there, the filter installed, and the code
object looked up. -/
structure Lookup where
  ptr : ℕ
  lru : Lru
  filterFunc : Filter
  fCode : UInt64

/-- The lookup an action makes, if it makes one. -/
def Thread.lookup (id : UInt64) (gids : Finset UInt64) (th : Thread) (a : ThreadAction) :
    Option Lookup :=
  match a with
  | .event e => do
      let filterFunc ← th.profile
      let o ← occurs gids th.stackOf e
      let (ptr, tstore) := (th.getThreadStorage id).acquire o.gid o.frame o.back o.what
      let gstore ← tstore.heap ptr
      if gstore.LooksUp tstore.enabled o.what then
        some ⟨ptr, gstore.traceLevelLru, filterFunc, o.frame.fCode⟩
      else none
  | _ => none

/-- An event that the profile function is called for. -/
structure LevelUse where
  /-- The level looked up, if one is. -/
  used : Option ℤ
  /-- The level the filter installed last gives the frame. -/
  current : ℤ
  /-- The level of the record that is logged, if one is. -/
  logged : Option ℤ
  what : PyTrace
  /-- The storage the event is handled with, before. -/
  before : GreenletStorage
  /-- The `no_trace_from_depth` of that storage after, if it has not been deleted. -/
  threshold : Option ℤ

/-- What is seen of an action, if the profile function is called: the level it looks up, and the
record and the storage that it leaves. -/
def Thread.levelUse (id : UInt64) (gids : Finset UInt64) (th : Thread) (a : ThreadAction) :
    Option LevelUse :=
  match a with
  | .event e => do
      let filterFunc ← th.profile
      let o ← occurs gids th.stackOf e
      let (ptr, tstore) := (th.getThreadStorage id).acquire o.gid o.frame o.back o.what
      let before ← tstore.heap ptr
      let (th', record) ← th.event id o
      some {
        used := (th.lookup id gids a).bind fun q =>
          (findTraceLevelOrCallFilter q.fCode q.filterFunc q.lru).map Prod.fst
        current := (filterFunc o.frame.fCode).traceLevel
        logged := record.map LogRecord.traceLevel
        what := o.what
        before := before
        threshold := ((th'.getThreadStorage id).heap ptr).map
          GreenletStorage.noTraceFromDepth }
  | _ => none

/-- The level is the current filter's, where one is looked up. -/
def LevelUse.Current (u : LevelUse) : Prop := ∀ level ∈ u.used, level = u.current

/-- The trace function goes by the level looked up, and logs nothing where none is. -/
structure LevelUse.Followed (u : LevelUse) : Prop where
  logged : u.logged = levelLogged u.used
  threshold : ∀ threshold ∈ u.threshold, threshold = u.before.thresholdAt u.what u.used

/-! ## The filters entries have been stored under -/

/-- For each storage, the filter each entry of its cache has been stored under. -/
abbrev StoredUnder := ℕ → ℕ → Filter

/-- No entry has been stored. -/
def StoredUnder.none : StoredUnder := fun _ _ _ => .none

/-- A lookup that misses stores the next entry under the filter installed. -/
def noteStored (id : UInt64) (gids : Finset UInt64) (th : Thread) (a : ThreadAction)
    (stored : StoredUnder) : StoredUnder :=
  match th.lookup id gids a with
  | some q =>
      let (level, lru) := q.lru.find q.fCode
      if level = lruNotFound then
        lru.nextEntry.elim stored fun entry =>
          Function.update stored q.ptr (Function.update (stored q.ptr) entry q.filterFunc)
      else stored
  | none => stored

/-- The thread over code objects from `codes`, with the filters entries have been stored
under. -/
def storingMachine (id : UInt64) (gids codes : Finset UInt64) :
    Machine (Thread × StoredUnder) ThreadAction :=
  ((threadMachine id gids).confine (Thread.Within gids codes)).withHistory StoredUnder.none
    (noteStored id gids)

/-- The entry a lookup finds, if it finds one, has been stored under a filter that gives the
code object the level the current one gives it, or `LRU_NOT_FOUND`. -/
def FindsCurrent (id : UInt64) (gids : Finset UInt64) (p : Thread × StoredUnder)
    (a : ThreadAction) : Prop :=
  ∀ q ∈ p.1.lookup id gids a, ∀ entry ∈ q.lru.hashHandle.hashFind (lowInt q.fCode),
    (p.2 q.ptr entry q.fCode).traceLevel = lruNotFound ∨
      (p.2 q.ptr entry q.fCode).traceLevel = (q.filterFunc q.fCode).traceLevel

instance (id : UInt64) (gids : Finset UInt64) (p : Thread × StoredUnder) (a : ThreadAction) :
    Decidable (FindsCurrent id gids p a) :=
  inferInstanceAs (Decidable (∀ q ∈ p.1.lookup id gids a, ∀ entry ∈ _, _ ∨ _))

/-- Every entry holds the level that the filter it has been stored under gives its code
object. -/
def StoredUnder.Explains (codes : Finset UInt64) (stored : StoredUnder) (t : ThreadStorage) :
    Prop :=
  ∀ ptr gstore, t.heap ptr = some gstore → gstore.traceLevelLru.Holds fun e entry =>
    entry.k ∈ codes ∧ entry.v = (stored ptr e entry.k).traceLevel

section Invariant

variable {id : UInt64} {gids codes : Finset UInt64} {p p' : Thread × StoredUnder}
  {a : ThreadAction}

/-- The lookup of an event, given the storage it is handled with. -/
lemma Thread.lookup_event {th : Thread} {e : GreenletEvent} {o : Occurrence}
    {filterFunc : Filter} {before : GreenletStorage} (ho : occurs gids th.stackOf e = some o)
    (hprofile : th.profile = some filterFunc)
    (hderef : ((th.getThreadStorage id).acquire o.gid o.frame o.back o.what).2.heap
      ((th.getThreadStorage id).acquire o.gid o.frame o.back o.what).1 = some before) :
    th.lookup id gids (.event e) =
      if before.LooksUp (th.getThreadStorage id).enabled o.what then
        some ⟨((th.getThreadStorage id).acquire o.gid o.frame o.back o.what).1,
          before.traceLevelLru, filterFunc, o.frame.fCode⟩
      else none := by
  obtain ⟨-, henabled, -⟩ :=
    (th.getThreadStorage id).acquire_spec o.gid o.frame o.back o.what
  simp only [Thread.lookup, hprofile, ho, hderef, henabled, Option.bind_eq_bind,
    Option.bind_some]

/-- What is seen of an event, given the storage it is handled with and what the trace function
makes of it. -/
lemma Thread.levelUse_event {th : Thread} {e : GreenletEvent} {o : Occurrence}
    {filterFunc : Filter} {before : GreenletStorage} {tstore : ThreadStorage}
    {record : Option LogRecord} (ho : occurs gids th.stackOf e = some o)
    (hprofile : th.profile = some filterFunc)
    (hderef : ((th.getThreadStorage id).acquire o.gid o.frame o.back o.what).2.heap
      ((th.getThreadStorage id).acquire o.gid o.frame o.back o.what).1 = some before)
    (htrace : greenletTraceFunc filterFunc o.gid (th.getThreadStorage id) o.frame o.back o.what =
      some (tstore, record)) :
    th.levelUse id gids (.event e) = some {
      used := (th.lookup id gids (.event e)).bind fun q =>
        (findTraceLevelOrCallFilter q.fCode q.filterFunc q.lru).map Prod.fst
      current := (filterFunc o.frame.fCode).traceLevel
      logged := record.map LogRecord.traceLevel
      what := o.what
      before := before
      threshold := (tstore.heap
        ((th.getThreadStorage id).acquire o.gid o.frame o.back o.what).1).map
          GreenletStorage.noTraceFromDepth } := by
  simp only [Thread.levelUse, Thread.event, hprofile, ho, hderef, htrace, Option.bind_eq_bind,
    Option.bind_some]
  rfl

namespace StoredUnder

variable {stored : StoredUnder} {t t' : ThreadStorage} {ptr : ℕ} {gstore : GreenletStorage}

lemma Explains.oldOrNew (h : stored.Explains codes t) (hg : t.OldOrNew ptr gstore) :
    gstore.traceLevelLru.Holds fun e entry =>
      entry.k ∈ codes ∧ entry.v = (stored ptr e entry.k).traceLevel := by
  rcases hg with hheap | ⟨gid, depth, rfl⟩
  · exact h ptr gstore hheap
  · exact Lru.holds_create _ _

/-- The entry found for a code object holds the level of the filter it has been stored under. -/
lemma value_of_found (hcodes : Set.InjOn lowInt (codes : Set UInt64)) {l : Lru}
    (hl : l.Holds fun e entry => entry.k ∈ codes ∧ entry.v = (stored ptr e entry.k).traceLevel)
    {fCode : UInt64} (hcode : fCode ∈ codes) {entry : ℕ}
    (hfind : l.hashHandle.hashFind (lowInt fCode) = some entry) :
    (l.entries entry).v = (stored ptr entry fCode).traceLevel := by
  have hmem := UtHash.mem_items_of_hashFind hfind
  obtain ⟨hk, hv⟩ := hl.entry _ hmem
  have hown : (l.entries entry).k = fCode := hcodes hk hcode (hl.linked.key _ hmem).symm
  rwa [hown] at hv

/-- A storage that has been used, and the others as they were. -/
lemma Explains.of_handledWith (h : stored.Explains codes t) {before after : GreenletStorage}
    (hhandled : t.HandledWith t' ptr before after) {stored' : StoredUnder}
    (hother : ∀ ptr' ≠ ptr, stored' ptr' = stored ptr')
    (hafter : after.traceLevelLru.Holds fun e entry =>
      entry.k ∈ codes ∧ entry.v = (stored' ptr e entry.k).traceLevel) :
    stored'.Explains codes t' := by
  intro ptr' gstore hptr
  rcases hhandled.heap ptr' gstore hptr with ⟨rfl, rfl⟩ | ⟨hne, hold⟩
  · exact hafter
  · rw [hother ptr' hne]
    exact h.oldOrNew hold

end StoredUnder

/-- Of the storage an event was handled with, the heap has what the event has made of it. -/
lemma ThreadStorage.HandledWith.threshold {t t' : ThreadStorage} {ptr : ℕ}
    {before after : GreenletStorage} (h : t.HandledWith t' ptr before after) :
    ∀ threshold ∈ (t'.heap ptr).map GreenletStorage.noTraceFromDepth,
      threshold = after.noTraceFromDepth := by
  intro threshold hthreshold
  obtain ⟨gstore, hheap, rfl⟩ := Option.map_eq_some_iff.mp hthreshold
  rcases h.heap ptr gstore hheap with ⟨-, rfl⟩ | ⟨hne, -⟩
  · rfl
  · exact absurd rfl hne

/-- **One event.**  The level used is the current one exactly if the entry found, if there is
one, has been stored under a filter of the same level; the trace function goes by it; and every
entry stays explained. -/
lemma StoredUnder.Explains.event (hcodes : Set.InjOn lowInt (codes : Set UInt64))
    {th : Thread} {stored : StoredUnder} (h : stored.Explains codes (th.getThreadStorage id))
    {e : GreenletEvent} {o : Occurrence} {filterFunc : Filter} {tstore : ThreadStorage}
    {record : Option LogRecord} (ho : occurs gids th.stackOf e = some o)
    (hprofile : th.profile = some filterFunc) (hcode : o.frame.fCode ∈ codes)
    (htrace : greenletTraceFunc filterFunc o.gid (th.getThreadStorage id) o.frame o.back o.what =
      some (tstore, record)) :
    ((∀ u ∈ th.levelUse id gids (.event e), u.Current) ↔
        FindsCurrent id gids (th, stored) (.event e)) ∧
      (∀ u ∈ th.levelUse id gids (.event e), u.Followed) ∧
      (noteStored id gids th (.event e) stored).Explains codes tstore := by
  obtain ⟨before, after, hderef, hhandle, hhandled⟩ :=
    ThreadStorage.exists_handledWith (what_of_occurs ho) htrace
  have hbefore := h.oldOrNew hhandled.found
  have hlookup := Thread.lookup_event ho hprofile hderef
  have hthreshold := hhandled.threshold
  unfold FindsCurrent noteStored
  simp only [Thread.levelUse_event ho hprofile hderef htrace, Option.mem_some_iff, forall_eq',
    LevelUse.Current]
  rcases GreenletStorage.handle_lookup hhandle with
    ⟨hlook, level, calls, hfind, hlogged, hthreshold'⟩ | ⟨hlook, hlru, rfl, hthreshold'⟩
  · rw [hthreshold'] at hthreshold
    simp only [hlookup, if_pos hlook, Option.bind_some, hfind, Option.map_some,
      Option.mem_some_iff, forall_eq']
    refine and_left_comm.mp ⟨⟨hlogged, hthreshold⟩, ?_⟩
    rcases hbefore.lookup hfind with
      ⟨entry, hhash, -, hlevel, hfound, hafter⟩ | ⟨hmiss, rfl, entry, hnext, hafter⟩
    · -- a hit: the entry is the code object's own
      have hvalue := value_of_found hcodes hbefore hcode hhash
      have hvalue' : (before.traceLevelLru.find o.frame.fCode).1 = level := by
        rw [Lru.find, hhash]
        exact hlevel
      rw [hlevel] at hvalue
      refine ⟨?_, ?_⟩
      · simp only [hhash, Option.mem_some_iff, forall_eq', ← hvalue]
        exact (or_iff_right hfound).symm
      · simp only [hvalue', if_neg hfound]
        exact h.of_handledWith hhandled (fun _ _ => rfl) hafter
    · -- a miss: the entry written is stored under the current filter
      have hvalue' : (before.traceLevelLru.find o.frame.fCode).1 = lruNotFound := by
        rw [Lru.find]
        cases hhash : before.traceLevelLru.hashHandle.hashFind (lowInt o.frame.fCode) with
        | none => rfl
        | some entry => exact hmiss entry hhash
      refine ⟨iff_of_true rfl fun entry' hhash => .inl ?_, ?_⟩
      · rw [← value_of_found hcodes hbefore hcode hhash]
        exact hmiss entry' hhash
      · simp only [hvalue', if_true, hnext, Option.elim_some]
        refine h.of_handledWith hhandled (fun ptr' hne => Function.update_of_ne hne _ _)
          (hafter _ (fun e' hne entry' hentry => ?_) ?_)
        · rwa [Function.update_self, Function.update_of_ne hne]
        · rw [Function.update_self, Function.update_self]
          exact ⟨hcode, rfl⟩
  · rw [hthreshold'] at hthreshold
    simp only [hlookup, if_neg hlook, Option.bind_none]
    refine ⟨by simp, ⟨rfl, hthreshold⟩, h.of_handledWith hhandled (fun _ _ => rfl) ?_⟩
    rwa [hlru]

/-- An action that looks nothing up notes nothing. -/
lemma noteStored_of_lookup_eq_none {th : Thread} {stored : StoredUnder}
    (h : th.lookup id gids a = none) : noteStored id gids th a stored = stored := by
  rw [noteStored, h]

/-- Nothing is looked up or seen of an action that the profile function is not called for. -/
lemma Thread.unprofiled (id : UInt64) (gids : Finset UInt64) {th : Thread}
    (h : ∀ filterFunc ∈ th.profile, ∀ e, a ≠ .event e) :
    th.lookup id gids a = none ∧ th.levelUse id gids a = none := by
  cases a with
  | event e =>
      cases hprofile : th.profile with
      | none => simp [Thread.lookup, Thread.levelUse, hprofile]
      | some filterFunc => exact absurd rfl (h filterFunc hprofile e)
  | _ => exact ⟨rfl, rfl⟩

/-- **One step.** -/
lemma StoredUnder.Explains.step (hcodes : Set.InjOn lowInt (codes : Set UInt64))
    (h : p.2.Explains codes (p.1.getThreadStorage id)) (hwithin : p.1.Within gids codes)
    (hstep : (storingMachine id gids codes).step p a = some p') :
    ((∀ u ∈ p.1.levelUse id gids a, u.Current) ↔ FindsCurrent id gids p a) ∧
      (∀ u ∈ p.1.levelUse id gids a, u.Followed) ∧
      p'.2.Explains codes (p'.1.getThreadStorage id) := by
  obtain ⟨hstep, hnote⟩ := Machine.withHistory_step_eq_some.mp hstep
  obtain ⟨hstep, hwithin'⟩ := Machine.confine_step_eq_some.mp hstep
  rw [hnote]
  -- where the profile function is not called, the storages have to stay explained
  have hidle : (∀ filterFunc ∈ p.1.profile, ∀ e, a ≠ .event e) →
      p.2.Explains codes (p'.1.getThreadStorage id) →
      ((∀ u ∈ p.1.levelUse id gids a, u.Current) ↔ FindsCurrent id gids p a) ∧
        (∀ u ∈ p.1.levelUse id gids a, u.Followed) ∧
        (noteStored id gids p.1 a p.2).Explains codes (p'.1.getThreadStorage id) := by
    intro hnone hexplains
    obtain ⟨hlookup, huse⟩ := Thread.unprofiled id gids hnone
    rw [noteStored_of_lookup_eq_none hlookup, huse]
    exact ⟨by simp [FindsCurrent, hlookup], by simp, hexplains⟩
  have hsame : p'.1.tstore = p.1.tstore → p.2.Explains codes (p'.1.getThreadStorage id) := by
    intro htstore ptr gstore hheap
    rw [Thread.heap_getThreadStorage id htstore] at hheap
    exact h ptr gstore hheap
  rcases threadMachine_step_cases hstep with
    ⟨hnone, htstore⟩ | ⟨e, o, rfl, ho, hprofile, hth⟩ |
      ⟨e, o, filterFunc, tstore, record, rfl, ho, hprofile, htrace, hth⟩ | ⟨enabled, hnone, hth⟩
  · exact hidle (fun _ _ => hnone) (hsame htstore)
  · refine hidle (fun f hf => ?_) (hsame (by rw [hth]))
    rw [hprofile] at hf
    cases hf
  · have hcode : o.frame.fCode ∈ codes := hwithin.occurrence ho (hth ▸ hwithin')
    obtain ⟨hright, hfollowed, hexplains⟩ := h.event hcodes ho hprofile hcode htrace
    refine ⟨hright, hfollowed, ?_⟩
    rw [hth]
    exact hexplains
  · refine hidle (fun _ _ => hnone) ?_
    rw [hth]
    exact h

lemma StoredUnder.explains_of_reachable (hcodes : Set.InjOn lowInt (codes : Set UInt64))
    (hp : (storingMachine id gids codes).Reachable p) :
    p.2.Explains codes (p.1.getThreadStorage id) ∧ p.1.Within gids codes := by
  refine ⟨?_, hp.fst.of_confine.2⟩
  refine hp.invariant (I := fun p => p.2.Explains codes (p.1.getThreadStorage id))
    (fun p hinit => ?_) fun p a p' hp hexplains hstep =>
      (hexplains.step hcodes hp.fst.of_confine.2 hstep).2.2
  obtain ⟨⟨⟨-, -, -, hnone, -⟩, -⟩, -⟩ := hinit
  intro ptr gstore hheap
  simp [Thread.getThreadStorage, hnone, ThreadStorage.create] at hheap

end Invariant

/-! ## When levels are current -/

/-- **When the level is the current filter's.**  In every sequence of sessions on a thread, with
any filters, every level looked up is the one the filter installed last gives the code object
exactly if every lookup of the run that finds an entry finds one stored under a filter that gives
it the same level, or `LRU_NOT_FOUND`.  The level looked up is the one used: a frame is logged at
it, unless it is `NO_TRACE` or `NO_TRACE_NESTED`, the threshold goes by it, and an event for which
no level is looked up is not logged and leaves the threshold. -/
theorem levels_current_iff {id : UInt64} {gids codes : Finset UInt64}
    (hcodes : Set.InjOn lowInt (codes : Set UInt64)) {p p' : Thread × StoredUnder}
    {acts : List ThreadAction} (hinit : (storingMachine id gids codes).init p)
    (hrun : (storingMachine id gids codes).exec p acts = some p') :
    ((∀ u ∈ (storingMachine id gids codes).traceOf (fun p => p.1.levelUse id gids) p acts,
        u.Current) ↔
      ((storingMachine id gids codes).restrict (FindsCurrent id gids)).exec p acts = some p') ∧
    ∀ u ∈ (storingMachine id gids codes).traceOf (fun p => p.1.levelUse id gids) p acts,
      u.Followed := by
  constructor
  · refine Machine.forall_traceOf_iff (I := fun _ => True) ?_ (fun _ _ _ _ _ _ _ => trivial)
      (.init hinit) trivial hrun
    intro p a p' hp _ hstep
    obtain ⟨hexplains, hwithin⟩ := StoredUnder.explains_of_reachable hcodes hp
    exact (hexplains.step hcodes hwithin hstep).1
  · intro u hu
    obtain ⟨q, a, q', hq, hstep, hobs⟩ := Machine.exists_of_mem_traceOf (.init hinit) hrun hu
    obtain ⟨hexplains, hwithin⟩ := StoredUnder.explains_of_reachable hcodes hq
    exact (hexplains.step hcodes hwithin hstep).2.1 u hobs

/-- Two sessions with two filters, while one frame stays on the stack. -/
def twoSessions (filterFunc : Filter) (fCode : UInt64) : List ThreadAction :=
  [.setTracing nestedFilter 4, .event (.call 0x20 (frameAt 0x2000 0x5000)),
    .event (.call 0x20 (frameAt 0x2100 0x5002)), .event (.ret 0x20), .unsetTracing,
    .setTracing filterFunc 4, .event (.call 0x20 (frameAt 0x2200 fCode))]

/-- The second session calls a function of its own, which is logged at the level 2. -/
theorem levels_current_iff_otherCode :
    ∃ p, (storingMachine 7 {0x20} {0x5000, 0x5001, 0x5002}).exec
        (untracedThread, StoredUnder.none) (twoSessions (fun _ => .int 2) 0x5001) = some p ∧
      ((storingMachine 7 {0x20} {0x5000, 0x5001, 0x5002}).traceOf
        (fun p => p.1.levelUse 7 {0x20}) (untracedThread, StoredUnder.none)
        (twoSessions (fun _ => .int 2) 0x5001)).map LevelUse.logged =
          [some 4, some 4, some 4, some 2] ∧
      ∀ u ∈ (storingMachine 7 {0x20} {0x5000, 0x5001, 0x5002}).traceOf
          (fun p => p.1.levelUse 7 {0x20}) (untracedThread, StoredUnder.none)
          (twoSessions (fun _ => .int 2) 0x5001), u.Current ∧ u.Followed := by
  have hrun : (((storingMachine 7 {0x20} {0x5000, 0x5001, 0x5002}).restrict
      (FindsCurrent 7 {0x20})).exec (untracedThread, StoredUnder.none)
        (twoSessions (fun _ => .int 2) 0x5001)).isSome = true := by
    decide +kernel
  obtain ⟨p, hp⟩ := Option.isSome_iff_exists.mp hrun
  have hexec := Machine.exec_of_restrict hp
  have hcodes : Set.InjOn lowInt (({0x5000, 0x5001, 0x5002} : Finset UInt64) : Set UInt64) :=
    Finset.card_image_iff.mp (by decide)
  obtain ⟨hiff, hfollowed⟩ := levels_current_iff hcodes
    ⟨⟨untracedThread_init 7 {0x20}, by decide⟩, rfl⟩ hexec
  exact ⟨p, hexec, by decide +kernel, fun u hu => ⟨hiff.mpr hp u hu, hfollowed u hu⟩⟩

/-- **A level from an earlier session.**  The filter of the second session gives every code
object the level 2; the function the first session has traced at level 4 is logged at that. -/
theorem stale_level :
    ¬ ∀ (id : UInt64) (gids codes : Finset UInt64), Set.InjOn lowInt (codes : Set UInt64) →
      ∀ (p p' : Thread × StoredUnder) (acts : List ThreadAction),
      (storingMachine id gids codes).init p →
      (storingMachine id gids codes).exec p acts = some p' →
      ∀ u ∈ (storingMachine id gids codes).traceOf (fun p => p.1.levelUse id gids) p acts,
        ∀ level ∈ u.logged, level = u.current := by
  intro h
  have hrun : ((storingMachine 7 {0x20} {0x5000, 0x5001, 0x5002}).exec
      (untracedThread, StoredUnder.none) (twoSessions (fun _ => .int 2) 0x5002)).isSome =
        true := by
    decide +kernel
  have hstale : ((storingMachine 7 {0x20} {0x5000, 0x5001, 0x5002}).traceOf
      (fun p => p.1.levelUse 7 {0x20}) (untracedThread, StoredUnder.none)
      (twoSessions (fun _ => .int 2) 0x5002)).any
        (fun u => u.logged = some 4 ∧ u.current = 2) = true := by
    decide +kernel
  obtain ⟨p, hp⟩ := Option.isSome_iff_exists.mp hrun
  obtain ⟨u, hu, hlevels⟩ := List.any_eq_true.mp hstale
  obtain ⟨hlogged, hcurrent⟩ := of_decide_eq_true hlevels
  have hright := h 7 {0x20} {0x5000, 0x5001, 0x5002} (Finset.card_image_iff.mp (by decide)) _ p _
    ⟨⟨untracedThread_init 7 {0x20}, by decide⟩, rfl⟩ hp u hu 4 hlogged
  rw [hcurrent] at hright
  exact absurd hright (by decide)

end InfiTracing
