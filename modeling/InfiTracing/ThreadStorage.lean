import InfiTracing.Lru

/-!
# `ThreadStorage` and its `GreenletStorage`s

`thread_storage.h`: what a thread keeps for the trace function, and for each of its greenlets.
The storages of the greenlets live on a heap that never uses a pointer twice, so that a pointer
is the storage it was allocated for, and a deleted storage can be told from a live one.

The map from greenlet ids to storages is keyed by the low half of an id.  `ThreadStorage.Linked`
is the invariant for ids that differ there, and under it the map is a partial function from ids
to storages (`storageOf`), which the operations change at one id only.
-/

namespace InfiTracing

/-- `NO_TRACE_FROM_DEPTH_DISABLED`. -/
def noTraceFromDepthDisabled : ℤ := 314159

/-- The class `GreenletStorage`, less the members that nothing reads. -/
structure GreenletStorage where
  gid : UInt64
  depth : ℤ
  noTraceFromDepth : ℤ
  traceLevelLru : Lru

/-- The constructor of `GreenletStorage`. -/
def GreenletStorage.create (gid : UInt64) (traceLevelLruCapacity : ℕ) : GreenletStorage where
  gid := gid
  depth := -1
  noTraceFromDepth := noTraceFromDepthDisabled
  traceLevelLru := .create traceLevelLruCapacity

/-- The class `ThreadStorage`, and the heap its `GreenletStorage`s are on. -/
structure ThreadStorage where
  id : UInt64
  enabled : ℤ
  lastFrame : UInt64
  lastGid : UInt64
  lastGstorage : Option ℕ
  gidMap : UtHash ℕ
  traceLevelLruCapacity : ℕ
  heap : ℕ → Option GreenletStorage
  /-- The first pointer not used yet. -/
  fresh : ℕ

namespace ThreadStorage

/-- The constructor of `ThreadStorage`. -/
def create (id : UInt64) (traceLevelLruCapacity : ℕ) : ThreadStorage where
  id := id
  enabled := 1
  lastFrame := 0
  lastGid := -1
  lastGstorage := none
  gidMap := none
  traceLevelLruCapacity := traceLevelLruCapacity
  heap _ := none
  fresh := 0

/-- `find_gstorage(gid)`. -/
def findGstorage (t : ThreadStorage) (gid : UInt64) : Option ℕ :=
  t.gidMap.hashFind (lowInt gid)

/-- `new_gstorage(gid)`. -/
def newGstorage (t : ThreadStorage) (gid : UInt64) : ℕ × ThreadStorage :=
  (t.fresh, { t with
    heap := Function.update t.heap t.fresh (some (.create gid t.traceLevelLruCapacity))
    fresh := t.fresh + 1
    gidMap := t.gidMap.hashAdd t.fresh (lowInt gid) })

/-- `del_gstorage(ptr)`. -/
def delGstorage (t : ThreadStorage) (ptr : ℕ) : ThreadStorage :=
  { t with
    gidMap := t.gidMap.hashDelete ptr
    heap := Function.update t.heap ptr none }

/-- Assignments to members of `*ptr`. -/
def assign (t : ThreadStorage) (ptr : ℕ) (gstore : GreenletStorage) : ThreadStorage :=
  { t with heap := Function.update t.heap ptr (some gstore) }

/-- The storage of a greenlet, if it has one. -/
def storageOf (t : ThreadStorage) (gid : UInt64) : Option GreenletStorage :=
  (t.findGstorage gid).bind t.heap

/-! ## The map of greenlets -/

/-- Every linked storage is on the heap under a pointer already used, belongs to one of the
greenlets `gids` and is linked under its id; and no two are linked under one key. -/
structure Linked (gids : Set UInt64) (t : ThreadStorage) : Prop where
  storage : ∀ h ∈ t.gidMap.items, ∃ gstore, t.heap h.element = some gstore ∧
    gstore.gid ∈ gids ∧ h.key = lowInt gstore.gid
  unique : ∀ h ∈ t.gidMap.items, ∀ h' ∈ t.gidMap.items, h.key = h'.key → h = h'
  used : ∀ h ∈ t.gidMap.items, h.element < t.fresh

lemma linked_create (gids : Set UInt64) (id : UInt64) (capacity : ℕ) :
    (create id capacity).Linked gids := by
  constructor <;> simp [create]

@[simp] lemma storageOf_create (id : UInt64) (capacity : ℕ) (gid : UInt64) :
    (create id capacity).storageOf gid = none := rfl

/-- A greenlet keeps its storage where the map and the heap keep it. -/
lemma storageOf_congr {t t' : ThreadStorage} {gid : UInt64}
    (hfind : t'.findGstorage gid = t.findGstorage gid)
    (hheap : ∀ ptr, t.findGstorage gid = some ptr → t'.heap ptr = t.heap ptr) :
    t'.storageOf gid = t.storageOf gid := by
  unfold storageOf
  rw [hfind]
  cases hfound : t.findGstorage gid with
  | none => rfl
  | some ptr => exact hheap ptr hfound

/-- The members the map does not depend on can be changed. -/
lemma Linked.congr {gids : Set UInt64} {t t' : ThreadStorage} (ht : t.Linked gids)
    (hmap : t'.gidMap = t.gidMap) (hheap : t'.heap = t.heap) (hfresh : t'.fresh = t.fresh) :
    t'.Linked gids := by
  constructor
  · simpa only [hmap, hheap] using ht.storage
  · simpa only [hmap] using ht.unique
  · simpa only [hmap, hfresh] using ht.used

section Linked

variable {gids : Set UInt64} {t : ThreadStorage} {gid : UInt64} {ptr : ℕ}

lemma Linked.findGstorage_eq_some_iff (ht : t.Linked gids) :
    t.findGstorage gid = some ptr ↔ ⟨ptr, lowInt gid⟩ ∈ t.gidMap.items := by
  refine ⟨UtHash.mem_items_of_hashFind, fun hmem => ?_⟩
  cases hfind : t.gidMap.hashFind (lowInt gid) with
  | none => exact absurd rfl (UtHash.hashFind_eq_none_iff.mp hfind _ hmem)
  | some ptr' =>
      have heq := ht.unique _ (UtHash.mem_items_of_hashFind hfind) _ hmem rfl
      exact hfind.trans (congrArg (fun h => some h.element) heq)

lemma Linked.element_inj (ht : t.Linked gids) {h h' : UtHandle ℕ} (hh : h ∈ t.gidMap.items)
    (hh' : h' ∈ t.gidMap.items) (heq : h.element = h'.element) : h = h' := by
  obtain ⟨gstore, hheap, -, hkey⟩ := ht.storage h hh
  obtain ⟨gstore', hheap', -, hkey'⟩ := ht.storage h' hh'
  obtain rfl : gstore = gstore' := Option.some.inj (by rw [← hheap, ← hheap', heq])
  exact ht.unique h hh h' hh' (hkey.trans hkey'.symm)

variable (hgids : Set.InjOn lowInt gids)

include hgids

/-- What is found for a greenlet is a storage, and its own. -/
lemma Linked.exists_of_find (ht : t.Linked gids) (hgid : gid ∈ gids)
    (hfind : t.findGstorage gid = some ptr) :
    ∃ gstore, t.heap ptr = some gstore ∧ gstore.gid = gid := by
  obtain ⟨gstore, hheap, hmem, hkey⟩ := ht.storage _ (ht.findGstorage_eq_some_iff.mp hfind)
  exact ⟨gstore, hheap, (hgids hgid hmem hkey).symm⟩

/-- Two greenlets never share a storage. -/
lemma Linked.find_inj (ht : t.Linked gids) {gid' : UInt64} (hgid : gid ∈ gids)
    (hgid' : gid' ∈ gids) (hfind : t.findGstorage gid = some ptr)
    (hfind' : t.findGstorage gid' = some ptr) : gid = gid' := by
  have heq := ht.element_inj (ht.findGstorage_eq_some_iff.mp hfind)
    (ht.findGstorage_eq_some_iff.mp hfind') rfl
  exact hgids hgid hgid' (congrArg UtHandle.key heq)

/-- **The law of `new_gstorage`** for a greenlet that has no storage. -/
theorem Linked.newGstorage (ht : t.Linked gids) (hgid : gid ∈ gids)
    (hnone : t.findGstorage gid = none) :
    (t.newGstorage gid).2.Linked gids ∧
      (t.newGstorage gid).2.findGstorage gid = some (t.newGstorage gid).1 ∧
      (t.newGstorage gid).2.heap (t.newGstorage gid).1 =
        some (.create gid t.traceLevelLruCapacity) ∧
      ∀ gid' ∈ gids, gid' ≠ gid →
        (t.newGstorage gid).2.storageOf gid' = t.storageOf gid' := by
  have hold : ∀ h ∈ t.gidMap.items, h.element ≠ t.fresh := fun h hh => (ht.used h hh).ne
  have hkey := UtHash.hashFind_eq_none_iff.mp hnone
  have hitems : ∀ h, h ∈ (t.newGstorage gid).2.gidMap.items ↔
      h ∈ t.gidMap.items ∨ h = ⟨t.fresh, lowInt gid⟩ := by
    intro h
    simp [ThreadStorage.newGstorage]
  have hheap : ∀ h ∈ t.gidMap.items,
      (t.newGstorage gid).2.heap h.element = t.heap h.element := fun h hh => by
    simp [ThreadStorage.newGstorage, hold h hh]
  have hlinked : (t.newGstorage gid).2.Linked gids := by
    refine ⟨fun h hh => ?_, fun h hh h' hh' heq => ?_, fun h hh => ?_⟩
    · rcases (hitems h).mp hh with hh | rfl
      · rw [hheap h hh]
        exact ht.storage h hh
      · exact ⟨.create gid t.traceLevelLruCapacity, by simp [ThreadStorage.newGstorage], hgid, rfl⟩
    · rcases (hitems h).mp hh with hh | rfl <;> rcases (hitems h').mp hh' with hh' | rfl
      · exact ht.unique h hh h' hh' heq
      · exact absurd heq (hkey h hh)
      · exact absurd heq.symm (hkey h' hh')
      · rfl
    · rcases (hitems h).mp hh with hh | rfl
      · exact (ht.used h hh).trans (Nat.lt_succ_self _)
      · exact Nat.lt_succ_self _
  refine ⟨hlinked, hlinked.findGstorage_eq_some_iff.mpr ((hitems _).mpr (.inr rfl)),
    by simp [ThreadStorage.newGstorage], fun gid' hgid' hne => ?_⟩
  refine storageOf_congr (Option.ext fun ptr' => ?_) fun ptr' hfound =>
    hheap _ (ht.findGstorage_eq_some_iff.mp hfound)
  rw [hlinked.findGstorage_eq_some_iff, ht.findGstorage_eq_some_iff, hitems]
  refine or_iff_left fun heq => hne ?_
  exact hgids hgid' hgid (congrArg UtHandle.key heq)

/-- **The law of an assignment** to members of a greenlet's storage. -/
theorem Linked.assign (ht : t.Linked gids) (hgid : gid ∈ gids)
    (hfind : t.findGstorage gid = some ptr) {gstore : GreenletStorage} (hown : gstore.gid = gid) :
    (t.assign ptr gstore).Linked gids ∧ (t.assign ptr gstore).storageOf gid = some gstore ∧
      ∀ gid' ∈ gids, gid' ≠ gid →
        (t.assign ptr gstore).storageOf gid' = t.storageOf gid' := by
  have hmem := ht.findGstorage_eq_some_iff.mp hfind
  refine ⟨⟨fun h hh => ?_, ht.unique, ht.used⟩, ?_, fun gid' hgid' hne => ?_⟩
  · by_cases heq : h.element = ptr
    · obtain rfl := ht.element_inj hh hmem heq
      exact ⟨gstore, by simp [ThreadStorage.assign], hown ▸ hgid, by rw [hown]⟩
    · simpa [ThreadStorage.assign, heq] using ht.storage h hh
  · change (t.findGstorage gid).bind _ = _
    simp [hfind, ThreadStorage.assign]
  · refine storageOf_congr rfl fun ptr' hfound => ?_
    have hptr : ptr' ≠ ptr := by
      rintro rfl
      exact hne (ht.find_inj hgids hgid' hgid hfound hfind)
    simp [ThreadStorage.assign, hptr]

/-- **The law of `del_gstorage`.** -/
theorem Linked.delGstorage (ht : t.Linked gids) (hgid : gid ∈ gids)
    (hfind : t.findGstorage gid = some ptr) :
    (t.delGstorage ptr).Linked gids ∧ (t.delGstorage ptr).storageOf gid = none ∧
      ∀ gid' ∈ gids, gid' ≠ gid →
        (t.delGstorage ptr).storageOf gid' = t.storageOf gid' := by
  have hmem := ht.findGstorage_eq_some_iff.mp hfind
  have hitems : ∀ h, h ∈ (t.delGstorage ptr).gidMap.items ↔
      h ∈ t.gidMap.items ∧ h.element ≠ ptr := by
    intro h
    simp [ThreadStorage.delGstorage]
  have hlinked : (t.delGstorage ptr).Linked gids := by
    refine ⟨fun h hh => ?_, fun h hh h' hh' => ?_, fun h hh => ?_⟩
    · obtain ⟨hh, hne⟩ := (hitems h).mp hh
      simpa [ThreadStorage.delGstorage, hne] using ht.storage h hh
    · exact ht.unique h ((hitems h).mp hh).1 h' ((hitems h').mp hh').1
    · exact ht.used h ((hitems h).mp hh).1
  refine ⟨hlinked, ?_, fun gid' hgid' hne => ?_⟩
  · suffices hnone : (t.delGstorage ptr).findGstorage gid = none by
      rw [storageOf, hnone]
      rfl
    rw [findGstorage, UtHash.hashFind_eq_none_iff]
    intro h hh hkey
    obtain ⟨hh, hptr⟩ := (hitems h).mp hh
    exact hptr (congrArg UtHandle.element (ht.unique h hh _ hmem hkey))
  · have hptr : ∀ ptr', t.findGstorage gid' = some ptr' → ptr' ≠ ptr := by
      rintro ptr' hfound rfl
      exact hne (ht.find_inj hgids hgid' hgid hfound hfind)
    refine storageOf_congr (Option.ext fun ptr' => ?_) fun ptr' hfound => by
      simp [ThreadStorage.delGstorage, hptr ptr' hfound]
    rw [hlinked.findGstorage_eq_some_iff, hitems, ← ht.findGstorage_eq_some_iff]
    exact and_iff_left_of_imp (hptr ptr')

end Linked

end ThreadStorage

end InfiTracing
