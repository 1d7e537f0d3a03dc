import InfiTracing.Framework.Machine
import InfiTracing.ThreadStorage

/-!
# Whose storage `find_gstorage` returns

Every sequence of `find_gstorage`, `new_gstorage` and `del_gstorage` in which a storage is
created only for a greenlet that has not been found.  Beside it stands which storages have been
created, for which greenlet, and not been deleted yet; what `find_gstorage(gid)` is to return is
the one created for that `gid`.

A greenlet id is a `long`, and the map is used through the `_INT` macros, which compare the
first `sizeof(int)` bytes of the key.  `gstorage_right_iff` is what this comes to: a storage is
found for its own greenlet exactly if no greenlet whose id has the same low half has a storage,
at each call and so in a run.  `gstorage_shared` is a run in which a greenlet is given the
storage of another.
-/

namespace InfiTracing

open Framework

/-! ## Runs of calls -/

/-- A call of one of the three methods. -/
inductive StorageCall
  | findGstorage (gid : UInt64)
  | newGstorage (gid : UInt64)
  | delGstorage (ptr : ℕ)

/-- A storage is created for a greenlet that is not found, and a live one is deleted. -/
def ThreadStorage.storageStep (t : ThreadStorage) : StorageCall → Option ThreadStorage
  | .findGstorage _ => some t
  | .newGstorage gid => if t.findGstorage gid = none then some (t.newGstorage gid).2 else none
  | .delGstorage ptr => if (t.heap ptr).isSome then some (t.delGstorage ptr) else none

/-- The runs of such calls on a new `ThreadStorage`. -/
def storageMachine : Machine ThreadStorage StorageCall where
  init t := ∃ id traceLevelLruCapacity, t = .create id traceLevelLruCapacity
  step := ThreadStorage.storageStep

/-- The storages created and not deleted yet, each with the greenlet it was created for. -/
abbrev Owners := List (UInt64 × ℕ)

/-- The owners after one more call. -/
def Owners.record (t : ThreadStorage) : StorageCall → Owners → Owners
  | .findGstorage _, owners => owners
  | .newGstorage gid, owners => owners ++ [(gid, (t.newGstorage gid).1)]
  | .delGstorage ptr, owners => owners.filter (·.2 ≠ ptr)

/-- The storage of a greenlet, or `NULL`. -/
def Owners.storageOf (owners : Owners) (gid : UInt64) : Option ℕ :=
  (owners.find? (·.1 = gid)).map Prod.snd

/-- No other greenlet whose id has the same low half has a storage. -/
def Owners.aloneUnderKey (owners : Owners) (gid : UInt64) : Prop :=
  ∀ p ∈ owners, lowInt p.1 = lowInt gid → p.1 = gid

instance (owners : Owners) (gid : UInt64) : Decidable (owners.aloneUnderKey gid) :=
  inferInstanceAs (Decidable (∀ p ∈ owners, _))

/-- The runs, with the owners. -/
def recordedStorage : Machine (ThreadStorage × Owners) StorageCall :=
  storageMachine.withHistory [] Owners.record

/-- What a call shows: what `find_gstorage` is to return, and what it returns. -/
def findAnswer (s : ThreadStorage × Owners) : StorageCall → Option (Option ℕ × Option ℕ)
  | .findGstorage gid => some (s.2.storageOf gid, s.1.findGstorage gid)
  | _ => none

/-- The greenlet looked for is alone under its key. -/
def findsOwn (s : ThreadStorage × Owners) : StorageCall → Prop
  | .findGstorage gid => s.2.aloneUnderKey gid
  | _ => True

instance (s : ThreadStorage × Owners) (call : StorageCall) : Decidable (findsOwn s call) := by
  cases call <;> unfold findsOwn <;> infer_instance

/-! ## The invariant -/

/-- The map links each owned storage under the key of its owner, one under a key. -/
structure Maps (t : ThreadStorage) (owners : Owners) : Prop where
  items : t.gidMap.items = owners.map fun p => ⟨p.2, lowInt p.1⟩
  unique : ∀ p ∈ owners, ∀ q ∈ owners, lowInt p.1 = lowInt q.1 → p = q
  fresh : ∀ p ∈ owners, p.2 < t.fresh
  nodup : (owners.map Prod.snd).Nodup

section Maps

variable {t t' : ThreadStorage} {owners : Owners} {gid : UInt64} {ptr : ℕ}

lemma maps_create (id : UInt64) (capacity : ℕ) : Maps (.create id capacity) [] := by
  constructor <;> simp [ThreadStorage.create]

/-- What is found is the storage owned under the key. -/
lemma Maps.findGstorage_eq_some_iff (hm : Maps t owners) :
    t.findGstorage gid = some ptr ↔ ∃ p ∈ owners, lowInt p.1 = lowInt gid ∧ p.2 = ptr := by
  constructor
  · intro hfind
    have hitem := UtHash.mem_items_of_hashFind hfind
    rw [hm.items] at hitem
    obtain ⟨p, hp, heq⟩ := List.mem_map.mp hitem
    exact ⟨p, hp, congrArg UtHandle.key heq, congrArg UtHandle.element heq⟩
  · rintro ⟨p, hp, hkey, rfl⟩
    have hitem : ⟨p.2, lowInt gid⟩ ∈ t.gidMap.items := by
      rw [hm.items]
      exact List.mem_map.mpr ⟨p, hp, by rw [hkey]⟩
    cases hfind : t.gidMap.hashFind (lowInt gid) with
    | none => exact absurd rfl (UtHash.hashFind_eq_none_iff.mp hfind _ hitem)
    | some ptr' =>
        have hitem' := UtHash.mem_items_of_hashFind hfind
        rw [hm.items] at hitem'
        obtain ⟨q, hq, heq⟩ := List.mem_map.mp hitem'
        have hpq := hm.unique p hp q hq (hkey.trans (congrArg UtHandle.key heq).symm)
        rw [ThreadStorage.findGstorage, hfind, hpq]
        exact congrArg some (congrArg UtHandle.element heq).symm

lemma Maps.storageOf_eq_some_iff (hm : Maps t owners) :
    owners.storageOf gid = some ptr ↔ (gid, ptr) ∈ owners := by
  rw [Owners.storageOf, Option.map_eq_some_iff]
  constructor
  · rintro ⟨p, hfind, rfl⟩
    have hgid : p.1 = gid := by simpa using List.find?_some hfind
    exact hgid ▸ List.mem_of_find?_eq_some hfind
  · intro hmem
    cases hfind : owners.find? (·.1 = gid) with
    | none => simpa using List.find?_eq_none.mp hfind _ hmem
    | some p =>
        have hgid : p.1 = gid := by simpa using List.find?_some hfind
        have hp := hm.unique p (List.mem_of_find?_eq_some hfind) _ hmem (by rw [hgid])
        exact ⟨p, rfl, by rw [hp]⟩

/-- **One lookup.**  The greenlet's own storage is found, or none if it has none, exactly if it is
alone under its key. -/
theorem Maps.find_right_iff (hm : Maps t owners) (gid : UInt64) :
    owners.storageOf gid = t.findGstorage gid ↔ owners.aloneUnderKey gid := by
  constructor
  · intro hright p hp hkey
    have hfind : t.findGstorage gid = some p.2 :=
      hm.findGstorage_eq_some_iff.mpr ⟨p, hp, hkey, rfl⟩
    have hown := hm.storageOf_eq_some_iff.mp (hright.trans hfind)
    exact congrArg Prod.fst (hm.unique p hp _ hown hkey)
  · intro halone
    apply Option.ext
    intro ptr
    rw [hm.storageOf_eq_some_iff, hm.findGstorage_eq_some_iff]
    constructor
    · exact fun hmem => ⟨_, hmem, rfl, rfl⟩
    · rintro ⟨p, hp, hkey, rfl⟩
      exact halone p hp hkey ▸ hp

/-- No storage has two owners. -/
lemma Maps.owner_eq (hm : Maps t owners) {gid' : UInt64} (hown : owners.storageOf gid = some ptr)
    (hown' : owners.storageOf gid' = some ptr) : gid = gid' := by
  have hmem := hm.storageOf_eq_some_iff.mp hown
  have hmem' := hm.storageOf_eq_some_iff.mp hown'
  exact congrArg Prod.fst (List.inj_on_of_nodup_map hm.nodup hmem hmem' rfl)

/-- **The invariant is kept by a call.** -/
lemma Maps.step (hm : Maps t owners) {call : StorageCall} (hstep : t.storageStep call = some t') :
    Maps t' (owners.record t call) := by
  cases call with
  | findGstorage gid =>
      rw [← Option.some.inj hstep]
      exact hm
  | newGstorage gid =>
      simp only [ThreadStorage.storageStep] at hstep
      split_ifs at hstep with hnone
      rw [← Option.some.inj hstep]
      have hkey : ∀ p ∈ owners, lowInt p.1 ≠ lowInt gid := by
        intro p hp heq
        have hfind := hm.findGstorage_eq_some_iff.mpr ⟨p, hp, heq, rfl⟩
        simp [hnone] at hfind
      refine ⟨?_, fun p hp q hq heq => ?_, fun p hp => ?_, ?_⟩
      · simp [Owners.record, ThreadStorage.newGstorage, hm.items]
      · rcases List.mem_append.mp hp with hp | hp <;> rcases List.mem_append.mp hq with hq | hq
        · exact hm.unique p hp q hq heq
        · rw [List.mem_singleton.mp hq] at heq
          exact absurd heq (hkey p hp)
        · rw [List.mem_singleton.mp hp] at heq
          exact absurd heq.symm (hkey q hq)
        · rw [List.mem_singleton.mp hp, List.mem_singleton.mp hq]
      · rcases List.mem_append.mp hp with hp | hp
        · exact (hm.fresh p hp).trans (Nat.lt_succ_self _)
        · rw [List.mem_singleton.mp hp]
          exact Nat.lt_succ_self _
      · rw [Owners.record, List.map_append, List.nodup_append]
        refine ⟨hm.nodup, by simp, fun x hx y hy => ?_⟩
        obtain ⟨p, hp, rfl⟩ := List.mem_map.mp hx
        have hlt := hm.fresh p hp
        simp only [ThreadStorage.newGstorage, List.map_cons, List.map_nil,
          List.mem_singleton] at hy
        omega
  | delGstorage ptr =>
      simp only [ThreadStorage.storageStep] at hstep
      split_ifs at hstep with hlive
      rw [← Option.some.inj hstep]
      refine ⟨?_, fun p hp q hq => ?_, fun p hp => ?_, ?_⟩
      · rw [ThreadStorage.delGstorage, UtHash.items_hashDelete, hm.items, List.filter_map,
          Owners.record]
        rfl
      · exact hm.unique p (List.mem_of_mem_filter hp) q (List.mem_of_mem_filter hq)
      · exact hm.fresh p (List.mem_of_mem_filter hp)
      · exact hm.nodup.sublist (List.filter_sublist.map Prod.snd)

end Maps

/-! ## The law of a run -/

lemma maps_of_reachable {s : ThreadStorage × Owners} (hs : recordedStorage.Reachable s) :
    Maps s.1 s.2 := by
  refine hs.invariant (I := fun s => Maps s.1 s.2) (fun s hinit => ?_)
    (fun s call s' _ hm hstep => ?_)
  · obtain ⟨⟨id, capacity, hcreate⟩, howners⟩ := hinit
    rw [hcreate, howners]
    exact maps_create id capacity
  · obtain ⟨hnext, hrecord⟩ := Machine.withHistory_step_eq_some.mp hstep
    rw [hrecord]
    exact hm.step hnext

/-- **Whose storage is found.**  In every state reached, for every id, `find_gstorage` returns the
storage created for it and not yet deleted, or `NULL` if there is none, exactly if no other
greenlet whose id has the same low half has a storage; all lookups of a run are answered so
exactly if each is made in such a state; and greenlets that are answered so do not share a
storage. -/
theorem gstorage_right_iff {s₀ s : ThreadStorage × Owners} (hinit : recordedStorage.init s₀)
    {calls : List StorageCall} (hrun : recordedStorage.exec s₀ calls = some s) :
    (∀ gid, s.2.storageOf gid = s.1.findGstorage gid ↔ s.2.aloneUnderKey gid) ∧
      ((∀ answer ∈ recordedStorage.traceOf findAnswer s₀ calls, answer.1 = answer.2) ↔
        (recordedStorage.restrict findsOwn).exec s₀ calls = some s) ∧
      ∀ gid gid' ptr, s.2.aloneUnderKey gid → s.2.aloneUnderKey gid' →
        s.1.findGstorage gid = some ptr → s.1.findGstorage gid' = some ptr → gid = gid' := by
  have hm := maps_of_reachable (Machine.reachable_of_exec hinit hrun)
  refine ⟨hm.find_right_iff, ?_, fun gid gid' ptr halone halone' hfind hfind' => ?_⟩
  · refine Machine.forall_traceOf_iff (I := fun _ => True) (fun s call s' hs _ _ => ?_)
      (fun _ _ _ _ _ _ _ => trivial) (.init hinit) trivial hrun
    cases call with
    | findGstorage gid =>
        simpa [findAnswer, findsOwn] using (maps_of_reachable hs).find_right_iff gid
    | newGstorage gid => simp [findAnswer, findsOwn]
    | delGstorage ptr => simp [findAnswer, findsOwn]
  · rw [← (hm.find_right_iff gid).mpr halone] at hfind
    rw [← (hm.find_right_iff gid').mpr halone'] at hfind'
    exact hm.owner_eq hfind hfind'

/-- Two greenlets get storages, and the first one's is deleted. -/
def twoOwners : List StorageCall :=
  [.newGstorage 0x10, .newGstorage 0x20, .findGstorage 0x10, .findGstorage 0x20, .delGstorage 0,
    .findGstorage 0x10, .findGstorage 0x20]

theorem gstorage_right_iff_deleted :
    ∃ s, recordedStorage.exec (.create 7 4, []) twoOwners = some s ∧
      recordedStorage.traceOf findAnswer (.create 7 4, []) twoOwners =
        [(some 0, some 0), (some 1, some 1), (none, none), (some 1, some 1)] ∧
      (recordedStorage.restrict findsOwn).exec (.create 7 4, []) twoOwners = some s ∧
      s.2.aloneUnderKey 0x20 := by
  have hrun : (recordedStorage.exec (.create 7 4, []) twoOwners).any
      (fun s => s.2.storageOf 0x20 = s.1.findGstorage 0x20) = true := by decide +kernel
  have htrace : recordedStorage.traceOf findAnswer (.create 7 4, []) twoOwners =
      [(some 0, some 0), (some 1, some 1), (none, none), (some 1, some 1)] := by decide +kernel
  obtain ⟨s, hs, hfound⟩ := (Option.any_eq_true _ _).mp hrun
  obtain ⟨hstate, hanswers, -⟩ := gstorage_right_iff ⟨⟨7, 4, rfl⟩, rfl⟩ hs
  refine ⟨s, hs, htrace, hanswers.mp ?_, (hstate 0x20).mp (of_decide_eq_true hfound)⟩
  rw [htrace]
  decide

/-- **A shared storage.**  The second greenlet's id differs from the first one's in its high half:
it has no storage, and is given the first one's. -/
theorem gstorage_shared :
    ¬ ∀ (s₀ s : ThreadStorage × Owners) (calls : List StorageCall), recordedStorage.init s₀ →
      recordedStorage.exec s₀ calls = some s →
      ∀ answer ∈ recordedStorage.traceOf findAnswer s₀ calls, answer.1 = answer.2 := by
  intro hall
  have hrun : (recordedStorage.exec (.create 7 4, []) [.newGstorage 0x7f1000002000,
      .findGstorage 0x7f2000002000]).isSome := by decide +kernel
  have htrace : recordedStorage.traceOf findAnswer (.create 7 4, [])
      [.newGstorage 0x7f1000002000, .findGstorage 0x7f2000002000] = [(none, some 0)] := by
    decide +kernel
  obtain ⟨s, hs⟩ := Option.isSome_iff_exists.mp hrun
  have hright := hall _ s _ ⟨⟨7, 4, rfl⟩, rfl⟩ hs (none, some 0) (by rw [htrace]; simp)
  exact absurd hright (by decide)

end InfiTracing
