import InfiTracing.Greenlet.Suspension

/-!
# A thread from one session to the next

`set_tracing` installs the profile function with a filter, `unset_tracing` removes it, and in
between the interpreter reports calls and returns to it.  What the profile function keeps is in
the thread's storage, which `get_thread_storage` allocates the first time it is asked for and
which stays for as long as the thread does: neither call touches it.

While no profile function is set, the greenlets go on unseen.
-/

namespace InfiTracing

open Framework

/-- The statics of `thread_storage.cpp`, the thread's profile function and its storage, and the
stacks of its greenlets. -/
structure Thread where
  /-- The `filter_func` of the profile function, where one is set. -/
  profile : Option Filter
  traceLevelLruCapacity : ℕ
  /-- Whether `storage_key_once` has been gone through. -/
  storageKeyOnce : Bool
  /-- `pthread_getspecific(storage_key)`. -/
  tstore : Option ThreadStorage
  stackOf : Stacks

namespace Thread

/-- `get_thread_storage()`, on the thread `id`. -/
def getThreadStorage (id : UInt64) (th : Thread) : ThreadStorage :=
  th.tstore.getD (.create id th.traceLevelLruCapacity)

/-- `set_tracing(filter_func, trace_level_lru_capacity)`, which is `ctracing_set_profile`. -/
def setTracing (th : Thread) (filterFunc : Filter) (traceLevelLruCapacity : ℕ) : Thread :=
  { th with
    profile := some filterFunc
    traceLevelLruCapacity := traceLevelLruCapacity
    storageKeyOnce := true }

/-- `unset_tracing()`. -/
def unsetTracing (th : Thread) : Thread := { th with profile := none }

end Thread

/-- The stack after an event that no profile function has seen. -/
def Occurrence.unseen (o : Occurrence) : List Activation :=
  if o.what = .ret then o.below else ⟨o.frame, none⟩ :: o.below

lemma Occurrence.map_frame_unseen (o : Occurrence) (logged : Bool) :
    o.unseen.map Activation.frame = (o.after logged).map Activation.frame := by
  unfold Occurrence.unseen Occurrence.after
  split_ifs <;> rfl

/-- What happens next on the thread. -/
inductive ThreadAction
  | setTracing (filterFunc : Filter) (traceLevelLruCapacity : ℕ)
  | unsetTracing
  | event (e : GreenletEvent)
  | suspend
  | resume

/-- An event on the thread: it is reported to the profile function, if there is one. -/
def Thread.event (id : UInt64) (th : Thread) (o : Occurrence) :
    Option (Thread × Option LogRecord) :=
  match th.profile with
  | none => some ({ th with stackOf := Function.update th.stackOf o.gid o.unseen }, none)
  | some filterFunc => do
      let (tstore, record) ←
        greenletTraceFunc filterFunc o.gid (th.getThreadStorage id) o.frame o.back o.what
      some ({ th with
        tstore := some tstore
        stackOf := Function.update th.stackOf o.gid (o.after record.isSome) }, record)

/-- The thread `id`, from before it is traced for the first time. -/
def threadMachine (id : UInt64) (gids : Finset UInt64) : Machine Thread ThreadAction where
  init th := th.profile = none ∧ th.traceLevelLruCapacity = 256 ∧ th.storageKeyOnce = false ∧
    th.tstore = none ∧ th.stackOf.Apart gids ∧
    ∀ gid ∈ gids, ∀ x ∈ th.stackOf gid, x.callLogged = none
  step th a :=
    match a with
    | .setTracing filterFunc traceLevelLruCapacity =>
        some (th.setTracing filterFunc traceLevelLruCapacity)
    | .unsetTracing => some th.unsetTracing
    | .event e => do
        let o ← occurs gids th.stackOf e
        let (th, _) ← th.event id o
        some th
    | .suspend =>
        -- before the key has been created there is nothing to ask for the storage
        if th.storageKeyOnce then
          some { th with tstore := some (th.getThreadStorage id).suspend } else none
    | .resume =>
        if th.storageKeyOnce then
          some { th with tstore := some (th.getThreadStorage id).resume } else none

section Machine

variable {id : UInt64} {gids : Finset UInt64} {th th' : Thread}

/-- **What an action does to the thread's storage.**  It stays as it is, at an event no profile
function sees as well; the trace function runs on it; or its counter is moved. -/
lemma threadMachine_step_cases {a : ThreadAction}
    (h : (threadMachine id gids).step th a = some th') :
    ((∀ e, a ≠ .event e) ∧ th'.tstore = th.tstore) ∨
    (∃ e o, a = .event e ∧ occurs gids th.stackOf e = some o ∧ th.profile = none ∧
      th' = { th with stackOf := Function.update th.stackOf o.gid o.unseen }) ∨
    (∃ e o filterFunc tstore record, a = .event e ∧ occurs gids th.stackOf e = some o ∧
      th.profile = some filterFunc ∧
      greenletTraceFunc filterFunc o.gid (th.getThreadStorage id) o.frame o.back o.what =
        some (tstore, record) ∧
      th' = { th with
        tstore := some tstore
        stackOf := Function.update th.stackOf o.gid (o.after record.isSome) }) ∨
    (∃ enabled, (∀ e, a ≠ .event e) ∧
      th' = { th with tstore := some { th.getThreadStorage id with enabled := enabled } }) := by
  cases a with
  | setTracing filterFunc traceLevelLruCapacity =>
      obtain rfl := Option.some.inj h
      exact .inl ⟨by simp, rfl⟩
  | unsetTracing =>
      obtain rfl := Option.some.inj h
      exact .inl ⟨by simp, rfl⟩
  | event e =>
      simp only [threadMachine, Option.bind_eq_bind, Option.bind_eq_some_iff, Option.some.injEq,
        Prod.exists] at h
      obtain ⟨o, ho, th'', record, hevent, rfl⟩ := h
      unfold Thread.event at hevent
      cases hprofile : th.profile with
      | none =>
          rw [hprofile] at hevent
          obtain ⟨rfl, -⟩ := Prod.mk.inj (Option.some.inj hevent)
          exact .inr (.inl ⟨e, o, rfl, ho, rfl, rfl⟩)
      | some filterFunc =>
          simp only [hprofile, Option.bind_eq_bind, Option.bind_eq_some_iff, Option.some.injEq,
            Prod.exists, Prod.mk.injEq] at hevent
          obtain ⟨tstore, record', htrace, rfl, rfl⟩ := hevent
          exact .inr (.inr (.inl ⟨e, o, filterFunc, tstore, record', rfl, ho, rfl, htrace, rfl⟩))
  | suspend =>
      obtain ⟨-, hs⟩ := Option.ite_none_right_eq_some.mp h
      exact .inr (.inr (.inr ⟨_, by simp, (Option.some.inj hs).symm⟩))
  | resume =>
      obtain ⟨-, hs⟩ := Option.ite_none_right_eq_some.mp h
      obtain ⟨enabled, henabled⟩ := (th.getThreadStorage id).resume_eq
      rw [← Option.some.inj hs, henabled]
      exact .inr (.inr (.inr ⟨enabled, by simp, rfl⟩))

end Machine

/-- A storage that has not been allocated yet has nothing on its heap, whatever its capacity. -/
lemma Thread.heap_getThreadStorage (id : UInt64) {th th' : Thread}
    (h : th'.tstore = th.tstore) :
    (th'.getThreadStorage id).heap = (th.getThreadStorage id).heap := by
  unfold Thread.getThreadStorage
  rw [h]
  cases th.tstore <;> rfl

/-- The frames on the stacks have code objects from `codes`. -/
def Thread.Within (gids codes : Finset UInt64) (th : Thread) : Prop :=
  ∀ gid ∈ gids, ∀ x ∈ th.stackOf gid, x.frame.fCode ∈ codes

instance (gids codes : Finset UInt64) : DecidablePred (Thread.Within gids codes) := fun _ =>
  Finset.decidableDforallFinset

/-- A code object of an event within bounds is one of those given. -/
lemma Thread.Within.occurrence {gids codes : Finset UInt64} {th : Thread}
    (hwithin : th.Within gids codes)
    {e : GreenletEvent} {o : Occurrence} (ho : occurs gids th.stackOf e = some o) {logged : Bool}
    (hafter : ∀ gid ∈ gids, ∀ x ∈ Function.update th.stackOf o.gid (o.after logged) gid,
      x.frame.fCode ∈ codes) : o.frame.fCode ∈ codes := by
  obtain ⟨hgid, ⟨hwhat, -, -, -⟩ | ⟨-, hstack⟩⟩ := occurs_cases ho
  · have hcode := hafter o.gid hgid
    simp only [Function.update_self, Occurrence.after, hwhat, reduceCtorEq, if_false,
      List.mem_cons, forall_eq_or_imp] at hcode
    exact hcode.1
  · exact hwithin o.gid hgid _ (hstack ▸ List.mem_cons_self)

/-- A thread before it is traced for the first time, with nothing on its stacks. -/
def untracedThread : Thread := ⟨none, 256, false, none, fun _ => []⟩

lemma untracedThread_init (id : UInt64) (gids : Finset UInt64) :
    (threadMachine id gids).init untracedThread :=
  ⟨rfl, rfl, rfl, rfl, by simp [Stacks.Apart, untracedThread], by simp [untracedThread]⟩

end InfiTracing
