import InfiTracing.Framework.TwoRuns
import InfiTracing.Greenlet.Levels

/-!
# `suspend` and `resume`

Both move `ThreadStorage::enabled`, and while it is not positive `greenlet_trace_func` counts the
depth of a greenlet but neither reads nor moves its threshold.  So a suspended run and the run of
the same events without any suspension share their depths, and not their thresholds: a call at
level `NO_TRACE_NESTED` made while suspended suppresses nothing after the resumption, and a
threshold set before a suspension can outlive the frame it was set for.

`suspension_masks_iff` compares the two runs event by event, and says which calls of
`NO_TRACE_NESTED` frames a suspension must not hide, and which of their returns, for it to mask
and do nothing else.
-/

namespace InfiTracing

open Framework

/-! ## Sessions with suspensions -/

/-- `suspend()`. -/
def ThreadStorage.suspend (tstore : ThreadStorage) : ThreadStorage :=
  { tstore with enabled := tstore.enabled - 1 }

/-- `resume()`. -/
def ThreadStorage.resume (tstore : ThreadStorage) : ThreadStorage :=
  if tstore.enabled ≤ 0 then { tstore with enabled := tstore.enabled + 1 } else tstore

/-- What a greenlet does next: call or return, or call `suspend()` or `resume()`. -/
inductive SessionAction
  | event (e : GreenletEvent)
  | suspend (gid : UInt64)
  | resume (gid : UInt64)

/-- The event, if the action is one. -/
def SessionAction.event? : SessionAction → Option GreenletEvent
  | .event e => some e
  | _ => none

/-- A session in which tracing is suspended and resumed. -/
def suspendableMachine (filterFunc : Filter) (traceLevelLruCapacity : ℕ) (gids : Finset UInt64) :
    Machine Session SessionAction where
  init := (sessionMachine filterFunc traceLevelLruCapacity gids).init
  step s a :=
    match a with
    | .event e => (sessionMachine filterFunc traceLevelLruCapacity gids).step s e
    | .suspend gid => if gid ∈ gids then some { s with tstore := s.tstore.suspend } else none
    | .resume gid => if gid ∈ gids then some { s with tstore := s.tstore.resume } else none

lemma ThreadStorage.resume_eq (t : ThreadStorage) :
    ∃ enabled, t.resume = { t with enabled := enabled } := by
  unfold ThreadStorage.resume
  split_ifs
  · exact ⟨_, rfl⟩
  · exact ⟨t.enabled, rfl⟩

section Machine

variable {filterFunc : Filter} {capacity : ℕ} {gids : Finset UInt64} {s s' : Session}

/-- An action that is no event moves the counter only. -/
lemma suspendableMachine_step_cases {a : SessionAction}
    (h : (suspendableMachine filterFunc capacity gids).step s a = some s') :
    (∃ e, a = .event e ∧ (sessionMachine filterFunc capacity gids).step s e = some s') ∨
      (a.event? = none ∧
        ∃ enabled, s' = { s with tstore := { s.tstore with enabled := enabled } }) := by
  cases a with
  | event e => exact .inl ⟨e, rfl, h⟩
  | suspend gid =>
      obtain ⟨-, hs⟩ := Option.ite_none_right_eq_some.mp h
      exact .inr ⟨rfl, _, (Option.some.inj hs).symm⟩
  | resume gid =>
      obtain ⟨-, hs⟩ := Option.ite_none_right_eq_some.mp h
      obtain ⟨enabled, henabled⟩ := s.tstore.resume_eq
      exact .inr ⟨rfl, enabled, by rw [← Option.some.inj hs, henabled]⟩

/-- The counter has no part in what is remembered. -/
lemma Session.Consistent.withEnabled (hs : s.Consistent gids) (enabled : ℤ) :
    Session.Consistent gids { s with tstore := { s.tstore with enabled := enabled } } :=
  ⟨hs.linked.congr rfl rfl rfl, hs.apart, hs.gid_mem, hs.gstorage, hs.frame⟩

theorem Session.consistent_of_suspendable (hgids : Set.InjOn lowInt (gids : Set UInt64))
    (hs : (suspendableMachine filterFunc capacity gids).Reachable s) : s.Consistent gids := by
  refine hs.invariant (I := Session.Consistent gids)
    (fun s (hinit : (sessionMachine filterFunc capacity gids).init s) => consistent_of_init hinit)
    fun s a s' _ hcons hstep => ?_
  rcases suspendableMachine_step_cases hstep with ⟨e, -, hstep⟩ | ⟨-, enabled, rfl⟩
  · exact hcons.step hgids hstep
  · exact hcons.withEnabled enabled

end Machine

lemma one_address_ne_zero : (1 : UInt64) ≠ 0 := by decide

/-- The frame at an address, which must not be null. -/
def frameAt (address fCode : UInt64) : Frame :=
  if h : address ≠ 0 then ⟨address, fCode, h⟩ else ⟨1, fCode, one_address_ne_zero⟩

/-- A thread with nothing on the stacks of its greenlets. -/
def idleThread : Session := ⟨.create 7 4, fun _ => []⟩

lemma idleThread_init (filterFunc : Filter) (gids : Finset UInt64) :
    (sessionMachine filterFunc 4 gids).init idleThread :=
  ⟨⟨7, rfl⟩, by simp [Stacks.Apart, idleThread], by simp [idleThread]⟩

/-! ## What two runs of the same events share -/

/-- What a run of the same events has in common with this one of a frame on a stack. -/
def Activation.seen (x : Activation) : Frame × Bool := (x.frame, x.callLogged.isSome)

/-- The stacks are the same, but for what has been logged. -/
def Stacks.Same (gids : Finset UInt64) (stackOf stackOf' : Stacks) : Prop :=
  ∀ gid ∈ gids, (stackOf gid).map Activation.seen = (stackOf' gid).map Activation.seen

/-- The event is the same, but for what has been logged of the frames. -/
structure Occurrence.Same (o o' : Occurrence) : Prop where
  what : o'.what = o.what
  gid : o'.gid = o.gid
  activation : o'.activation.seen = o.activation.seen
  below : o'.below.map Activation.seen = o.below.map Activation.seen

section Same

variable {gids : Finset UInt64} {stackOf stackOf' : Stacks} {e : GreenletEvent}
  {o o' : Occurrence}

namespace Occurrence.Same

lemma frame (h : o.Same o') : o'.frame = o.frame := congrArg Prod.fst h.activation

lemma back (h : o.Same o') : o'.back = o.back := by
  have hmap := congrArg (List.map Prod.fst) h.below
  simpa [Occurrence.back, List.map_map, Function.comp_def, Activation.seen] using hmap

lemma length (h : o.Same o') : o'.below.length = o.below.length := by
  simpa using congrArg List.length h.below

lemma level (h : o.Same o') (filterFunc : Filter) :
    o'.activation.level filterFunc = o.activation.level filterFunc := by
  rw [Activation.level, Activation.level, ← Occurrence.frame, ← Occurrence.frame, h.frame]

lemma suppresses (h : o.Same o') (filterFunc : Filter) :
    (∀ y ∈ o'.below, ¬ y.Suppresses filterFunc) ↔ ∀ y ∈ o.below, ¬ y.Suppresses filterFunc := by
  have hseen : ∀ l : List Activation, (∀ y ∈ l, ¬ y.Suppresses filterFunc) ↔
      ∀ z ∈ l.map Activation.seen,
        ¬ (z.2 = true ∧ (filterFunc z.1.fCode).traceLevel = noTraceNested) := by
    intro l
    rw [List.forall_mem_map]
    rfl
  rw [hseen, hseen, h.below]

lemma after (h : o.Same o') (logged logged' : Bool) :
    (o.after logged).map Activation.seen = (o'.after logged').map Activation.seen := by
  unfold Occurrence.after
  rw [h.what]
  split_ifs
  · exact h.below.symm
  · rw [List.map_cons, List.map_cons, h.below, h.frame]
    rfl

end Occurrence.Same

namespace Stacks.Same

lemma freeFor (h : Stacks.Same gids stackOf stackOf') (gid address : UInt64) :
    stackOf.FreeFor gids gid address ↔ stackOf'.FreeFor gids gid address := by
  have hseen : ∀ l : List Activation, (∀ x ∈ l, x.frame.address ≠ address) ↔
      ∀ z ∈ l.map Activation.seen, z.1.address ≠ address := by
    intro l
    rw [List.forall_mem_map]
    rfl
  refine forall₃_congr fun other hother _ => ?_
  rw [hseen, hseen, h other hother]

/-- The same can happen next. -/
lemma occurs (h : Stacks.Same gids stackOf stackOf')
    (ho : InfiTracing.occurs gids stackOf e = some o) :
    ∃ o', InfiTracing.occurs gids stackOf' e = some o' ∧ o.Same o' := by
  cases e with
  | call gid frame =>
      obtain ⟨⟨hgid, hfree⟩, ho⟩ := Option.ite_none_right_eq_some.mp ho
      obtain rfl := Option.some.inj ho
      exact ⟨_, if_pos ⟨hgid, (h.freeFor gid frame.address).mp hfree⟩, rfl, rfl, rfl,
        (h gid hgid).symm⟩
  | ret gid =>
      simp only [InfiTracing.occurs] at ho ⊢
      cases hstack : stackOf gid with
      | nil => simp [hstack] at ho
      | cons x below =>
          rw [hstack] at ho
          obtain ⟨hgid, ho⟩ := Option.ite_none_right_eq_some.mp ho
          obtain rfl := Option.some.inj ho
          have hsame := h gid hgid
          rw [hstack, List.map_cons] at hsame
          obtain ⟨x', below', hstack', hx, hbelow⟩ := List.map_eq_cons_iff.mp hsame.symm
          rw [hstack']
          exact ⟨_, if_pos hgid, rfl, rfl, hx, hbelow⟩

lemma update (h : Stacks.Same gids stackOf stackOf') (ho : o.Same o') (logged logged' : Bool) :
    Stacks.Same gids (Function.update stackOf o.gid (o.after logged))
      (Function.update stackOf' o'.gid (o'.after logged')) := by
  intro gid hgid
  rw [ho.gid]
  by_cases heq : gid = o.gid
  · rw [heq, Function.update_self, Function.update_self]
    exact ho.after logged logged'
  · rw [Function.update_of_ne heq, Function.update_of_ne heq]
    exact h gid hgid

end Stacks.Same

end Same

end InfiTracing
