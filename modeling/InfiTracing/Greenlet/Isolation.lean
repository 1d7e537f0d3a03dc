import InfiTracing.Framework.Counting
import InfiTracing.Greenlet.Suspension
import Mathlib.Algebra.Order.BigOperators.Group.Finset

/-!
# Suspension and the other greenlets

Depth, threshold and cache are in the storage of a greenlet, but `enabled` is in that of the
thread: a greenlet that is switched to while another one is inside a suspended block is suspended
with it.

The blocks of each greenlet are counted beside the session (`bracketedMachine`).  As long as no
event outside its greenlet's own blocks finds tracing suspended (`Undisturbed`), a greenlet is a
`Component`: what is logged of it is a function of its own actions, so two interleavings of the
same actions of each greenlet log the same of each (`suspension_isolated`).
-/

namespace InfiTracing

open Framework

/-! ## The blocks of each greenlet -/

/-- The greenlet an event is of. -/
def GreenletEvent.gid : GreenletEvent → UInt64
  | .call gid _ => gid
  | .ret gid => gid

/-- The greenlet that takes the action. -/
def SessionAction.gid : SessionAction → UInt64
  | .event e => e.gid
  | .suspend gid => gid
  | .resume gid => gid

/-- How many blocks each greenlet has opened with `suspend()` and not closed yet. -/
def openBlocks (_ : Session) (a : SessionAction) (blocks : UInt64 → ℕ) : UInt64 → ℕ :=
  match a with
  | .event _ => blocks
  | .suspend gid => Function.update blocks gid (blocks gid + 1)
  | .resume gid => Function.update blocks gid (blocks gid - 1)

/-- No `resume()` without a `suspend()` of the same greenlet. -/
def Bracketed (p : Session × (UInt64 → ℕ)) (a : SessionAction) : Prop :=
  match a with
  | .resume gid => 0 < p.2 gid
  | _ => True

instance (p : Session × (UInt64 → ℕ)) (a : SessionAction) : Decidable (Bracketed p a) := by
  unfold Bracketed
  split <;> infer_instance

/-- Sessions in which every greenlet closes the blocks it has opened, with their number. -/
def bracketedMachine (filterFunc : Filter) (traceLevelLruCapacity : ℕ) (gids : Finset UInt64) :
    Machine (Session × (UInt64 → ℕ)) SessionAction :=
  ((suspendableMachine filterFunc traceLevelLruCapacity gids).withHistory (fun _ => 0)
    openBlocks).restrict Bracketed

/-- An event outside the blocks of its own greenlet finds tracing enabled. -/
def Undisturbed (gids : Finset UInt64) (p : Session × (UInt64 → ℕ)) (a : SessionAction) : Prop :=
  ∀ e ∈ a.event?, ∀ o ∈ occurs gids p.1.stackOf e, 0 < p.1.tstore.enabled ∨ 0 < p.2 o.gid

instance (gids : Finset UInt64) (p : Session × (UInt64 → ℕ)) (a : SessionAction) :
    Decidable (Undisturbed gids p a) :=
  inferInstanceAs (Decidable (∀ e ∈ a.event?, ∀ o ∈ occurs gids p.1.stackOf e, _ ∨ _))

/-- What is logged of an action. -/
def actionRecord (filterFunc : Filter) (gids : Finset UInt64) (p : Session × (UInt64 → ℕ))
    (a : SessionAction) : Option (Option LogRecord) := do
  let e ← a.event?
  eventRecord filterFunc gids p.1 e

section Invariant

variable {filterFunc : Filter} {capacity : ℕ} {gids : Finset UInt64}
  {p p' : Session × (UInt64 → ℕ)} {a : SessionAction}

lemma bracketedMachine_step_eq_some :
    (bracketedMachine filterFunc capacity gids).step p a = some p' ↔
      Bracketed p a ∧ (suspendableMachine filterFunc capacity gids).step p.1 a = some p'.1 ∧
        p'.2 = openBlocks p.1 a p.2 := by
  rw [bracketedMachine, Machine.restrict_step_eq_some, Machine.withHistory_step_eq_some]

lemma consistent_of_bracketed (hgids : Set.InjOn lowInt (gids : Set UInt64))
    (hp : (bracketedMachine filterFunc capacity gids).Reachable p) : p.1.Consistent gids :=
  Session.consistent_of_suspendable hgids hp.of_restrict.fst

/-- Closing a block takes one from the number of open ones. -/
lemma sum_closed {gid : UInt64} (hgid : gid ∈ gids) {blocks : UInt64 → ℕ} (h : 0 < blocks gid) :
    ∑ other ∈ gids, Function.update blocks gid (blocks gid - 1) other + 1 =
      ∑ other ∈ gids, blocks other := by
  have hsum := sum_update_add gids hgid (Function.update blocks gid (blocks gid - 1)) 1
  rw [Function.update_self, Function.update_idem, Nat.sub_add_cancel h,
    Function.update_eq_self] at hsum
  exact hsum.symm

/-- **The counter counts the open blocks** of all greenlets. -/
theorem enabled_eq (hgids : Set.InjOn lowInt (gids : Set UInt64))
    (hp : (bracketedMachine filterFunc capacity gids).Reachable p) :
    p.1.tstore.enabled = 1 - ((∑ gid ∈ gids, p.2 gid : ℕ) : ℤ) := by
  refine hp.invariant (I := fun p => p.1.tstore.enabled = 1 - ((∑ gid ∈ gids, p.2 gid : ℕ) : ℤ))
    (fun p hinit => ?_) fun p a p' hp hcount hstep => ?_
  · obtain ⟨⟨⟨id, hid⟩, -⟩, hblocks⟩ := hinit
    simp [hid, hblocks, ThreadStorage.create]
  · obtain ⟨hbracketed, hstep, hblocks⟩ := bracketedMachine_step_eq_some.mp hstep
    rw [hblocks]
    cases a with
    | event e =>
        have hevent : (sessionMachine filterFunc capacity gids).step p.1 e = some p'.1 := hstep
        obtain ⟨o, gstore, record, -, -, -, hhandled, -⟩ :=
          (consistent_of_bracketed hgids hp).exists_handled hgids hevent
        rw [hhandled.enabled]
        exact hcount
    | suspend gid =>
        obtain ⟨hgid, hs⟩ := Option.ite_none_right_eq_some.mp hstep
        rw [← Option.some.inj hs]
        simp only [ThreadStorage.suspend, openBlocks, sum_update_add gids hgid]
        omega
    | resume gid =>
        obtain ⟨hgid, hs⟩ := Option.ite_none_right_eq_some.mp hstep
        rw [← Option.some.inj hs]
        have hclosed := sum_closed hgid hbracketed
        have hpending : p.1.tstore.enabled ≤ 0 := by omega
        simp only [ThreadStorage.resume, openBlocks, if_pos hpending]
        omega

/-- Outside the blocks of its greenlet an undisturbed event finds tracing enabled, and inside
it does not. -/
lemma enabled_iff (hgids : Set.InjOn lowInt (gids : Set UInt64))
    (hp : (bracketedMachine filterFunc capacity gids).Reachable p) {e : GreenletEvent}
    {o : Occurrence} (ho : occurs gids p.1.stackOf e = some o)
    (hundisturbed : Undisturbed gids p (.event e)) :
    0 < p.1.tstore.enabled ↔ p.2 o.gid = 0 := by
  have hle : p.2 o.gid ≤ ∑ gid ∈ gids, p.2 gid :=
    Finset.single_le_sum (fun _ _ => Nat.zero_le _) (occurs_cases ho).1
  rw [enabled_eq hgids hp]
  constructor
  · intro hpos
    omega
  · intro hzero
    have henabled := hundisturbed e rfl o ho
    rw [enabled_eq hgids hp] at henabled
    omega

end Invariant

/-! ## A greenlet on its own -/

/-- What concerns one greenlet of a session: its storage, its stack and its open blocks, and
what new storages depend on. -/
structure GreenletView where
  gstore : Option GreenletStorage
  stack : List Activation
  blocks : ℕ
  tid : UInt64
  capacity : ℕ

/-- The greenlet in a session. -/
def GreenletView.of (gid : UInt64) (p : Session × (UInt64 → ℕ)) : GreenletView where
  gstore := p.1.tstore.storageOf gid
  stack := p.1.stackOf gid
  blocks := p.2 gid
  tid := p.1.tstore.id
  capacity := p.1.tstore.traceLevelLruCapacity

/-- The event on the greenlet's own stack. -/
def GreenletEvent.on (stack : List Activation) : GreenletEvent → Option Occurrence
  | .call gid frame => some ⟨.call, gid, ⟨frame, none⟩, stack⟩
  | .ret gid => match stack with
      | [] => none
      | x :: below => some ⟨.ret, gid, x, below⟩

/-- The storage of the greenlet, or the one it is given at its first event. -/
def GreenletView.storageOrNew (v : GreenletView) (gid : UInt64) (back : List Frame) :
    GreenletStorage :=
  v.gstore.getD { GreenletStorage.create gid v.capacity with depth := back.length }

/-- What a greenlet does on its own, and what is logged of it. -/
def GreenletView.act (filterFunc : Filter) (v : GreenletView) :
    SessionAction → Option (GreenletView × Option (Option LogRecord))
  | .event e => do
      let o ← e.on v.stack
      let (gstore, record) ← (v.storageOrNew o.gid o.back).handle filterFunc
        (if v.blocks = 0 then 1 else 0) v.tid o.what o.frame
      some ({ v with
        gstore := if o.what = .ret ∧ o.back = [] then none else some gstore
        stack := o.after record.isSome }, some record)
  | .suspend _ => some ({ v with blocks := v.blocks + 1 }, none)
  | .resume _ => some ({ v with blocks := v.blocks - 1 }, none)

lemma occurs_on {gids : Finset UInt64} {stackOf : Stacks} {e : GreenletEvent} {o : Occurrence}
    (ho : occurs gids stackOf e = some o) : e.gid = o.gid ∧ e.on (stackOf e.gid) = some o := by
  cases e with
  | call gid frame =>
      obtain ⟨-, ho⟩ := Option.ite_none_right_eq_some.mp ho
      obtain rfl := Option.some.inj ho
      exact ⟨rfl, rfl⟩
  | ret gid =>
      simp only [occurs, GreenletEvent.on, GreenletEvent.gid] at ho ⊢
      cases hstack : stackOf gid with
      | nil => simp [hstack] at ho
      | cons x below =>
          rw [hstack] at ho
          obtain ⟨-, ho⟩ := Option.ite_none_right_eq_some.mp ho
          obtain rfl := Option.some.inj ho
          exact ⟨rfl, rfl⟩

/-- Of the counter, an event asks only whether it is positive. -/
lemma GreenletStorage.handle_congr {enabled enabled' : ℤ} (h : 0 < enabled ↔ 0 < enabled')
    (filterFunc : Filter) (tid : UInt64) (what : PyTrace) (frame : Frame)
    (gstore : GreenletStorage) :
    gstore.handle filterFunc enabled tid what frame =
      gstore.handle filterFunc enabled' tid what frame := by
  simp only [handle, traceEvent, gt_iff_lt, h]

section View

variable {filterFunc : Filter} {capacity : ℕ} {gids : Finset UInt64}
  (hgids : Set.InjOn lowInt (gids : Set UInt64)) {p p' : Session × (UInt64 → ℕ)}
  {a : SessionAction}

include hgids

/-- **A greenlet acts on what it sees.** -/
lemma GreenletView.act_own (hp : (bracketedMachine filterFunc capacity gids).Reachable p)
    (hundisturbed : Undisturbed gids p a)
    (hstep : (bracketedMachine filterFunc capacity gids).step p a = some p') :
    (GreenletView.of a.gid p).act filterFunc a =
      some (GreenletView.of a.gid p', actionRecord filterFunc gids p a) := by
  obtain ⟨-, hstep, hblocks⟩ := bracketedMachine_step_eq_some.mp hstep
  obtain ⟨s', blocks'⟩ := p'
  obtain rfl : blocks' = openBlocks p.1 a p.2 := hblocks
  cases a with
  | event e =>
      have hevent : (sessionMachine filterFunc capacity gids).step p.1 e = some s' := hstep
      obtain ⟨o, gstore, record, ho, htrace, hhandle, hhandled, hstack⟩ :=
        (consistent_of_bracketed hgids hp).exists_handled hgids hevent
      obtain ⟨hgid, hon⟩ := occurs_on ho
      have hpositive : (0 : ℤ) < (if p.2 o.gid = 0 then 1 else 0) ↔ 0 < p.1.tstore.enabled := by
        rw [enabled_iff hgids hp ho hundisturbed]
        split_ifs with hzero <;> simp [hzero]
      rw [GreenletStorage.handle_congr hpositive.symm] at hhandle
      have hrecord : actionRecord filterFunc gids p (.event e) = some record := by
        simp [actionRecord, SessionAction.event?, eventRecord, ho, htrace]
      have hevent' : (GreenletView.of o.gid p).act filterFunc (.event e) =
          some ({ GreenletView.of o.gid p with
            gstore := if o.what = .ret ∧ o.back = [] then none else some gstore
            stack := o.after record.isSome }, some record) := by
        have hon' : e.on (GreenletView.of o.gid p).stack = some o := hgid ▸ hon
        have hhandle' : ((GreenletView.of o.gid p).storageOrNew o.gid o.back).handle filterFunc
            (if (GreenletView.of o.gid p).blocks = 0 then 1 else 0) (GreenletView.of o.gid p).tid
            o.what o.frame = some (gstore, record) := hhandle
        simp only [GreenletView.act, hon', hhandle', Option.bind_eq_bind, Option.bind_some]
      rw [SessionAction.gid, hgid, hevent', hrecord]
      simp only [GreenletView.of, openBlocks, hhandled.storage, hhandled.id, hhandled.capacity,
        hstack, Function.update_self]
  | suspend gid =>
      obtain ⟨-, hs⟩ := Option.ite_none_right_eq_some.mp hstep
      obtain rfl := Option.some.inj hs
      simp only [GreenletView.act, GreenletView.of, openBlocks, SessionAction.gid,
        Function.update_self]
      rfl
  | resume gid =>
      obtain ⟨-, hs⟩ := Option.ite_none_right_eq_some.mp hstep
      obtain ⟨enabled, henabled⟩ := p.1.tstore.resume_eq
      obtain rfl := Option.some.inj hs
      simp only [GreenletView.act, GreenletView.of, openBlocks, SessionAction.gid,
        Function.update_self, henabled]
      rfl

/-- **A greenlet sees nothing of what others do.** -/
lemma GreenletView.of_other (hp : (bracketedMachine filterFunc capacity gids).Reachable p)
    {gid : UInt64} (hgid : gid ∈ gids) (hne : a.gid ≠ gid)
    (hstep : (bracketedMachine filterFunc capacity gids).step p a = some p') :
    GreenletView.of gid p' = GreenletView.of gid p := by
  obtain ⟨-, hstep, hblocks⟩ := bracketedMachine_step_eq_some.mp hstep
  obtain ⟨s', blocks'⟩ := p'
  obtain rfl : blocks' = openBlocks p.1 a p.2 := hblocks
  cases a with
  | event e =>
      have hevent : (sessionMachine filterFunc capacity gids).step p.1 e = some s' := hstep
      obtain ⟨o, gstore, record, ho, -, -, hhandled, hstack⟩ :=
        (consistent_of_bracketed hgids hp).exists_handled hgids hevent
      have hother : gid ≠ o.gid := fun heq => hne (heq ▸ (occurs_on ho).1)
      simp only [GreenletView.of, openBlocks, hhandled.others gid hgid hother, hhandled.id,
        hhandled.capacity, hstack, Function.update_of_ne hother]
  | suspend other =>
      obtain ⟨-, hs⟩ := Option.ite_none_right_eq_some.mp hstep
      obtain rfl := Option.some.inj hs
      have hother : gid ≠ other := fun heq => hne heq.symm
      simp only [GreenletView.of, openBlocks, Function.update_of_ne hother]
      rfl
  | resume other =>
      obtain ⟨-, hs⟩ := Option.ite_none_right_eq_some.mp hstep
      obtain ⟨enabled, henabled⟩ := p.1.tstore.resume_eq
      obtain rfl := Option.some.inj hs
      have hother : gid ≠ other := fun heq => hne heq.symm
      simp only [GreenletView.of, openBlocks, Function.update_of_ne hother, henabled]
      rfl

/-- A greenlet of the thread as a component of the undisturbed runs. -/
def greenletComponent (filterFunc : Filter) (capacity : ℕ) {gid : UInt64} (hgid : gid ∈ gids) :
    Machine.Component ((bracketedMachine filterFunc capacity gids).restrict (Undisturbed gids))
      (fun a => a.gid == gid) (actionRecord filterFunc gids) GreenletView where
  view := GreenletView.of gid
  act v a := v.act filterFunc a
  own p a p' hp hstep hmine := by
    obtain ⟨hundisturbed, hstep⟩ := Machine.restrict_step_eq_some.mp hstep
    rw [← beq_iff_eq.mp hmine]
    exact GreenletView.act_own hgids hp.of_restrict hundisturbed hstep
  other p a p' hp hstep hmine :=
    GreenletView.of_other hgids hp.of_restrict hgid (beq_eq_false_iff_ne.mp hmine)
      (Machine.restrict_step_eq_some.mp hstep).2

end View

/-! ## When suspension is per greenlet -/

/-- **Undisturbed greenlets are isolated.**  In two interleavings that give a greenlet the same
actions, none of whose events outside its greenlet's own blocks finds tracing suspended, the same
is logged of each of its events. -/
theorem suspension_isolated {filterFunc : Filter} {capacity : ℕ} {gids : Finset UInt64}
    (hgids : Set.InjOn lowInt (gids : Set UInt64)) {p p₁ p₂ : Session × (UInt64 → ℕ)}
    {acts₁ acts₂ : List SessionAction}
    (hinit : (bracketedMachine filterFunc capacity gids).init p)
    (hrun₁ : ((bracketedMachine filterFunc capacity gids).restrict (Undisturbed gids)).exec p
      acts₁ = some p₁)
    (hrun₂ : ((bracketedMachine filterFunc capacity gids).restrict (Undisturbed gids)).exec p
      acts₂ = some p₂)
    {gid : UInt64} (hgid : gid ∈ gids)
    (hsame : acts₁.filter (fun a => a.gid == gid) = acts₂.filter (fun a => a.gid == gid)) :
    (bracketedMachine filterFunc capacity gids).traceOf
        (Machine.obsOf (fun a => a.gid == gid) (actionRecord filterFunc gids)) p acts₁ =
      (bracketedMachine filterFunc capacity gids).traceOf
        (Machine.obsOf (fun a => a.gid == gid) (actionRecord filterFunc gids)) p acts₂ := by
  rw [← Machine.traceOf_of_restrict hrun₁, ← Machine.traceOf_of_restrict hrun₂]
  exact (greenletComponent hgids filterFunc capacity hgid).noninterference (.init hinit) hrun₁
    hrun₂ hsame

lemma idleThread_bracketed (filterFunc : Filter) (gids : Finset UInt64) :
    (bracketedMachine filterFunc 4 gids).init (idleThread, fun _ => 0) :=
  ⟨idleThread_init filterFunc gids, rfl⟩

/-- The first greenlet suspends tracing around a call of its own. -/
def suspendFirst : List SessionAction :=
  [.suspend 0x10, .event (.call 0x10 (frameAt 0x1000 0x5000)), .resume 0x10]

/-- A call of the second greenlet. -/
def callSecond : SessionAction := .event (.call 0x20 (frameAt 0x2000 0x5002))

theorem suspension_isolated_before_after :
    (bracketedMachine nestedFilter 4 {0x10, 0x20}).traceOf
        (Machine.obsOf (fun a => a.gid == 0x20) (actionRecord nestedFilter {0x10, 0x20}))
        (idleThread, fun _ => 0) (callSecond :: suspendFirst) =
      (bracketedMachine nestedFilter 4 {0x10, 0x20}).traceOf
        (Machine.obsOf (fun a => a.gid == 0x20) (actionRecord nestedFilter {0x10, 0x20}))
        (idleThread, fun _ => 0) (suspendFirst ++ [callSecond]) := by
  have hbefore : (((bracketedMachine nestedFilter 4 {0x10, 0x20}).restrict
      (Undisturbed {0x10, 0x20})).exec (idleThread, fun _ => 0)
        (callSecond :: suspendFirst)).isSome = true := by
    decide +kernel
  have hafter : (((bracketedMachine nestedFilter 4 {0x10, 0x20}).restrict
      (Undisturbed {0x10, 0x20})).exec (idleThread, fun _ => 0)
        (suspendFirst ++ [callSecond])).isSome = true := by
    decide +kernel
  obtain ⟨p₁, hrun₁⟩ := Option.isSome_iff_exists.mp hbefore
  obtain ⟨p₂, hrun₂⟩ := Option.isSome_iff_exists.mp hafter
  exact suspension_isolated lowInt_injOn_twoGreenlets
    (idleThread_bracketed _ _) hrun₁ hrun₂
    (by decide) rfl

/-- **A greenlet suspended by another.**  The call of the second greenlet is logged before the
block of the first, and not logged inside it. -/
theorem suspension_interferes :
    ¬ ∀ (filterFunc : Filter) (capacity : ℕ) (gids : Finset UInt64),
      Set.InjOn lowInt (gids : Set UInt64) →
      ∀ (p p₁ p₂ : Session × (UInt64 → ℕ)) (acts₁ acts₂ : List SessionAction),
      (bracketedMachine filterFunc capacity gids).init p →
      (bracketedMachine filterFunc capacity gids).exec p acts₁ = some p₁ →
      (bracketedMachine filterFunc capacity gids).exec p acts₂ = some p₂ →
      (∀ gid, acts₁.filter (fun a => a.gid == gid) = acts₂.filter (fun a => a.gid == gid)) →
      ∀ gid,
        (bracketedMachine filterFunc capacity gids).traceOf
            (Machine.obsOf (fun a => a.gid == gid) (actionRecord filterFunc gids)) p acts₁ =
          (bracketedMachine filterFunc capacity gids).traceOf
            (Machine.obsOf (fun a => a.gid == gid) (actionRecord filterFunc gids)) p acts₂ := by
  intro h
  have hbefore : ((bracketedMachine nestedFilter 4 {0x10, 0x20}).exec (idleThread, fun _ => 0)
      [callSecond, .suspend 0x10, .resume 0x10]).isSome = true := by
    decide +kernel
  have hinside : ((bracketedMachine nestedFilter 4 {0x10, 0x20}).exec (idleThread, fun _ => 0)
      [.suspend 0x10, callSecond, .resume 0x10]).isSome = true := by
    decide +kernel
  obtain ⟨p₁, hrun₁⟩ := Option.isSome_iff_exists.mp hbefore
  obtain ⟨p₂, hrun₂⟩ := Option.isSome_iff_exists.mp hinside
  refine absurd (h nestedFilter 4 {0x10, 0x20} lowInt_injOn_twoGreenlets _ p₁ p₂ _ _
    (idleThread_bracketed _ _) hrun₁ hrun₂ (fun gid => ?_) 0x20)
    (by decide +kernel)
  by_cases hfirst : (0x10 : UInt64) = gid
  · subst hfirst
    rfl
  · have hskip : ((0x10 : UInt64) == gid) = false := beq_eq_false_iff_ne.mpr hfirst
    simp [callSecond, SessionAction.gid, GreenletEvent.gid, hskip, List.filter_cons]

end InfiTracing
