import Mathlib.Logic.Function.Basic
import InfiTracing.Framework.Machine

/-!
# Linearizability of routines on a shared value

Processes run routines that read and write one shared value in several steps; a client only
sees when a routine is called and what it returns.  The routines are linearizable if the calls
and returns of every run are those of a run of the *atomic object*, on which an operation takes
effect in one step at some time between its call and its return.

`atomicObject` is that object, for operations given by a sequential specification.
`Routine.machine` is the machine of all interleavings of a routine, and `Outline` the proof
outline of one: an assertion on the local state of a process and the shared value that no other
process can falsify, and for each local state whether the operation has taken effect yet.
`Outline.linearizable` is the rule: a routine with an outline is linearizable.

A step that stores may disturb what the other processes hold locally (`Routine.disturbed`), and
so may the environment at any time: this is how a reservation on a memory word is lost.
-/

namespace InfiTracing.Framework

/-! ## The atomic object -/

section Object

variable {Pid V Op R : Type*} [DecidableEq Pid] [DecidableEq R]

/-- Where a client stands with its operation: not in one, in one that has not taken effect, or
in one that has, with its answer. -/
inductive Client (Op R : Type*)
  | idle
  | pending (op : Op)
  | answered (r : R)

/-- What happens to a client's operation. -/
inductive ClientEvent (Pid Op R : Type*)
  | call (p : Pid) (op : Op)
  | effect (p : Pid)
  | ret (p : Pid) (r : R)

/-- The calls and the returns, which a client sees. -/
def ClientEvent.isVisible : ClientEvent Pid Op R → Bool
  | .call _ _ | .ret _ _ => true
  | .effect _ => false

/-- The shared value and its clients. -/
structure AtomicState (Pid V Op R : Type*) where
  value : V
  client : Pid → Client Op R

variable (Pid) in
/-- The object whose operations take effect in one step.  `apply op v` is the answer of `op` at
the value `v`, and the value it leaves. -/
def atomicObject (apply : Op → V → R × V) :
    Machine (AtomicState Pid V Op R) (ClientEvent Pid Op R) where
  init s := ∀ p, s.client p = .idle
  step s
    | .call p op => match s.client p with
      | .idle => some { s with client := Function.update s.client p (.pending op) }
      | _ => none
    | .effect p => match s.client p with
      | .pending op => some
          { value := (apply op s.value).2
            client := Function.update s.client p (.answered (apply op s.value).1) }
      | _ => none
    | .ret p r => match s.client p with
      | .answered r' =>
          if r = r' then some { s with client := Function.update s.client p .idle } else none
      | _ => none

section Step

variable {apply : Op → V → R × V} {t : AtomicState Pid V Op R} {p : Pid}

lemma atomicObject_call (h : t.client p = .idle) (op : Op) :
    (atomicObject Pid apply).step t (.call p op) =
      some ⟨t.value, Function.update t.client p (.pending op)⟩ := by
  simp [atomicObject, h]

lemma atomicObject_effect {op : Op} (h : t.client p = .pending op) :
    (atomicObject Pid apply).step t (.effect p) =
      some ⟨(apply op t.value).2, Function.update t.client p (.answered (apply op t.value).1)⟩ := by
  simp [atomicObject, h]

lemma atomicObject_ret {r : R} (h : t.client p = .answered r) :
    (atomicObject Pid apply).step t (.ret p r) =
      some ⟨t.value, Function.update t.client p .idle⟩ := by
  simp [atomicObject, h]

end Step

/-- Every run of `M` looks to its clients like a run of the atomic object from the same value,
and leaves the same value. -/
def Linearizable {σ α : Type*} (M : Machine σ α) (value : σ → V)
    (history : σ → α → Option (ClientEvent Pid Op R)) (apply : Op → V → R × V) : Prop :=
  ∀ s s' acts, M.init s → M.exec s acts = some s' →
    ∃ events t t', (atomicObject Pid apply).init t ∧ t.value = value s ∧
      (atomicObject Pid apply).exec t events = some t' ∧ t'.value = value s' ∧
      events.filter ClientEvent.isVisible = M.traceOf history s acts

end Object

/-! ## Routines -/

/-- A routine for the operations `Op`.  `enter op e` is the local state of a process that calls
it with `e` in its registers; `run` is one step, with the value it stores if it stores one;
`leave` is the answer where the routine returns; `disturbed` is what a store by another process
makes of a local state. -/
structure Routine (V Op E R L : Type*) where
  enter : Op → E → L
  run : Op → L → V → Option (L × Option V)
  leave : Op → L → Option R
  disturbed : L → L

/-- What one process does, or, with `disturb`, suffers from the environment. -/
inductive ProcessAction (Pid Op E : Type*)
  | call (p : Pid) (op : Op) (e : E)
  | run (p : Pid)
  | disturb (p : Pid)
  | ret (p : Pid)

/-- The shared value, and the operation and local state of each process that is in a routine. -/
structure ProcessState (Pid V Op L : Type*) where
  value : V
  process : Pid → Option (Op × L)

namespace Routine

variable {Pid V Op E R L : Type*} [DecidableEq Pid] (P : Routine V Op E R L)

/-- What a store by `p` makes of the processes. -/
def disturbOthers (process : Pid → Option (Op × L)) (p : Pid) : Pid → Option (Op × L) :=
  fun q => if q = p then process q else (process q).map fun x => (x.1, P.disturbed x.2)

variable (Pid) in
/-- The machine of all interleavings of the routine. -/
def machine : Machine (ProcessState Pid V Op L) (ProcessAction Pid Op E) where
  init s := ∀ p, s.process p = none
  step s
    | .call p op e => match s.process p with
      | none => some
          { s with process := Function.update s.process p (some (op, P.enter op e)) }
      | some _ => none
    | .run p => (s.process p).bind fun x => (P.run x.1 x.2 s.value).map fun
      | (l, none) => { s with process := Function.update s.process p (some (x.1, l)) }
      | (l, some v) =>
          { value := v
            process := Function.update (P.disturbOthers s.process p) p (some (x.1, l)) }
    | .disturb p => (s.process p).map fun x =>
        { s with process := Function.update s.process p (some (x.1, P.disturbed x.2)) }
    | .ret p => (s.process p).bind fun x => (P.leave x.1 x.2).map fun _ =>
        { s with process := Function.update s.process p none }

/-- The calls and returns of a step. -/
def history (s : ProcessState Pid V Op L) : ProcessAction Pid Op E → Option (ClientEvent Pid Op R)
  | .call p op _ => some (.call p op)
  | .ret p => (s.process p).bind fun x => (P.leave x.1 x.2).map (.ret p)
  | _ => none

variable {P} in
/-- What a step of a process in the routine does. -/
lemma of_step_run {s s' : ProcessState Pid V Op L} {p : Pid}
    (h : (P.machine Pid).step s (.run p) = some s') :
    ∃ op l l' stored process, s.process p = some (op, l) ∧
      P.run op l s.value = some (l', stored) ∧
      ((process = s.process ∧ stored = none) ∨ process = P.disturbOthers s.process p) ∧
      s' = ⟨stored.getD s.value, Function.update process p (some (op, l'))⟩ := by
  obtain ⟨⟨op, l⟩, hp, h⟩ := Option.bind_eq_some_iff.mp h
  obtain ⟨⟨l', stored⟩, hrun, rfl⟩ := Option.map_eq_some_iff.mp h
  cases stored with
  | none => exact ⟨op, l, l', none, s.process, hp, hrun, .inl ⟨rfl, rfl⟩, rfl⟩
  | some v => exact ⟨op, l, l', some v, _, hp, hrun, .inr rfl, rfl⟩

/-! ## Proof outlines -/

/-- What a step may do to an operation with answers `before` and `after` it, while the value
goes from `v` to `v'`: nothing, or the effect of the operation. -/
def Effect (apply : Op → V → R × V) (op : Op) (v v' : V) (before after : Option R) : Prop :=
  (after = before ∧ v' = v) ∨
    (before = none ∧ after = some (apply op v).1 ∧ v' = (apply op v).2)

/-- A proof outline of a routine.  `holds op l v` is the assertion on a process in `op` with
local state `l` while the shared value is `v`; no step of another process falsifies it.
`answer op l` is the answer of an operation that has taken effect.  A process that does not
return can go on. -/
structure Outline (apply : Op → V → R × V) where
  holds : Op → L → V → Prop
  answer : Op → L → Option R
  enter : ∀ op e v, holds op (P.enter op e) v ∧ answer op (P.enter op e) = none
  disturbed : ∀ op l v v', holds op l v →
    holds op (P.disturbed l) v' ∧ answer op (P.disturbed l) = answer op l
  run : ∀ op l v, holds op l v → P.leave op l = none → ∃ l' stored,
    P.run op l v = some (l', stored) ∧ holds op l' (stored.getD v) ∧
      Effect apply op v (stored.getD v) (answer op l) (answer op l')
  leave : ∀ op l v r, holds op l v → P.leave op l = some r →
    answer op l = some r ∧ P.run op l v = none

namespace Outline

variable {P} {apply : Op → V → R × V} (O : P.Outline apply)

/-- The client that a process implements. -/
def client : Option (Op × L) → Client Op R
  | none => .idle
  | some (op, l) => (O.answer op l).elim (.pending op) .answered

/-- The state of the atomic object that a state of the processes implements. -/
def abstraction (s : ProcessState Pid V Op L) : AtomicState Pid V Op R where
  value := s.value
  client p := O.client (s.process p)

/-- Every process is where its outline says. -/
def Holds (s : ProcessState Pid V Op L) : Prop :=
  ∀ p op l, s.process p = some (op, l) → O.holds op l s.value

/-- The events of a step: its call or return, or the effect of the operation. -/
def events (s : ProcessState Pid V Op L) : ProcessAction Pid Op E → Option (ClientEvent Pid Op R)
  | .run p => (s.process p).bind fun x => (P.run x.1 x.2 s.value).bind fun y =>
      if (O.answer x.1 x.2).isNone && (O.answer x.1 y.1).isSome then some (.effect p) else none
  | a => P.history s a

omit [DecidableEq Pid] in
lemma client_disturbed {op : Op} {l : L} {v : V} (h : O.holds op l v) :
    O.client (some (op, P.disturbed l)) = O.client (some (op, l)) := by
  simp only [client]
  rw [(O.disturbed op l v v h).2]

lemma client_disturbOthers {s : ProcessState Pid V Op L} (hs : O.Holds s) (p q : Pid) :
    O.client (P.disturbOthers s.process p q) = O.client (s.process q) := by
  unfold Routine.disturbOthers
  split_ifs with hq
  · rfl
  · cases hl : s.process q with
    | none => rfl
    | some x => exact O.client_disturbed (hs q x.1 x.2 hl)

lemma holds_disturbOthers {s : ProcessState Pid V Op L} (hs : O.Holds s) {p q : Pid}
    (hne : q ≠ p) (v' : V) {op : Op} {l : L}
    (hq : P.disturbOthers s.process p q = some (op, l)) : O.holds op l v' := by
  rw [Routine.disturbOthers, if_neg hne, Option.map_eq_some_iff] at hq
  obtain ⟨⟨op', l₀⟩, hl₀, heq⟩ := hq
  obtain ⟨rfl, rfl⟩ := Prod.mk.inj heq
  exact (O.disturbed op' l₀ s.value v' (hs q op' l₀ hl₀)).1

/-- A process moves on: its client does, and no other. -/
lemma abstraction_update {s : ProcessState Pid V Op L} {process : Pid → Option (Op × L)}
    (hsame : ∀ q, O.client (process q) = O.client (s.process q)) (v : V) (p : Pid)
    (x : Option (Op × L)) :
    O.abstraction ⟨v, Function.update process p x⟩ =
      ⟨v, Function.update (O.abstraction s).client p (O.client x)⟩ := by
  simp only [abstraction, AtomicState.mk.injEq, true_and]
  funext q
  rw [Function.apply_update (fun _ => O.client) process p x q, funext hsame]

/-- A process moves on without its client noticing. -/
lemma abstraction_update_self {s : ProcessState Pid V Op L} {process : Pid → Option (Op × L)}
    (hsame : ∀ q, O.client (process q) = O.client (s.process q)) {p : Pid}
    {x : Option (Op × L)} (hx : O.client x = O.client (s.process p)) :
    O.abstraction ⟨s.value, Function.update process p x⟩ = O.abstraction s := by
  rw [O.abstraction_update hsame, hx]
  simp [abstraction]

/-- A process moves on, and the value with it; the others are disturbed at most. -/
lemma holds_update {process : Pid → Option (Op × L)} {p : Pid}
    {x : Option (Op × L)} {v : V}
    (hothers : ∀ q op l, q ≠ p → process q = some (op, l) → O.holds op l v)
    (hx : ∀ op l, x = some (op, l) → O.holds op l v) :
    O.Holds ⟨v, Function.update process p x⟩ := by
  intro q op l hq
  by_cases hqp : q = p
  · subst hqp
    exact hx op l (by simpa using hq)
  · exact hothers q op l hqp (by simpa [hqp] using hq)

lemma of_run {op : Op} {l l' : L} {v : V} {stored : Option V} (hl : O.holds op l v)
    (hrun : P.run op l v = some (l', stored)) :
    O.holds op l' (stored.getD v) ∧
      Effect apply op v (stored.getD v) (O.answer op l) (O.answer op l') := by
  cases hleave : P.leave op l with
  | some r =>
      rw [(O.leave op l v r hl hleave).2] at hrun
      cases hrun
  | none =>
      obtain ⟨k, stored', hrun', hk⟩ := O.run op l v hl hleave
      obtain ⟨rfl, rfl⟩ := Prod.mk.inj (Option.some.inj (hrun.symm.trans hrun'))
      exact hk

/-- A step of `p` keeps every process where its outline says. -/
lemma holds_run {s : ProcessState Pid V Op L} (hs : O.Holds s) {p : Pid} {op : Op} {l l' : L}
    {stored : Option V} {process : Pid → Option (Op × L)} (hp : s.process p = some (op, l))
    (hrun : P.run op l s.value = some (l', stored))
    (hprocess : (process = s.process ∧ stored = none) ∨ process = P.disturbOthers s.process p) :
    O.Holds ⟨stored.getD s.value, Function.update process p (some (op, l'))⟩ := by
  obtain ⟨hholds, -⟩ := O.of_run (hs p op l hp) hrun
  refine O.holds_update (fun q op' k hne hq => ?_) ?_
  · rcases hprocess with ⟨rfl, rfl⟩ | rfl
    · exact hs q op' k hq
    · exact O.holds_disturbOthers hs hne _ hq
  · rintro op' k ⟨⟩
    exact hholds

section Simulation

variable [DecidableEq R] {s s' : ProcessState Pid V Op L} {p : Pid}

/-- **The step lemma.**  A step of one process keeps the outline, and is on the atomic object
the step it is observed as, or none. -/
theorem step {a : ProcessAction Pid Op E} (hs : O.Holds s)
    (hstep : (P.machine Pid).step s a = some s') :
    O.Holds s' ∧ (atomicObject Pid apply).exec (O.abstraction s) (O.events s a).toList =
      some (O.abstraction s') := by
  cases a with
  | call p op e =>
      cases hp : s.process p with
      | some x => simp [Routine.machine, hp] at hstep
      | none =>
          obtain rfl : _ = s' := by simpa [Routine.machine, hp] using hstep
          obtain ⟨hholds, hpending⟩ := O.enter op e s.value
          refine ⟨O.holds_update (fun q op l _ => hs q op l) ?_, ?_⟩
          · rintro op' l ⟨⟩
            exact hholds
          · rw [O.abstraction_update fun q => rfl]
            have hidle : (O.abstraction s).client p = .idle := by simp [abstraction, client, hp]
            have hevents : O.events s (.call p op e) = some (.call p op) := rfl
            rw [hevents, Option.toList_some, Machine.exec_cons, atomicObject_call hidle,
              Option.bind_some, Machine.exec_nil, client, hpending]
            rfl
  | run p =>
      obtain ⟨op, l, l', stored, process, hp, hrun, hprocess, rfl⟩ := of_step_run hstep
      obtain ⟨-, heffect⟩ := O.of_run (hs p op l hp) hrun
      refine ⟨O.holds_run hs hp hrun hprocess, ?_⟩
      have hsame : ∀ q, O.client (process q) = O.client (s.process q) := by
        rcases hprocess with ⟨rfl, -⟩ | rfl
        · exact fun q => rfl
        · exact O.client_disturbOthers hs p
      rcases heffect with ⟨hanswer, hvalue⟩ | ⟨hpending, hanswer, hvalue⟩
      · -- nothing is observed, and the client stays where it is
        have hclient : O.client (some (op, l')) = O.client (s.process p) := by
          simp [client, hp, hanswer]
        rw [hvalue, O.abstraction_update_self hsame hclient]
        cases h : O.answer op l <;> simp [events, hp, hrun, hanswer, h]
      · have hclient : (O.abstraction s).client p = .pending op := by
          simp [abstraction, client, hp, hpending]
        have hevents : O.events s (.run p) = some (.effect p) := by
          simp [events, hp, hrun, hpending, hanswer]
        rw [O.abstraction_update hsame, hvalue, hevents, Option.toList_some, Machine.exec_cons,
          atomicObject_effect hclient, Option.bind_some, Machine.exec_nil, client, hanswer]
        rfl
  | disturb p =>
      obtain ⟨⟨op, l⟩, hp, rfl⟩ := Option.map_eq_some_iff.mp hstep
      obtain ⟨hholds, -⟩ := O.disturbed op l s.value s.value (hs p op l hp)
      refine ⟨O.holds_update (fun q op l _ => hs q op l) ?_, ?_⟩
      · rintro op' k ⟨⟩
        exact hholds
      · have hclient : O.client (some (op, P.disturbed l)) = O.client (s.process p) := by
          rw [hp, O.client_disturbed (hs p op l hp)]
        rw [O.abstraction_update_self (fun q => rfl) hclient]
        rfl
  | ret p =>
      obtain ⟨⟨op, l⟩, hp, h⟩ := Option.bind_eq_some_iff.mp hstep
      obtain ⟨r, hr, rfl⟩ := Option.map_eq_some_iff.mp h
      refine ⟨O.holds_update (fun q op l _ => hs q op l) (by simp), ?_⟩
      have hanswer := (O.leave op l s.value r (hs p op l hp) hr).1
      have hclient : (O.abstraction s).client p = .answered r := by
        simp [abstraction, client, hp, hanswer]
      have hevents : O.events s (.ret p) = some (.ret p r) := by
        simp [events, Routine.history, hp, hr]
      rw [O.abstraction_update fun q => rfl, hevents, Option.toList_some, Machine.exec_cons,
        atomicObject_ret hclient, Option.bind_some, Machine.exec_nil]
      rfl

/-- The processes, step by step on the atomic object. -/
def simulation : Machine.Simulation (P.machine Pid) (atomicObject Pid apply) O.events where
  rel s t := t = O.abstraction s ∧ O.Holds s
  init s hs := by
    refine ⟨O.abstraction s, fun p => ?_, rfl, fun p op l hp => ?_⟩
    · simp [abstraction, client, hs p]
    · simp [hs p] at hp
  step := by
    rintro s t a s' - ⟨rfl, hs⟩ hstep
    obtain ⟨hs', hexec⟩ := O.step hs hstep
    exact ⟨_, hexec, rfl, hs'⟩

omit [DecidableEq Pid] [DecidableEq R] in
lemma filter_events (s : ProcessState Pid V Op L) (a : ProcessAction Pid Op E) :
    (O.events s a).toList.filter ClientEvent.isVisible = (P.history s a).toList := by
  cases a with
  | call p op e => rfl
  | run p =>
      cases h : O.events s (.run p) with
      | none => rfl
      | some e =>
          -- the only event of a step inside a routine is the effect
          obtain ⟨x, -, h⟩ := Option.bind_eq_some_iff.mp h
          obtain ⟨y, -, h⟩ := Option.bind_eq_some_iff.mp h
          split_ifs at h
          obtain rfl := Option.some.inj h
          rfl
  | disturb p => rfl
  | ret p =>
      change (P.history s (.ret p)).toList.filter _ = _
      cases hp : s.process p with
      | none => simp [Routine.history, hp]
      | some x =>
          cases hr : P.leave x.1 x.2 <;> simp [Routine.history, hp, hr, ClientEvent.isVisible]

lemma holds_of_reachable (O : P.Outline apply) {s : ProcessState Pid V Op L}
    (hs : (P.machine Pid).Reachable s) : O.Holds s :=
  hs.invariant (fun s hinit p op l hp => by simp [hinit p] at hp)
    fun _ _ _ _ hs hstep => (O.step hs hstep).1

/-- **No process is ever stuck** in a routine with a proof outline. -/
theorem exists_step (O : P.Outline apply) {s : ProcessState Pid V Op L}
    (hs : (P.machine Pid).Reachable s) {p : Pid} (hp : (s.process p).isSome) :
    ∃ s', (P.machine Pid).step s (.run p) = some s' ∨
      (P.machine Pid).step s (.ret p) = some s' := by
  have hholds := O.holds_of_reachable hs
  obtain ⟨⟨op, l⟩, hp⟩ := Option.isSome_iff_exists.mp hp
  cases hleave : P.leave op l with
  | some r => exact ⟨_, .inr (by simp [Routine.machine, hp, hleave]; rfl)⟩
  | none =>
      obtain ⟨l', stored, hrun, -⟩ := O.run op l s.value (hholds p op l hp) hleave
      exact ⟨_, .inl (by simp [Routine.machine, hp, hrun]; rfl)⟩

/-- **A routine with a proof outline is linearizable.** -/
theorem linearizable (O : P.Outline apply) :
    Linearizable (P.machine Pid) ProcessState.value P.history apply := by
  intro s s' acts hinit hrun
  obtain ⟨t, ht, rfl, hs⟩ := O.simulation.init s hinit
  obtain ⟨t', hexec, rfl, -⟩ := O.simulation.exec_of_rel (.init hinit) ⟨rfl, hs⟩ hrun
  exact ⟨_, _, _, ht, rfl, hexec, rfl, Machine.filter_traceOf O.filter_events s acts⟩

end Simulation

end Outline

end Routine

end InfiTracing.Framework
