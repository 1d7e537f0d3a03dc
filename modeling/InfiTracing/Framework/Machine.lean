import Mathlib.Logic.Basic
import Mathlib.Data.List.Basic

/-!
# Labelled machines, their runs and their invariants

A `Machine` is a partial step function on states, labelled by actions, together with a set
of initial states.  Everything the developments over it need is here: the reachable states
and the one induction over them (`Reachable.invariant`), runs given as explicit action lists
(`exec`), machines that refuse the steps failing a condition (`restrict`) or leaving a part of
the states (`confine`), machines with other names for their actions (`relabel`), machines that
carry an observer's record of the run beside the state (`withHistory`), forward simulations
into another machine (`Simulation`), and runs judged by what is observed of them
(`forall_traceOf_iff`).

A step function rather than a step relation keeps every machine executable: a concrete run
is checked by evaluating `exec`, and a nondeterministic system is one whose scheduler
chooses the action.
-/

namespace InfiTracing.Framework

/-- A labelled machine: initial states, and the state an action leads to where the action
is enabled. -/
structure Machine (σ α : Type*) where
  init : σ → Prop
  step : σ → α → Option σ

namespace Machine

variable {σ α : Type*}

/-! ## Reachable states -/

/-- The states a run of the machine can be in. -/
inductive Reachable (M : Machine σ α) : σ → Prop
  | init {s : σ} (h : M.init s) : Reachable M s
  | step {s s' : σ} (a : α) (hs : Reachable M s) (h : M.step s a = some s') : Reachable M s'

variable {M : Machine σ α}

/-- **The invariant rule.**  A predicate that holds initially and that every step taken
from a reachable state preserves, holds in every reachable state. -/
theorem Reachable.invariant {I : σ → Prop} {s : σ} (h : M.Reachable s)
    (hinit : ∀ s, M.init s → I s)
    (hstep : ∀ s a s', M.Reachable s → I s → M.step s a = some s' → I s') : I s := by
  induction h with
  | init h => exact hinit _ h
  | step a hs h ih => exact hstep _ a _ hs ih h

/-! ## Runs as action lists -/

/-- Take the actions one after the other; `none` as soon as one of them is not enabled. -/
def exec (M : Machine σ α) (s : σ) : List α → Option σ
  | [] => some s
  | a :: acts => (M.step s a).bind fun s' => M.exec s' acts

@[simp] lemma exec_nil (M : Machine σ α) (s : σ) : M.exec s [] = some s := rfl

@[simp] lemma exec_cons (M : Machine σ α) (s : σ) (a : α) (acts : List α) :
    M.exec s (a :: acts) = (M.step s a).bind fun s' => M.exec s' acts := rfl

lemma exec_append (M : Machine σ α) (s : σ) (acts acts' : List α) :
    M.exec s (acts ++ acts') = (M.exec s acts).bind fun s' => M.exec s' acts' := by
  induction acts generalizing s with
  | nil => rfl
  | cons a acts ih =>
      cases h : M.step s a with
      | none => simp [h]
      | some s' => simp [h, ih]

/-- A run and one more step. -/
lemma exec_concat {s s' : σ} {acts : List α} {a : α} :
    M.exec s (acts ++ [a]) = some s' ↔ ∃ t, M.exec s acts = some t ∧ M.step t a = some s' := by
  rw [exec_append, Option.bind_eq_some_iff]
  refine exists_congr fun t => and_congr_right fun _ => ?_
  rw [exec_cons]
  cases M.step t a <;> simp

lemma Reachable.exec {s s' : σ} {acts : List α} (h : M.Reachable s)
    (hrun : M.exec s acts = some s') : M.Reachable s' := by
  induction acts generalizing s with
  | nil => simpa [← Option.some.inj hrun] using h
  | cons a acts ih =>
      obtain ⟨t, ht, hrest⟩ := Option.bind_eq_some_iff.mp hrun
      exact ih (.step a h ht) hrest

/-- The end of a run from an initial state is reachable. -/
lemma reachable_of_exec {s s' : σ} {acts : List α} (hinit : M.init s)
    (hrun : M.exec s acts = some s') : M.Reachable s' :=
  (Reachable.init hinit).exec hrun

/-- **The invariant rule for runs of certain actions.** -/
theorem exec_invariant {I : σ → Prop} {A : α → Prop}
    (hstep : ∀ s a s', A a → I s → M.step s a = some s' → I s') {s s' : σ} {acts : List α}
    (hacts : ∀ a ∈ acts, A a) (hI : I s) (hrun : M.exec s acts = some s') : I s' := by
  induction acts generalizing s with
  | nil => exact Option.some.inj hrun ▸ hI
  | cons a acts ih =>
      obtain ⟨t, ht, hrest⟩ := Option.bind_eq_some_iff.mp hrun
      exact ih (fun b hb => hacts b (List.mem_cons_of_mem a hb))
        (hstep s a t (hacts a List.mem_cons_self) hI ht) hrest

/-- Machines that take the same steps from the reachable states have the same runs. -/
lemma exec_congr {N : Machine σ α} (hstep : ∀ s a, M.Reachable s → N.step s a = M.step s a)
    {s : σ} (hs : M.Reachable s) (acts : List α) : N.exec s acts = M.exec s acts := by
  induction acts generalizing s with
  | nil => rfl
  | cons a acts ih =>
      rw [exec_cons, exec_cons, hstep s a hs]
      cases ht : M.step s a with
      | none => rfl
      | some t => exact ih (.step a hs ht)

/-- A machine that does to the images of states what another one does to the reachable states
runs as it does. -/
lemma exec_map {τ : Type*} {N : Machine τ α} {f : σ → τ}
    (hstep : ∀ s a, M.Reachable s → N.step (f s) a = (M.step s a).map f)
    {s : σ} (hs : M.Reachable s) (acts : List α) : N.exec (f s) acts = (M.exec s acts).map f := by
  induction acts generalizing s with
  | nil => rfl
  | cons a acts ih =>
      rw [exec_cons, exec_cons, hstep s a hs]
      cases ht : M.step s a with
      | none => rfl
      | some t => exact ih (.step a hs ht)

/-! ## Restricting a machine to the steps that meet a condition -/

section Restrict

variable (G : σ → α → Prop) [∀ s a, Decidable (G s a)]

/-- The machine whose runs are the runs of `M` all of whose steps meet `G`. -/
def restrict (M : Machine σ α) : Machine σ α where
  init := M.init
  step s a := if G s a then M.step s a else none

variable {G}

@[simp] lemma restrict_init (s : σ) : (M.restrict G).init s ↔ M.init s := Iff.rfl

@[simp] lemma restrict_step_eq_some {s s' : σ} {a : α} :
    (M.restrict G).step s a = some s' ↔ G s a ∧ M.step s a = some s' := by
  simp [restrict]

lemma Reachable.of_restrict {s : σ} (h : (M.restrict G).Reachable s) : M.Reachable s := by
  induction h with
  | init h => exact .init h
  | step a _ h ih => exact .step a ih (restrict_step_eq_some.mp h).2

/-- A condition that always holds restricts nothing. -/
lemma Reachable.restrict_of_forall {s : σ} (hG : ∀ s a, G s a) (h : M.Reachable s) :
    (M.restrict G).Reachable s := by
  induction h with
  | init h => exact .init h
  | step a _ h ih => exact .step a ih (restrict_step_eq_some.mpr ⟨hG _ a, h⟩)

/-- A restricted run is a run. -/
lemma exec_of_restrict {s s' : σ} {acts : List α}
    (h : (M.restrict G).exec s acts = some s') : M.exec s acts = some s' := by
  induction acts generalizing s with
  | nil => exact h
  | cons a acts ih =>
      obtain ⟨t, ht, hrest⟩ := Option.bind_eq_some_iff.mp h
      rw [exec_cons, (restrict_step_eq_some.mp ht).2]
      exact ih hrest

omit [∀ s a, Decidable (G s a)] in
/-- A predicate that a step keeps only if it meets `G` was true before whatever it is true
after. -/
lemma of_exec {P : σ → Prop}
    (hstep : ∀ s a s', M.Reachable s → M.step s a = some s' → (P s' ↔ P s ∧ G s a))
    {s s' : σ} {acts : List α} (hs : M.Reachable s) (hrun : M.exec s acts = some s')
    (hP : P s') : P s := by
  induction acts generalizing s with
  | nil => exact Option.some.inj hrun ▸ hP
  | cons a acts ih =>
      obtain ⟨t, ht, hrest⟩ := Option.bind_eq_some_iff.mp hrun
      exact ((hstep s a t hs ht).mp (ih (.step a hs ht) hrest)).1

/-- **Exactness of a restriction.**  Where a step keeps `P` exactly if it meets `G`, the runs
that end in `P` are those of the restricted machine. -/
theorem exec_restrict_iff {P : σ → Prop}
    (hstep : ∀ s a s', M.Reachable s → M.step s a = some s' → (P s' ↔ P s ∧ G s a))
    {s s' : σ} {acts : List α} (hs : M.Reachable s) (hP : P s)
    (hrun : M.exec s acts = some s') : P s' ↔ (M.restrict G).exec s acts = some s' := by
  induction acts generalizing s with
  | nil =>
      obtain rfl : s = s' := Option.some.inj hrun
      exact ⟨fun _ => rfl, fun _ => hP⟩
  | cons a acts ih =>
      obtain ⟨t, ht, hrest⟩ := Option.bind_eq_some_iff.mp hrun
      have hreach : M.Reachable t := .step a hs ht
      by_cases hG : G s a
      · have hres : (M.restrict G).step s a = some t := restrict_step_eq_some.mpr ⟨hG, ht⟩
        rw [exec_cons, hres]
        exact ih hreach ((hstep s a t hs ht).mpr ⟨hP, hG⟩) hrest
      · -- the restricted run stops here, and `P` is lost here
        have hres : (M.restrict G).step s a = none := by simp [restrict, hG]
        rw [exec_cons, hres]
        refine ⟨fun h => ?_, fun h => by cases h⟩
        exact absurd ((hstep s a t hs ht).mp (of_exec hstep hreach hrest h)).2 hG

/-- **Exactness of a restriction, state by state.**  Where a step from a state with `P` leads to
one with `P` exactly if it meets `G`, the runs that are in `P` throughout are those of the
restricted machine. -/
theorem exec_forall_iff {P : σ → Prop}
    (hstep : ∀ s a s', M.Reachable s → P s → M.step s a = some s' → (P s' ↔ G s a))
    {s s' : σ} {acts : List α} (hs : M.Reachable s) (hP : P s)
    (hrun : M.exec s acts = some s') :
    (∀ pre t, pre <+: acts → M.exec s pre = some t → P t) ↔
      (M.restrict G).exec s acts = some s' := by
  induction acts generalizing s with
  | nil =>
      refine iff_of_true (fun pre t hpre ht => ?_) hrun
      obtain rfl := List.prefix_nil.mp hpre
      exact Option.some.inj ht ▸ hP
  | cons a acts ih =>
      obtain ⟨u, hu, hrest⟩ := Option.bind_eq_some_iff.mp hrun
      have hreach : M.Reachable u := .step a hs hu
      have hfirst := hstep s a u hs hP hu
      constructor
      · intro hall
        have hPu : P u := hall [a] u ⟨acts, rfl⟩ (by simp [hu])
        have hres : (M.restrict G).step s a = some u :=
          restrict_step_eq_some.mpr ⟨hfirst.mp hPu, hu⟩
        rw [exec_cons, hres, Option.bind_some, ← ih hreach hPu hrest]
        intro pre t hpre ht
        exact hall (a :: pre) t (List.cons_prefix_cons.mpr ⟨rfl, hpre⟩) (by simpa [hu] using ht)
      · intro hres pre t hpre ht
        obtain ⟨v, hv, hres'⟩ := Option.bind_eq_some_iff.mp hres
        obtain ⟨hG, hv⟩ := restrict_step_eq_some.mp hv
        obtain rfl : u = v := Option.some.inj (hu.symm.trans hv)
        have hPu : P u := hfirst.mpr hG
        cases pre with
        | nil => exact Option.some.inj ht ▸ hP
        | cons b pre =>
            obtain ⟨rfl, hpre'⟩ := List.cons_prefix_cons.mp hpre
            exact (ih hreach hPu hrest).mpr hres' pre t hpre' (by simpa [hu] using ht)

end Restrict

/-! ## Confining a machine to a part of its states -/

section Confine

variable (P : σ → Prop) [DecidablePred P]

/-- The machine whose runs are the runs of `M` that stay in `P`. -/
def confine (M : Machine σ α) : Machine σ α where
  init s := M.init s ∧ P s
  step s a := (M.step s a).filter (P ·)

variable {P}

@[simp] lemma confine_init (s : σ) : (M.confine P).init s ↔ M.init s ∧ P s := Iff.rfl

@[simp] lemma confine_step_eq_some {s s' : σ} {a : α} :
    (M.confine P).step s a = some s' ↔ M.step s a = some s' ∧ P s' := by
  simp [confine, Option.filter_eq_some_iff]

lemma Reachable.of_confine {s : σ} (h : (M.confine P).Reachable s) : M.Reachable s ∧ P s := by
  induction h with
  | init h => exact ⟨.init h.1, h.2⟩
  | step a _ h ih =>
      obtain ⟨hstep, hP⟩ := confine_step_eq_some.mp h
      exact ⟨.step a ih.1 hstep, hP⟩

end Confine

/-! ## Other names for the actions -/

section Relabel

variable {β : Type*} (f : β → α)

/-- The machine that takes for `b` the action `f b`. -/
def relabel (M : Machine σ α) : Machine σ β where
  init := M.init
  step s b := M.step s (f b)

lemma exec_relabel (M : Machine σ α) (s : σ) (acts : List β) :
    (M.relabel f).exec s acts = M.exec s (acts.map f) := by
  induction acts generalizing s with
  | nil => rfl
  | cons b acts ih =>
      rw [List.map_cons, exec_cons, exec_cons]
      exact congrArg _ (funext fun s' => ih s')

end Relabel

/-! ## Carrying a record of the run -/

section History

variable {η : Type*} (start : η) (record : σ → α → η → η)

/-- The machine that keeps, beside the state of `M`, a record of the run so far.  The record
reads the state and never influences it. -/
def withHistory (M : Machine σ α) : Machine (σ × η) α where
  init p := M.init p.1 ∧ p.2 = start
  step p a := (M.step p.1 a).map fun s' => (s', record p.1 a p.2)

variable {start record}

@[simp] lemma withHistory_init (p : σ × η) :
    (M.withHistory start record).init p ↔ M.init p.1 ∧ p.2 = start := Iff.rfl

lemma withHistory_step_eq_some {p p' : σ × η} {a : α} :
    (M.withHistory start record).step p a = some p' ↔
      M.step p.1 a = some p'.1 ∧ p'.2 = record p.1 a p.2 := by
  obtain ⟨s', h'⟩ := p'
  simp only [withHistory, Option.map_eq_some_iff, Prod.mk.injEq]
  constructor
  · rintro ⟨s, hs, rfl, rfl⟩
    exact ⟨hs, rfl⟩
  · rintro ⟨hs, rfl⟩
    exact ⟨s', hs, rfl, rfl⟩

/-- A run of the machine is a run with its record. -/
lemma exists_exec_withHistory {s s' : σ} {acts : List α} (hrun : M.exec s acts = some s')
    (h : η) : ∃ h', (M.withHistory start record).exec (s, h) acts = some (s', h') := by
  induction acts generalizing s h with
  | nil =>
      obtain rfl := Option.some.inj hrun
      exact ⟨h, rfl⟩
  | cons a acts ih =>
      obtain ⟨t, ht, hrest⟩ := Option.bind_eq_some_iff.mp hrun
      obtain ⟨h', hrun'⟩ := ih hrest (record s a h)
      have hstep : (M.withHistory start record).step (s, h) a = some (t, record s a h) :=
        withHistory_step_eq_some.mpr ⟨ht, rfl⟩
      refine ⟨h', ?_⟩
      rw [exec_cons, hstep]
      exact hrun'

/-- Forgetting the record gives a run of the machine itself. -/
lemma Reachable.fst {p : σ × η} (h : (M.withHistory start record).Reachable p) :
    M.Reachable p.1 := by
  induction h with
  | init h => exact .init h.1
  | step a _ h ih => exact .step a ih (withHistory_step_eq_some.mp h).1

end History

/-! ## Forward simulation -/

section Simulation

variable {τ β : Type*}

/-- What an observer sees of a run: the observations of its steps, in order. -/
def traceOf (M : Machine σ α) (obs : σ → α → Option β) (s : σ) : List α → List β
  | [] => []
  | a :: acts =>
      (obs s a).toList ++ ((M.step s a).elim [] fun s' => M.traceOf obs s' acts)

/-- A forward simulation of `M` by `N`: related states exist initially, and a step of `M`
from a reachable state is matched by the step of `N` it is observed as, or by no step where
nothing is observed. -/
structure Simulation (M : Machine σ α) (N : Machine τ β) (obs : σ → α → Option β) where
  rel : σ → τ → Prop
  init : ∀ s, M.init s → ∃ t, N.init t ∧ rel s t
  step : ∀ s t a s', M.Reachable s → rel s t → M.step s a = some s' →
    ∃ t', N.exec t (obs s a).toList = some t' ∧ rel s' t'

variable {N : Machine τ β} {obs : σ → α → Option β}

/-- The simulating machine takes the observed trace from any state related to the start. -/
lemma Simulation.exec_of_rel (S : Simulation M N obs) {s s' : σ} {t : τ} {acts : List α}
    (hs : M.Reachable s) (hrel : S.rel s t) (hrun : M.exec s acts = some s') :
    ∃ t', N.exec t (M.traceOf obs s acts) = some t' ∧ S.rel s' t' := by
  induction acts generalizing s t with
  | nil =>
      obtain rfl : s = s' := Option.some.inj hrun
      exact ⟨t, rfl, hrel⟩
  | cons a acts ih =>
      obtain ⟨u, hu, hrest⟩ := Option.bind_eq_some_iff.mp hrun
      obtain ⟨t₁, ht₁, hrel₁⟩ := S.step s t a u hs hrel hu
      obtain ⟨t', ht', hrel'⟩ := ih (.step a hs hu) hrel₁ hrest
      refine ⟨t', ?_, hrel'⟩
      simp only [traceOf, hu, Option.elim_some, exec_append, ht₁, Option.bind_some, ht']

/-- **Refinement.**  Every run of `M` from an initial state is observed as a run of `N`. -/
theorem Simulation.refines (S : Simulation M N obs) {s s' : σ} {acts : List α}
    (hinit : M.init s) (hrun : M.exec s acts = some s') :
    ∃ t t', N.init t ∧ N.exec t (M.traceOf obs s acts) = some t' ∧ S.rel s' t' := by
  obtain ⟨t, ht, hrel⟩ := S.init s hinit
  obtain ⟨t', hrun', hrel'⟩ := S.exec_of_rel (.init hinit) hrel hrun
  exact ⟨t, t', ht, hrun', hrel'⟩

end Simulation

/-! ## Observed runs -/

section Observed

variable {β : Type*} {obs : σ → α → Option β} {right : β → Prop}

@[simp] lemma traceOf_nil (M : Machine σ α) (obs : σ → α → Option β) (s : σ) :
    M.traceOf obs s [] = [] := rfl

lemma traceOf_cons {s t : σ} {a : α} (ht : M.step s a = some t) (acts : List α) :
    M.traceOf obs s (a :: acts) = (obs s a).toList ++ M.traceOf obs t acts := by
  rw [traceOf, ht, Option.elim_some]

/-- What is observed of a run is observed of one of its steps. -/
lemma exists_of_mem_traceOf {s s' : σ} {acts : List α} {b : β} (hs : M.Reachable s)
    (hrun : M.exec s acts = some s') (hb : b ∈ M.traceOf obs s acts) :
    ∃ t a t', M.Reachable t ∧ M.step t a = some t' ∧ b ∈ obs t a := by
  induction acts generalizing s with
  | nil => cases hb
  | cons a acts ih =>
      obtain ⟨t, ht, hrest⟩ := Option.bind_eq_some_iff.mp hrun
      rw [traceOf_cons ht, List.mem_append, Option.mem_toList] at hb
      rcases hb with hb | hb
      · exact ⟨s, a, t, hs, ht, hb⟩
      · exact ih (.step a hs ht) hrest hb

/-- Observers of whom one sees what passes a filter of the other. -/
lemma filter_traceOf {p : β → Bool} {obs' : σ → α → Option β}
    (h : ∀ s a, (obs s a).toList.filter p = (obs' s a).toList) (s : σ) (acts : List α) :
    (M.traceOf obs s acts).filter p = M.traceOf obs' s acts := by
  induction acts generalizing s with
  | nil => rfl
  | cons a acts ih =>
      rw [traceOf, traceOf, List.filter_append, h]
      cases M.step s a with
      | none => rfl
      | some t => exact congrArg _ (ih t)

/-- A restricted run is observed as the run. -/
lemma traceOf_of_restrict {G : σ → α → Prop} [∀ s a, Decidable (G s a)] {s s' : σ}
    {acts : List α} (hrun : (M.restrict G).exec s acts = some s') :
    (M.restrict G).traceOf obs s acts = M.traceOf obs s acts := by
  induction acts generalizing s with
  | nil => rfl
  | cons a acts ih =>
      obtain ⟨t, ht, hrest⟩ := Option.bind_eq_some_iff.mp hrun
      rw [traceOf_cons ht, traceOf_cons (restrict_step_eq_some.mp ht).2, ih hrest]

/-- So is a confined one. -/
lemma traceOf_of_confine {P : σ → Prop} [DecidablePred P] {s s' : σ} {acts : List α}
    (hrun : (M.confine P).exec s acts = some s') :
    (M.confine P).traceOf obs s acts = M.traceOf obs s acts := by
  induction acts generalizing s with
  | nil => rfl
  | cons a acts ih =>
      obtain ⟨t, ht, hrest⟩ := Option.bind_eq_some_iff.mp hrun
      rw [traceOf_cons ht, traceOf_cons (confine_step_eq_some.mp ht).1, ih hrest]

/-- The record of a run goes along with the run. -/
lemma exec_of_withHistory {η : Type*} {start : η} {record : σ → α → η → η}
    (obs : σ → α → Option β) {p p' : σ × η} {acts : List α}
    (hrun : (M.withHistory start record).exec p acts = some p') :
    M.exec p.1 acts = some p'.1 ∧
      (M.withHistory start record).traceOf (fun p => obs p.1) p acts = M.traceOf obs p.1 acts := by
  induction acts generalizing p with
  | nil => exact ⟨congrArg (Option.map Prod.fst) hrun, rfl⟩
  | cons a acts ih =>
      obtain ⟨q, hq, hrest⟩ := Option.bind_eq_some_iff.mp hrun
      have hstep := (withHistory_step_eq_some.mp hq).1
      obtain ⟨hexec, htrace⟩ := ih hrest
      rw [exec_cons, hstep, traceOf_cons hq, traceOf_cons hstep, htrace]
      exact ⟨hexec, rfl⟩

/-- **Exactness of a condition on runs.**  Where, as long as `I` lasts, a step is observed right
exactly if it meets `G`, and a step that meets `G` keeps `I`, the runs observed right throughout
are those of the restricted machine. -/
theorem forall_traceOf_iff {I : σ → Prop} {G : σ → α → Prop} [∀ s a, Decidable (G s a)]
    (hright : ∀ s a s', M.Reachable s → I s → M.step s a = some s' →
      ((∀ b ∈ obs s a, right b) ↔ G s a))
    (hkeep : ∀ s a s', M.Reachable s → I s → M.step s a = some s' → G s a → I s')
    {s s' : σ} {acts : List α} (hs : M.Reachable s) (hI : I s)
    (hrun : M.exec s acts = some s') :
    (∀ b ∈ M.traceOf obs s acts, right b) ↔ (M.restrict G).exec s acts = some s' := by
  induction acts generalizing s with
  | nil => exact iff_of_true (by simp) hrun
  | cons a acts ih =>
      obtain ⟨t, ht, hrest⟩ := Option.bind_eq_some_iff.mp hrun
      have hfirst := hright s a t hs hI ht
      have hsplit : (∀ b ∈ M.traceOf obs s (a :: acts), right b) ↔
          G s a ∧ ∀ b ∈ M.traceOf obs t acts, right b := by
        rw [← hfirst, traceOf_cons ht, List.forall_mem_append]
        simp
      rw [hsplit, exec_cons]
      by_cases hG : G s a
      · have hres : (M.restrict G).step s a = some t := restrict_step_eq_some.mpr ⟨hG, ht⟩
        rw [hres, Option.bind_some, ← ih (.step a hs ht) (hkeep s a t hs hI ht hG) hrest]
        exact and_iff_right hG
      · have hres : (M.restrict G).step s a = none := if_neg hG
        rw [hres]
        exact iff_of_false (fun h => hG h.1) (by simp)

end Observed

end Machine

end InfiTracing.Framework
