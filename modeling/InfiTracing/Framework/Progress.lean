import InfiTracing.Framework.Machine
import Mathlib.Algebra.BigOperators.Group.Finset.Basic
import Mathlib.Algebra.BigOperators.Group.Finset.Piecewise
import Mathlib.Algebra.Order.Group.Nat

/-!
# Bounded work and completion

Steps of a machine of which some are work and others, such as a turn of a spinning loop, are
not.  A measure of the states pays for the work: each step of work lowers it, and only the
actions that bring something new in raise it, each by at most a fixed amount.  Then the work
done in a run is bounded by the measure at its start and by what has come in
(`work_le_of_measure`), however often the other steps are taken in between.

Where in every state short of a goal there is a step of work that brings nothing in, the goal is
reached from everywhere (`exists_exec_of_progress`).
-/

namespace InfiTracing.Framework

namespace Machine

variable {σ α : Type*} {M : Machine σ α}

/-- The number of steps of a run that are work. -/
def workIn (M : Machine σ α) (works : σ → α → Bool) (s : σ) : List α → ℕ
  | [] => 0
  | a :: acts => (works s a).toNat + (M.step s a).elim 0 fun s' => M.workIn works s' acts

/-- A measure that pays for the work of the steps `A` allows, under the invariant `I`.  An action
that `brings` something in adds at most `k`. -/
structure Pays (M : Machine σ α) (I : σ → Prop) (A : α → Prop) (measure : σ → ℕ)
    (works : σ → α → Bool) (brings : α → Bool) (k : ℕ) : Prop where
  keeps : ∀ s a s', A a → I s → M.step s a = some s' → I s'
  pays : ∀ s a s', A a → I s → M.step s a = some s' →
    measure s' + (works s a).toNat ≤ measure s + k * (brings a).toNat

variable {I : σ → Prop} {A : α → Prop} {measure : σ → ℕ} {works : σ → α → Bool}
  {brings : α → Bool} {k : ℕ}

/-- **Bounded work.**  A run does no more work than its start and what comes in pay for. -/
theorem work_le_of_measure (hp : Pays M I A measure works brings k) {s s' : σ} {acts : List α}
    (hacts : ∀ a ∈ acts, A a) (hI : I s) (hrun : M.exec s acts = some s') :
    measure s' + M.workIn works s acts ≤ measure s + k * acts.countP brings := by
  induction acts generalizing s with
  | nil =>
      obtain rfl : s = s' := Option.some.inj hrun
      exact le_rfl
  | cons a acts ih =>
      obtain ⟨t, ht, hrest⟩ := Option.bind_eq_some_iff.mp hrun
      have ha : A a := hacts a List.mem_cons_self
      have hfirst := hp.pays s a t ha hI ht
      have hlast := ih (fun b hb => hacts b (List.mem_cons_of_mem a hb))
        (hp.keeps s a t ha hI ht) hrest
      have hcount : k * (a :: acts).countP brings =
          k * (brings a).toNat + k * acts.countP brings := by
        rw [List.countP_cons, Nat.mul_add, Nat.add_comm]
        cases brings a <;> simp
      rw [workIn, ht, Option.elim_some, hcount]
      omega

/-- **Completion.**  Where every state short of the goal has a step of work that brings nothing
in, some run reaches the goal, in no more steps than the measure. -/
theorem exists_exec_of_progress (hp : Pays M I A measure works brings k) {goal : σ → Prop}
    (hprogress : ∀ s, I s → ¬ goal s →
      ∃ a s', A a ∧ brings a = false ∧ works s a = true ∧ M.step s a = some s')
    {s : σ} (hI : I s) :
    ∃ acts s', (∀ a ∈ acts, A a ∧ brings a = false) ∧ M.exec s acts = some s' ∧ goal s' ∧
      acts.length ≤ measure s := by
  induction hn : measure s using Nat.strong_induction_on generalizing s with
  | _ n ih =>
      by_cases hgoal : goal s
      · exact ⟨[], s, by simp, rfl, hgoal, Nat.zero_le _⟩
      · obtain ⟨a, t, ha, hbrings, hworks, ht⟩ := hprogress s hI hgoal
        have hlower := hp.pays s a t ha hI ht
        rw [hworks, hbrings, Bool.toNat_true, Bool.toNat_false, Nat.mul_zero] at hlower
        obtain ⟨acts, s', hacts, hrun, hdone, hlength⟩ :=
          ih (measure t) (by omega) (hp.keeps s a t ha hI ht) rfl
        refine ⟨a :: acts, s', ?_, ?_, hdone, by rw [List.length_cons]; omega⟩
        · intro b hb
          rcases List.mem_cons.mp hb with rfl | hb
          · exact ⟨ha, hbrings⟩
          · exact hacts b hb
        · rw [exec_cons, ht]
          exact hrun

end Machine

/-! ## Measures of families -/

/-- The balance of one update in a sum over a finite type. -/
lemma sum_apply_update {ι α : Type*} [Fintype ι] [DecidableEq ι] (g : α → ℕ) (f : ι → α) (i : ι)
    (v : α) : ∑ j, g (Function.update f i v j) + g (f i) = ∑ j, g (f j) + g v := by
  have hcomp : ∀ j, g (Function.update f i v j) = Function.update (g ∘ f) i (g v) j :=
    fun j => congrFun (Function.comp_update g f i v) j
  have hold := Finset.add_sum_erase Finset.univ (g ∘ f) (Finset.mem_univ i)
  rw [Finset.sum_congr rfl fun j _ => hcomp j,
    Finset.sum_update_of_mem (Finset.mem_univ i), Finset.sdiff_singleton_eq_erase]
  simp only [Function.comp_apply] at hold ⊢
  omega

end InfiTracing.Framework
