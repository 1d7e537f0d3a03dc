import Mathlib.Logic.Function.Basic
import InfiTracing.Framework.Machine

/-!
# A queue served in ticket order

The specification of a bounded channel whose producers draw tickets: a producer takes the
next ticket, arrives at its place, later commits a message there, and the consumer serves the
places in the order of the tickets.  Arrivals and commits may come in any order.  The consumer
may refuse only while the next ticket has not arrived; once it has, the consumer waits for
its message.

`served_of_reachable` is the FIFO law: the `k`-th message served is the one committed under
ticket `k`.
-/

namespace InfiTracing.Framework

/-- The state of the queue over messages `μ`. -/
structure TicketQueue (μ : Type*) where
  issued : ℕ
  arrived : ℕ → Bool
  content : ℕ → Option μ
  served : List μ

/-- What happens at the queue. -/
inductive TicketEvent (μ : Type*)
  | issue
  | arrive (ticket : ℕ)
  | commit (ticket : ℕ) (message : μ)
  | serve (message : μ)
  | refuse

namespace TicketQueue

variable {μ : Type*}

/-- No ticket issued. -/
def empty : TicketQueue μ where
  issued := 0
  arrived _ := false
  content _ := none
  served := []

variable [DecidableEq μ]

/-- The queue after an event; `none` where the event cannot happen. -/
def step (q : TicketQueue μ) : TicketEvent μ → Option (TicketQueue μ)
  | .issue => some { q with issued := q.issued + 1 }
  | .arrive k =>
      if k < q.issued ∧ q.arrived k = false then
        some { q with arrived := Function.update q.arrived k true }
      else none
  | .commit k m =>
      if q.arrived k = true ∧ q.content k = none then
        some { q with content := Function.update q.content k (some m) }
      else none
  | .serve m =>
      if q.content q.served.length = some m then some { q with served := q.served ++ [m] }
      else none
  | .refuse => if q.arrived q.served.length = false then some q else none

/-- The machine of all runs of the queue. -/
def machine (μ : Type*) [DecidableEq μ] : Machine (TicketQueue μ) (TicketEvent μ) where
  init q := q = empty
  step := step

/-- **First in, first out.**  The `k`-th message served is the one committed under ticket
`k`. -/
theorem served_of_reachable {q : TicketQueue μ} (hq : (machine μ).Reachable q) :
    ∀ k m, q.served[k]? = some m → q.content k = some m := by
  refine hq.invariant (I := fun q => ∀ k m, q.served[k]? = some m → q.content k = some m) ?_ ?_
  · rintro q rfl k m hm
    simp [empty] at hm
  · intro q e q' _ ih hstep k m hm
    change q.step e = some q' at hstep
    cases e with
    | issue =>
        obtain rfl := Option.some.inj hstep
        exact ih k m hm
    | arrive j =>
        simp only [step, Option.ite_none_right_eq_some, Option.some.injEq] at hstep
        obtain ⟨-, rfl⟩ := hstep
        exact ih k m hm
    | commit j m' =>
        -- what has been served stays: a place is committed once
        simp only [step, Option.ite_none_right_eq_some, Option.some.injEq] at hstep
        obtain ⟨⟨-, hnone⟩, rfl⟩ := hstep
        have hold := ih k m hm
        have hk : k ≠ j := by rintro rfl; simp [hnone] at hold
        simpa [hk] using hold
    | serve m' =>
        simp only [step, Option.ite_none_right_eq_some, Option.some.injEq] at hstep
        obtain ⟨hnext, rfl⟩ := hstep
        rcases Nat.lt_or_ge k q.served.length with hk | hk
        · exact ih k m (by simpa [List.getElem?_append_left hk] using hm)
        · rw [List.getElem?_append_right hk, List.getElem?_singleton] at hm
          split at hm
          · rw [show k = q.served.length by omega, hnext, hm]
          · cases hm
    | refuse =>
        simp only [step, Option.ite_none_right_eq_some, Option.some.injEq] at hstep
        obtain ⟨-, rfl⟩ := hstep
        exact ih k m hm

end TicketQueue

end InfiTracing.Framework
