import Mathlib.Tactic.Common

/-!
# Programs over a state: their results and the states they visit

A program is a term of `StateT σ Option`, built from primitive operations by sequencing.

`Yields x s post` is the triple of total correctness: from `s` the program has a result, and the
result satisfies `post`.

`Keeps prim P x s` says that all states the program visits from `s` satisfy `P`: the state it
starts in, the state between any two of its operations, and the state it ends in.  A program
as a function does not show the states in between, so the predicate is a derivation that follows
how the program is built from operations that satisfy `prim`.
-/

namespace InfiTracing.Framework

variable {σ α β : Type}

/-! ## Results -/

/-- From `s` the program has a result that satisfies `post`. -/
def Yields (x : StateT σ Option α) (s : σ) (post : α → σ → Prop) : Prop :=
  ∃ v s', x s = some (v, s') ∧ post v s'

namespace Yields

variable {x : StateT σ Option α} {s : σ} {post : α → σ → Prop}

lemma pure {v : α} (h : post v s) : Yields (Pure.pure v) s post := ⟨v, s, rfl, h⟩

lemma mono {weaker : α → σ → Prop} (h : Yields x s post)
    (himp : ∀ v s', post v s' → weaker v s') : Yields x s weaker := by
  obtain ⟨v, s', hx, hpost⟩ := h
  exact ⟨v, s', hx, himp v s' hpost⟩

/-- The rule of sequencing. -/
theorem bind {f : α → StateT σ Option β} {final : β → σ → Prop} (h : Yields x s post)
    (hf : ∀ v s', post v s' → Yields (f v) s' final) : Yields (x >>= f) s final := by
  obtain ⟨v, s', hx, hpost⟩ := h
  obtain ⟨w, s'', hfx, hfinal⟩ := hf v s' hpost
  refine ⟨w, s'', ?_, hfinal⟩
  show (x s).bind (fun r => f r.1 r.2) = _
  rw [hx]
  exact hfx

/-- The rule of sequencing, where the first program's result is known. -/
lemma bind_of_run {f : α → StateT σ Option β} {final : β → σ → Prop} {v : α} {s' : σ}
    (hx : x s = some (v, s')) (hf : Yields (f v) s' final) : Yields (x >>= f) s final := by
  have hyields : Yields x s fun w t => v = w ∧ s' = t := ⟨v, s', hx, rfl, rfl⟩
  refine hyields.bind ?_
  rintro _ _ ⟨rfl, rfl⟩
  exact hf

lemma ite {c : Prop} [Decidable c] {y : StateT σ Option α} (hx : c → Yields x s post)
    (hy : ¬ c → Yields y s post) : Yields (if c then x else y) s post := by
  split
  · next h => exact hx h
  · next h => exact hy h

/-- A program has one result. -/
lemma and {post' : α → σ → Prop} (h : Yields x s post) (h' : Yields x s post') :
    Yields x s fun v s' => post v s' ∧ post' v s' := by
  obtain ⟨v, s', hx, hpost⟩ := h
  obtain ⟨v', s'', hx', hpost'⟩ := h'
  obtain ⟨rfl, rfl⟩ := Prod.mk.inj (Option.some.inj (hx.symm.trans hx'))
  exact ⟨v, s', hx, hpost, hpost'⟩

end Yields

/-! ## Visited states -/

/-- Built from operations that satisfy `prim`, the program visits only states that satisfy `P`. -/
inductive Keeps (prim : ∀ α : Type, StateT σ Option α → Prop) (P : σ → Prop) :
    ∀ {α : Type}, StateT σ Option α → σ → Prop
  | prim {α : Type} {x : StateT σ Option α} {s : σ} (hx : prim α x) (hs : P s)
      (hend : ∀ v s', x s = some (v, s') → P s') : Keeps prim P x s
  | pure {α : Type} {v : α} {s : σ} (hs : P s) : Keeps prim P (Pure.pure v) s
  /-- The program that has run out of fuel. -/
  | stop {α : Type} {s : σ} (hs : P s) : Keeps prim P (fun _ => (none : Option (α × σ))) s
  | bind {α β : Type} {x : StateT σ Option α} {f : α → StateT σ Option β} {s : σ}
      (hx : Keeps prim P x s) (hf : ∀ v s', x s = some (v, s') → Keeps prim P (f v) s') :
      Keeps prim P (x >>= f) s

namespace Keeps

variable {prim : ∀ α : Type, StateT σ Option α → Prop} {P Q : σ → Prop}
  {x : StateT σ Option α} {s : σ}

lemma final (h : Keeps prim P x s) {v : α} {s' : σ} (hx : x s = some (v, s')) : P s' := by
  induction h with
  | prim _ _ hend => exact hend v s' hx
  | pure hs => exact (Prod.mk.inj (Option.some.inj hx)).2 ▸ hs
  | stop => cases hx
  | bind _ _ _ ih =>
      obtain ⟨⟨w, t⟩, ht, hf⟩ := Option.bind_eq_some_iff.mp hx
      exact ih w t ht hf

lemma mono (h : Keeps prim P x s) (himp : ∀ s, P s → Q s) : Keeps prim Q x s := by
  induction h with
  | prim hx hs hend => exact .prim hx (himp _ hs) fun v s' h => himp s' (hend v s' h)
  | pure hs => exact .pure (himp _ hs)
  | stop hs => exact .stop (himp _ hs)
  | bind _ _ ihx ihf => exact .bind ihx ihf

lemma ite {c : Prop} [Decidable c] {y : StateT σ Option α} (hx : Keeps prim P x s)
    (hy : Keeps prim P y s) : Keeps prim P (if c then x else y) s := by
  split
  · exact hx
  · exact hy

end Keeps

end InfiTracing.Framework
