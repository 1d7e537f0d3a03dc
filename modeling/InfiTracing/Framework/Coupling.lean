import Mathlib.Tactic.Common

/-!
# Programs that may run out of fuel, and two runs of one program

A program over a state `σ` is a term of `StateT σ Option`: it changes the state and returns a
value, or it has no result at all.

`Couples x a b post` says that `x` has a result from `a` and from `b`, that both runs return
the same value, and that the value and the two final states satisfy `post`.  With `a = b` it
is a triple of total correctness.  It has the rules of such a logic: one for each way to build
a program.

`EndsAs x y` says that `y` does what `x` does wherever `x` has a result, as a program with more
fuel does.
-/

namespace InfiTracing.Framework

universe u

variable {σ α β : Type u}

/-! ## Two runs -/

/-- Runs of `x` from `a` and from `b` both have a result, with one value and with final states
that satisfy `post`. -/
def Couples (x : StateT σ Option α) (a b : σ) (post : α → σ → σ → Prop) : Prop :=
  ∃ v a' b', x a = some (v, a') ∧ x b = some (v, b') ∧ post v a' b'

namespace Couples

variable {x : StateT σ Option α} {a b : σ} {post : α → σ → σ → Prop}

lemma pure {v : α} (h : post v a b) : Couples (Pure.pure v) a b post :=
  ⟨v, a, b, rfl, rfl, h⟩

lemma mono {weaker : α → σ → σ → Prop} (h : Couples x a b post)
    (himp : ∀ v a' b', post v a' b' → weaker v a' b') : Couples x a b weaker := by
  obtain ⟨v, a', b', ha, hb, hpost⟩ := h
  exact ⟨v, a', b', ha, hb, himp v a' b' hpost⟩

/-- The rule of sequencing. -/
theorem bind {f : α → StateT σ Option β} {final : β → σ → σ → Prop} (h : Couples x a b post)
    (hf : ∀ v a' b', post v a' b' → Couples (f v) a' b' final) :
    Couples (x >>= f) a b final := by
  obtain ⟨v, a', b', ha, hb, hpost⟩ := h
  obtain ⟨w, a'', b'', hfa, hfb, hfinal⟩ := hf v a' b' hpost
  refine ⟨w, a'', b'', ?_, ?_, hfinal⟩
  · show (x a).bind (fun r => f r.1 r.2) = _
    rw [ha]
    exact hfa
  · show (x b).bind (fun r => f r.1 r.2) = _
    rw [hb]
    exact hfb

lemma ite {c : Prop} [Decidable c] {y : StateT σ Option α} (hx : c → Couples x a b post)
    (hy : ¬ c → Couples y a b post) : Couples (if c then x else y) a b post := by
  split
  · next h => exact hx h
  · next h => exact hy h

lemma isSome (h : Couples x a b post) : (x a).isSome := by
  obtain ⟨v, a', b', ha, -, -⟩ := h
  rw [ha, Option.isSome_some]

end Couples

/-! ## More fuel -/

/-- Wherever `x` has a result, `y` has the same. -/
def EndsAs (x y : StateT σ Option α) : Prop := ∀ s r, x s = some r → y s = some r

namespace EndsAs

lemma refl (x : StateT σ Option α) : EndsAs x x := fun _ _ h => h

lemma bind {x y : StateT σ Option α} {f g : α → StateT σ Option β} (h : EndsAs x y)
    (hf : ∀ v, EndsAs (f v) (g v)) : EndsAs (x >>= f) (y >>= g) := by
  intro s r hr
  obtain ⟨⟨v, s'⟩, hx, hv⟩ := Option.bind_eq_some_iff.mp hr
  exact Option.bind_eq_some_iff.mpr ⟨(v, s'), h s _ hx, hf v s' r hv⟩

lemma ite {c : Prop} [Decidable c] {x x' y y' : StateT σ Option α} (hx : EndsAs x x')
    (hy : EndsAs y y') : EndsAs (if c then x else y) (if c then x' else y') := by
  split
  · exact hx
  · exact hy

/-- Where `x` has a result, the two programs are equal. -/
lemma eq {x y : StateT σ Option α} {s : σ} (h : EndsAs x y) (hx : (x s).isSome) :
    y s = x s := by
  obtain ⟨r, hr⟩ := Option.isSome_iff_exists.mp hx
  rw [hr, h s r hr]

end EndsAs

end InfiTracing.Framework
