import Mathlib.Data.Int.Basic
import Mathlib.Data.List.Infix
import Mathlib.Tactic.Linarith

/-!
# One threshold in place of a stack of barriers

Some elements of a stack are barriers: whatever lies above one is hidden.  An observer that is
told of every push and pop, but keeps only the depth and one threshold, can still tell what is
hidden: an event is visible if its depth is at most the threshold, and a visible event sets the
threshold to its own depth at a barrier and to `limit` elsewhere (`nextThreshold`).

The invariant is about every lower part of the stack, not about the lowest barrier: the
threshold tracks the stack if, for each of its suffixes, an event just above that suffix would
be visible exactly if the suffix has no barrier (`Tracks`).  Pushes and pops keep it
(`Tracks.push`, `Tracks.pop`).  The first element is the top of the stack, and depths are
counted from an arbitrary `base`.

An observer that is not told of every push and pop loses track of the stack, and what the
threshold says then is about the events it was told of: an event is visible exactly if at no
height below was the last of them, at that height or lower, one at a barrier there (`Heeds`).
-/

namespace InfiTracing.Framework

/-- The threshold after an event at `depth`, which is at a barrier if `hit`. -/
def nextThreshold (limit depth threshold : ℤ) (hit : Prop) [Decidable hit] : ℤ :=
  if depth ≤ threshold then (if hit then depth else limit) else threshold

variable {α : Type*} {barrier : α → Prop} {base limit threshold : ℤ} {stack : List α} {x : α}

/-- No element is a barrier. -/
def Clear (barrier : α → Prop) (stack : List α) : Prop := ∀ y ∈ stack, ¬ barrier y

@[simp] lemma clear_cons : Clear barrier (x :: stack) ↔ ¬ barrier x ∧ Clear barrier stack := by
  simp [Clear]

lemma Clear.of_suffix {below : List α} (h : Clear barrier stack) (hbelow : below <:+ stack) :
    Clear barrier below := fun y hy => h y (hbelow.subset hy)

/-- An event right above a lower part of the stack would be visible exactly if that part is
clear. -/
def Tracks (barrier : α → Prop) (base threshold : ℤ) (stack : List α) : Prop :=
  ∀ below, below <:+ stack → (base + below.length ≤ threshold ↔ Clear barrier below)

/-- **What the threshold decides** about the next event above the stack. -/
lemma Tracks.visible_iff (h : Tracks barrier base threshold stack) :
    base + stack.length ≤ threshold ↔ Clear barrier stack := h stack List.suffix_rfl

/-- A threshold that is out of reach tracks a clear stack. -/
lemma Clear.tracks (h : Clear barrier stack) (hfar : base + stack.length ≤ threshold) :
    Tracks barrier base threshold stack := by
  intro below hbelow
  have hlen := hbelow.length_le
  exact iff_of_true (by omega) (h.of_suffix hbelow)

/-- **A push.** -/
theorem Tracks.push (h : Tracks barrier base threshold stack)
    (hlimit : base + stack.length < limit) {hit : Prop} [Decidable hit] (hhit : barrier x ↔ hit) :
    Tracks barrier base (nextThreshold limit (base + stack.length) threshold hit) (x :: stack) := by
  unfold nextThreshold
  by_cases hvisible : base + stack.length ≤ threshold
  · have hclear := h.visible_iff.mp hvisible
    rw [if_pos hvisible]
    intro below hbelow
    rcases List.suffix_cons_iff.mp hbelow with rfl | hbelow
    · -- the whole new stack: it is clear exactly if the new element is no barrier
      rw [clear_cons, hhit, List.length_cons]
      split_ifs with hx
      · exact iff_of_false (by omega) fun h => h.1 hx
      · exact iff_of_true (by omega) ⟨hx, hclear⟩
    · have hlen := hbelow.length_le
      refine iff_of_true ?_ (hclear.of_suffix hbelow)
      split_ifs <;> omega
  · have hhidden : ¬ Clear barrier stack := mt h.visible_iff.mpr hvisible
    rw [if_neg hvisible]
    intro below hbelow
    rcases List.suffix_cons_iff.mp hbelow with rfl | hbelow
    · refine iff_of_false ?_ fun hclear => hhidden (clear_cons.mp hclear).2
      rw [List.length_cons]
      omega
    · exact h below hbelow

/-- **A pop.**  The event of the top element is one right above the rest, whether or not that
element is counted as a barrier. -/
theorem Tracks.pop (h : Tracks barrier base threshold (x :: stack))
    (hlimit : base + stack.length ≤ limit) (hit : Prop) [Decidable hit] :
    Tracks barrier base (nextThreshold limit (base + stack.length) threshold hit) stack := by
  have hrest : Tracks barrier base threshold stack := fun below hbelow =>
    h below (hbelow.trans (List.suffix_cons x stack))
  unfold nextThreshold
  by_cases hvisible : base + stack.length ≤ threshold
  · rw [if_pos hvisible]
    refine (hrest.visible_iff.mp hvisible).tracks ?_
    split_ifs <;> omega
  · rw [if_neg hvisible]
    exact hrest

/-! ## Marks -/

/-- The heights at which the last event observed, there or lower, was one at a barrier there:
after another event at `height`. -/
def markHeight (marks : ℕ → Bool) (height : ℕ) (hit : Bool) : ℕ → Bool := fun t =>
  if t < height then marks t else decide (t = height) && hit

/-- An event within reach of the limit would be visible exactly if no lower height is marked. -/
def Heeds (base limit threshold : ℤ) (marks : ℕ → Bool) : Prop :=
  ∀ height : ℕ, base + height ≤ limit →
    (base + height ≤ threshold ↔ ∀ t < height, marks t = false)

/-- A threshold at the limit hides nothing, where nothing is marked. -/
lemma heeds_limit {marks : ℕ → Bool} (h : ∀ t, marks t = false) : Heeds base limit limit marks :=
  fun _ hreach => iff_of_true hreach fun t _ => h t

/-- **An event that is observed.** -/
theorem Heeds.observe {marks : ℕ → Bool} (h : Heeds base limit threshold marks) {height : ℕ}
    (hreach : base + height ≤ limit) {hit : Prop} [Decidable hit] :
    Heeds base limit (nextThreshold limit (base + height) threshold hit)
      (markHeight marks height hit) := by
  have hevent := h height hreach
  intro other hother
  unfold nextThreshold markHeight
  by_cases hvisible : base + height ≤ threshold
  · -- nothing below is marked, so what counts is the mark of the event itself
    have hclear := hevent.mp hvisible
    rw [if_pos hvisible]
    by_cases hhit : hit
    · simp only [hhit, if_true, decide_true, Bool.and_true]
      constructor
      · intro hle t ht
        rw [if_pos (by omega)]
        exact hclear t (by omega)
      · intro hmarks
        by_contra hlt
        have hmark := hmarks height (by omega)
        simp at hmark
    · simp only [hhit, if_false, decide_false, Bool.and_false]
      refine iff_of_true hother fun t _ => ?_
      split_ifs with ht
      · exact hclear t ht
      · rfl
  · -- a mark below hides the event, and whatever is above it
    have hhidden := mt hevent.mpr hvisible
    rw [if_neg hvisible]
    by_cases hle : other ≤ height
    · rw [h other hother]
      refine forall₂_congr fun t ht => ?_
      rw [if_pos (by omega)]
    · refine iff_of_false (by omega) fun hmarks => hhidden fun t ht => ?_
      have hmark := hmarks t (by omega)
      rwa [if_pos ht] at hmark

end InfiTracing.Framework
