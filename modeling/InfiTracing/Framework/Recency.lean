import Mathlib.Data.Finset.Card
import Mathlib.Data.List.TakeWhile

/-!
# Least recently used, from a list of touches

The abstract content of a cache that keeps the `c` elements touched last.  The touches are a
list, the latest first; `recency touches` is each touched element once, in the order of its
last touch, and the cache is the first `c` of them.

`mem_take_recency_iff` is the least-recently-used law: an element is in the cache exactly if
it has been touched, and fewer than `c` distinct other elements have been touched since.  The
lemmas on `take` say what a touch does to the cache itself: on a hit the element moves to the
front (`take_recency_of_mem`), on a miss it is put before the others, of which a full cache
loses the last (`take_recency_of_notMem`).
-/

namespace InfiTracing.Framework

variable {α : Type*}

section TakeWhile

lemma takeWhile_filter {p q : α → Bool} (h : ∀ x, p x = false → q x = true) (l : List α) :
    (l.filter q).takeWhile p = (l.takeWhile p).filter q := by
  induction l with
  | nil => simp
  | cons x l ih =>
      cases hp : p x with
      | false => simp [h x hp, hp]
      | true => cases hq : q x <;> simp [hp, hq, ih]

variable [DecidableEq α]

/-- An element is among the first `c` of a list if fewer than `c` others come before it. -/
lemma mem_take_iff (l : List α) (a : α) (c : ℕ) :
    a ∈ l.take c ↔ a ∈ l ∧ (l.takeWhile (· ≠ a)).length < c := by
  induction l generalizing c with
  | nil => simp
  | cons b l ih =>
      cases c with
      | zero => simp
      | succ c =>
          by_cases hb : b = a
          · simp [hb]
          · simp [hb, ih c, Ne.symm hb]

end TakeWhile

variable [DecidableEq α]

/-- Each touched element once, the one touched last first. -/
def recency : List α → List α
  | [] => []
  | a :: touches => a :: (recency touches).filter (· ≠ a)

variable {touches : List α} {a : α} {c : ℕ}

lemma recency_cons (a : α) (touches : List α) :
    recency (a :: touches) = a :: (recency touches).filter (· ≠ a) := rfl

@[simp] lemma mem_recency : a ∈ recency touches ↔ a ∈ touches := by
  induction touches with
  | nil => simp [recency]
  | cons b touches ih =>
      by_cases hb : a = b
      · simp [recency_cons, hb]
      · simp [recency_cons, hb, ih]

lemma nodup_recency (touches : List α) : (recency touches).Nodup := by
  induction touches with
  | nil => exact List.nodup_nil
  | cons a touches ih =>
      rw [recency_cons, List.nodup_cons]
      exact ⟨by simp, ih.filter _⟩

/-- There are as many as there are distinct touched elements. -/
lemma length_recency (touches : List α) : (recency touches).length = touches.toFinset.card := by
  rw [← List.toFinset_card_of_nodup (nodup_recency touches)]
  congr 1
  ext a
  simp

/-- The elements before `a` are those touched since `a` was touched last. -/
lemma takeWhile_recency (touches : List α) (a : α) :
    (recency touches).takeWhile (· ≠ a) = recency (touches.takeWhile (· ≠ a)) := by
  induction touches with
  | nil => rfl
  | cons b touches ih =>
      by_cases hb : b = a
      · simp [hb, recency]
      · have hcomm := takeWhile_filter (p := (· ≠ a)) (q := (· ≠ b))
          (fun x hx => by
            have hxa : x = a := by simpa using hx
            simpa [hxa] using Ne.symm hb) (recency touches)
        rw [recency_cons, List.takeWhile_cons_of_pos (by simpa using hb), hcomm, ih,
          List.takeWhile_cons_of_pos (by simpa using hb), recency_cons]

/-- **The least-recently-used law.** -/
theorem mem_take_recency_iff (touches : List α) (a : α) (c : ℕ) :
    a ∈ (recency touches).take c ↔
      a ∈ touches ∧ (touches.takeWhile (· ≠ a)).toFinset.card < c := by
  rw [mem_take_iff, mem_recency, takeWhile_recency, length_recency]

/-! ## The cache after one more touch -/

lemma filter_ne_of_notMem {l : List α} (h : a ∉ l) : l.filter (· ≠ a) = l :=
  List.filter_eq_self.mpr fun x hx => by simpa using ne_of_mem_of_not_mem hx h

/-- Taking an element out of a list lets one more in. -/
lemma take_filter_ne {l : List α} (hl : l.Nodup) (hmem : a ∈ l.take (c + 1)) :
    (l.filter (· ≠ a)).take c = (l.take (c + 1)).filter (· ≠ a) := by
  induction l generalizing c with
  | nil => simp
  | cons b l ih =>
      obtain ⟨hb, hl⟩ := List.nodup_cons.mp hl
      rw [List.take_succ_cons] at hmem ⊢
      by_cases hba : b = a
      · subst hba
        rw [List.filter_cons_of_neg (by simp), List.filter_cons_of_neg (by simp),
          filter_ne_of_notMem hb, filter_ne_of_notMem fun h => hb (List.mem_of_mem_take h)]
      · have hrest : a ∈ l.take c := (List.mem_cons.mp hmem).resolve_left (Ne.symm hba)
        rw [List.filter_cons_of_pos (by simpa using hba),
          List.filter_cons_of_pos (by simpa using hba)]
        cases c with
        | zero => simp at hrest
        | succ c => rw [List.take_succ_cons, ih hl hrest]

/-- A hit moves the element to the front. -/
lemma take_recency_of_mem (hmem : a ∈ (recency touches).take c) :
    (recency (a :: touches)).take c = a :: ((recency touches).take c).filter (· ≠ a) := by
  cases c with
  | zero => simp at hmem
  | succ c =>
      rw [recency_cons, List.take_succ_cons, take_filter_ne (nodup_recency touches) hmem]

/-- A miss puts the element before the others, as far as they still fit. -/
lemma take_recency_of_notMem (hnot : a ∉ (recency touches).take (c + 1)) :
    (recency (a :: touches)).take (c + 1) = a :: (recency touches).take c := by
  rw [recency_cons, List.take_succ_cons]
  congr 1
  rcases Nat.lt_or_ge c (recency touches).length with hlt | hge
  · -- `a` may have been touched, but so long ago that it does not matter
    have hsplit := (List.take_append_drop (c + 1) (recency touches)).symm
    conv_lhs => rw [hsplit]
    rw [List.filter_append, filter_ne_of_notMem hnot, List.take_append_of_le_length,
      List.take_take, min_eq_left (Nat.le_succ c)]
    rw [List.length_take]
    omega
  · -- all the touched elements are in the cache
    rw [List.take_of_length_le (by omega)] at hnot
    rw [filter_ne_of_notMem hnot]

end InfiTracing.Framework
