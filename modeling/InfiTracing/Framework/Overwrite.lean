import Mathlib.Data.List.TakeWhile
import Mathlib.Tactic.Common

/-!
# Overwriting a stretch of a list

`overwrite l i bs` is the memory `l` after the bytes `bs` were stored from index `i` on.  What
stood before `i` stays, and whatever two memories held from `i` on, they agree on the stretch
after the same bytes were stored there (`take_overwrite_congr`).

A C string in memory ends at the first terminator, so two memories that agree up to a
terminator hold the same string (`takeWhile_congr`).
-/

namespace InfiTracing.Framework

variable {α : Type*}

/-- `l` with `bs` stored from index `i` on. -/
def overwrite (l : List α) (i : ℕ) (bs : List α) : List α :=
  l.take i ++ bs ++ l.drop (i + bs.length)

variable {l l' bs : List α} {i : ℕ}

lemma length_overwrite (h : i + bs.length ≤ l.length) :
    (overwrite l i bs).length = l.length := by
  simp only [overwrite, List.length_append, List.length_take, List.length_drop]
  omega

lemma overwrite_nil (l : List α) (i : ℕ) : overwrite l i [] = l := by
  simp [overwrite]

lemma take_overwrite_of_le {k : ℕ} (h : i ≤ l.length) (hk : k ≤ i) :
    (overwrite l i bs).take k = l.take k := by
  have hlen : k ≤ (l.take i).length := by rw [List.length_take]; omega
  rw [overwrite, List.append_assoc, List.take_append_of_le_length hlen, List.take_take,
    min_eq_left hk]

/-- The memory up to the end of the stored bytes. -/
lemma take_overwrite (h : i ≤ l.length) {k : ℕ} (hk : k ≤ bs.length) :
    (overwrite l i bs).take (i + k) = l.take i ++ bs.take k := by
  have hi : (l.take i).length = i := by rw [List.length_take]; omega
  rw [overwrite, List.append_assoc, List.take_append, hi,
    List.take_of_length_le (by omega), Nat.add_sub_cancel_left,
    List.take_append_of_le_length hk]

lemma take_overwrite_congr (h : i ≤ l.length) (h' : i ≤ l'.length) (heq : l.take i = l'.take i)
    {k : ℕ} (hk : k ≤ bs.length) :
    (overwrite l i bs).take (i + k) = (overwrite l' i bs).take (i + k) := by
  rw [take_overwrite h hk, take_overwrite h' hk, heq]

lemma getElem?_overwrite (h : i ≤ l.length) {k : ℕ} (hk : k < bs.length) :
    (overwrite l i bs)[i + k]? = bs[k]? := by
  have hi : (l.take i).length = i := by rw [List.length_take]; omega
  rw [overwrite, List.append_assoc, List.getElem?_append_right (by omega), hi,
    Nat.add_sub_cancel_left, List.getElem?_append_left hk]

lemma getElem?_overwrite_of_le {k : ℕ} (h : i ≤ l.length) (hk : i + bs.length ≤ k) :
    (overwrite l i bs)[k]? = l[k]? := by
  have hi : (l.take i ++ bs).length = i + bs.length := by
    rw [List.length_append, List.length_take]
    omega
  rw [overwrite, List.getElem?_append_right (by omega), hi, List.getElem?_drop]
  congr 1
  omega

/-- Storing one byte, and then the rest behind it. -/
lemma overwrite_set (h : i < l.length) (b : α) :
    overwrite (l.set i b) (i + 1) bs = overwrite l i (b :: bs) := by
  have hset : l.set i b = l.take i ++ b :: l.drop (i + 1) := by
    rw [List.set_eq_take_append_cons_drop, if_pos h]
  have hi : (l.take i).length = i := by rw [List.length_take]; omega
  have htake : (l.take i ++ b :: l.drop (i + 1)).take (i + 1) = l.take i ++ [b] := by
    rw [List.take_append, hi, Nat.add_sub_cancel_left, List.take_of_length_le (by omega)]
    rfl
  have hdrop : (l.take i ++ b :: l.drop (i + 1)).drop (i + 1 + bs.length) =
      l.drop (i + (b :: bs).length) := by
    rw [List.drop_append, hi, List.drop_of_length_le (by omega),
      show i + 1 + bs.length - i = bs.length + 1 by omega, List.drop_succ_cons, List.drop_drop,
      List.length_cons, List.nil_append, show i + 1 + bs.length = i + (bs.length + 1) by omega]
  rw [hset, overwrite, htake, hdrop, overwrite, List.append_assoc _ [b] bs, List.singleton_append]

/-- Storing a stretch, and then its first byte once more. -/
lemma set_overwrite (h : i < l.length) (b : α) :
    (overwrite l i bs).set i b = overwrite l i (b :: bs.tail) := by
  have hi : (l.take i).length = i := by rw [List.length_take]; omega
  rw [overwrite, List.append_assoc, List.set_append_right i b (by omega), hi, Nat.sub_self]
  cases bs with
  | nil =>
      have hdrop : (l.drop i).set 0 b = b :: l.drop (i + 1) := by
        rw [List.drop_eq_getElem_cons h, List.set_cons_zero]
      simpa [overwrite] using hdrop
  | cons c bs => simp [overwrite]

section Terminated

variable [DecidableEq α] {z : α} {k : ℕ}

lemma takeWhile_eq_of_getElem? (h : l[k]? = some z) :
    l.takeWhile (· ≠ z) = (l.take k).takeWhile (· ≠ z) := by
  obtain ⟨hlt, hget⟩ := List.getElem?_eq_some_iff.mp h
  have hsplit : l = l.take k ++ z :: l.drop (k + 1) := by
    rw [← hget, ← List.drop_eq_getElem_cons hlt, List.take_append_drop]
  conv_lhs => rw [hsplit]
  rw [List.takeWhile_append]
  split_ifs with hall
  · rw [List.takeWhile_cons_of_neg (by simp), List.append_nil]
    exact ((List.takeWhile_prefix _).eq_of_length hall).symm
  · rfl

/-- Memories that agree up to a terminator hold the same string. -/
lemma takeWhile_congr (heq : l.take k = l'.take k) (h : l[k]? = some z)
    (h' : l'[k]? = some z) : l.takeWhile (· ≠ z) = l'.takeWhile (· ≠ z) := by
  rw [takeWhile_eq_of_getElem? h, takeWhile_eq_of_getElem? h', heq]

end Terminated

end InfiTracing.Framework
