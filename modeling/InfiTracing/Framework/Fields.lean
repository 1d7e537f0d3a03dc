import Mathlib.Algebra.Ring.Nat
import Mathlib.Tactic.Common

/-!
# Fields of a delimited text

A positional format writes its fields one after the other with a separator between them, and a
reader cuts the text at the separators again.  `cut_append` says that a field without a
separator in it comes back; `notMem_of_cut` that no other field ever does.  `cutLast` cuts the last
field off instead.

A text of lines has a terminator behind each of them.  `lines_joined` gives the lines back
if none has a terminator in it, and `length_lines_joined_iff` says that otherwise there are more of
them.
-/

namespace InfiTracing.Framework

variable {α : Type*} [DecidableEq α] {sep : α}

/-- The first field, and what follows the separator behind it. -/
def cut (sep : α) : List α → Option (List α × List α)
  | [] => none
  | a :: l => if a = sep then some ([], l) else (cut sep l).map fun r => (a :: r.1, r.2)

lemma cut_append {field : List α} (h : sep ∉ field) (rest : List α) :
    cut sep (field ++ sep :: rest) = some (field, rest) := by
  induction field with
  | nil => exact if_pos rfl
  | cons a field ih =>
      obtain ⟨hne, htail⟩ := not_or.mp (List.mem_cons.not.mp h)
      rw [List.cons_append, cut, if_neg (Ne.symm hne), ih htail, Option.map_some]

lemma notMem_of_cut {l field rest : List α} (h : cut sep l = some (field, rest)) :
    sep ∉ field := by
  induction l generalizing field with
  | nil => exact absurd h (by simp [cut])
  | cons a l ih =>
      rw [cut] at h
      split_ifs at h with heq
      · obtain ⟨rfl, -⟩ := Prod.mk.inj (Option.some.inj h)
        exact List.not_mem_nil
      · obtain ⟨⟨tail, rest'⟩, hcut, hr⟩ := Option.map_eq_some_iff.mp h
        obtain ⟨rfl, rfl⟩ := Prod.mk.inj hr
        exact fun hmem => (List.mem_cons.mp hmem).elim (Ne.symm heq) (ih hcut)

/-- What is cut is put together again. -/
lemma append_of_cut {l field rest : List α} (h : cut sep l = some (field, rest)) :
    l = field ++ sep :: rest := by
  induction l generalizing field with
  | nil => exact absurd h (by simp [cut])
  | cons a l ih =>
      rw [cut] at h
      split_ifs at h with heq
      · obtain ⟨rfl, rfl⟩ := Prod.mk.inj (Option.some.inj h)
        rw [heq, List.nil_append]
      · obtain ⟨⟨tail, rest'⟩, hcut, hr⟩ := Option.map_eq_some_iff.mp h
        obtain ⟨rfl, rfl⟩ := Prod.mk.inj hr
        rw [ih hcut, List.cons_append]

/-- Two ways to put a text together from a field and the rest are one, where neither field has a
separator in it. -/
lemma append_sep_inj {field field' rest rest' : List α} (h : sep ∉ field) (h' : sep ∉ field')
    (heq : field ++ sep :: rest = field' ++ sep :: rest') : field = field' ∧ rest = rest' := by
  have hcut := cut_append h rest
  rw [heq, cut_append h' rest'] at hcut
  obtain ⟨hfield, hrest⟩ := Prod.mk.inj (Option.some.inj hcut)
  exact ⟨hfield.symm, hrest.symm⟩

/-- The last field, and what precedes the separator before it. -/
def cutLast (sep : α) (l : List α) : Option (List α × List α) :=
  (cut sep l.reverse).map fun r => (r.2.reverse, r.1.reverse)

lemma cutLast_append {field : List α} (h : sep ∉ field) (front : List α) :
    cutLast sep (front ++ sep :: field) = some (front, field) := by
  have hreverse : (front ++ sep :: field).reverse = field.reverse ++ sep :: front.reverse := by
    simp
  rw [cutLast, hreverse, cut_append (by simpa using h)]
  simp

lemma append_of_cutLast {l front field : List α} (h : cutLast sep l = some (front, field)) :
    l = front ++ sep :: field := by
  obtain ⟨⟨field', front'⟩, hcut, hr⟩ := Option.map_eq_some_iff.mp h
  obtain ⟨rfl, rfl⟩ := Prod.mk.inj hr
  rw [← l.reverse_reverse, append_of_cut hcut]
  simp

/-! ## Lines -/

/-- The lines of a text, each ended by a terminator; what follows the last terminator is none. -/
def lines (sep : α) : List α → List (List α)
  | [] => []
  | a :: l =>
      if a = sep then [] :: lines sep l
      else match lines sep l with
        | [] => []
        | line :: rest => (a :: line) :: rest

lemma lines_append {line : List α} (h : sep ∉ line) (rest : List α) :
    lines sep (line ++ sep :: rest) = line :: lines sep rest := by
  induction line with
  | nil => exact if_pos rfl
  | cons a line ih =>
      obtain ⟨hne, htail⟩ := not_or.mp (List.mem_cons.not.mp h)
      rw [List.cons_append, lines, if_neg (Ne.symm hne), ih htail]

/-- There are as many lines as there are terminators. -/
lemma length_lines (sep : α) (l : List α) : (lines sep l).length = l.count sep := by
  induction l with
  | nil => rfl
  | cons a l ih =>
      rw [lines]
      split_ifs with heq
      · rw [heq, List.count_cons_self, List.length_cons, ih]
      · rw [List.count_cons_of_ne heq, ← ih]
        cases lines sep l <;> rfl

/-- The text of the given lines. -/
def joined (sep : α) (ls : List (List α)) : List α := ls.flatMap fun line => line ++ [sep]

omit [DecidableEq α] in
lemma joined_cons (line : List α) (ls : List (List α)) :
    joined sep (line :: ls) = line ++ sep :: joined sep ls := by
  rw [joined, List.flatMap_cons, List.append_assoc, List.singleton_append, joined]

lemma lines_of_notMem {l : List α} (h : sep ∉ l) : lines sep l = [] := by
  rw [← List.length_eq_zero_iff, length_lines]
  exact List.count_eq_zero_of_not_mem h

/-- The lines come back, whatever is begun behind them. -/
lemma lines_joined_append {ls : List (List α)} (h : ∀ line ∈ ls, sep ∉ line) {tail : List α}
    (htail : sep ∉ tail) : lines sep (joined sep ls ++ tail) = ls := by
  induction ls with
  | nil => exact lines_of_notMem htail
  | cons line ls ih =>
      obtain ⟨hfirst, hrest⟩ := List.forall_mem_cons.mp h
      rw [joined_cons, List.append_assoc, List.cons_append, lines_append hfirst, ih hrest]

lemma lines_joined {ls : List (List α)} (h : ∀ line ∈ ls, sep ∉ line) :
    lines sep (joined sep ls) = ls := by
  simpa using lines_joined_append h List.not_mem_nil

lemma count_joined (ls : List (List α)) :
    (joined sep ls).count sep = ls.length + (ls.map (List.count sep)).sum := by
  induction ls with
  | nil => rfl
  | cons line ls ih =>
      rw [joined_cons, List.count_append, List.count_cons_self, ih, List.length_cons,
        List.map_cons, List.sum_cons]
      omega

/-- A text has as many lines as were joined in it exactly if none of them has a terminator. -/
lemma length_lines_joined_iff {ls : List (List α)} :
    (lines sep (joined sep ls)).length = ls.length ↔ ∀ line ∈ ls, sep ∉ line := by
  rw [length_lines, count_joined, Nat.add_eq_left]
  induction ls with
  | nil => simp
  | cons line ls ih =>
      rw [List.map_cons, List.sum_cons, Nat.add_eq_zero_iff, ih, List.count_eq_zero,
        List.forall_mem_cons]

end InfiTracing.Framework
