import Mathlib.Algebra.BigOperators.Group.Finset.Basic
import Mathlib.Algebra.BigOperators.Group.Finset.Piecewise
import Mathlib.Data.Int.CardIntervalMod

/-!
# Counting the members of a family that satisfy a property

`tally S P f` is the number of indices in the finite set `S` at which the family `f` has the
property `P`.  A step of a system usually changes a family at one index, and then
`tally_update` is the whole balance: the count loses the old value's share and gains the new
one's.

For the numbers below `n` in one residue class, the count says what the last of them is
(`last_of_residue_lt`, `le_last_of_residue`).
-/

namespace InfiTracing.Framework

variable {ι α : Type*}

/-- The number of indices in `S` at which `f` satisfies `P`. -/
def tally (S : Finset ι) (P : α → Prop) [DecidablePred P] (f : ι → α) : ℕ :=
  (S.filter fun i => P (f i)).card

variable (S : Finset ι) (P : α → Prop) [DecidablePred P] {f : ι → α}

lemma tally_eq_zero : tally S P f = 0 ↔ ∀ i ∈ S, ¬ P (f i) := by
  simp [tally, Finset.filter_eq_empty_iff]

/-- **The balance of one update.** -/
theorem tally_update [DecidableEq ι] {i : ι} (hi : i ∈ S) (v : α) :
    tally S P (Function.update f i v) + (if P (f i) then 1 else 0) =
      tally S P f + (if P v then 1 else 0) := by
  have hrest : ∀ j ∈ S.erase i,
      (if P (Function.update f i v j) then 1 else 0) = if P (f j) then 1 else 0 := by
    intro j hj
    rw [Function.update_of_ne (Finset.ne_of_mem_erase hj)]
  simp only [tally, Finset.card_filter]
  rw [← Finset.add_sum_erase S _ hi,
    ← Finset.add_sum_erase S (fun j => if P (f j) then 1 else 0) hi,
    Finset.sum_congr rfl hrest, Function.update_self]
  omega

/-- A sum of counters gains what one of them gains. -/
lemma sum_update_add [DecidableEq ι] {i : ι} (hi : i ∈ S) (f : ι → ℕ) (k : ℕ) :
    ∑ j ∈ S, Function.update f i (f i + k) j = ∑ j ∈ S, f j + k := by
  have hrest : ∑ j ∈ S.erase i, Function.update f i (f i + k) j = ∑ j ∈ S.erase i, f j :=
    Finset.sum_congr rfl fun j hj => Function.update_of_ne (Finset.ne_of_mem_erase hj) _ _
  have hnew := Finset.add_sum_erase S (Function.update f i (f i + k)) hi
  have hold := Finset.add_sum_erase S f hi
  rw [hrest, Function.update_self] at hnew
  omega

/-! ## Residue classes -/

section Residue

variable {r i n : ℕ}

lemma count_residue (hi : i < r) :
    Nat.count (· % r = i) n = n / r + if i < n % r then 1 else 0 := by
  have h := Nat.count_modEq_card n (Nat.zero_lt_of_lt hi) i
  simpa only [Nat.ModEq, Nat.mod_eq_of_lt hi] using h

/-- Every number below `n` is in one class. -/
lemma sum_count_residue (hr : 0 < r) (n : ℕ) :
    ∑ i ∈ Finset.range r, Nat.count (· % r = i) n = n := by
  induction n with
  | zero => simp
  | succ n ih =>
      have hlast : ∑ i ∈ Finset.range r, (if n % r = i then 1 else 0) = 1 := by
        rw [Finset.sum_ite_eq, if_pos (Finset.mem_range.mpr (Nat.mod_lt n hr))]
      simp only [Nat.count_succ, Finset.sum_add_distrib, ih, hlast]

/-- The last number below `n` in the class of `i`, read off the count, is below `n`. -/
lemma last_of_residue_lt (hi : i < r) (hpos : 0 < Nat.count (· % r = i) n) :
    i + r * (Nat.count (· % r = i) n - 1) < n := by
  rw [count_residue hi] at hpos ⊢
  have hn := Nat.div_add_mod n r
  by_cases hlast : i < n % r
  · rw [if_pos hlast, Nat.add_sub_cancel]
    omega
  · rw [if_neg hlast, Nat.add_zero] at hpos ⊢
    obtain ⟨q, hq⟩ : ∃ q, n / r = q + 1 := ⟨n / r - 1, by omega⟩
    rw [hq, Nat.mul_add] at hn
    rw [hq, Nat.add_sub_cancel]
    omega

/-- Every number below `n` in the class of `i` is at most the last one. -/
lemma le_last_of_residue (hi : i < r) {k : ℕ} (hk : k < n) (hki : k % r = i) :
    0 < Nat.count (· % r = i) n ∧ k ≤ i + r * (Nat.count (· % r = i) n - 1) := by
  rw [count_residue hi]
  have hn := Nat.div_add_mod n r
  have hkdiv := Nat.div_add_mod k r
  have hle : k / r ≤ n / r := Nat.div_le_div_right hk.le
  by_cases hlast : i < n % r
  · have := Nat.mul_le_mul_left r hle
    rw [if_pos hlast, Nat.add_sub_cancel]
    exact ⟨Nat.succ_pos _, by omega⟩
  · -- the incomplete last lap does not reach `i`, so `k` is in an earlier one
    have hlt : k / r < n / r := by
      refine lt_of_le_of_ne hle fun heq => ?_
      rw [heq] at hkdiv
      omega
    have := Nat.mul_le_mul_left r (Nat.le_sub_one_of_lt hlt)
    rw [if_neg hlast, Nat.add_zero]
    exact ⟨Nat.zero_lt_of_lt hlt, by omega⟩

/-- The number of the next visit of the class of `i`, from `n` on. -/
lemma le_next_of_residue (hi : i < r) : n ≤ i + r * Nat.count (· % r = i) n := by
  rw [count_residue hi]
  have hn := Nat.div_add_mod n r
  have hlt : n % r < r := Nat.mod_lt _ (by omega)
  by_cases hlast : i < n % r
  · rw [if_pos hlast, Nat.mul_add]
    omega
  · rw [if_neg hlast, Nat.add_zero]
    omega

/-- It comes within one lap, so a visit that does is this one. -/
lemma div_eq_count_of_window (hi : i < r) {k : ℕ} (hk : n ≤ k) (hkr : k < n + r)
    (hki : k % r = i) : k / r = Nat.count (· % r = i) n := by
  rw [count_residue hi]
  have hn := Nat.div_add_mod n r
  have hkdiv := Nat.div_add_mod k r
  have hle : n / r ≤ k / r := Nat.div_le_div_right hk
  have hnr : (n + r) / r = n / r + 1 := Nat.add_div_right n (by omega)
  have hle' : k / r ≤ n / r + 1 := hnr ▸ Nat.div_le_div_right hkr.le
  by_cases hlast : i < n % r
  · -- the visit of this lap is behind `n`
    rw [if_pos hlast]
    by_contra hne
    rw [show k / r = n / r by omega] at hkdiv
    omega
  · rw [if_neg hlast, Nat.add_zero]
    by_contra hne
    rw [show k / r = n / r + 1 by omega, Nat.mul_add] at hkdiv
    omega

lemma next_of_residue_self (hr : 0 < r) : n % r + r * Nat.count (· % r = n % r) n = n := by
  rw [count_residue (Nat.mod_lt _ hr), if_neg (lt_irrefl _), Nat.add_zero]
  exact Nat.mod_add_div n r

/-- A number that has not counted more of the class of `m` than `m` has is at most `m`. -/
lemma le_of_count_residue_le {m : ℕ}
    (h : Nat.count (· % r = m % r) n ≤ Nat.count (· % r = m % r) m) : n ≤ m := by
  by_contra hlt
  have hnext : Nat.count (· % r = m % r) (m + 1) = Nat.count (· % r = m % r) m + 1 := by
    rw [Nat.count_succ, if_pos rfl]
  have hmono := Nat.count_monotone (· % r = m % r) (show m + 1 ≤ n by omega)
  omega

/-- Between two visits of the class `t` the numbers come by every other class. -/
lemma exists_cyclic_between {t : ℕ} (hi : i < r) (hne : i ≠ t) {j : ℕ} (hj : j % r = t) :
    ∃ k, j < k ∧ k < j + r ∧ k % r = i := by
  have hdiv := Nat.div_add_mod j r
  have hlt : j % r < r := Nat.mod_lt _ (by omega)
  rcases Nat.lt_or_gt_of_ne hne with hit | hit
  · -- the class of `i` comes in the next lap
    refine ⟨r * (j / r + 1) + i, ?_, ?_, by rw [Nat.mul_add_mod, Nat.mod_eq_of_lt hi]⟩ <;>
      rw [Nat.mul_add, Nat.mul_one] <;> omega
  · exact ⟨r * (j / r) + i, by omega, by omega, by rw [Nat.mul_add_mod, Nat.mod_eq_of_lt hi]⟩

end Residue

end InfiTracing.Framework
