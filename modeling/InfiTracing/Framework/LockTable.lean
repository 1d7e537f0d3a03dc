import Mathlib.Logic.Function.Basic

/-!
# Spinlocks held one at a time

A table of one-word locks `busy : ι → Bool` and the lock each party holds,
`held : π → Option ι`.  `LockTable held busy` is mutual exclusion together with the truth of
the words: no lock has two holders, and a word is set exactly while somebody holds the lock.

The three rules are all a lock protocol needs: it holds when nobody holds anything and every
word is clear, a test-and-set that found the word clear keeps it (`acquire`), and so does the
holder clearing the word (`release`).
-/

namespace InfiTracing.Framework

variable {π ι : Type*}

/-- Every lock has at most one holder, and its word is set exactly while it has one. -/
structure LockTable (held : π → Option ι) (busy : ι → Bool) : Prop where
  exclusive : ∀ a b i, held a = some i → held b = some i → a = b
  busy_iff : ∀ i, busy i = true ↔ ∃ a, held a = some i

namespace LockTable

variable [DecidableEq π] [DecidableEq ι] {held : π → Option ι} {busy : ι → Bool}

omit [DecidableEq π] [DecidableEq ι] in
lemma unheld (hheld : ∀ a, held a = none) (hbusy : ∀ i, busy i = false) :
    LockTable held busy where
  exclusive a _ i ha := by simp [hheld a] at ha
  busy_iff i := by simp [hheld, hbusy]

omit [DecidableEq π] [DecidableEq ι] in
/-- Nobody holds a lock whose word is clear. -/
lemma not_held (h : LockTable held busy) {a : π} {i : ι} (hi : busy i = false) :
    held a ≠ some i := by
  intro ha
  have := (h.busy_iff i).mpr ⟨a, ha⟩
  simp [hi] at this

/-- A party that holds nothing takes a lock whose word is clear. -/
theorem acquire (h : LockTable held busy) {a : π} {i : ι} (ha : held a = none)
    (hi : busy i = false) :
    LockTable (Function.update held a (some i)) (Function.update busy i true) where
  exclusive b c j hb hc := by
    by_cases hba : b = a <;> by_cases hca : c = a
    · rw [hba, hca]
    · -- `b` is the new holder, so `c` would hold a lock whose word was clear
      obtain rfl : i = j := by simpa [hba] using hb
      exact absurd (by simpa [hca] using hc) (h.not_held hi)
    · obtain rfl : i = j := by simpa [hca] using hc
      exact absurd (by simpa [hba] using hb) (h.not_held hi)
    · exact h.exclusive b c j (by simpa [hba] using hb) (by simpa [hca] using hc)
  busy_iff j := by
    by_cases hj : j = i
    · subst hj
      simp only [Function.update_self, true_iff]
      exact ⟨a, by simp⟩
    · rw [Function.update_of_ne hj, h.busy_iff j]
      constructor
      · rintro ⟨b, hb⟩
        have hba : b ≠ a := by rintro rfl; simp [ha] at hb
        exact ⟨b, by simpa [hba] using hb⟩
      · rintro ⟨b, hb⟩
        have hba : b ≠ a := by
          rintro rfl
          exact hj (by simpa using hb.symm)
        exact ⟨b, by simpa [hba] using hb⟩

/-- The holder of a lock clears its word. -/
theorem release (h : LockTable held busy) {a : π} {i : ι} (ha : held a = some i) :
    LockTable (Function.update held a none) (Function.update busy i false) where
  exclusive b c j hb hc := by
    have hba : b ≠ a := by rintro rfl; simp at hb
    have hca : c ≠ a := by rintro rfl; simp at hc
    exact h.exclusive b c j (by simpa [hba] using hb) (by simpa [hca] using hc)
  busy_iff j := by
    by_cases hj : j = i
    · subst hj
      simp only [Function.update_self, Bool.false_eq_true, false_iff]
      rintro ⟨b, hb⟩
      have hba : b ≠ a := by rintro rfl; simp at hb
      exact hba (h.exclusive b a j (by simpa [hba] using hb) ha)
    · rw [Function.update_of_ne hj, h.busy_iff j]
      constructor
      · rintro ⟨b, hb⟩
        have hba : b ≠ a := by
          rintro rfl
          exact hj (Option.some.inj (hb.symm.trans ha))
        exact ⟨b, by simpa [hba] using hb⟩
      · rintro ⟨b, hb⟩
        have hba : b ≠ a := by rintro rfl; simp at hb
        exact ⟨b, by simpa [hba] using hb⟩

end LockTable

end InfiTracing.Framework
