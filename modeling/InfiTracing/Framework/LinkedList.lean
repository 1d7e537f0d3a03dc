import Mathlib.Data.List.Nodup
import Mathlib.Logic.Function.Basic

/-!
# Doubly linked lists

Elements linked by two pointers each, one to the next and one to the previous element.  The
pointers are functions of the element, so that any number of lists share them, and elements that
are in no list have pointers as well.

`Segment` says that the elements of a list are linked in that order, from what the first one
points back to, to what the last one points on to.  `segment_append` is the algebra of it.  The
laws of linking an element first or last and of unlinking one follow from it and from
`Segment.congr`, the frame.
-/

namespace InfiTracing.Framework

/-- The pointers of all elements. -/
structure Links (ι : Type*) where
  next : ι → Option ι
  prev : ι → Option ι

namespace Links

variable {ι : Type*}

/-- The elements are linked in order, from `p` to `n`. -/
def Segment (k : Links ι) (p : Option ι) : List ι → Option ι → Prop
  | [], _ => True
  | a :: l, n => k.prev a = p ∧ k.next a = l.head?.or n ∧ k.Segment (some a) l n

variable {k k' : Links ι} {p n : Option ι} {l l' : List ι} {a : ι}

lemma segment_append :
    k.Segment p (l ++ l') n ↔
      k.Segment p l (l'.head?.or n) ∧ k.Segment (l.getLast?.or p) l' n := by
  induction l generalizing p with
  | nil => simp [Segment]
  | cons a l ih =>
      have hlast : (a :: l).getLast?.or p = l.getLast?.or (some a) := by
        rw [List.getLast?_cons]
        cases l.getLast? <;> rfl
      rw [List.cons_append, Segment, Segment, ih, List.head?_append, Option.or_assoc, hlast,
        and_assoc, and_assoc]

lemma segment_singleton : k.Segment p [a] n ↔ k.prev a = p ∧ k.next a = n := by
  simp [Segment]

/-- The pointers of other elements do not matter. -/
lemma Segment.congr (h : k.Segment p l n) (hnext : ∀ a ∈ l, k'.next a = k.next a)
    (hprev : ∀ a ∈ l, k'.prev a = k.prev a) : k'.Segment p l n := by
  induction l generalizing p with
  | nil => trivial
  | cons a l ih =>
      obtain ⟨hp, hn, hrest⟩ := h
      exact ⟨(hprev a List.mem_cons_self).trans hp, (hnext a List.mem_cons_self).trans hn,
        ih hrest (fun b hb => hnext b (List.mem_cons_of_mem a hb))
          (fun b hb => hprev b (List.mem_cons_of_mem a hb))⟩

lemma Segment.next_head (h : k.Segment p (a :: l) none) : k.next a = l.head? := by
  rw [h.2.1, Option.or_none]

/-! ## Following the pointers -/

/-- Count the elements from `a` on, and check each back pointer; `none` where one is wrong, or
where there are more elements than `fuel`. -/
def check (k : Links ι) [DecidableEq ι] : ℕ → (p a : Option ι) → Option ℕ
  | _, _, none => some 0
  | 0, _, some _ => none
  | fuel + 1, p, some a =>
      if p ≠ k.prev a then none else (k.check fuel (some a) (k.next a)).map (· + 1)

lemma Segment.check [DecidableEq ι] (h : k.Segment p l none) {fuel : ℕ} (hfuel : l.length ≤ fuel) :
    k.check fuel p l.head? = some l.length := by
  induction l generalizing p fuel with
  | nil => cases fuel <;> rfl
  | cons a l ih =>
      cases fuel with
      | zero => cases hfuel
      | succ fuel =>
          rw [List.head?_cons, Links.check, if_neg (not_not.mpr h.1.symm), h.next_head,
            ih h.2.2 (Nat.le_of_succ_le_succ hfuel)]
          rfl

/-- The first element from `a` on that meets the condition. -/
def find (k : Links ι) (q : ι → Bool) : ℕ → (a : Option ι) → Option (Option ι)
  | _, none => some none
  | 0, some _ => none
  | fuel + 1, some a => if q a then some (some a) else k.find q fuel (k.next a)

lemma Segment.find (h : k.Segment p l none) (q : ι → Bool) {fuel : ℕ}
    (hfuel : l.length ≤ fuel) : k.find q fuel l.head? = some (l.find? q) := by
  induction l generalizing p fuel with
  | nil => cases fuel <;> rfl
  | cons a l ih =>
      cases fuel with
      | zero => cases hfuel
      | succ fuel =>
          rw [List.head?_cons, Links.find, h.next_head, ih h.2.2 (Nat.le_of_succ_le_succ hfuel),
            List.find?_cons]
          cases q a <;> rfl

/-! ## Linking and unlinking -/

section Update

variable [DecidableEq ι]

/-- Link `a` before the first element, `head`. -/
def pushFront (k : Links ι) (head : Option ι) (a : ι) : Links ι where
  next := Function.update k.next a head
  prev := match head with
    | some b => Function.update (Function.update k.prev a none) b (some a)
    | none => Function.update k.prev a none

/-- Link `a` behind the last element, `tail`. -/
def pushBack (k : Links ι) (tail a : ι) : Links ι where
  next := Function.update (Function.update k.next a none) tail (some a)
  prev := Function.update k.prev a (some tail)

/-- Link the neighbours of `a` to each other. -/
def unlink (k : Links ι) (a : ι) : Links ι where
  next := match k.prev a with
    | some b => Function.update k.next b (k.next a)
    | none => k.next
  prev := match k.next a with
    | some b => Function.update k.prev b (k.prev a)
    | none => k.prev

/-- Only the pointers of `a` and of the first element change. -/
lemma pushFront_of_ne {head : Option ι} {b : ι} (ha : b ≠ a) (hhead : head ≠ some b) :
    (k.pushFront head a).next b = k.next b ∧ (k.pushFront head a).prev b = k.prev b := by
  refine ⟨Function.update_of_ne ha _ _, ?_⟩
  cases head with
  | none => exact Function.update_of_ne ha _ _
  | some c =>
      have hc : b ≠ c := fun heq => hhead (congrArg some heq.symm)
      exact (Function.update_of_ne hc _ _).trans (Function.update_of_ne ha _ _)

/-- **Linking first.** -/
lemma Segment.pushFront (h : k.Segment none l none) (hnodup : (a :: l).Nodup) :
    (k.pushFront l.head? a).Segment none (a :: l) none := by
  obtain ⟨ha, hl⟩ := List.nodup_cons.mp hnodup
  cases l with
  | nil => exact segment_singleton.mpr ⟨Function.update_self .., Function.update_self ..⟩
  | cons b l =>
      obtain ⟨hb, -⟩ := List.nodup_cons.mp hl
      have hne : a ≠ b := fun heq => ha (heq ▸ List.mem_cons_self)
      have hframe : ∀ c ∈ l, c ≠ a ∧ (b :: l).head? ≠ some c := by
        refine fun c hc => ⟨fun heq => ha (heq ▸ List.mem_cons_of_mem b hc), fun heq => ?_⟩
        exact hb (Option.some.inj heq ▸ hc)
      refine ⟨?_, Function.update_self .., Function.update_self .., ?_, ?_⟩
      · exact (Function.update_of_ne hne _ _).trans (Function.update_self ..)
      · exact (Function.update_of_ne hne.symm _ _).trans h.2.1
      · exact h.2.2.congr (fun c hc => (pushFront_of_ne (hframe c hc).1 (hframe c hc).2).1)
          fun c hc => (pushFront_of_ne (hframe c hc).1 (hframe c hc).2).2

/-- Only the pointers of `a` and of the last element change. -/
lemma pushBack_of_ne {tail b : ι} (ha : b ≠ a) (htail : b ≠ tail) :
    (k.pushBack tail a).next b = k.next b ∧ (k.pushBack tail a).prev b = k.prev b := by
  refine ⟨?_, Function.update_of_ne ha _ _⟩
  exact (Function.update_of_ne htail _ _).trans (Function.update_of_ne ha _ _)

/-- **Linking last.** -/
lemma Segment.pushBack {tail : ι} (h : k.Segment none (l ++ [tail]) none)
    (hnodup : (l ++ [tail, a]).Nodup) : (k.pushBack tail a).Segment none (l ++ [tail, a]) none := by
  obtain ⟨hl, hta, hdisjoint⟩ := List.nodup_append.mp hnodup
  have hne : tail ≠ a := by simpa using hta
  rw [segment_append] at h ⊢
  obtain ⟨hfirst, hlast⟩ := h
  obtain ⟨hprev, -⟩ := segment_singleton.mp hlast
  refine ⟨?_, ?_, ?_, ?_⟩
  · have hframe : ∀ b ∈ l, b ≠ a ∧ b ≠ tail := fun b hb =>
      ⟨hdisjoint b hb a (by simp), hdisjoint b hb tail (by simp)⟩
    exact hfirst.congr (fun b hb => (pushBack_of_ne (hframe b hb).1 (hframe b hb).2).1)
      fun b hb => (pushBack_of_ne (hframe b hb).1 (hframe b hb).2).2
  · exact (Function.update_of_ne hne _ _).trans hprev
  · exact Function.update_self ..
  · refine segment_singleton.mpr ⟨Function.update_self .., ?_⟩
    exact (Function.update_of_ne hne.symm _ _).trans (Function.update_self ..)

lemma unlink_next_of_ne {b : ι} (h : k.prev a ≠ some b) : (k.unlink a).next b = k.next b := by
  unfold unlink
  cases hprev : k.prev a with
  | none => rfl
  | some c =>
      rw [hprev] at h
      exact Function.update_of_ne (fun heq => h (congrArg some heq.symm)) _ _

lemma unlink_prev_of_ne {b : ι} (h : k.next a ≠ some b) : (k.unlink a).prev b = k.prev b := by
  unfold unlink
  cases hnext : k.next a with
  | none => rfl
  | some c =>
      rw [hnext] at h
      exact Function.update_of_ne (fun heq => h (congrArg some heq.symm)) _ _

lemma unlink_next_self {b : ι} (h : k.prev a = some b) : (k.unlink a).next b = k.next a := by
  simp only [unlink, h, Function.update_self]

lemma unlink_prev_self {b : ι} (h : k.next a = some b) : (k.unlink a).prev b = k.prev a := by
  simp only [unlink, h, Function.update_self]

/-- Only the pointers of the neighbours change. -/
lemma Segment.unlink_of_notMem (h : k.Segment none (l ++ a :: l') none) {b : ι} (hl : b ∉ l)
    (hl' : b ∉ l') : (k.unlink a).next b = k.next b ∧ (k.unlink a).prev b = k.prev b := by
  obtain ⟨-, hprev, hnext, -⟩ := segment_append.mp h
  rw [Option.or_none] at hprev hnext
  constructor
  · refine unlink_next_of_ne fun heq => ?_
    exact hl (List.mem_of_mem_getLast? (hprev.symm.trans heq))
  · refine unlink_prev_of_ne fun heq => ?_
    exact hl' (List.mem_of_mem_head? (hnext.symm.trans heq))

/-- **Unlinking.** -/
lemma Segment.unlink (h : k.Segment none (l ++ a :: l') none) (hnodup : (l ++ a :: l').Nodup) :
    (k.unlink a).Segment none (l ++ l') none := by
  obtain ⟨hl, hal', hdisjoint⟩ := List.nodup_append.mp hnodup
  obtain ⟨ha, hl'⟩ := List.nodup_cons.mp hal'
  obtain ⟨hfirst, hprev, hnext, hlast⟩ := segment_append.mp h
  rw [Option.or_none] at hprev hnext
  rw [segment_append, Option.or_none, Option.or_none, ← hprev]
  constructor
  · -- the last element before `a` is the only one whose next pointer changes
    rcases List.eq_nil_or_concat l with rfl | ⟨before, b, rfl⟩
    · trivial
    · rw [List.concat_eq_append] at *
      have hb : k.prev a = some b := by rw [hprev, List.getLast?_concat]
      have hout : ∀ c ∈ before ++ [b], k.next a ≠ some c := by
        intro c hc heq
        rw [hnext] at heq
        exact hdisjoint c hc c (List.mem_cons_of_mem a (List.mem_of_mem_head? heq)) rfl
      obtain ⟨hbefore, hsingle⟩ := segment_append.mp hfirst
      refine segment_append.mpr ⟨hbefore.congr (fun c hc => unlink_next_of_ne ?_) fun c hc =>
        unlink_prev_of_ne (hout c (List.mem_append_left _ hc)), segment_singleton.mpr ⟨?_, ?_⟩⟩
      · rw [hb]
        rintro heq
        obtain rfl := Option.some.inj heq
        exact absurd rfl ((List.nodup_append.mp hl).2.2 b hc b List.mem_cons_self)
      · rw [unlink_prev_of_ne (hout b (by simp))]
        exact (segment_singleton.mp hsingle).1
      · rw [unlink_next_self hb, hnext]
  · -- the first element behind it is the only one whose back pointer changes
    cases l' with
    | nil => trivial
    | cons b l' =>
        have hout : ∀ c ∈ b :: l', k.prev a ≠ some c := by
          intro c hc heq
          rw [hprev] at heq
          exact hdisjoint c (List.mem_of_mem_getLast? heq) c (List.mem_cons_of_mem a hc) rfl
        refine ⟨unlink_prev_self hnext, ?_, hlast.2.2.congr (fun c hc => ?_) fun c hc => ?_⟩
        · rw [unlink_next_of_ne (hout b List.mem_cons_self)]
          exact hlast.2.1
        · exact unlink_next_of_ne (hout c (List.mem_cons_of_mem b hc))
        · refine unlink_prev_of_ne fun heq => ?_
          rw [hnext] at heq
          obtain rfl := Option.some.inj heq
          exact (List.nodup_cons.mp hl').1 hc

end Update

end Links

end InfiTracing.Framework
