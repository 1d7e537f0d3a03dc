import InfiTracing.Serialize.Failure

/-!
# Markers behind scalars

Whether the marker behind a list of scalars is honest: it should stand there exactly when some
text is missing or cut.  What an element becomes depends on how its text compares with the room
it has (`Fit`), and the serializers treat a text that fills the room exactly in two ways.  A
`long` is written in full, without a NUL, and reported as cut; an object loses its last byte to the
NUL and is reported as whole.

`listOrTupleRepr_scalars` gives the bytes, `shownBytes_eq_iff` says when they are the complete
texts, and `listOrTupleRepr_markerHonest_iff` puts the two together.
-/

namespace InfiTracing.Serialize

open Framework

/-! ## How a text fits -/

/-- A text and the room it has: its NUL fits too, it fills the room exactly, or it is longer.
Of the texts that fill the room, that of a `long` is set apart. -/
inductive Fit
  | fits
  | fills
  | fillsAsLong
  | exceeds
  deriving DecidableEq

namespace Fit

def of (isLong : Bool) (length room : ℕ) : Fit :=
  if length < room then .fits
  else if room < length then .exceeds
  else if isLong then .fillsAsLong else .fills

/-- What the serializer returns. -/
def ok : Fit → Bool
  | fits | fills => true
  | fillsAsLong | exceeds => false

/-- What the serializer appends. -/
def bytes (text : List UInt8) : Fit → List UInt8
  | fits | fillsAsLong => text
  | fills => TraceMessage.printed text.length text
  | exceeds => []

variable {length room : ℕ}

lemma of_of_lt (isLong : Bool) (h : length < room) : of isLong length room = .fits := if_pos h

lemma of_of_gt (isLong : Bool) (h : room < length) : of isLong length room = .exceeds :=
  (if_neg (by omega)).trans (if_pos h)

lemma of_self (isLong : Bool) (room : ℕ) :
    of isLong room room = if isLong then .fillsAsLong else .fills :=
  (if_neg (lt_irrefl room)).trans (if_neg (lt_irrefl room))

end Fit

/-- The NUL takes the place of the last byte. -/
lemma printed_ne {text : CString} (h : text.1 ≠ []) :
    TraceMessage.printed text.1.length text.1 ≠ text.1 := by
  intro heq
  refine text.2 ?_
  rw [← heq, TraceMessage.printed, if_neg (List.length_pos_iff.mpr h).ne']
  exact List.mem_append_right _ (List.mem_singleton_self 0)

lemma length_printed (text : List UInt8) :
    (TraceMessage.printed text.length text).length = text.length := by
  unfold TraceMessage.printed
  split
  · next h => exact h.symm
  · rw [List.length_append, List.length_take, List.length_singleton]
    omega

lemma Fit.length_bytes_le (isLong : Bool) (text : List UInt8) (room : ℕ) :
    ((Fit.of isLong text.length room).bytes text).length ≤ room := by
  rcases lt_trichotomy text.length room with hlt | rfl | hgt
  · rw [of_of_lt isLong hlt]
    exact hlt.le
  · rw [of_self]
    cases isLong with
    | true => exact le_rfl
    | false => exact (length_printed text).le
  · rw [of_of_gt isLong hgt]
    exact Nat.zero_le room

/-! ## Elements in a row -/

/-- The comma before an element, unless it is the first. -/
def comma (i : ℕ) : List UInt8 := if 0 < i then [44] else []

section Rows

variable {χ : Type} (fit : ℕ → χ → Fit) (text : χ → CString)

/-- What the loop appends from index `i` on; it ends with an element that is reported as cut. -/
def shownBytes : ℕ → List χ → List UInt8
  | _, [] => []
  | i, x :: xs => comma i ++ (fit i x).bytes (text x).1 ++
      if (fit i x).ok then shownBytes (i + 1) xs else []

/-- No element is reported as cut. -/
def allShown : ℕ → List χ → Bool
  | _, [] => true
  | i, x :: xs => (fit i x).ok && allShown (i + 1) xs

/-- The complete texts, with commas. -/
def joinFrom : ℕ → List χ → List UInt8
  | _, [] => []
  | i, x :: xs => comma i ++ (text x).1 ++ joinFrom (i + 1) xs

variable {fit}

lemma joinFrom_succ (i : ℕ) (xs : List χ) : joinFrom text (i + 1) xs = joinFrom text 1 xs := by
  induction xs generalizing i with
  | nil => rfl
  | cons x xs ih =>
      have hcomma : comma (i + 1) = comma 1 := if_pos (Nat.succ_pos i)
      rw [joinFrom, joinFrom, hcomma, ih (i + 1), ih 1]

lemma joinFrom_zero (xs : List χ) :
    joinFrom text 0 xs = List.intercalate [44] (xs.map fun x => (text x).1) := by
  induction xs with
  | nil => rfl
  | cons x xs ih =>
      cases xs with
      | nil => exact (List.append_nil _).trans List.intercalate_singleton.symm
      | cons y ys =>
          rw [List.map_cons] at ih
          rw [List.map_cons, List.map_cons, List.intercalate_cons_cons, ← ih,
            joinFrom, joinFrom, joinFrom, joinFrom_succ text 1]
          show (text x).1 ++ ([44] ++ (text y).1 ++ _) = (text x).1 ++ [44] ++ ((text y).1 ++ _)
          simp only [List.append_assoc]

variable {text}

/-- A property of every item, with its index from `i` on. -/
def Each (P : ℕ → χ → Prop) (i : ℕ) (items : List χ) : Prop :=
  ∀ j x, items[j]? = some x → P (i + j) x

lemma each_nil (P : ℕ → χ → Prop) (i : ℕ) : Each P i [] := fun _ _ h => by cases h

lemma each_cons {P : ℕ → χ → Prop} {i : ℕ} {x : χ} {xs : List χ} :
    Each P i (x :: xs) ↔ P i x ∧ Each P (i + 1) xs := by
  constructor
  · intro h
    refine ⟨h 0 x rfl, fun j y hj => ?_⟩
    have hnext := h (j + 1) y hj
    rwa [← Nat.add_assoc, Nat.add_right_comm] at hnext
  · rintro ⟨hx, hxs⟩ j y hj
    cases j with
    | zero => exact Option.some.inj hj ▸ hx
    | succ j =>
        rw [← Nat.add_assoc, Nat.add_right_comm]
        exact hxs j y hj

lemma allShown_iff (i : ℕ) (items : List χ) :
    allShown fit i items = true ↔ Each (fun i x => (fit i x).ok = true) i items := by
  induction items generalizing i with
  | nil => exact iff_of_true rfl (each_nil _ i)
  | cons x xs ih => rw [allShown, Bool.and_eq_true, ih, each_cons]

/-- Every text fits, except that the last may be that of a `long` that fills its room. -/
def Complete (fit : ℕ → χ → Fit) (i : ℕ) (items : List χ) : Prop :=
  Each (fun i x => fit i x = .fits) i items ∨
    ∃ init last, items = init ++ [last] ∧ Each (fun i x => fit i x = .fits) i init ∧
      fit (i + init.length) last = .fillsAsLong

lemma complete_cons {i : ℕ} {x : χ} {xs : List χ} :
    Complete fit i (x :: xs) ↔
      (fit i x = .fits ∧ Complete fit (i + 1) xs) ∨ (fit i x = .fillsAsLong ∧ xs = []) := by
  unfold Complete
  constructor
  · rintro (h | ⟨init, last, heq, hinit, hlast⟩)
    · obtain ⟨hx, hxs⟩ := each_cons.mp h
      exact .inl ⟨hx, .inl hxs⟩
    · cases init with
      | nil =>
          obtain ⟨rfl, rfl⟩ := List.cons.inj heq
          exact .inr ⟨hlast, rfl⟩
      | cons y init =>
          obtain ⟨rfl, rfl⟩ := List.cons.inj heq
          obtain ⟨hx, hinit⟩ := each_cons.mp hinit
          rw [List.length_cons, Nat.add_comm init.length 1, ← Nat.add_assoc] at hlast
          exact .inl ⟨hx, .inr ⟨init, last, rfl, hinit, hlast⟩⟩
  · rintro (⟨hx, h | ⟨init, last, rfl, hinit, hlast⟩⟩ | ⟨hx, rfl⟩)
    · exact .inl (each_cons.mpr ⟨hx, h⟩)
    · refine .inr ⟨x :: init, last, rfl, each_cons.mpr ⟨hx, hinit⟩, ?_⟩
      rwa [List.length_cons, Nat.add_comm init.length 1, ← Nat.add_assoc]
    · exact .inr ⟨[], x, rfl, each_nil _ i, hx⟩

lemma joinFrom_eq_nil_iff (i : ℕ) (xs : List χ) : joinFrom text (i + 1) xs = [] ↔ xs = [] := by
  cases xs with
  | nil => exact iff_of_true rfl rfl
  | cons x xs => exact iff_of_false (fun h => by cases h) (List.cons_ne_nil x xs)

/-- **When the bytes are the complete texts.**  The loop comes to the first `n` items; the
induction is on the items. -/
theorem shownBytes_eq_iff (hne : ∀ i x, fit i x ≠ .fits → (text x).1 ≠ []) (items : List χ)
    {n : ℕ} (i : ℕ) (hn : 0 < i + n) :
    shownBytes fit text i (items.take n) = joinFrom text i items ↔
      items.length ≤ n ∧ Complete fit i items := by
  induction items generalizing i n with
  | nil =>
      rw [List.take_nil]
      exact iff_of_true rfl ⟨Nat.zero_le n, .inl (each_nil _ i)⟩
  | cons x xs ih =>
      cases n with
      | zero =>
          have hcomma : comma i = [44] := if_pos hn
          rw [List.take_zero, joinFrom, hcomma]
          exact iff_of_false (fun h => by cases h) fun h => by cases h.1
      | succ n =>
          rw [List.take_succ_cons, shownBytes, joinFrom, List.length_cons, complete_cons,
            Nat.succ_le_succ_iff]
          have htext := hne i x
          cases hfit : fit i x with
          | fits =>
              show comma i ++ (text x).1 ++ shownBytes fit text (i + 1) (xs.take n) = _ ↔ _
              rw [List.append_right_inj, ih (i + 1) (by omega)]
              simp
          | fills =>
              refine iff_of_false (fun h => ?_) (by simp)
              rw [List.append_assoc, List.append_assoc, List.append_right_inj] at h
              exact printed_ne (htext (by simp [hfit])) (List.append_inj h (length_printed _)).1
          | fillsAsLong =>
              show comma i ++ (text x).1 ++ [] = _ ↔ _
              rw [List.append_right_inj, eq_comm, joinFrom_eq_nil_iff]
              simp only [reduceCtorEq, false_and, true_and, false_or]
              exact ⟨fun h => ⟨h ▸ Nat.zero_le n, h⟩, And.right⟩
          | exceeds =>
              refine iff_of_false (fun h => ?_) (by simp)
              have hlength := congrArg List.length h
              have hpos := List.length_pos_iff.mpr (htext (by simp [hfit]))
              simp only [List.length_append] at hlength
              change (comma i).length + 0 + 0 = _ at hlength
              omega

end Rows

/-! ## Scalars -/

/-- An object without parts that has one text. -/
inductive Scalar : PyObject → Prop
  | int (value : Int64) : Scalar (.int value)
  | long (value : ℤ) : Scalar (.long value)
  | pyNone : Scalar .pyNone
  | pyTrue : Scalar .pyTrue
  | pyFalse : Scalar .pyFalse
  | other (type : PyType) : Scalar (.other type)

/-- The complete text of a scalar. -/
def scalarText (py : CPython) (ptr : Pointer) : PyObject → CString
  | .int value => CString.decimal value.toInt
  | .long value => py.longFormat value
  | .pyNone => CString.literal "None"
  | .pyTrue => CString.literal "True"
  | .pyFalse => CString.literal "False"
  | .other type => objText type ptr
  | _ => CString.literal ""

def isLong : PyObject → Bool
  | .long _ => true
  | _ => false

/-- The bytes an element has for its text: 64 with the comma. -/
def elementRoom (i : ℕ) : ℕ := if 0 < i then 63 else 64

variable (py : CPython) (heap : Heap) {m : TraceMessage}

/-- How the element at index `i` fits. -/
def elementFit (i : ℕ) (ptr : Pointer) : Fit :=
  .of (isLong (heap ptr)) (scalarText py ptr (heap ptr)).1.length (elementRoom i)

/-- `printf` of a whole text. -/
lemma renders_printf_fit (hm : m.writeIndex ≤ m.limitIndex) {room : ℕ} (hroom : m.availSize = room)
    (text : CString) :
    Renders (printf text) m fun ok bs => ok = (Fit.of false text.1.length room).ok ∧
      bs = (Fit.of false text.1.length room).bytes text.1 := by
  rcases lt_trichotomy text.1.length room with hlt | heq | hgt
  · rw [Fit.of_of_lt false hlt]
    exact renders_printf_of_lt hm (by omega)
  · rw [← heq, Fit.of_self]
    exact renders_printf_of_eq hm (by omega)
  · rw [Fit.of_of_gt false hgt]
    exact renders_printf_of_gt hm (by omega)

/-- `write` of a text that is sure to fit. -/
lemma renders_write_fit (hm : m.writeIndex ≤ m.limitIndex) {room : ℕ} (hroom : m.availSize = room)
    {text : CString} (h : text.1.length < room) :
    Renders (write text) m fun ok bs => ok = (Fit.of false text.1.length room).ok ∧
      bs = (Fit.of false text.1.length room).bytes text.1 := by
  rw [Fit.of_of_lt false h]
  exact renders_write_of_lt hm (by omega)

lemma renders_longRepr_fit (hm : m.writeIndex ≤ m.limitIndex) {room : ℕ}
    (hroom : m.availSize = room) (value : ℤ) :
    Renders (longRepr py value) m fun ok bs =>
      ok = (Fit.of true (py.longFormat value).1.length room).ok ∧
        bs = (Fit.of true (py.longFormat value).1.length room).bytes (py.longFormat value).1 := by
  set text := py.longFormat value with htext
  refine .congr (rfl : _ = (if (text.1.length : ℤ) ≤ m.availSize then write text else pure false :
    Render Bool) m) ?_
  rcases lt_trichotomy text.1.length room with hlt | heq | hgt
  · rw [Fit.of_of_lt true hlt]
    exact .ite (fun _ => renders_write_of_lt hm (by omega)) fun h => absurd (by omega) h
  · rw [← heq, Fit.of_self]
    refine .ite (fun _ => (renders_write hm text).mono ?_) fun h => absurd (by omega) h
    rintro ok bs ⟨rfl, hok⟩
    refine ⟨Bool.eq_false_iff.mpr fun htrue => ?_, List.take_of_length_le (by omega)⟩
    have hlt := hok.mp htrue
    omega
  · rw [Fit.of_of_gt true hgt]
    exact .ite (fun h => absurd h (by omega)) fun _ => .pure hm ⟨rfl, rfl⟩

/-- **What a scalar becomes** in a room of at least 22 bytes. -/
theorem renders_scalar {ptr : Pointer} (hptr : ptr ≠ 0) (hscalar : Scalar (heap ptr))
    (hm : m.writeIndex ≤ m.limitIndex) {room : ℕ} (hroom : m.availSize = room) (hle : 22 ≤ room)
    (fuel : ℕ) :
    Renders (fastRepr py heap (fuel + 1) ptr) m fun ok bs =>
      ok = (Fit.of (isLong (heap ptr)) (scalarText py ptr (heap ptr)).1.length room).ok ∧
        bs = (Fit.of (isLong (heap ptr)) (scalarText py ptr (heap ptr)).1.length room).bytes
          (scalarText py ptr (heap ptr)).1 := by
  have hbody : fastRepr py heap (fuel + 1) ptr = _ := if_neg hptr
  rw [hbody]
  cases hscalar' : heap ptr with
  | int value => exact renders_printf_fit hm hroom _
  | long value => exact renders_longRepr_fit py hm hroom value
  | pyNone => exact renders_write_fit hm hroom (Nat.lt_of_lt_of_le (by decide : 4 < 22) hle)
  | pyTrue => exact renders_write_fit hm hroom (Nat.lt_of_lt_of_le (by decide : 4 < 22) hle)
  | pyFalse => exact renders_write_fit hm hroom (Nat.lt_of_lt_of_le (by decide : 5 < 22) hle)
  | other type => exact renders_printf_fit hm hroom _
  | _ =>
      rw [hscalar'] at hscalar
      cases hscalar

lemma length_comma_add (i : ℕ) : (comma i).length + elementRoom i = 64 := by
  unfold comma elementRoom
  split <;> rfl

lemma elementRoom_bounds (i : ℕ) : 63 ≤ elementRoom i ∧ elementRoom i ≤ 64 := by
  unfold elementRoom
  split <;> omega

lemma renders_separator_comma (hm : m.writeIndex ≤ m.limitIndex) (hroom : m.availSize = 64)
    (i : ℕ) : Renders (separator i) m fun ok bs => ok = true ∧ bs = comma i := by
  unfold comma
  split
  · next h =>
      refine .ite (fun _ => renders_write_of_lt hm ?_) fun hnot => absurd h hnot
      rw [hroom]
      decide
  · next h => exact .ite (fun hpos => absurd hpos h) fun _ => .pure hm ⟨rfl, rfl⟩

section Elements

variable {heap}

/-- An element with its comma. -/
lemma renders_listElement {ptr : Pointer} (hptr : ptr ≠ 0) (hscalar : Scalar (heap ptr))
    (hm : m.writeIndex ≤ m.limitIndex) (hspace : 64 ≤ m.availSize) (fuel i : ℕ) :
    Renders (listElement (fastRepr py heap (fuel + 1)) i ptr) m fun ok bs =>
      ok = (elementFit py heap i ptr).ok ∧
        bs = comma i ++ (elementFit py heap i ptr).bytes (scalarText py ptr (heap ptr)).1 := by
  have hlimit := (inside_limit hm maxListElemLen).within
  have hroom : (m.limit maxListElemLen).2.availSize = 64 := by
    rw [limit_availSize hm]
    exact min_eq_left hspace
  have hcomma := length_comma_add i
  have hbounds := elementRoom_bounds i
  refine .limited hm ((renders_separator_comma hlimit hroom i).bind ?_)
  rintro _ _ m₁ hm₁ ⟨rfl, rfl⟩
  have hspace₁ := hm₁.availSize
  refine .ite (fun _ => ?_) fun h => absurd rfl h
  refine (renders_scalar py heap hptr hscalar hm₁.within
    (by omega : m₁.availSize = elementRoom i) (by omega) fuel).mono ?_
  rintro ok bs ⟨rfl, rfl⟩
  exact ⟨rfl, rfl⟩

lemma renders_spareOffset_nil (hm : m.writeIndex ≤ m.limitIndex) (t ofs : ℕ) :
    Renders (spareOffset t ofs) m fun _ bs => bs = [] :=
  .availSize (.ite (fun _ => renders_operation (.refl hm) rfl) fun _ => .pure hm rfl)

/-- The loop, by induction on the elements that are left; each takes at most 64 bytes. -/
lemma renders_scalarLoop (fuel t : ℕ) {items : List Pointer}
    (hscalar : ∀ ptr ∈ items, ptr ≠ 0 ∧ Scalar (heap ptr)) (i ofs : ℕ)
    (hm : m.writeIndex ≤ m.limitIndex) (hspace : 64 * items.length ≤ m.availSize) :
    Renders (containerLoop (listElement (fastRepr py heap (fuel + 1))) t i ofs items) m
      fun ended bs =>
        bs = shownBytes (elementFit py heap) (fun ptr => scalarText py ptr (heap ptr)) i items ∧
        bs.length ≤ 64 * items.length ∧
        ended.truncated = !allShown (elementFit py heap) i items ∧
        (ended.truncated = false → ended.i = i + items.length - 1) := by
  induction items generalizing i ofs m with
  | nil => exact .pure hm ⟨rfl, le_rfl, rfl, fun _ => rfl⟩
  | cons ptr items ih =>
      obtain ⟨hptr, hobj⟩ := hscalar ptr List.mem_cons_self
      rw [List.length_cons] at hspace
      refine (renders_spareOffset_nil hm t ofs).bind ?_
      rintro ofs' _ m₁ hm₁ rfl
      have hspace₁ := hm₁.availSize
      rw [List.length_nil] at hspace₁
      refine (renders_listElement py hptr hobj hm₁.within (by omega) fuel i).bind ?_
      rintro _ _ m₂ hm₂ ⟨rfl, rfl⟩
      set fit := elementFit py heap i ptr with hfit
      set text := scalarText py ptr (heap ptr) with htext
      have hlength : (comma i ++ fit.bytes text.1).length ≤ 64 := by
        have hbytes := Fit.length_bytes_le (isLong (heap ptr)) text.1 (elementRoom i)
        have hcomma := length_comma_add i
        rw [List.length_append]
        change (fit.bytes text.1).length ≤ _ at hbytes
        omega
      have hspace₂ := hm₂.availSize
      refine .ite (fun hok => ?_) fun hnot => .pure hm₂.within ?_
      · refine (ih (fun q hq => hscalar q (List.mem_cons_of_mem ptr hq)) (i + 1) ofs' hm₂.within
          (by omega)).mono ?_
        rintro ended bs ⟨rfl, hle, htrunc, hi⟩
        refine ⟨?_, ?_, ?_, fun h => ?_⟩
        · rw [shownBytes, ← hfit, if_pos hok, List.nil_append]
        · rw [List.nil_append, List.length_append, List.length_cons]
          omega
        · rw [allShown, ← hfit, hok, htrunc, Bool.true_and]
        · rw [hi h, List.length_cons]
          omega
      · rw [Bool.not_eq_true] at hnot
        refine ⟨?_, ?_, ?_, fun h => by cases h⟩
        · rw [shownBytes, ← hfit, hnot, if_neg Bool.false_ne_true, List.append_nil]
          rfl
        · rw [List.append_nil, List.nil_append, List.length_cons]
          omega
        · rw [allShown, ← hfit, hnot]
          rfl

/-- The bytes between the brackets of a list of scalars. -/
def elementBytes (heap : Heap) (items : List Pointer) : List UInt8 :=
  shownBytes (elementFit py heap) (fun ptr => scalarText py ptr (heap ptr)) 0
    (items.take maxListElems)

/-- The marker follows a list of scalars. -/
def Marked (heap : Heap) (items : List Pointer) : Prop :=
  4 < items.length ∨ allShown (elementFit py heap) 0 (items.take maxListElems) = false

lemma renders_container_scalars {opening closing : CString} {items : List Pointer}
    (hopening : opening.1.length = 1) (hclosing : closing.1.length = 1)
    (hlen : items.length < 2 ^ 31) (hscalar : ∀ ptr ∈ items, ptr ≠ 0 ∧ Scalar (heap ptr))
    (hm : m.writeIndex ≤ m.limitIndex) (hspace : 400 ≤ m.availSize) (fuel : ℕ) :
    Renders (container opening closing items.length fun t =>
        containerLoop (listElement (fastRepr py heap (fuel + 1))) t 0 0
          (items.take (shownItems items.length maxListElems))) m fun _ bs =>
      ∃ marked : Bool, (marked = true ↔ Marked py heap items) ∧
        bs = opening.1 ++ elementBytes py heap items ++ closing.1 ++
          if marked then (marker items.length).1 else [] := by
  have hmarker := length_marker_le hlen
  have hopen := TraceMessage.write_appends_of_le hm (s := opening) (by omega)
  have hspace₁ := hopen.availSize
  rw [take_shownItems hlen]
  have htake : (items.take maxListElems).length = min 4 items.length := List.length_take
  have hshown : ∀ ptr ∈ items.take maxListElems, ptr ≠ 0 ∧ Scalar (heap ptr) :=
    fun ptr h => hscalar ptr (List.mem_of_mem_take h)
  obtain ⟨ended, m₂, hloop, X, hX, rfl, hle, htrunc, hi⟩ := renders_scalarLoop py fuel
    (marker items.length).1.length hshown 0 0 hopen.within (by omega)
  have hspace₂ := hX.availSize
  refine (container_law hopening hclosing hlen hm (by omega) hloop hX (.inr (by omega))).mono ?_
  rintro ok bs ⟨-, ⟨hall, huncut, -, rfl⟩ | ⟨hcut, k, -, hk, rfl⟩⟩
  · have hended := hi huncut
    refine ⟨false, iff_of_false Bool.false_ne_true ?_, (List.append_nil _).symm⟩
    rintro (hlong | hfalse)
    · omega
    · rw [htrunc, hfalse] at huncut
      cases huncut
  · obtain rfl := hk (by omega)
    refine ⟨true, iff_of_true rfl ?_, by rw [List.take_length]; rfl⟩
    rcases hcut with hshort | htrue | hfull
    · by_cases huncut : ended.truncated = false
      · have hended := hi huncut
        exact .inl (by omega)
      · rw [htrunc, Bool.not_eq_false, Bool.not_eq_true'] at huncut
        exact .inr huncut
    · rw [htrunc, Bool.not_eq_true'] at htrue
      exact .inr htrue
    · omega

end Elements

/-! ## Honest markers -/

/-- Of the bytes of a container of `len` items: the marker is there if and only if what is between
the brackets is not `joined`. -/
def MarkerHonest (opening closing : CString) (len : ℕ) (joined bs : List UInt8) : Prop :=
  ∃ (X : List UInt8) (marked : Bool),
    bs = opening.1 ++ X ++ closing.1 ++ (if marked then (marker len).1 else []) ∧
      (marked = true ↔ X ≠ joined)

/-- The condition for the marker to be wrong: there are at most four elements, and either the last
is a `long` whose text fills its room exactly and all the others have room to spare, or no text is
cut and that of an object fills its room exactly. -/
def MarkerLies (items : List Pointer) : Prop :=
  items.length ≤ 4 ∧
    ((∃ init last, items = init ++ [last] ∧
        Each (fun i ptr => elementFit py heap i ptr = .fits) 0 init ∧
        elementFit py heap init.length last = .fillsAsLong) ∨
      (Each (fun i ptr => elementFit py heap i ptr = .fits ∨ elementFit py heap i ptr = .fills) 0
          items ∧
        ∃ (i : ℕ) (ptr : Pointer), items[i]? = some ptr ∧ elementFit py heap i ptr = .fills))

section Honest

lemma getLast?_marker (len : ℕ) : (marker len).1.getLast? = some 62 :=
  List.getLast?_append_of_ne_nil _ (by decide)

/-- Brackets and marker are told apart by the last byte. -/
lemma markerHonest_iff {opening closing : CString} {len : ℕ} {joined X : List UInt8}
    {marked : Bool} (hne : closing.1 ≠ []) (hlast : closing.1.getLast? ≠ some 62) :
    MarkerHonest opening closing len joined
        (opening.1 ++ X ++ closing.1 ++ (if marked then (marker len).1 else [])) ↔
      (marked = true ↔ X ≠ joined) := by
  have hmarked (l : List UInt8) : (l ++ (marker len).1).getLast? = some 62 := by
    rw [List.getLast?_append_of_ne_nil, getLast?_marker]
    intro h
    have hmarker := getLast?_marker len
    rw [h] at hmarker
    cases hmarker
  have hbare (l : List UInt8) : (l ++ closing.1 ++ []).getLast? ≠ some 62 := by
    rwa [List.append_nil, List.getLast?_append_of_ne_nil _ hne]
  refine ⟨?_, fun h => ⟨X, marked, rfl, h⟩⟩
  rintro ⟨X', marked', heq, hiff⟩
  have hsame : marked = marked' := by
    have hgot := congrArg List.getLast? heq
    cases marked <;> cases marked'
    · rfl
    · exact absurd (hgot.trans (hmarked _)) (hbare _)
    · exact absurd (hgot.symm.trans (hmarked _)) (hbare _)
    · rfl
  subst hsame
  have hX := List.append_cancel_left (List.append_cancel_right (List.append_cancel_right heq))
  rwa [hX]

variable {py heap}

/-- The complete texts of the elements, joined with commas. -/
def joinedTexts (py : CPython) (heap : Heap) (items : List Pointer) : List UInt8 :=
  List.intercalate [44] (items.map fun ptr => (scalarText py ptr (heap ptr)).1)

lemma elementBytes_eq_iff (items : List Pointer) :
    elementBytes py heap items = joinedTexts py heap items ↔
      items.length ≤ 4 ∧ Complete (elementFit py heap) 0 items := by
  unfold elementBytes joinedTexts
  rw [← joinFrom_zero fun ptr => scalarText py ptr (heap ptr)]
  refine shownBytes_eq_iff (fun i ptr hfit hnil => hfit ?_) items 0 (by decide)
  have hbounds := elementRoom_bounds i
  refine Fit.of_of_lt _ ?_
  rw [hnil, List.length_nil]
  omega

lemma not_marked_iff (items : List Pointer) :
    ¬ Marked py heap items ↔ items.length ≤ 4 ∧
      Each (fun i ptr => elementFit py heap i ptr = .fits ∨ elementFit py heap i ptr = .fills) 0
        items := by
  have hok (f : Fit) : f.ok = true ↔ f = .fits ∨ f = .fills := by
    cases f <;> decide
  unfold Marked
  rw [not_or, not_lt, Bool.not_eq_false, allShown_iff]
  refine and_congr_right fun hle => ?_
  rw [List.take_of_length_le (by exact hle)]
  unfold Each
  simp only [hok]

/-- What the marker says and what it should say differ under the condition `MarkerLies`. -/
lemma marked_iff_ne (items : List Pointer) :
    (Marked py heap items ↔ elementBytes py heap items ≠ joinedTexts py heap items) ↔
      ¬ MarkerLies py heap items := by
  set fit := elementFit py heap with hfit
  have hmarked : ¬ Marked py heap items ↔ items.length ≤ 4 ∧
      Each (fun i ptr => fit i ptr = .fits ∨ fit i ptr = .fills) 0 items := not_marked_iff items
  have hcomplete : elementBytes py heap items = joinedTexts py heap items ↔
      items.length ≤ 4 ∧ Complete fit 0 items := elementBytes_eq_iff items
  -- a `long` in the last place that fills its room is reported as cut
  have hlong : (∃ init last, items = init ++ [last] ∧ Each (fun i ptr => fit i ptr = .fits) 0 init ∧
      fit (0 + init.length) last = .fillsAsLong) →
        ¬ Each (fun i ptr => fit i ptr = .fits ∨ fit i ptr = .fills) 0 items := by
    rintro ⟨init, last, rfl, -, hlast⟩ hall
    rcases hall init.length last List.getElem?_concat_length with hshown | hshown
    · cases hlast.symm.trans hshown
    · cases hlast.symm.trans hshown
  have hweak : Each (fun i ptr => fit i ptr = .fits) 0 items →
      Each (fun i ptr => fit i ptr = .fits ∨ fit i ptr = .fills) 0 items :=
    fun h j ptr hj => .inl (h j ptr hj)
  -- an object that fills its room is what keeps a row of whole elements from fitting
  have hobject : Each (fun i ptr => fit i ptr = .fits ∨ fit i ptr = .fills) 0 items →
      ((∃ (i : ℕ) (ptr : Pointer), items[i]? = some ptr ∧ fit i ptr = .fills) ↔
        ¬ Each (fun i ptr => fit i ptr = .fits) 0 items) := by
    intro hall
    constructor
    · rintro ⟨i, ptr, hi, hfills⟩ hfits
      have hptr := hfits i ptr hi
      rw [Nat.zero_add, hfills] at hptr
      cases hptr
    · intro hnot
      by_contra hnone
      refine hnot fun j ptr hj => (hall j ptr hj).resolve_right fun hfills => ?_
      rw [Nat.zero_add] at hfills
      exact hnone ⟨j, ptr, hj, hfills⟩
  unfold Complete at hcomplete
  unfold MarkerLies
  simp only [Nat.zero_add] at hlong hcomplete
  constructor
  · rintro hiff ⟨hle, hlast | ⟨hshown, hfills⟩⟩
    · have hmark : Marked py heap items := by
        by_contra hnot
        exact hlong hlast (hmarked.mp hnot).2
      exact hiff.mp hmark (hcomplete.mpr ⟨hle, .inr hlast⟩)
    · refine hmarked.mpr ⟨hle, hshown⟩ (hiff.mpr fun heq => ?_)
      rcases (hcomplete.mp heq).2 with hfits | hlast
      · exact (hobject hshown).mp hfills hfits
      · exact hlong hlast hshown
  · intro htrue
    refine ⟨fun hmark heq => ?_, fun hne => ?_⟩
    · obtain ⟨hle, hfits | hlast⟩ := hcomplete.mp heq
      · exact hmarked.mpr ⟨hle, hweak hfits⟩ hmark
      · exact htrue ⟨hle, .inl hlast⟩
    · by_contra hnot
      obtain ⟨hle, hshown⟩ := hmarked.mp hnot
      refine htrue ⟨hle, .inr ⟨hshown, (hobject hshown).mpr fun hfits => ?_⟩⟩
      exact hne (hcomplete.mpr ⟨hle, .inl hfits⟩)

variable (py heap)

lemma container_markerHonest_iff {opening closing : CString} {items : List Pointer}
    (hopening : opening.1.length = 1) (hclosing : closing.1.length = 1)
    (hlast : closing.1.getLast? ≠ some 62) (hlen : items.length < 2 ^ 31)
    (hscalar : ∀ ptr ∈ items, ptr ≠ 0 ∧ Scalar (heap ptr)) (hm : m.writeIndex ≤ m.limitIndex)
    (hspace : 400 ≤ m.availSize) (fuel : ℕ) :
    Renders (container opening closing items.length fun t =>
        containerLoop (listElement (fastRepr py heap (fuel + 1))) t 0 0
          (items.take (shownItems items.length maxListElems))) m fun _ bs =>
      MarkerHonest opening closing items.length (joinedTexts py heap items) bs ↔
        ¬ MarkerLies py heap items := by
  have hne : closing.1 ≠ [] := List.length_pos_iff.mp (hclosing ▸ one_pos)
  refine (renders_container_scalars py hopening hclosing hlen hscalar hm hspace fuel).mono ?_
  rintro ok bs ⟨marked, hmarked, rfl⟩
  rw [markerHonest_iff hne hlast, hmarked]
  exact marked_iff_ne items

/-- **When the marker behind scalars is honest.**  For every list or tuple of fewer than 2^31
scalars and every message with at least 400 bytes available: the marker is there if and only if
the bytes between the brackets are not the complete texts of the elements, joined with commas,
except exactly under the condition `MarkerLies`. -/
theorem listOrTupleRepr_markerHonest_iff (isList : Bool) {items : List Pointer}
    (hlen : items.length < 2 ^ 31) (hscalar : ∀ ptr ∈ items, ptr ≠ 0 ∧ Scalar (heap ptr))
    (hm : m.writeIndex ≤ m.limitIndex) (hspace : 400 ≤ m.availSize) {fuel : ℕ}
    (hfuel : 0 < fuel) :
    Renders (listOrTupleRepr (fastRepr py heap fuel) isList items) m fun _ bs =>
      MarkerHonest (CString.literal (if isList then "[" else "("))
          (CString.literal (if isList then "]" else ")")) items.length
          (joinedTexts py heap items) bs ↔ ¬ MarkerLies py heap items := by
  have hopening := literal_ite (P := fun s => s.1.length = 1) (l := "[") (r := "(") isList rfl rfl
  have hclosing := literal_ite (P := fun s => s.1.length = 1) (l := "]") (r := ")") isList rfl rfl
  have hlast := literal_ite (P := fun s => s.1.getLast? ≠ some 62) (l := "]") (r := ")") isList
    (by decide) (by decide)
  obtain ⟨fuel, rfl⟩ := Nat.exists_eq_succ_of_ne_zero hfuel.ne'
  exact container_markerHonest_iff py heap hopening hclosing hlast hlen hscalar hm hspace fuel

/-- A message of 400 bytes. -/
def roomyMessage : TraceMessage := TraceMessage.empty.realloc (fun _ => 0) 400

/-- The list of one `long`, 10^63: all of its 64 digits are there, and the marker too. -/
theorem listOrTupleRepr_marker_lies :
    ¬ ∀ (heap : Heap) (isList : Bool) (items : List Pointer) (m : TraceMessage) (fuel : ℕ),
      items.length < 2 ^ 31 → (∀ ptr ∈ items, ptr ≠ 0 ∧ Scalar (heap ptr)) →
        m.writeIndex ≤ m.limitIndex → 400 ≤ m.availSize → 0 < fuel →
          Renders (listOrTupleRepr (fastRepr plainCPython heap fuel) isList items) m fun _ bs =>
            MarkerHonest (CString.literal (if isList then "[" else "("))
              (CString.literal (if isList then "]" else ")")) items.length
              (joinedTexts plainCPython heap items) bs := by
  intro hall
  set heap : Heap := fun _ => .long ((10 ^ 63 : ℕ) : ℤ) with hheap
  have hscalar : ∀ ptr ∈ [(1 : Pointer)], ptr ≠ 0 ∧ Scalar (heap ptr) := by
    intro ptr hptr
    rw [List.mem_singleton.mp hptr]
    exact ⟨by decide, .long _⟩
  have hhonest := hall heap true [1] roomyMessage 1 (by decide) hscalar (by decide) (by decide)
    one_pos
  have hlaw := container_markerHonest_iff plainCPython heap
    (rfl : (CString.literal "[").1.length = 1) (rfl : (CString.literal "]").1.length = 1)
    (by decide) (by decide) hscalar
    (by decide : roomyMessage.writeIndex ≤ roomyMessage.limitIndex) (by decide) 0
  obtain ⟨ok, m', -, bs, -, hhonest, hiff⟩ := hhonest.and hlaw
  refine hiff.mp hhonest ⟨by decide, .inl ⟨[], 1, rfl, each_nil _ 0, ?_⟩⟩
  have hdigits : (scalarText plainCPython 1 (heap 1)).1.length = 64 := by
    have hle := (@length_numeral_le_iff 10 (10 ^ 63) 64 (by norm_num) (by norm_num)).mpr
      (by norm_num)
    have hgt := mt (@length_numeral_le_iff 10 (10 ^ 63) 63 (by norm_num) (by norm_num)).mp
      (lt_irrefl _)
    show (decimal ((10 ^ 63 : ℕ) : ℤ)).length = 64
    rw [decimal_natCast]
    omega
  show Fit.of true (scalarText plainCPython 1 (heap 1)).1.length 64 = .fillsAsLong
  rw [hdigits]
  rfl

/-- Twice `None`. -/
theorem listOrTupleRepr_markerHonest_none :
    Renders (listOrTupleRepr (fastRepr plainCPython (fun _ => .pyNone) 1) true [1, 1])
      roomyMessage fun _ bs => MarkerHonest (CString.literal "[") (CString.literal "]") 2
        (joinedTexts plainCPython (fun _ => .pyNone) [1, 1]) bs := by
  have hscalar : ∀ ptr ∈ [(1 : Pointer), 1], ptr ≠ 0 ∧ Scalar .pyNone := by
    intro ptr hptr
    obtain rfl : ptr = 1 := by simpa using hptr
    exact ⟨by decide, .pyNone⟩
  have hfits (i : ℕ) (ptr : Pointer) : elementFit plainCPython (fun _ => .pyNone) i ptr = .fits :=
    Fit.of_of_lt _ (Nat.lt_of_lt_of_le (by decide : 4 < 63) (elementRoom_bounds i).1)
  refine (listOrTupleRepr_markerHonest_iff plainCPython (fun _ => .pyNone) true (by decide)
    hscalar (by decide : roomyMessage.writeIndex ≤ roomyMessage.limitIndex) (by decide)
    one_pos).mono fun ok bs h => h.mpr ?_
  rintro ⟨-, ⟨init, last, -, -, hlast⟩ | ⟨-, i, ptr, -, hfills⟩⟩
  · cases (hfits _ _).symm.trans hlast
  · cases (hfits _ _).symm.trans hfills

end Honest

end InfiTracing.Serialize
