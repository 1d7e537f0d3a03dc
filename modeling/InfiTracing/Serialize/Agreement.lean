import InfiTracing.Serialize.Repr

/-!
# The serializers on two messages

Two messages of one capacity that agree up to their write positions are taken through the
same serializer.  Both runs then do the same: they return the same value, move their write
positions alike, store the same bytes, and restore the limit.

The bytes behind the write position are the point.  `write` stores no NUL when it stops at a
limit below the capacity, so what follows may be stale and differ (`Abreast`).  With no limit
below the capacity every operation ends the text of both at one terminator (`Alike`), and
every serializer finishes with such an operation or does nothing at all (`Settled`).

Each serializer is proved once, on two messages; with one message taken twice its law is the
ordinary one: `fast_repr` ends, goes on where it started, and restores the limit.
-/

namespace InfiTracing.Serialize

open Framework

variable {a₀ b₀ a b a' b' : TraceMessage}

/-! ## Messages side by side -/

/-- The messages agree, and show one text unless a limit below the capacity is in force. -/
structure Alike (a b : TraceMessage) : Prop where
  agree : a.Agree b
  text : a.limitIndex = a.capacity → b.text = a.text

/-- The messages came from `a₀` and `b₀` and agree. -/
structure Abreast (a₀ b₀ a b : TraceMessage) : Prop where
  agree : a.Agree b
  left : a₀.Extends a
  right : b₀.Extends b

/-- The messages came from `a₀` and `b₀`, agree, and show one text unless a limit below the
capacity is in force. -/
structure Settled (a₀ b₀ a b : TraceMessage) : Prop where
  alike : Alike a b
  left : a₀.Extends a
  right : b₀.Extends b

lemma Settled.abreast (h : Settled a₀ b₀ a b) : Abreast a₀ b₀ a b :=
  ⟨h.alike.agree, h.left, h.right⟩

lemma Alike.settled (h : Alike a b) : Settled a b a b :=
  ⟨h, .refl h.agree.within, .refl h.agree.within_right⟩

lemma Abreast.refl (h : a.Agree b) : Abreast a b a b :=
  ⟨h, .refl h.within, .refl h.within_right⟩

lemma Abreast.settled (h : Abreast a₀ b₀ a b) (h' : Settled a b a' b') : Settled a₀ b₀ a' b' :=
  ⟨h'.alike, h.left.trans h'.left, h.right.trans h'.right⟩

lemma Abreast.trans (h : Abreast a₀ b₀ a b) (h' : Abreast a b a' b') : Abreast a₀ b₀ a' b' :=
  ⟨h'.agree, h.left.trans h'.left, h.right.trans h'.right⟩

/-! ## The operations -/

/-- `write`, whatever the messages showed before. -/
lemma couples_write (h : a.Agree b) (s : CString) :
    Couples (write s) a b fun _ a' b' => Settled a b a' b' ∧
      a'.writeIndex = a.writeIndex + min s.1.length a.availSize.toNat := by
  obtain ⟨hok, hagree, htext⟩ := h.write s
  have ha := TraceMessage.write_stored h.within s
  have hb := TraceMessage.write_stored h.within_right s
  refine ⟨(a.write s).1, (a.write s).2, (b.write s).2, rfl, ?_, ⟨⟨hagree, ?_⟩, ha.extends,
    hb.extends⟩, ha.writeIndex⟩
  · show some (b.write s) = _
    rw [← hok]
  · rw [ha.limitIndex, ha.capacity]
    exact htext

/-- `printf`, whatever the messages showed before. -/
lemma couples_printf (h : a.Agree b) (text : CString) :
    Couples (printf text) a b fun _ a' b' => Settled a b a' b' ∧
      a'.writeIndex ≤ a.writeIndex + text.1.length := by
  obtain ⟨hok, hagree, htext⟩ := h.printf text
  obtain ⟨bsa, na, hna, ha⟩ : ∃ bs n, n ≤ text.1.length ∧ a.Stored (a.printf text).2 bs n := by
    rcases TraceMessage.printf_stored h.within text with ⟨-, -, hs⟩ | ⟨-, -, hs⟩
    · exact ⟨_, _, le_rfl, hs⟩
    · exact ⟨_, _, Nat.zero_le _, hs⟩
  obtain ⟨bsb, nb, hb⟩ : ∃ bs n, b.Stored (b.printf text).2 bs n := by
    rcases TraceMessage.printf_stored h.within_right text with ⟨-, -, hs⟩ | ⟨-, -, hs⟩
    · exact ⟨_, _, hs⟩
    · exact ⟨_, _, hs⟩
  refine ⟨(a.printf text).1, (a.printf text).2, (b.printf text).2, rfl, ?_, ⟨⟨hagree, ?_⟩,
    ha.extends, hb.extends⟩, ?_⟩
  · show some (b.printf text) = _
    rw [← hok]
  · rw [ha.limitIndex, ha.capacity]
    exact htext
  · rw [ha.writeIndex]
    omega

/-- Back to an offset since `a₀`. -/
lemma couples_rewind (h : Abreast a₀ b₀ a b) {k : ℕ} (hk₀ : a₀.writeIndex ≤ k)
    (hk₀' : b₀.writeIndex ≤ k) (hk : k ≤ a.writeIndex) :
    Couples (rewind k) a b fun _ a' b' => Settled a₀ b₀ a' b' ∧ a'.writeIndex = k := by
  obtain ⟨hagree, htext⟩ := h.agree.rewind hk
  have hkb : k ≤ b.writeIndex := h.agree.writeIndex ▸ hk
  exact ⟨(), a.rewind k, b.rewind k, rfl, rfl, ⟨⟨hagree, fun _ => htext⟩, h.left.rewind hk₀ hk,
    h.right.rewind hk₀' hkb⟩, h.left.rewind_writeIndex hk⟩

lemma couples_availSize (h : a.Agree b) :
    Couples availSize a b fun v a' b' => v = a.availSize ∧ a = a' ∧ b = b' :=
  ⟨a.availSize, a, b, rfl, congrArg (fun v => some (v, b)) h.availSize_eq, rfl, rfl, rfl⟩

lemma couples_writeOffset (h : a.Agree b) :
    Couples writeOffset a b fun v a' b' => v = a.writeIndex ∧ a = a' ∧ b = b' :=
  ⟨a.writeIndex, a, b, rfl, congrArg (fun v => some (v, b)) h.writeIndex, rfl, rfl, rfl⟩

lemma Alike.limit (h : Alike a b) (size : ℕ) : Alike (a.limit size).2 (b.limit size).2 := by
  refine ⟨(h.agree.limit size).2, fun hcap => h.text ?_⟩
  -- a limit only lowers the one in force
  rw [TraceMessage.limit_limitIndex h.agree.within] at hcap
  have hle := a.limitIndex_le
  have hcapacity : (a.limit size).2.capacity = a.capacity := rfl
  omega

/-- A program under a tighter limit: it stays within the limit, and the old one is restored. -/
lemma couples_limited (h : a.Agree b) {size : ℕ} {x : Render Bool}
    (hx : Couples x (a.limit size).2 (b.limit size).2 fun _ a' b' =>
      Abreast (a.limit size).2 (b.limit size).2 a' b') :
    Couples (limited size x) a b fun _ a' b' => Abreast a b a' b' ∧
      a'.writeIndex ≤ a.writeIndex + size := by
  obtain ⟨v, a', b', ha, hb, hpost⟩ := hx
  have hleft : a.Extends (a'.unlimitTo (a.limit size).1) := hpost.left.unlimit h.within
  have hright : b.Extends (b'.unlimitTo (a.limit size).1) :=
    (h.limit size).1 ▸ hpost.right.unlimit h.within_right
  refine ⟨v, a'.unlimitTo (a.limit size).1, b'.unlimitTo (a.limit size).1, ?_, ?_,
    ⟨hpost.agree.unlimitTo _ hleft.within, hleft, hright⟩, ?_⟩
  · show (x (a.limit size).2).bind (fun r => some (r.1, r.2.unlimitTo (a.limit size).1)) = _
    rw [ha]
    rfl
  · show (x (b.limit size).2).bind (fun r => some (r.1, r.2.unlimitTo (b.limit size).1)) = _
    rw [hb, (h.limit size).1]
    rfl
  · have hwithin := hpost.left.within
    rw [hpost.left.limitIndex, TraceMessage.limit_limitIndex h.within] at hwithin
    show a'.writeIndex ≤ _
    omega

/-! ## Programs that settle -/

/-- From messages that are alike the program has a result on both, the same one, and settles
them. -/
def Steady {α : Type} (x : Render α) : Prop :=
  ∀ ⦃a b⦄, Alike a b → Couples x a b fun _ => Settled a b

lemma steady_write (s : CString) : Steady (write s) :=
  fun _ _ h => (couples_write h.agree s).mono fun _ _ _ hpost => hpost.1

lemma steady_printf (text : CString) : Steady (printf text) :=
  fun _ _ h => (couples_printf h.agree text).mono fun _ _ _ hpost => hpost.1

lemma steady_pure {α : Type} (v : α) : Steady (pure v : Render α) := fun _ _ h => .pure h.settled

lemma Steady.ite {α : Type} {c : Prop} [Decidable c] {x y : Render α} (hx : Steady x)
    (hy : Steady y) : Steady (if c then x else y) := by
  split
  · exact hx
  · exact hy

/-- One program, and then another that may depend on its value. -/
lemma Steady.bind {α β : Type} {x : Render α} {f : α → Render β} (hx : Steady x)
    (hf : ∀ v, Steady (f v)) : Steady (x >>= f) := by
  intro a b h
  refine (hx h).bind fun v a' b' hmid => ?_
  exact (hf v hmid.alike).mono fun _ _ _ hpost => hmid.abreast.settled hpost

/-- The available space is only looked at. -/
lemma Steady.availSize {f : ℤ → Render Bool} (hf : ∀ v, Steady (f v)) :
    Steady (availSize >>= f) := by
  intro a b h
  refine (couples_availSize h.agree).bind ?_
  rintro v a' b' ⟨-, rfl, rfl⟩
  exact hf v h

/-- What follows a rewind to an offset taken before `x`. -/
lemma Steady.rewinding {x : Render Bool} {onTrue onFalse : Render Bool} (hx : Steady x)
    (hTrue : Steady onTrue) (hFalse : Steady onFalse) :
    Steady (do
      let prevPos ← writeOffset
      if ← x then onTrue
      else
        rewind prevPos
        onFalse) := by
  intro a b h
  refine (couples_writeOffset h.agree).bind ?_
  rintro _ _ _ ⟨rfl, rfl, rfl⟩
  refine (hx h).bind fun ok a' b' hmid => ?_
  refine Couples.ite (fun _ => ?_) fun _ => ?_
  · exact (hTrue hmid.alike).mono fun _ _ _ hpost => hmid.abreast.settled hpost
  · have hb₀ : b.writeIndex ≤ a.writeIndex := h.agree.writeIndex.le
    refine (couples_rewind hmid.abreast le_rfl hb₀ hmid.left.writeIndex_le).bind ?_
    rintro _ a'' b'' ⟨hback, -⟩
    exact (hFalse hback.alike).mono fun _ _ _ hpost => hback.abreast.settled hpost

/-! ## Everything but containers -/

lemma steady_longRepr (py : CPython) (value : ℤ) : Steady (longRepr py value) :=
  .availSize fun _ => .ite (steady_write _) (steady_pure _)

lemma steady_floatRepr (py : CPython) (bits : UInt64) : Steady (floatRepr py bits) :=
  .availSize fun _ => .ite
    (.bind (steady_write _) fun _ => .bind (steady_write _) fun _ => steady_pure _)
    (steady_pure _)

lemma steady_strOrUnicodeRepr {χ : Type} (reprOf : List χ → CString) (chars : List χ) :
    Steady (strOrUnicodeRepr reprOf chars) :=
  .availSize fun _ => .availSize fun _ => .ite
    (.availSize fun _ => .ite (steady_printf _) (steady_pure _)) (steady_printf _)

lemma steady_namedRepr (opening : CString) {writeName : Render Bool} (h : Steady writeName) :
    Steady (namedRepr opening writeName) :=
  .availSize fun _ => .ite (steady_pure _) <| .bind (steady_write _) fun _ =>
    .rewinding h (.bind (steady_write _) fun _ => steady_pure _)
      (.bind (steady_write _) fun _ => steady_pure _)

lemma steady_methodClass (klass : Option PyType) : Steady (methodClass klass) := by
  cases klass with
  | none => exact steady_pure true
  | some type => exact .bind (steady_write _) fun _ => .ite (steady_write _) (steady_pure _)

lemma steady_methodFields (func : Option CString) (self : Pointer) (klass : Option PyType) :
    Steady (methodFields func self klass) := by
  have hself : Steady (methodSelf self) := .ite (steady_printf _) (steady_pure _)
  exact .bind (steady_write _) fun _ => .ite
    (.bind (steady_methodClass klass) fun _ => .ite
      (.bind hself fun _ => .ite (steady_write _) (steady_pure _)) (steady_pure _))
    (steady_pure _)

lemma steady_methodRepr (func : Option CString) (self : Pointer) (klass : Option PyType) :
    Steady (methodRepr func self klass) :=
  .availSize fun _ => .ite (steady_pure _) <| .bind (steady_write _) fun _ =>
    .rewinding (steady_methodFields func self klass) (steady_pure _)
      (.bind (steady_write _) fun _ => steady_pure _)

/-! ## Containers -/

/-- From messages that are alike and have less than `n` bytes available, `repr` has a result on
both, the same one, and settles them. -/
def SteadyBelow (n : ℤ) (repr : Pointer → Render Bool) : Prop :=
  ∀ ptr ⦃a b⦄, Alike a b → a.availSize < n → Couples (repr ptr) a b fun _ => Settled a b

lemma limit_availSize_le (h : a.writeIndex ≤ a.limitIndex) (size : ℕ) :
    (a.limit size).2.availSize ≤ a.availSize := by
  have hlimit := TraceMessage.limit_limitIndex h size
  have hwrite : (a.limit size).2.writeIndex = a.writeIndex := rfl
  unfold TraceMessage.availSize
  omega

lemma couples_separator (h : a.Agree b) {i : ℕ} (hi : i = 0 → Alike a b) :
    Couples (separator i) a b fun _ a' b' => Settled a b a' b' ∧
      a'.writeIndex ≤ a.writeIndex + 1 := by
  refine Couples.ite (fun _ => ?_) fun hzero => ?_
  · refine (couples_write h _).mono fun _ a' b' ⟨hpost, hindex⟩ => ⟨hpost, ?_⟩
    rw [hindex]
    exact Nat.add_le_add_left (min_le_left _ _) _
  · exact .pure ⟨(hi (by omega)).settled, Nat.le_succ _⟩

/-- One part of a container, under its own limit. -/
lemma couples_part {n : ℤ} {repr : Pointer → Render Bool} (hrepr : SteadyBelow n repr)
    (h : Alike a b) (hn : a.availSize < n) (size : ℕ) (ptr : Pointer) :
    Couples (limited size (repr ptr)) a b fun _ a' b' => Abreast a b a' b' ∧
      a'.writeIndex ≤ a.writeIndex + size := by
  have hsmall := limit_availSize_le h.agree.within size
  refine couples_limited h.agree ?_
  exact (hrepr ptr (h.limit size) (by omega)).mono fun _ _ _ hpost => hpost.abreast

/-- What a container's loop asks of the rendering of one item: it goes on, by at most `width`
bytes, from messages with less than `n` bytes available that agree, and are even alike before
the first item. -/
def PartSpec {χ : Type} (n : ℤ) (width : ℕ) (part : ℕ → χ → Render Bool) : Prop :=
  ∀ i item ⦃a b⦄, a.Agree b → (i = 0 → Alike a b) → a.availSize < n →
    Couples (part i item) a b fun _ a' b' => Abreast a b a' b' ∧
      a'.writeIndex ≤ a.writeIndex + width

lemma listElement_spec {n : ℤ} {repr : Pointer → Render Bool} (hrepr : SteadyBelow n repr) :
    PartSpec n maxListElemLen (listElement repr) := by
  intro i item a b h hi hn
  have hsmall := limit_availSize_le h.within maxListElemLen
  refine couples_limited h ?_
  refine (couples_separator (h.limit _).2 fun hzero => (hi hzero).limit _).bind ?_
  rintro _ a' b' ⟨hcomma, -⟩
  refine Couples.ite (fun _ => ?_) fun _ => .pure hcomma.abreast
  have hspace := hcomma.left.availSize_le.2
  exact (hrepr item hcomma.alike (by omega)).mono
    fun _ _ _ hpost => hcomma.abreast.trans hpost.abreast

lemma dictItem_spec {n : ℤ} {repr : Pointer → Render Bool} (hrepr : SteadyBelow n repr) :
    PartSpec n (1 + maxDictKeyLen + 1 + maxDictValLen) (dictItem repr) := by
  intro i item a b h hi hn
  refine (couples_separator h hi).bind ?_
  rintro _ a₁ b₁ ⟨hcomma, hgrow₁⟩
  refine Couples.ite (fun _ => ?_) fun _ => .pure ⟨hcomma.abreast, by omega⟩
  have hspace₁ := hcomma.left.availSize_le.2
  refine (couples_part hrepr hcomma.alike (by omega) maxDictKeyLen item.1).bind ?_
  rintro _ a₂ b₂ ⟨hkey, hgrow₂⟩
  have hkey' := hcomma.abreast.trans hkey
  refine Couples.ite (fun _ => ?_) fun _ => .pure ⟨hkey', by omega⟩
  refine (couples_write hkey.agree _).bind ?_
  rintro _ a₃ b₃ ⟨hcolon, hgrow₃⟩
  have hcolon' := hkey'.settled hcolon
  have hone : a₃.writeIndex ≤ a₂.writeIndex + 1 :=
    hgrow₃.le.trans (Nat.add_le_add_left (min_le_left _ _) _)
  refine Couples.ite (fun _ => ?_) fun _ => .pure ⟨hcolon'.abreast, by omega⟩
  have hspace₃ := hcolon'.left.availSize_le.2
  refine (couples_part hrepr hcolon.alike (by omega) maxDictValLen item.2).mono ?_
  rintro _ a₄ b₄ ⟨hval, hgrow₄⟩
  exact ⟨hcolon'.abreast.trans hval, by omega⟩

/-- The offset `ofs` is one from which the marker can be written over what followed, or the
marker still fits as it is. -/
def Spare (a₀ a : TraceMessage) (truncatedLen ofs : ℕ) : Prop :=
  (a₀.writeIndex ≤ ofs ∧ ofs ≤ a.writeIndex) ∨ (truncatedLen : ℤ) + 2 ≤ a.availSize

lemma couples_spareOffset (h : Abreast a₀ b₀ a b) {t ofs : ℕ} (hofs : Spare a₀ a t ofs) :
    Couples (spareOffset t ofs) a b fun ofs' a' b' =>
      (a₀.writeIndex ≤ ofs' ∧ ofs' ≤ a.writeIndex) ∧ a = a' ∧ b = b' := by
  refine (couples_availSize h.agree).bind ?_
  rintro _ _ _ ⟨rfl, rfl, rfl⟩
  refine Couples.ite (fun _ => ?_) fun hfull => ?_
  · refine (couples_writeOffset h.agree).mono ?_
    rintro _ _ _ ⟨rfl, rfl, rfl⟩
    exact ⟨⟨h.left.writeIndex_le, le_rfl⟩, rfl, rfl⟩
  · exact .pure ⟨hofs.resolve_right hfull, rfl, rfl⟩

/-- What the loop of a container guarantees from a state inside its opening bracket. -/
def LoopSpec (n : ℤ) (width : ℕ) (truncatedLen : ℕ) (loop : Render LoopEnd) : Prop :=
  ∀ ⦃a b⦄, Alike a b → a.availSize < n → (truncatedLen : ℤ) + 2 ≤ a.availSize →
    Couples loop a b fun ended a' b' => Abreast a b a' b' ∧ Spare a a' truncatedLen ended.ofs ∧
      a'.writeIndex ≤ a.writeIndex + width

/-- The loop of a container, by induction on the items that are left. -/
lemma couples_containerLoop {χ : Type} {n : ℤ} {width : ℕ} {part : ℕ → χ → Render Bool}
    (hpart : PartSpec n width part) (hn : a₀.availSize < n) (t : ℕ) (items : List χ) {i ofs : ℕ}
    (h : Abreast a₀ b₀ a b) (hi : i = 0 → Alike a b) (hofs : Spare a₀ a t ofs) :
    Couples (containerLoop part t i ofs items) a b fun ended a' b' => Abreast a₀ b₀ a' b' ∧
      Spare a₀ a' t ended.ofs ∧ a'.writeIndex ≤ a.writeIndex + items.length * width := by
  induction items generalizing i ofs a b with
  | nil => exact .pure ⟨h, hofs, by simp⟩
  | cons item items ih =>
      have hspace := h.left.availSize_le.2
      refine (couples_spareOffset h hofs).bind ?_
      rintro ofs' _ _ ⟨⟨hlow, hhigh⟩, rfl, rfl⟩
      refine (hpart i item h.agree hi (by omega)).bind ?_
      rintro shown a' b' ⟨hnext, hgrow⟩
      have hofs' : Spare a₀ a' t ofs' := .inl ⟨hlow, hhigh.trans hnext.left.writeIndex_le⟩
      refine Couples.ite (fun _ => ?_) fun _ => .pure ⟨h.trans hnext, hofs', ?_⟩
      · refine (ih (h.trans hnext) (by omega) hofs').mono ?_
        rintro ended a'' b'' ⟨hlast, hspare, hbound⟩
        refine ⟨hlast, hspare, ?_⟩
        rw [List.length_cons, Nat.add_one_mul]
        omega
      · rw [List.length_cons, Nat.add_one_mul]
        omega

lemma length_truncatedBuffer_le (len : ℤ) : (initTruncLenStr 64 len).2.1.length ≤ 62 :=
  List.length_take_le _ _

/-- **A container**: it settles the messages, and appends at most its brackets, its items and
the marker. -/
theorem couples_container {n : ℤ} {width : ℕ} {opening closing : CString} {len : ℕ}
    {loop : ℕ → Render LoopEnd} (hopening : opening.1.length = 1)
    (hclosing : closing.1.length = 1) (hloop : ∀ t, LoopSpec n width t (loop t))
    (h : Alike a b) (hn : a.availSize ≤ n) :
    Couples (container opening closing len loop) a b fun _ a' b' => Settled a b a' b' ∧
      a'.writeIndex ≤ a.writeIndex + (1 + width + 1 + 63) := by
  have hmarker := length_truncatedBuffer_le len
  unfold container
  generalize initTruncLenStr 64 (len : ℤ) = truncatedLenStr at hmarker ⊢
  obtain ⟨t, marker⟩ := truncatedLenStr
  dsimp only at hmarker
  refine (couples_availSize h.agree).bind ?_
  rintro _ _ _ ⟨rfl, rfl, rfl⟩
  refine Couples.ite (fun _ => .pure ⟨h.settled, Nat.le_add_right _ _⟩) fun hroom => ?_
  -- inside the opening bracket
  refine (couples_write h.agree opening).bind ?_
  rintro _ a₁ b₁ ⟨hopen, hindex₁⟩
  have hspace₁ : a₁.availSize = a.availSize - 1 := by
    have hlimit := hopen.left.limitIndex
    rw [hopening] at hindex₁
    unfold TraceMessage.availSize at hroom hindex₁ ⊢
    omega
  rw [hopening] at hindex₁
  refine (hloop t hopen.alike (by omega) (by omega)).bind ?_
  rintro ended a₂ b₂ ⟨hended, hspare, hgrow₂⟩
  -- the closing bracket
  refine (couples_write hended.agree closing).bind ?_
  rintro closed a₃ b₃ ⟨hclosed, hindex₃⟩
  rw [hclosing] at hindex₃
  have hclosed' := hended.settled hclosed
  have hall := hopen.abreast.settled hclosed'
  refine Couples.ite (fun _ => ?_) fun _ => .pure ⟨hall, by omega⟩
  refine (couples_availSize hall.alike.agree).bind ?_
  rintro _ _ _ ⟨rfl, rfl, rfl⟩
  refine Couples.ite (fun hshort => ?_) fun _ => ?_
  · -- the marker does not fit behind the bracket, so some item was rendered
    have hofs : a₁.writeIndex ≤ ended.ofs ∧ ended.ofs ≤ a₂.writeIndex := by
      refine hspare.resolve_right fun hfits => ?_
      have hlimit := hclosed.left.limitIndex
      unfold TraceMessage.availSize at hshort hfits hindex₃
      omega
    have hb₁ : b₁.writeIndex ≤ ended.ofs := hopen.alike.agree.writeIndex.le.trans hofs.1
    refine (couples_rewind hclosed'.abreast hofs.1 hb₁ (by omega)).bind ?_
    rintro _ a₄ b₄ ⟨hback, hindex₄⟩
    refine (couples_printf hback.alike.agree (closing ++ marker)).bind ?_
    rintro _ a₅ b₅ ⟨hprinted, hgrow₅⟩
    refine .pure ⟨hopen.abreast.settled (hback.abreast.settled hprinted), ?_⟩
    rw [CString.append_val, List.length_append, hclosing] at hgrow₅
    omega
  · refine (couples_write hall.alike.agree marker).bind ?_
    rintro _ a₄ b₄ ⟨hwritten, hindex₄⟩
    refine .pure ⟨hall.abreast.settled hwritten, ?_⟩
    omega

lemma shownItems_le (len max : ℕ) : shownItems len max ≤ max := by
  unfold shownItems
  omega

/-- The number of bytes a list, a tuple or a dict takes at most. -/
def maxContainerLen : ℕ := 1 + 4 * (1 + 32 + 1 + 64) + 1 + 63

lemma containerLoop_spec {χ : Type} {n : ℤ} {width : ℕ} {part : ℕ → χ → Render Bool}
    (hpart : PartSpec n width part) (t : ℕ) {items : List χ} (hitems : items.length ≤ 4) :
    LoopSpec n (4 * width) t (containerLoop part t 0 0 items) := by
  intro a b h hn hroom
  refine (couples_containerLoop hpart hn t items (.refl h.agree) (fun _ => h)
    (.inr hroom)).mono ?_
  rintro ended a' b' ⟨hended, hspare, hgrow⟩
  exact ⟨hended, hspare, hgrow.trans (Nat.add_le_add_left (Nat.mul_le_mul_right _ hitems) _)⟩

lemma length_take_shownItems {χ : Type} (items : List χ) :
    (items.take (shownItems items.length 4)).length ≤ 4 :=
  (List.length_take_le _ _).trans (shownItems_le _ 4)

theorem couples_listOrTupleRepr {n : ℤ} {repr : Pointer → Render Bool}
    (hrepr : SteadyBelow n repr) (isList : Bool) (items : List Pointer) (h : Alike a b)
    (hn : a.availSize ≤ n) :
    Couples (listOrTupleRepr repr isList items) a b fun _ a' b' => Settled a b a' b' ∧
      a'.writeIndex ≤ a.writeIndex + maxContainerLen := by
  have hloop (t : ℕ) := containerLoop_spec (listElement_spec hrepr) t
    (length_take_shownItems items)
  have hbracket (l r : String) (hl : (CString.literal l).1.length = 1)
      (hr : (CString.literal r).1.length = 1) :
      (CString.literal (if isList then l else r)).1.length = 1 := by
    split
    · exact hl
    · exact hr
  refine (couples_container (hbracket "[" "(" rfl rfl) (hbracket "]" ")" rfl rfl) hloop h
    hn).mono ?_
  rintro _ a' b' ⟨hsettled, hgrow⟩
  refine ⟨hsettled, hgrow.trans (Nat.add_le_add_left ?_ _)⟩
  decide

theorem couples_dictRepr {n : ℤ} {repr : Pointer → Render Bool} (hrepr : SteadyBelow n repr)
    (items : List (Pointer × Pointer)) (h : Alike a b) (hn : a.availSize ≤ n) :
    Couples (dictRepr repr items) a b fun _ a' b' => Settled a b a' b' ∧
      a'.writeIndex ≤ a.writeIndex + maxContainerLen := by
  have hloop (t : ℕ) := containerLoop_spec (dictItem_spec hrepr) t
    (length_take_shownItems items)
  exact couples_container rfl rfl hloop h hn

lemma couples_subDictRepr {n : ℤ} {repr : Pointer → Render Bool} (hrepr : SteadyBelow n repr)
    (type : PyType) (ptr : Pointer) (items : List (Pointer × Pointer)) (h : Alike a b)
    (hn : a.availSize ≤ n) :
    Couples (subDictRepr repr type ptr items) a b fun _ => Settled a b := by
  refine (steady_printf _ h).bind fun _ a' b' hobj => ?_
  refine Couples.ite (fun _ => ?_) fun _ => .pure hobj
  have hspace := hobj.left.availSize_le.2
  exact (couples_dictRepr hrepr items hobj.alike (by omega)).mono
    fun _ _ _ hpost => hobj.abreast.settled hpost.1

/-! ## `fast_repr` -/

variable (py : CPython) (heap : Heap)

/-- One level of `fast_repr`, given how it renders with less space. -/
lemma couples_fastReprBody {n : ℤ} {repr : Pointer → Render Bool} (hrepr : SteadyBelow n repr)
    (ptr : Pointer) (h : Alike a b) (hn : a.availSize ≤ n) :
    Couples (fastReprBody py heap repr ptr) a b fun _ => Settled a b := by
  refine Couples.ite (fun _ => steady_write _ h) fun _ => ?_
  cases heap ptr with
  | int value => exact steady_printf _ h
  | long value => exact steady_longRepr py value h
  | float bits => exact steady_floatRepr py bits h
  | string bytes => exact steady_strOrUnicodeRepr _ _ h
  | unicode units => exact steady_strOrUnicodeRepr _ _ h
  | dict exact type items =>
      refine Couples.ite (fun _ => ?_) fun _ => couples_subDictRepr hrepr type ptr items h hn
      exact (couples_dictRepr hrepr items h hn).mono fun _ _ _ hpost => hpost.1
  | list items =>
      exact (couples_listOrTupleRepr hrepr true items h hn).mono fun _ _ _ hpost => hpost.1
  | tuple items =>
      exact (couples_listOrTupleRepr hrepr false items h hn).mono fun _ _ _ hpost => hpost.1
  | pyNone => exact steady_write _ h
  | pyTrue => exact steady_write _ h
  | pyFalse => exact steady_write _ h
  | function name => exact steady_namedRepr _ (steady_write _) h
  | method func self klass => exact steady_methodRepr func self klass h
  | type type => exact steady_namedRepr _ (steady_write _) h
  | other type => exact steady_printf _ h

/-- **The law of `fast_repr` on two messages**: a depth of more than the available bytes is
enough for every graph, and both messages are settled.  By induction on the depth; a nested
call has fewer bytes available. -/
theorem fastRepr_steady (fuel : ℕ) : SteadyBelow fuel (fastRepr py heap fuel) := by
  induction fuel with
  | zero =>
      intro ptr a b h hlt
      have hspace := h.agree.within
      unfold TraceMessage.availSize at hlt
      omega
  | succ fuel ih =>
      intro ptr a b h hlt
      exact couples_fastReprBody py heap ih ptr h (by push_cast at hlt; omega)

end InfiTracing.Serialize
