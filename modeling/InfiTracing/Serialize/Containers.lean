import InfiTracing.Serialize.Renders

/-!
# Brackets and markers of containers

A container is opened, its first items are rendered, and it is closed.  The marker
`... <len=N>` follows when not all items are there; where it does not fit behind the closing
bracket, some of what was rendered is taken back and bracket and marker are written over it.

`container_law` gives the outcome from what the loop over the items did.  That there is always
room for the marker is an invariant of the loop (`SpareAt`): the offset it remembers is one from
which bracket, marker and a NUL fit, and it is remembered before the first item.

`containers_wellFormed` follows for every container, whatever its items are and however much space
there is.
-/

namespace InfiTracing.Serialize

open Framework

variable {m m₀ m₁ m₂ m' : TraceMessage}

/-! ## The marker -/

/-- `... <len=N>`. -/
def marker (len : ℕ) : CString :=
  CString.literal "... <len=" ++ CString.decimal len ++ CString.literal ">"

lemma length_marker (len : ℕ) : (marker len).1.length = (decimal len).length + 10 := by
  simp only [marker, CString.append_val, List.length_append]
  show 9 + (decimal len).length + 1 = _
  omega

lemma length_marker_le {len : ℕ} (h : len < 2 ^ 31) : (marker len).1.length ≤ 21 := by
  have hdecimal := length_decimal_le (z := len) (k := 10) (by norm_num) (by norm_num; omega)
  rw [length_marker]
  omega

lemma toInt_of_lt {len : ℕ} (h : len < 2 ^ 31) : toInt len = len := by
  unfold toInt
  rw [Int.bmod_eq_of_le] <;> omega

lemma toInt_lt (z : ℤ) : toInt z < 2 ^ 31 := by
  have h := Int.bmod_lt (x := z) (m := 2 ^ 32) (by norm_num)
  unfold toInt
  omega

lemma le_toInt (z : ℤ) : -2 ^ 31 ≤ toInt z := by
  have h := Int.le_bmod (x := z) (m := 2 ^ 32) (by norm_num)
  unfold toInt
  omega

/-- The marker `init_trunc_len_str` makes; it takes the length as an `int`. -/
def intMarker (len : ℤ) : CString :=
  CString.literal "... <len=" ++ CString.decimal (toInt len) ++ CString.literal ">"

lemma intMarker_eq {len : ℕ} (h : len < 2 ^ 31) : intMarker len = marker len := by
  rw [intMarker, toInt_of_lt h, marker]

lemma length_intMarker_le (len : ℤ) : (intMarker len).1.length ≤ 21 := by
  have habs : (toInt len).natAbs < 10 ^ 10 := by
    have hlow := le_toInt len
    have hhigh := toInt_lt len
    omega
  have hdecimal := length_decimal_le (by norm_num) habs
  simp only [intMarker, CString.append_val, List.length_append]
  show 9 + (decimal (toInt len)).length + 1 ≤ 21
  omega

/-- The buffer holds the whole marker, whatever the length. -/
lemma initTruncLenStr_intMarker (len : ℤ) :
    initTruncLenStr 64 len = ((intMarker len).1.length, intMarker len) := by
  have hle := length_intMarker_le len
  have htake : (intMarker len).take (64 - 2) = intMarker len :=
    Subtype.ext (List.take_of_length_le (by omega))
  exact congrArg _ htake

lemma initTruncLenStr_eq {len : ℕ} (h : len < 2 ^ 31) :
    initTruncLenStr 64 len = ((marker len).1.length, marker len) := by
  rw [initTruncLenStr_intMarker, intMarker_eq h]

lemma initTruncLenStr_fst {len : ℕ} (h : len < 2 ^ 31) :
    (initTruncLenStr 64 len).1 = (marker len).1.length := congrArg Prod.fst (initTruncLenStr_eq h)

/-! ## The loop over the items -/

/-- From the offset `ofs`, among the bytes `bs` appended since `m₀`, bracket, marker and NUL still
fit. -/
def SpareAt (m₀ : TraceMessage) (bs : List UInt8) (truncatedLen ofs : ℕ) : Prop :=
  ∃ k ≤ bs.length, ofs = m₀.writeIndex + k ∧ (k + truncatedLen + 2 : ℤ) ≤ m₀.availSize

lemma SpareAt.append {bs : List UInt8} {t ofs : ℕ} (h : SpareAt m₀ bs t ofs)
    (cs : List UInt8) : SpareAt m₀ (bs ++ cs) t ofs := by
  obtain ⟨k, hk, hofs, hroom⟩ := h
  exact ⟨k, hk.trans (by simp), hofs, hroom⟩

/-- With less than `n` bytes available, the rendering of an item appends something. -/
def PartRenders {χ : Type} (n : ℤ) (part : ℕ → χ → Render Bool) : Prop :=
  ∀ i item ⦃m⦄, m.writeIndex ≤ m.limitIndex → m.availSize < n →
    Renders (part i item) m fun _ _ => True

lemma renders_spareOffset {bs : List UInt8} {t ofs : ℕ} (h : m₀.Appends m bs)
    (hofs : SpareAt m₀ bs t ofs ∨ (t : ℤ) + 2 ≤ m.availSize) :
    Renders (spareOffset t ofs) m fun ofs' cs => cs = [] ∧ SpareAt m₀ bs t ofs' := by
  refine .availSize (.ite (fun hfits => ?_) fun hfull => ?_)
  · refine renders_operation (.refl h.within) ⟨rfl, bs.length, le_rfl, h.writeIndex, ?_⟩
    have hspace := h.availSize
    omega
  · exact .pure h.within ⟨rfl, hofs.resolve_right hfull⟩

/-- The loop of a container, by induction on the items that are left. -/
lemma renders_containerLoop {χ : Type} {n : ℤ} {part : ℕ → χ → Render Bool}
    (hpart : PartRenders n part) (hn : m₀.availSize < n) (t : ℕ) (items : List χ) (i ofs : ℕ)
    {bs : List UInt8} (h : m₀.Appends m bs)
    (hofs : SpareAt m₀ bs t ofs ∨ (t : ℤ) + 2 ≤ m.availSize) :
    Renders (containerLoop part t i ofs items) m fun ended cs =>
      (SpareAt m₀ (bs ++ cs) t ended.ofs ∨
        (t : ℤ) + 2 ≤ m₀.availSize - (bs ++ cs).length) ∧
      (ended.truncated = false → ended.i = i + items.length - 1) := by
  induction items generalizing i ofs m bs with
  | nil =>
      refine .pure h.within ⟨?_, fun _ => rfl⟩
      rw [List.append_nil, ← h.availSize]
      exact hofs
  | cons item items ih =>
      refine (renders_spareOffset h hofs).bind ?_
      rintro ofs' _ m₁ hm₁ ⟨rfl, hspare⟩
      have hm₁' : m₀.Appends m₁ bs := List.append_nil bs ▸ h.trans hm₁
      have hspace := hm₁'.availSize
      refine (hpart i item hm₁'.within (by omega)).bind fun shown cs m₂ hm₂ _ => ?_
      refine .ite (fun _ => ?_) fun _ => .pure hm₂.within ?_
      · refine (ih (i + 1) ofs' (hm₁'.trans hm₂) (.inl (hspare.append cs))).mono ?_
        rintro ended ds ⟨hspare', hi⟩
        rw [List.nil_append, ← List.append_assoc]
        refine ⟨hspare', fun htrunc => ?_⟩
        rw [hi htrunc, List.length_cons]
        omega
      · rw [List.nil_append, List.append_nil]
        exact ⟨.inl (hspare.append cs), fun htrunc => by cases htrunc⟩

/-! ## The brackets and the marker -/

/-- Without room for brackets, marker and NUL nothing is done. -/
lemma container_of_full {opening closing : CString} {len : ℕ} {loop : ℕ → Render LoopEnd}
    (h : m.availSize < (initTruncLenStr 64 len).1 + 3) :
    container opening closing len loop m = some (false, m) :=
  congrFun (if_pos h : (if _ then _ else _ : Render Bool) = _) m

/-- **The outcome of a container**, once its loop is known to have appended `X` inside the opening
bracket. -/
theorem container_law {opening closing : CString} {len : ℕ} {loop : ℕ → Render LoopEnd}
    {ended : LoopEnd} {X : List UInt8} (hopening : opening.1.length = 1)
    (hclosing : closing.1.length = 1) (hlen : len < 2 ^ 31) (hm : m.writeIndex ≤ m.limitIndex)
    (hroom : (marker len).1.length + 3 ≤ m.availSize)
    (hloop : loop (marker len).1.length (m.write opening).2 = some (ended, m₂))
    (hX : (m.write opening).2.Appends m₂ X)
    (hspare : SpareAt (m.write opening).2 X (marker len).1.length ended.ofs ∨
      ((marker len).1.length : ℤ) + 2 ≤ m₂.availSize) :
    Renders (container opening closing len loop) m fun ok bs => ok = true ∧
      ((len ≤ ended.i + 1 ∧ ended.truncated = false ∧ 1 < m₂.availSize ∧
          bs = opening.1 ++ X ++ closing.1) ∨
        ((ended.i + 1 < len ∨ ended.truncated = true ∨ m₂.availSize ≤ 1) ∧
          ∃ k ≤ X.length, ((marker len).1.length < m₂.availSize → k = X.length) ∧
            bs = opening.1 ++ X.take k ++ closing.1 ++ (marker len).1)) := by
  have hmarker := length_marker len
  have hopen := TraceMessage.write_appends_of_le hm (s := opening) (by omega)
  have hinside := hopen.trans hX
  have hwithin := hinside.within
  have hclosed := TraceMessage.write_appends hwithin closing
  have hok := TraceMessage.write_eq_true_iff hwithin closing
  have hspace := hclosed.availSize
  have havail := TraceMessage.availSize_toNat hwithin
  unfold container
  rw [initTruncLenStr_eq hlen]
  refine Yields.ite (fun h => absurd hroom (not_le.mpr h)) fun _ => ?_
  have hopened : write opening m = some ((m.write opening).1, (m.write opening).2) := rfl
  have hwrote : write closing m₂ = some ((m₂.write closing).1, (m₂.write closing).2) := rfl
  refine Yields.bind_of_run hopened (Yields.bind_of_run hloop (Yields.bind_of_run hwrote ?_))
  have hneed : ended.i + 1 < len ∨ ended.truncated = true ∨ ¬ (m₂.write closing).1 = true →
      ended.i + 1 < len ∨ ended.truncated = true ∨ m₂.availSize ≤ 1 := by
    refine Or.imp_right (Or.imp_right fun hnot => ?_)
    rw [hok, hclosing] at hnot
    omega
  rw [List.length_take, hclosing] at hspace
  refine Yields.ite (fun hcut => ?_) fun hwhole => ?_
  · refine Yields.ite (fun hshort => ?_) fun hlong => ?_
    · -- bracket and marker are written over what followed the remembered offset
      have hshort' : m₂.availSize < (marker len).1.length + 2 := by
        have hlt : (m₂.write closing).2.availSize < (marker len).1.length := hshort
        omega
      obtain ⟨k, hk, hofs, hfits⟩ := hspare.resolve_right (not_le.mpr hshort')
      have hback := (hX.trans hclosed).rewind (hk.trans (by simp))
      rw [List.take_append_of_le_length hk, ← hofs] at hback
      have hbackSpace := hback.availSize
      rw [List.length_take, min_eq_left hk] at hbackSpace
      have hlength : (closing ++ marker len).1.length = (marker len).1.length + 1 := by
        rw [CString.append_val, List.length_append, hclosing, Nat.add_comm]
      have hfits' : ((closing ++ marker len).1.length : ℤ) <
          ((m₂.write closing).2.rewind ended.ofs).availSize := by omega
      have hprinted := TraceMessage.printf_of_lt hback.within hfits'
      refine ⟨true, _, rfl, _, hopen.trans (hback.trans hprinted.2), rfl, .inr ⟨hneed hcut, k, hk,
        fun hlt => ?_, ?_⟩⟩
      · omega
      · simp only [CString.append_val, List.append_assoc]
    · -- the marker follows the bracket
      have hlong' : (marker len).1.length ≤ (m₂.write closing).2.availSize := not_lt.mp hlong
      have hwritten := TraceMessage.write_appends_of_le hclosed.within hlong'
      rw [List.take_of_length_le (by omega)] at hclosed
      refine ⟨true, _, rfl, _, hopen.trans (hX.trans (hclosed.trans hwritten)), rfl, .inr
        ⟨hneed hcut, X.length, le_rfl, fun _ => rfl, ?_⟩⟩
      simp only [List.take_length, List.append_assoc]
  · rw [not_or, not_or, not_not, hok] at hwhole
    obtain ⟨hi, htrunc, hfits⟩ := hwhole
    rw [List.take_of_length_le (by omega)] at hclosed
    refine ⟨true, _, rfl, _, hinside.trans hclosed, rfl, .inl ⟨not_lt.mp hi,
      Bool.not_eq_true _ ▸ htrunc, by omega, rfl⟩⟩

/-- With room for brackets, marker and NUL, a container returns `true`; it has its brackets around
what is left of its items, and no marker only if the loop has rendered all of them. -/
lemma renders_container {χ : Type} {n : ℤ} {opening closing : CString} {len shown : ℕ}
    {part : ℕ → χ → Render Bool} {items : List χ} (hopening : opening.1.length = 1)
    (hclosing : closing.1.length = 1) (hlen : len < 2 ^ 31) (hm : m.writeIndex ≤ m.limitIndex)
    (hn : m.availSize ≤ n) (hpart : PartRenders n part) (hshown : items.length = shown)
    (hroom : (marker len).1.length + 3 ≤ m.availSize) :
    Renders (container opening closing len fun t => containerLoop part t 0 0 items) m
      fun ok bs => ok = true ∧ ∃ X,
        (bs = opening.1 ++ X ++ closing.1 ∧ len ≤ max shown 1 ∧ ∃ ended m₂,
            containerLoop part (marker len).1.length 0 0 items (m.write opening).2 =
              some (ended, m₂) ∧ ended.truncated = false) ∨
          bs = opening.1 ++ X ++ closing.1 ++ (marker len).1 := by
  have hopen := TraceMessage.write_appends_of_le hm (s := opening) (by omega)
  have hspace := hopen.availSize
  rw [hopening] at hspace
  obtain ⟨ended, m₂, hloop, X, hX, hspare, hi⟩ := renders_containerLoop hpart
    (by omega : (m.write opening).2.availSize < n) (marker len).1.length items 0 0
    (.refl hopen.within) (.inr (by omega))
  rw [List.nil_append, ← hX.availSize] at hspare
  refine (container_law hopening hclosing hlen hm hroom hloop hX hspare).mono ?_
  rintro ok bs ⟨hok, ⟨hall, htrunc, -, rfl⟩ | ⟨-, k, -, -, rfl⟩⟩
  · have hended := hi htrunc
    exact ⟨hok, X, .inl ⟨rfl, by omega, ended, m₂, hloop, htrunc⟩⟩
  · exact ⟨hok, X.take k, .inr rfl⟩

/-! ## Items that are rendered -/

section Items

variable {n : ℤ} {repr : Pointer → Render Bool}

/-- With less than `n` bytes available, `repr` appends something. -/
def ReprRenders (n : ℤ) (repr : Pointer → Render Bool) : Prop :=
  ∀ ptr ⦃m⦄, m.writeIndex ≤ m.limitIndex → m.availSize < n → Renders (repr ptr) m fun _ _ => True

lemma renders_separator (hm : m.writeIndex ≤ m.limitIndex) (i : ℕ) :
    Renders (separator i) m fun _ _ => True :=
  .ite (fun _ => (renders_write hm _).mono fun _ _ _ => trivial) fun _ => .pure hm trivial

/-- A part, tested before the next. -/
lemma renders_guard {x y : Render Bool} (hx : Renders x m fun _ _ => True)
    (hy : ∀ bs m', m.Appends m' bs → Renders y m' fun _ _ => True) :
    Renders (do if ← x then y else return false) m fun _ _ => True :=
  hx.bind fun _ bs m' h _ => .ite (fun _ => hy bs m' h) fun _ => .pure h.within trivial

lemma renders_limited_repr (hrepr : ReprRenders n repr) (hm : m.writeIndex ≤ m.limitIndex)
    (hn : m.availSize < n) (size : ℕ) (ptr : Pointer) :
    Renders (limited size (repr ptr)) m fun _ _ => True := by
  have hspace := limit_availSize hm size
  exact .limited hm (hrepr ptr (inside_limit hm size).within (by omega))

lemma listElement_renders (hrepr : ReprRenders n repr) : PartRenders n (listElement repr) := by
  intro i item m hm hn
  have hspace := limit_availSize hm maxListElemLen
  have hlimit := (inside_limit hm maxListElemLen).within
  refine .limited hm (renders_guard (renders_separator hlimit i) fun bs m' h => ?_)
  have hspace' := h.availSize
  exact hrepr item h.within (by omega)

lemma dictItem_renders (hrepr : ReprRenders n repr) : PartRenders n (dictItem repr) := by
  intro i item m hm hn
  refine renders_guard (renders_separator hm i) fun bs₁ m₁ h₁ => ?_
  have hspace₁ := h₁.availSize
  refine renders_guard (renders_limited_repr hrepr h₁.within (by omega) _ _) fun bs₂ m₂ h₂ => ?_
  have hspace₂ := h₂.availSize
  refine renders_guard ((renders_write h₂.within _).mono fun _ _ _ => trivial) fun bs₃ m₃ h₃ => ?_
  have hspace₃ := h₃.availSize
  exact renders_limited_repr hrepr h₃.within (by omega) _ _

end Items

/-! ## Items that are all rendered in full -/

/-- `repr`, where a call that returns `false` has no result. -/
def succeeding (repr : Pointer → Render Bool) : Pointer → Render Bool := fun ptr => do
  if ← repr ptr then return true else fun _ => none

/-- Wherever `x` returns `true`, `y` does the same. -/
def SucceedsAs (x y : Render Bool) : Prop :=
  ∀ m m', x m = some (true, m') → y m = some (true, m')

section Succeeding

variable {repr : Pointer → Render Bool}

lemma SucceedsAs.refl (x : Render Bool) : SucceedsAs x x := fun _ _ h => h

lemma succeedsAs_succeeding (repr : Pointer → Render Bool) (ptr : Pointer) :
    SucceedsAs (repr ptr) (succeeding repr ptr) := by
  intro m m' h
  show (repr ptr m).bind _ = _
  rw [h]
  rfl

lemma SucceedsAs.guard {x x' y y' : Render Bool} (hx : SucceedsAs x x') (hy : SucceedsAs y y') :
    SucceedsAs (do if ← x then y else return false) (do if ← x' then y' else return false) := by
  intro m m' h
  obtain ⟨⟨ok, m₁⟩, hrun, hrest⟩ := Option.bind_eq_some_iff.mp h
  cases ok with
  | false => cases hrest
  | true => exact Option.bind_eq_some_iff.mpr ⟨_, hx m m₁ hrun, hy m₁ m' hrest⟩

lemma SucceedsAs.limited {x y : Render Bool} (h : SucceedsAs x y) (size : ℕ) :
    SucceedsAs (limited size x) (limited size y) := by
  intro m m' hrun
  obtain ⟨⟨ok, m₁⟩, hx, hrest⟩ := Option.bind_eq_some_iff.mp hrun
  obtain ⟨rfl, rfl⟩ := Prod.mk.inj (Option.some.inj hrest)
  exact Option.bind_eq_some_iff.mpr ⟨_, h _ m₁ hx, rfl⟩

lemma listElement_succeedsAs (i : ℕ) (item : Pointer) :
    SucceedsAs (listElement repr i item) (listElement (succeeding repr) i item) :=
  (SucceedsAs.guard (.refl _) (succeedsAs_succeeding repr item)).limited _

lemma dictItem_succeedsAs (i : ℕ) (item : Pointer × Pointer) :
    SucceedsAs (dictItem repr i item) (dictItem (succeeding repr) i item) :=
  .guard (.refl _) <| .guard ((succeedsAs_succeeding repr item.1).limited _) <|
    .guard (.refl _) ((succeedsAs_succeeding repr item.2).limited _)

/-- A loop that is not cut short has rendered every item. -/
lemma containerLoop_succeeds {χ : Type} {part part' : ℕ → χ → Render Bool}
    (h : ∀ i item, SucceedsAs (part i item) (part' i item)) {t i ofs : ℕ} {items : List χ}
    {ended : LoopEnd} (hrun : containerLoop part t i ofs items m = some (ended, m'))
    (htrunc : ended.truncated = false) :
    containerLoop part' t i ofs items m = some (ended, m') := by
  induction items generalizing i ofs m with
  | nil => exact hrun
  | cons item items ih =>
      obtain ⟨⟨ofs', m₁⟩, hspare, hrest⟩ := Option.bind_eq_some_iff.mp hrun
      obtain ⟨⟨ok, m₂⟩, hpart, hrest⟩ := Option.bind_eq_some_iff.mp hrest
      refine Option.bind_eq_some_iff.mpr ⟨_, hspare, ?_⟩
      cases ok with
      | false =>
          obtain ⟨rfl, -⟩ := Prod.mk.inj (Option.some.inj hrest)
          cases htrunc
      | true => exact Option.bind_eq_some_iff.mpr ⟨_, h i item m₁ m₂ hpart, ih hrest⟩

lemma container_congr {opening closing : CString} {len : ℕ} {loop loop' : ℕ → Render LoopEnd}
    (hlen : len < 2 ^ 31) (h : loop (marker len).1.length (m.write opening).2 =
      loop' (marker len).1.length (m.write opening).2) :
    container opening closing len loop m = container opening closing len loop' m := by
  unfold container
  rw [initTruncLenStr_eq hlen]
  show (if _ then _ else _ : Render Bool) m = (if _ then _ else _ : Render Bool) m
  split
  · rfl
  · exact congrArg (fun r => Option.bind r _) h

end Succeeding

/-! ## Well-formed containers -/

/-- Of a container of `len` items that was opened in `m` and left in `m'`, `ok` having been
returned: it has both brackets, and the whole marker behind them unless it is `complete`; or
nothing was appended. -/
def WellFormed (opening closing : CString) (len : ℕ) (complete : Prop) (m : TraceMessage)
    (ok : Bool) (m' : TraceMessage) : Prop :=
  (ok = true ∧ ∃ X, (complete ∧ m.Appends m' (opening.1 ++ X ++ closing.1)) ∨
      m.Appends m' (opening.1 ++ X ++ closing.1 ++ (marker len).1)) ∨
    (ok = false ∧ m' = m)

section WellFormed

lemma take_shownItems {χ : Type} {items : List χ} (h : items.length < 2 ^ 31) (max : ℕ) :
    items.take (shownItems items.length max) = items.take max := by
  rw [List.take_eq_take_iff, shownItems, toInt_of_lt h]
  omega

lemma length_shown {χ : Type} {items : List χ} (h : items.length < 2 ^ 31) (max : ℕ) :
    (items.take (shownItems items.length max)).length = min items.length max := by
  rw [take_shownItems h, List.length_take, Nat.min_comm]

/-- What holds of both brackets of a kind holds of the one that is used. -/
lemma literal_ite {P : CString → Prop} {l r : String} (isList : Bool) (hl : P (CString.literal l))
    (hr : P (CString.literal r)) : P (CString.literal (if isList then l else r)) := by
  cases isList with
  | true => exact hl
  | false => exact hr

/-- A container is well formed, where `part'` is `part` without a result for items that are not
rendered in full. -/
lemma container_wellFormed {χ : Type} {n : ℤ} {opening closing : CString}
    {part part' : ℕ → χ → Render Bool} {items : List χ} (hopening : opening.1.length = 1)
    (hclosing : closing.1.length = 1) (hlen : items.length < 2 ^ 31)
    (hm : m.writeIndex ≤ m.limitIndex) (hn : m.availSize ≤ n) (hpart : PartRenders n part)
    (hsame : ∀ i item, SucceedsAs (part i item) (part' i item)) :
    Yields (container opening closing items.length fun t =>
        containerLoop part t 0 0 (items.take (shownItems items.length 4))) m fun ok m' =>
      WellFormed opening closing items.length (items.length ≤ 4 ∧
        container opening closing items.length (fun t =>
          containerLoop part' t 0 0 (items.take (shownItems items.length 4))) m =
            some (true, m')) m ok m' := by
  rcases Int.lt_or_le m.availSize ((marker items.length).1.length + 3) with hfull | hroom
  · rw [← initTruncLenStr_fst hlen] at hfull
    exact ⟨false, m, container_of_full hfull, .inr ⟨rfl, rfl⟩⟩
  · obtain ⟨ok, m', hrun, bs, happends, hok, X, hX⟩ := renders_container hopening hclosing hlen hm
      hn hpart (length_shown hlen 4) hroom
    refine ⟨ok, m', hrun, .inl ⟨hok, X, ?_⟩⟩
    rcases hX with ⟨rfl, hall, ended, m₂, hloop, htrunc⟩ | rfl
    · refine .inl ⟨⟨by omega, ?_⟩, happends⟩
      rw [← hok, ← hrun]
      refine container_congr hlen ?_
      rw [hloop]
      exact containerLoop_succeeds hsame hloop htrunc
    · exact .inr happends

variable (py : CPython) (heap : Heap)

lemma reprRenders_fastRepr (fuel : ℕ) : ReprRenders fuel (fastRepr py heap fuel) :=
  fun ptr _ hm hn => renders_fastRepr py heap hm hn ptr

/-- **Lists, tuples and dicts are well formed**, whatever their items and however much space is
available: a rendering that returns `true` has appended both brackets, and behind them the whole
marker with the true length unless the container has at most four items and each call of
`fast_repr` for its items returned `true`; one that returns `false` has appended nothing. -/
theorem containers_wellFormed (hm : m.writeIndex ≤ m.limitIndex) {fuel : ℕ}
    (hfuel : m.availSize ≤ fuel) :
    (∀ (isList : Bool) (items : List Pointer), items.length < 2 ^ 31 →
      Yields (listOrTupleRepr (fastRepr py heap fuel) isList items) m fun ok m' =>
        WellFormed (CString.literal (if isList then "[" else "("))
          (CString.literal (if isList then "]" else ")")) items.length
          (items.length ≤ 4 ∧ listOrTupleRepr (succeeding (fastRepr py heap fuel)) isList items m =
            some (true, m')) m ok m') ∧
      ∀ items : List (Pointer × Pointer), items.length < 2 ^ 31 →
        Yields (dictRepr (fastRepr py heap fuel) items) m fun ok m' =>
          WellFormed (CString.literal "\x7b") (CString.literal "\x7d") items.length
            (items.length ≤ 4 ∧ dictRepr (succeeding (fastRepr py heap fuel)) items m =
              some (true, m')) m ok m' := by
  have hrepr := reprRenders_fastRepr py heap fuel
  refine ⟨fun isList items hlen => ?_, fun items hlen => ?_⟩
  · have hopening := literal_ite (P := fun s => s.1.length = 1) (l := "[") (r := "(") isList rfl rfl
    have hclosing := literal_ite (P := fun s => s.1.length = 1) (l := "]") (r := ")") isList rfl rfl
    exact container_wellFormed hopening hclosing hlen hm hfuel (listElement_renders hrepr)
      listElement_succeedsAs
  · exact container_wellFormed rfl rfl hlen hm hfuel (dictItem_renders hrepr) dictItem_succeedsAs

/-- A list that contains itself, in forty bytes. -/
theorem containers_wellFormed_selfContaining :
    Yields (listOrTupleRepr (fastRepr plainCPython selfContaining 40) true [1, 1])
      (staleMessage 120) fun ok m' => WellFormed (CString.literal "[") (CString.literal "]") 2
        (2 ≤ 4 ∧ listOrTupleRepr (succeeding (fastRepr plainCPython selfContaining 40)) true [1, 1]
          (staleMessage 120) = some (true, m')) (staleMessage 120) ok m' :=
  (containers_wellFormed plainCPython selfContaining (m := staleMessage 120) (by decide)
    (by decide : (staleMessage 120).availSize ≤ (40 : ℕ))).1 true [1, 1] (by decide)

end WellFormed

end InfiTracing.Serialize
