import InfiTracing.Serialize.Containers

/-!
# Renderings that fail

`fast_repr` returns `false` when there is not enough space.  Most serializers then leave the
message as it was: they look at the space first, take back what they wrote, or print with
`printf`, which undoes what it stored (`Clean`).  The rest are found here, and exactly when they
leave something behind (`FailsCleanly`): a constant text that `write` cuts, the text of a `long`
that fills the space exactly, and an instance of a subclass of `dict` whose object text fits and
whose items do not.
-/

namespace InfiTracing.Serialize

open Framework

variable {α : Type} {m m' : TraceMessage}

/-! ## Programs that fail cleanly -/

/-- Whatever the program returns is `true`. -/
def NeverFails (x : Render Bool) : Prop := ∀ m ok m', x m = some (ok, m') → ok = true

/-- Where the program returns `false`, the message stands where it stood and shows what it did. -/
def Clean (x : Render Bool) (m : TraceMessage) : Prop :=
  ∀ m', x m = some (false, m') → m'.writeIndex = m.writeIndex ∧ m'.text = m.text

lemma neverFails_true : NeverFails (pure true) :=
  fun _ _ _ h => (Prod.mk.inj (Option.some.inj h)).1.symm

lemma NeverFails.bind {x : Render α} {f : α → Render Bool} (h : ∀ v, NeverFails (f v)) :
    NeverFails (x >>= f) := by
  intro m ok m' hrun
  obtain ⟨⟨v, m₁⟩, -, hf⟩ := Option.bind_eq_some_iff.mp hrun
  exact h v m₁ ok m' hf

lemma NeverFails.ite {c : Prop} [Decidable c] {x y : Render Bool} (hx : NeverFails x)
    (hy : NeverFails y) : NeverFails (if c then x else y) := by
  split
  · exact hx
  · exact hy

lemma NeverFails.clean {x : Render Bool} (h : NeverFails x) : Clean x m := by
  intro m' hrun
  cases h m false m' hrun

lemma clean_pure (ok : Bool) : Clean (pure ok) m := by
  intro m' h
  obtain ⟨-, rfl⟩ := Prod.mk.inj (Option.some.inj h)
  exact ⟨rfl, rfl⟩

lemma Clean.ite {c : Prop} [Decidable c] {x y : Render Bool} (hx : Clean x m) (hy : Clean y m) :
    Clean (if c then x else y) m := by
  split
  · exact hx
  · exact hy

/-- The available space is only looked at. -/
lemma Clean.availSize {f : ℤ → Render Bool} (h : Clean (f m.availSize) m) :
    Clean (availSize >>= f) m := h

lemma clean_printf (hends : m.TextEnds) (text : CString) : Clean (printf text) m := by
  intro m' h
  obtain ⟨hok, rfl⟩ := Prod.mk.inj (Option.some.inj h)
  rcases Int.lt_or_le m.availSize text.1.length with hlt | hle
  · obtain ⟨-, -, -, -, hwrite⟩ := @TraceMessage.vnprintf_of_lt m m.availSize.toNat text hlt
    exact ⟨hwrite, TraceMessage.text_vnprintf_of_lt hends hlt⟩
  · obtain ⟨htrue, -⟩ := @TraceMessage.vnprintf_of_le m m.availSize.toNat text hle
    cases htrue.symm.trans hok

/-- With room for brackets, marker and NUL, a container returns `true`. -/
lemma container_ok {opening closing : CString} {len : ℕ} {loop : ℕ → Render LoopEnd} {ok : Bool}
    (h : (initTruncLenStr 64 len).1 + 3 ≤ m.availSize)
    (hrun : container opening closing len loop m = some (ok, m')) : ok = true := by
  have hinside : NeverFails (do
      let _ ← write opening
      let ended ← loop (initTruncLenStr 64 len).1
      let closed ← write closing
      if ended.i + 1 < len ∨ ended.truncated ∨ ¬ closed then
        if (← availSize) < (initTruncLenStr 64 len).1 then
          rewind ended.ofs
          let _ ← printf (closing ++ (initTruncLenStr 64 len).2)
          return true
        else
          let _ ← write (initTruncLenStr 64 len).2
          return true
      else return true) :=
    .bind fun _ => .bind fun _ => .bind fun _ => .ite
      (.bind fun _ => .ite (.bind fun _ => .bind fun _ => neverFails_true)
        (.bind fun _ => neverFails_true))
      neverFails_true
  refine hinside m ok m' ?_
  rw [← hrun]
  exact (congrFun (if_neg (not_lt.mpr h) : (if _ then _ else _ : Render Bool) = _) m).symm

lemma clean_container (opening closing : CString) (len : ℕ) (loop : ℕ → Render LoopEnd) :
    Clean (container opening closing len loop) m := by
  intro m' hrun
  rcases Int.lt_or_le m.availSize ((initTruncLenStr 64 len).1 + 3) with hfull | hroom
  · rw [container_of_full hfull] at hrun
    obtain ⟨-, rfl⟩ := Prod.mk.inj (Option.some.inj hrun)
    exact ⟨rfl, rfl⟩
  · cases container_ok hroom hrun

lemma clean_listOrTupleRepr (repr : Pointer → Render Bool) (isList : Bool)
    (items : List Pointer) : Clean (listOrTupleRepr repr isList items) m :=
  clean_container _ _ _ _

lemma clean_dictRepr (repr : Pointer → Render Bool) (items : List (Pointer × Pointer)) :
    Clean (dictRepr repr items) m := clean_container _ _ _ _

lemma clean_strOrUnicodeRepr (hends : m.TextEnds) {χ : Type} (reprOf : List χ → CString)
    (chars : List χ) : Clean (strOrUnicodeRepr reprOf chars) m :=
  .availSize <| .availSize <| .ite
    (.availSize <| .ite (clean_printf hends _) (clean_pure _)) (clean_printf hends _)

lemma clean_namedRepr (opening : CString) (writeName : Render Bool) :
    Clean (namedRepr opening writeName) m :=
  .availSize <| .ite (clean_pure _) <| NeverFails.clean <|
    .bind fun _ => .bind fun _ => .bind fun _ => .ite (.bind fun _ => neverFails_true)
      (.bind fun _ => .bind fun _ => neverFails_true)

lemma clean_methodRepr (func : Option CString) (self : Pointer) (klass : Option PyType) :
    Clean (methodRepr func self klass) m :=
  .availSize <| .ite (clean_pure _) <| NeverFails.clean <|
    .bind fun _ => .bind fun _ => .bind fun _ => .ite neverFails_true
      (.bind fun _ => .bind fun _ => neverFails_true)

/-! ## What may be left behind -/

/-- The text `obj_repr` prints. -/
def objText (type : PyType) (ptr : Pointer) : CString :=
  CString.literal "<" ++ type.tpName ++ CString.literal " 0x" ++ CString.hex ptr.toNat ++
    CString.literal ">"

/-- With `a` bytes available, `write` of the text cuts nothing off that it then leaves there. -/
def WritesCleanly (text : CString) (a : ℤ) : Prop := a = 0 ∨ (text.1.length : ℤ) < a

/-- With `a` bytes available, the object is one of which no cut text is left behind. -/
def FailsCleanly (py : CPython) (heap : Heap) (a : ℤ) (ptr : Pointer) : Prop :=
  if ptr = 0 then WritesCleanly (CString.literal "<null>") a else
    match heap ptr with
    | .pyNone => WritesCleanly (CString.literal "None") a
    | .pyTrue => WritesCleanly (CString.literal "True") a
    | .pyFalse => WritesCleanly (CString.literal "False") a
    -- the text fits exactly, but not its NUL
    | .long value => a = 0 ∨ ((py.longFormat value).1.length : ℤ) ≠ a
    -- `obj_repr` succeeds, and `dict_repr` then has too little space
    | .dict exact type items => exact = true ∨ a < (objText type ptr).1.length ∨
        (objText type ptr).1.length + (initTruncLenStr 64 items.length).1 + 3 ≤ a
    | _ => True

/-- The condition on the result that `FailsCleanly` decides. -/
def LeavesNoTrace (m : TraceMessage) (ok : Bool) (m' : TraceMessage) : Prop :=
  ok = false → m'.writeIndex = m.writeIndex ∧ m'.text = m.text

lemma Clean.leavesNoTrace {x : Render Bool} {ok : Bool} (h : Clean x m)
    (hrun : x m = some (ok, m')) : LeavesNoTrace m ok m' := fun hok => h m' (hok ▸ hrun)

/-- A text that is written leaves something behind if it is cut. -/
lemma write_leavesNoTrace_iff (hm : m.writeIndex ≤ m.limitIndex) (text : CString) :
    LeavesNoTrace m (m.write text).1 (m.write text).2 ↔ WritesCleanly text m.availSize := by
  have hok := TraceMessage.write_eq_true_iff hm text
  have hindex := (TraceMessage.write_appends hm text).writeIndex
  have hbuffer := (TraceMessage.write_stored hm text).buffer
  have havail := TraceMessage.availSize_toNat hm
  rw [List.length_take] at hindex
  unfold LeavesNoTrace WritesCleanly
  constructor
  · intro h
    by_cases hlt : text.1.length < m.availSize.toNat
    · omega
    · have hsame := (h (Bool.eq_false_iff.mpr fun htrue => hlt (hok.mp htrue))).1
      omega
  · rintro (hzero | hlt) hfalse
    · rw [hzero] at hbuffer hindex
      rw [Int.toNat_zero, List.take_zero, overwrite_nil] at hbuffer
      exact ⟨by simpa using hindex, TraceMessage.text_congr hbuffer⟩
    · rw [hok.mpr (by omega)] at hfalse
      cases hfalse

/-- `write` of the whole text behind a check of its length. -/
lemma longRepr_leavesNoTrace_iff (py : CPython) (value : ℤ) {ok : Bool}
    (hm : m.writeIndex ≤ m.limitIndex) (hrun : longRepr py value m = some (ok, m')) :
    LeavesNoTrace m ok m' ↔
      m.availSize = 0 ∨ ((py.longFormat value).1.length : ℤ) ≠ m.availSize := by
  set s := py.longFormat value with hs
  have hbody : longRepr py value m =
      (if (s.1.length : ℤ) ≤ m.availSize then write s else pure false : Render Bool) m := rfl
  rw [hbody] at hrun
  split at hrun
  · next hle =>
      obtain ⟨rfl, rfl⟩ := Prod.mk.inj (Option.some.inj hrun)
      refine (write_leavesNoTrace_iff hm s).trans ?_
      unfold WritesCleanly
      omega
  · next hgt =>
      exact iff_of_true ((clean_pure false).leavesNoTrace hrun) (.inr (by omega))

/-- The items of an instance of a subclass of `dict` follow its object text. -/
lemma subDictRepr_leavesNoTrace_iff (repr : Pointer → Render Bool) (type : PyType)
    (ptr : Pointer) (items : List (Pointer × Pointer)) {ok : Bool} (hends : m.TextEnds)
    (hrun : subDictRepr repr type ptr items m = some (ok, m')) :
    LeavesNoTrace m ok m' ↔ m.availSize < (objText type ptr).1.length ∨
      (objText type ptr).1.length + (initTruncLenStr 64 items.length).1 + 3 ≤ m.availSize := by
  set text := objText type ptr with htext
  have hbind : (objRepr type ptr m).bind (fun r =>
      (if r.1 then dictRepr repr items else pure false : Render Bool) r.2) = some (ok, m') := hrun
  obtain ⟨⟨shown, m₁⟩, hobj, hrest⟩ := Option.bind_eq_some_iff.mp hbind
  obtain ⟨hshown, rfl⟩ := Prod.mk.inj (Option.some.inj hobj)
  rcases Int.lt_or_le m.availSize text.1.length with hlt | hle
  · -- nothing of the object is shown
    obtain ⟨hfalse, -⟩ := @TraceMessage.vnprintf_of_lt m m.availSize.toNat text hlt
    obtain rfl : false = shown := hfalse.symm.trans hshown
    obtain ⟨rfl, rfl⟩ := Prod.mk.inj (Option.some.inj hrest)
    exact iff_of_true ((clean_printf hends text).leavesNoTrace hobj) (.inl hlt)
  · obtain ⟨htrue, -, hlimit, -, hwrite⟩ :=
      @TraceMessage.vnprintf_of_le m m.availSize.toNat text hle
    obtain rfl : true = shown := htrue.symm.trans hshown
    have hspace : (m.printf text).2.availSize = m.availSize - text.1.length := by
      unfold TraceMessage.availSize at hle ⊢
      have hwrite' : (m.printf text).2.writeIndex = m.writeIndex + text.1.length := hwrite
      have hlimit' : (m.printf text).2.limitIndex = m.limitIndex := hlimit
      omega
    rcases Int.lt_or_le (m.printf text).2.availSize ((initTruncLenStr 64 items.length).1 + 3)
      with hfull | hroom
    · -- the text of the object is left behind
      have hdict : dictRepr repr items (m.printf text).2 = some (false, (m.printf text).2) :=
        container_of_full hfull
      obtain ⟨rfl, rfl⟩ := Prod.mk.inj (Option.some.inj (hdict.symm.trans hrest))
      have hlong : 0 < text.1.length := by
        simp only [htext, objText, CString.append_val, List.length_append]
        exact Nat.lt_of_lt_of_le (by decide : 0 < (CString.literal ">").1.length)
          (Nat.le_add_left _ _)
      refine iff_of_false (fun h => ?_) (by omega)
      have hsame : (m.printf text).2.writeIndex = m.writeIndex := (h rfl).1
      have hmoved : (m.printf text).2.writeIndex = m.writeIndex + text.1.length := hwrite
      omega
    · have hdict : dictRepr repr items (m.printf text).2 = some (ok, m') := hrest
      unfold dictRepr at hdict
      obtain rfl := container_ok hroom hdict
      exact iff_of_true (fun h => by cases h) (.inr (by omega))

/-! ## `fast_repr` -/

section FastRepr

variable (py : CPython) (heap : Heap)

/-- One level of `fast_repr`, whatever it calls for the parts of a container. -/
lemma fastReprBody_leavesNoTrace_iff (repr : Pointer → Render Bool) (ptr : Pointer) {ok : Bool}
    (hm : m.writeIndex ≤ m.limitIndex) (hends : m.TextEnds)
    (hrun : fastReprBody py heap repr ptr m = some (ok, m')) :
    LeavesNoTrace m ok m' ↔ FailsCleanly py heap m.availSize ptr := by
  have hwrite (text : CString) (h : write text m = some (ok, m')) :
      LeavesNoTrace m ok m' ↔ WritesCleanly text m.availSize := by
    have hiff := write_leavesNoTrace_iff hm text
    obtain ⟨rfl, rfl⟩ := Prod.mk.inj (Option.some.inj h)
    exact hiff
  have hclean {x : Render Bool} (hx : Clean x m) (h : x m = some (ok, m')) :
      LeavesNoTrace m ok m' ↔ True := iff_of_true (hx.leavesNoTrace h) trivial
  unfold fastReprBody at hrun
  unfold FailsCleanly
  split at hrun
  · next hnull =>
      rw [if_pos hnull]
      exact hwrite _ hrun
  · next hnull =>
      rw [if_neg hnull]
      cases hobj : heap ptr <;> rw [hobj] at hrun
      case long value => exact longRepr_leavesNoTrace_iff py value hm hrun
      case dict exact type items =>
          cases exact with
          | true =>
              exact iff_of_true ((clean_dictRepr repr items).leavesNoTrace hrun) (.inl rfl)
          | false =>
              rw [subDictRepr_leavesNoTrace_iff repr type ptr items hends hrun]
              simp
      case pyNone | pyTrue | pyFalse => exact hwrite _ hrun
      case int value => exact hclean (clean_printf hends _) hrun
      case other type => exact hclean (clean_printf hends _) hrun
      case float bits =>
          refine hclean (.availSize (.ite (NeverFails.clean ?_) (clean_pure _))) hrun
          exact .bind fun _ => .bind fun _ => neverFails_true
      case string bytes => exact hclean (clean_strOrUnicodeRepr hends _ bytes) hrun
      case unicode units => exact hclean (clean_strOrUnicodeRepr hends _ units) hrun
      case list items => exact hclean (clean_listOrTupleRepr repr true items) hrun
      case tuple items => exact hclean (clean_listOrTupleRepr repr false items) hrun
      case function name => exact hclean (clean_namedRepr _ _) hrun
      case method func self klass => exact hclean (clean_methodRepr func self klass) hrun
      case type type => exact hclean (clean_namedRepr _ _) hrun

/-- **When a failed rendering leaves no trace.**  On every graph, from every message whose visible
text ends at the write position: if `fast_repr` returns `false` it leaves the write position and
the visible text as they were, exactly for the objects and the spaces of `FailsCleanly`. -/
theorem fastRepr_leavesNoTrace_iff (hm : m.writeIndex ≤ m.limitIndex) (hends : m.TextEnds)
    {fuel : ℕ} (hfuel : m.availSize < fuel) (ptr : Pointer) :
    Yields (fastRepr py heap fuel ptr) m fun ok m' =>
      (LeavesNoTrace m ok m' ↔ FailsCleanly py heap m.availSize ptr) := by
  obtain ⟨ok, m', hrun, -⟩ := fastRepr_extends py heap hm hfuel ptr
  cases fuel with
  | zero => cases hrun
  | succ fuel =>
      exact ⟨ok, m', hrun, fastReprBody_leavesNoTrace_iff py heap _ ptr hm hends hrun⟩

/-- `None` in two bytes. -/
theorem fastRepr_leaves_trace :
    ¬ ∀ (heap : Heap) (ptr : Pointer) (m : TraceMessage) (fuel : ℕ) (ok : Bool)
      (m' : TraceMessage), m.writeIndex ≤ m.limitIndex → m.TextEnds → m.availSize < fuel →
        fastRepr plainCPython heap fuel ptr m = some (ok, m') → LeavesNoTrace m ok m' := by
  intro hall
  set m := ((staleMessage 120).limit 2).2 with hm
  have h := hall (fun _ => .pyNone) 1 m 3 false (m.write (CString.literal "None")).2 (by decide)
    rfl (by decide) rfl rfl
  exact absurd h.1 (by decide)

/-- A list that contains itself, in two bytes. -/
theorem fastRepr_leavesNoTrace_iff_list :
    Yields (fastRepr plainCPython selfContaining 3 1) ((staleMessage 120).limit 2).2
      (LeavesNoTrace ((staleMessage 120).limit 2).2) := by
  refine (fastRepr_leavesNoTrace_iff plainCPython selfContaining
    (m := ((staleMessage 120).limit 2).2) (by decide) rfl
    (by decide : (((staleMessage 120).limit 2).2).availSize < (3 : ℕ)) 1).mono ?_
  intro ok m' h
  exact h.mpr trivial

end FastRepr

end InfiTracing.Serialize
