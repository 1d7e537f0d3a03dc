import InfiTracing.Serialize.Frame
import InfiTracing.TraceMessage.Appends

/-!
# What a serializer appends

`Renders x m Q` is the triple the serializers are specified with: from the message `m` the
program has a result and has appended some bytes under the limit, and `Q` holds of the value
and the bytes.  There is one rule for each operation and for each way to build a program.
-/

namespace InfiTracing.Serialize

open Framework

variable {α β : Type} {m m' : TraceMessage}

/-- From `m` the program appends bytes that satisfy, with the value it returns, `Q`. -/
def Renders (x : Render α) (m : TraceMessage) (Q : α → List UInt8 → Prop) : Prop :=
  Yields x m fun v m' => ∃ bs, m.Appends m' bs ∧ Q v bs

namespace Renders

variable {x : Render α} {f : α → Render β} {Q Q' : α → List UInt8 → Prop}
  {R : β → List UInt8 → Prop}

lemma pure (hm : m.writeIndex ≤ m.limitIndex) {v : α} (h : Q v []) :
    Renders (Pure.pure v) m Q := Yields.pure ⟨[], .refl hm, h⟩

lemma mono (h : Renders x m Q) (himp : ∀ v bs, Q v bs → Q' v bs) : Renders x m Q' :=
  Yields.mono h fun v _ ⟨bs, happends, hQ⟩ => ⟨bs, happends, himp v bs hQ⟩

/-- Two programs that do the same from `m`. -/
lemma congr {y : Render α} (h : x m = y m) (hy : Renders y m Q) : Renders x m Q := by
  obtain ⟨v, m', hrun, hQ⟩ := hy
  exact ⟨v, m', h.trans hrun, hQ⟩

/-- The rule of sequencing: the second program goes on behind what the first appended. -/
theorem bind (h : Renders x m Q)
    (hf : ∀ v bs m', m.Appends m' bs → Q v bs → Renders (f v) m' fun w cs => R w (bs ++ cs)) :
    Renders (x >>= f) m R := by
  refine Yields.bind h fun v m' ⟨bs, happends, hQ⟩ => ?_
  refine Yields.mono (hf v bs m' happends hQ) fun w m'' ⟨cs, happends', hR⟩ => ?_
  exact ⟨bs ++ cs, happends.trans happends', hR⟩

lemma ite {c : Prop} [Decidable c] {y : Render α} (hx : c → Renders x m Q)
    (hy : ¬ c → Renders y m Q) : Renders (if c then x else y) m Q := Yields.ite hx hy

/-- The available space is only looked at. -/
lemma availSize {f : ℤ → Render β} (h : Renders (f m.availSize) m R) :
    Renders (availSize >>= f) m R := h

/-- A program appends one text. -/
lemma and (h : Renders x m Q) (h' : Renders x m Q') : Renders x m fun v bs => Q v bs ∧ Q' v bs := by
  refine Yields.mono (Yields.and h h') fun v m' ⟨⟨bs, happends, hQ⟩, ⟨bs', happends', hQ'⟩⟩ => ?_
  obtain rfl := happends.unique happends'
  exact ⟨bs, happends, hQ, hQ'⟩

end Renders

/-! ## The operations -/

/-- The parts of the program's result. -/
lemma renders_operation {f : TraceMessage → α × TraceMessage} {bs : List UInt8}
    {Q : α → List UInt8 → Prop} (happends : m.Appends (f m).2 bs) (hQ : Q (f m).1 bs) :
    Renders (operation f) m Q := ⟨(f m).1, (f m).2, rfl, bs, happends, hQ⟩

lemma renders_write (hm : m.writeIndex ≤ m.limitIndex) (s : CString) :
    Renders (write s) m fun ok bs =>
      bs = s.1.take m.availSize.toNat ∧ (ok = true ↔ (s.1.length : ℤ) < m.availSize) := by
  refine renders_operation (TraceMessage.write_appends hm s) ⟨rfl, ?_⟩
  rw [TraceMessage.write_eq_true_iff hm]
  have havail := TraceMessage.availSize_toNat hm
  omega

/-- A string that fits with its NUL. -/
lemma renders_write_of_lt (hm : m.writeIndex ≤ m.limitIndex) {s : CString}
    (h : (s.1.length : ℤ) < m.availSize) :
    Renders (write s) m fun ok bs => ok = true ∧ bs = s.1 := by
  refine (renders_write hm s).mono fun ok bs ⟨hbs, hok⟩ => ⟨hok.mpr h, ?_⟩
  rw [hbs, List.take_of_length_le (by omega)]

/-- A text that fits with its NUL. -/
lemma renders_printf_of_lt (hm : m.writeIndex ≤ m.limitIndex) {text : CString}
    (h : (text.1.length : ℤ) < m.availSize) :
    Renders (printf text) m fun ok bs => ok = true ∧ bs = text.1 := by
  obtain ⟨hok, happends⟩ := TraceMessage.printf_of_lt hm h
  exact renders_operation happends ⟨hok, rfl⟩

lemma renders_printf_of_eq (hm : m.writeIndex ≤ m.limitIndex) {text : CString}
    (h : (text.1.length : ℤ) = m.availSize) :
    Renders (printf text) m fun ok bs =>
      ok = true ∧ bs = TraceMessage.printed text.1.length text.1 := by
  obtain ⟨hok, happends⟩ := TraceMessage.printf_of_eq hm h
  exact renders_operation happends ⟨hok, rfl⟩

lemma renders_printf_of_gt (hm : m.writeIndex ≤ m.limitIndex) {text : CString}
    (h : m.availSize < text.1.length) :
    Renders (printf text) m fun ok bs => ok = false ∧ bs = [] := by
  obtain ⟨hok, happends⟩ := TraceMessage.printf_of_gt hm h
  exact renders_operation happends ⟨hok, rfl⟩

/-- A part under its own limit. -/
lemma Renders.limited {x : Render Bool} {Q : Bool → List UInt8 → Prop}
    (hm : m.writeIndex ≤ m.limitIndex) {size : ℕ} (h : Renders x (m.limit size).2 Q) :
    Renders (limited size x) m Q := by
  obtain ⟨ok, m', hrun, bs, happends, hQ⟩ := h
  have hextends := happends.extends.unlimit hm
  refine ⟨ok, m'.unlimitTo (m.limit size).1, ?_, bs, ⟨hextends.capacity, hextends.limitIndex,
    happends.written, hextends.within⟩, hQ⟩
  show (x (m.limit size).2).bind (fun r => some (r.1, r.2.unlimitTo (m.limit size).1)) = _
  rw [hrun]
  rfl

lemma limit_availSize (hm : m.writeIndex ≤ m.limitIndex) (size : ℕ) :
    (m.limit size).2.availSize = min (size : ℤ) m.availSize := by
  have hlimit := TraceMessage.limit_limitIndex hm size
  have hwrite : (m.limit size).2.writeIndex = m.writeIndex := rfl
  unfold TraceMessage.availSize
  omega

/-- Operations that go on from `m` appended something. -/
lemma appends_of_extends (h : m.Extends m') : ∃ bs, m.Appends m' bs := by
  refine ⟨m'.written.drop m.writeIndex, h.capacity, h.limitIndex, ?_, h.within⟩
  have hkept : m'.written.take m.writeIndex = m.written :=
    (TraceMessage.take_written h.writeIndex_le).trans h.kept
  rw [← hkept, List.take_append_drop]

variable (py : CPython) (heap : Heap)

/-- `fast_repr` appends something. -/
lemma renders_fastRepr (hm : m.writeIndex ≤ m.limitIndex) {fuel : ℕ}
    (hfuel : m.availSize < fuel) (ptr : Pointer) :
    Renders (fastRepr py heap fuel ptr) m fun _ _ => True := by
  refine (fastRepr_extends py heap hm hfuel ptr).mono fun _ m' h => ?_
  obtain ⟨bs, happends⟩ := appends_of_extends h
  exact ⟨bs, happends, trivial⟩

end InfiTracing.Serialize
