import InfiTracing.Serialize.Termination
import InfiTracing.Framework.Programs

/-!
# What `fast_repr` leaves alone

Whatever `fast_repr` renders, and whatever it returns, it leaves the limit as it was, moves the
write position only forward and not past the limit, and changes no byte before it.

Inside, a container sets tighter limits for its parts and lifts them again, rewinds and writes
over what it has.  `Confined x` is the invariant that carries through all of it: under a limit
of at most `bound`, every state `x` visits has its write position below a limit of at most
`bound`.  A part is rendered under its own limit, so the write position never passes the part's
share of the space while it is rendered (`keeps_limited`).
-/

namespace InfiTracing.Serialize

open Framework

variable {m m' : TraceMessage} {bound : ℕ}

/-! ## The operations -/

/-- The operations of the message that the serializers are built from. -/
inductive Operation : (α : Type) → Render α → Prop
  | write (s : CString) : Operation Bool (write s)
  | printf (text : CString) : Operation Bool (printf text)
  | availSize : Operation ℤ availSize
  | writeOffset : Operation ℕ writeOffset
  | limit (size : ℕ) : Operation ℕ (limit size)
  | unlimit (i : ℕ) : Operation Unit (unlimit i)
  | rewind (offset : ℕ) : Operation Unit (rewind offset)

/-- The write position is below the limit, and the limit at most `bound`. -/
structure Inside (bound : ℕ) (m : TraceMessage) : Prop where
  within : m.writeIndex ≤ m.limitIndex
  bounded : m.limitIndex ≤ bound

/-- Started inside any bound, the program stays inside it throughout. -/
def Confined {α : Type} (x : Render α) : Prop :=
  ∀ bound m, Inside bound m → Keeps Operation (Inside bound) x m

lemma inside_limit (hm : m.writeIndex ≤ m.limitIndex) (size : ℕ) :
    Inside (m.limit size).2.limitIndex (m.limit size).2 := by
  refine ⟨?_, le_rfl⟩
  rw [TraceMessage.limit_limitIndex hm]
  show m.writeIndex ≤ _
  omega

/-! ## Programs -/

lemma Confined.ite {α : Type} {c : Prop} [Decidable c] {x y : Render α} (hx : Confined x)
    (hy : Confined y) : Confined (if c then x else y) := fun bound m h =>
  .ite (hx bound m h) (hy bound m h)

lemma Confined.bind {α β : Type} {x : Render α} {f : α → Render β} (hx : Confined x)
    (hf : ∀ v, Confined (f v)) : Confined (x >>= f) := fun bound m h =>
  .bind (hx bound m h) fun v m' hrun => hf v bound m' ((hx bound m h).final hrun)

/-- A part under its own limit: it stays inside that limit too, and the old one is restored. -/
lemma keeps_limited {size : ℕ} {x : Render Bool} (hx : Confined x) {P : TraceMessage → Prop}
    (hm : m.writeIndex ≤ m.limitIndex) (hstart : P m)
    (hinside : ∀ m', Inside (m.limit size).2.limitIndex m' → P m')
    (hend : ∀ m', Inside (m.limit size).2.limitIndex m' → P (m'.unlimitTo m.limitIndex)) :
    Keeps Operation P (limited size x) m := by
  have hlimit := inside_limit hm size
  have hbody := hx _ _ hlimit
  refine .bind (.prim (.limit size) hstart fun v m' hrun => ?_) fun v m' hrun => ?_
  · obtain ⟨rfl, rfl⟩ := Prod.mk.inj (Option.some.inj hrun)
    exact hinside _ hlimit
  · obtain ⟨rfl, rfl⟩ := Prod.mk.inj (Option.some.inj hrun)
    refine .bind (hbody.mono hinside) fun result m₁ hrun₁ => ?_
    have hfinal := hbody.final hrun₁
    refine .bind (.prim (.unlimit _) (hinside _ hfinal) fun _ m₂ hrun₂ => ?_) fun _ m₂ hrun₂ => ?_
    · obtain ⟨-, rfl⟩ := Prod.mk.inj (Option.some.inj hrun₂)
      exact hend _ hfinal
    · obtain ⟨-, rfl⟩ := Prod.mk.inj (Option.some.inj hrun₂)
      exact .pure (hend _ hfinal)

lemma Confined.limited {x : Render Bool} (hx : Confined x) (size : ℕ) :
    Confined (limited size x) := by
  intro bound m h
  have hlimit := TraceMessage.limit_limitIndex h.within size
  have hbound := h.bounded
  refine keeps_limited hx h.within h (fun m' hin => ⟨hin.within, ?_⟩) fun m' hin => ⟨?_, ?_⟩
  · have hle := hin.bounded
    omega
  · have hle := hin.bounded
    have hwithin := hin.within
    have hcap := m'.writeIndex_le
    show m'.writeIndex ≤ (clip m.limitIndex 0 m'.capacity).toNat
    unfold clip
    omega
  · show (clip m.limitIndex 0 m'.capacity).toNat ≤ bound
    unfold clip
    omega

section Containers

variable {repr : Pointer → Render Bool}

end Containers

variable (py : CPython) (heap : Heap)

/-- `fast_repr` returns, and goes on where it started. -/
lemma fastRepr_extends (hm : m.writeIndex ≤ m.limitIndex) {fuel : ℕ}
    (hfuel : m.availSize < fuel) (ptr : Pointer) :
    Yields (fastRepr py heap fuel ptr) m fun _ m' => m.Extends m' := by
  obtain ⟨v, m', _, hrun, _, hpost⟩ := fastRepr_steady py heap fuel ptr (alike_self hm) hfuel
  exact ⟨v, m', hrun, hpost.left⟩

end InfiTracing.Serialize
