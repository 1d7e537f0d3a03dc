import Mathlib.Algebra.Order.Group.Nat
import InfiTracing.Framework.Linearizable

/-!
# The atomic operations of mintomic

What the `mint_*_relaxed` functions on a `mint_atomic32_t` or a `mint_atomic64_t` are for: each
is one operation of `AtomicOp`, taking effect at one instant.  The ring buffer's model takes
them so; `Mintomic/Arm.lean` and `Mintomic/X86.lean` show that the code of the library does it.
-/

namespace InfiTracing.Mintomic

open Framework

/-- The operations on a word of `w` bits. -/
inductive AtomicOp (w : ℕ)
  | load
  | store (desired : BitVec w)
  | compareExchangeStrong (expected desired : BitVec w)
  | fetchAdd (operand : BitVec w)
  | fetchAnd (operand : BitVec w)
  | fetchOr (operand : BitVec w)
  deriving DecidableEq

/-- What an operation returns (a store nothing, the others the original value), and the value it
leaves. -/
def AtomicOp.apply {w : ℕ} : AtomicOp w → BitVec w → Option (BitVec w) × BitVec w
  | .load, v => (some v, v)
  | .store desired, _ => (none, desired)
  | .compareExchangeStrong expected desired, v => (some v, if v = expected then desired else v)
  | .fetchAdd operand, v => (some v, v + operand)
  | .fetchAnd operand, v => (some v, v &&& operand)
  | .fetchOr operand, v => (some v, v ||| operand)

/-- A double word from its halves; a `mint_atomic32_t` is a low half. -/
@[ext]
structure Words where
  lo : BitVec 32
  hi : BitVec 32
  deriving DecidableEq

/-- The value of a double word. -/
def Words.value (w : Words) : BitVec 64 := w.hi ++ w.lo

/-- The halves of a value. -/
def Words.of (v : BitVec 64) : Words := ⟨v.setWidth 32, (v >>> 32).setWidth 32⟩

lemma Words.toNat_value (w : Words) : w.value.toNat = 2 ^ 32 * w.hi.toNat + w.lo.toNat := by
  rw [Words.value, BitVec.toNat_append, ← Nat.shiftLeft_add_eq_or_of_lt w.lo.isLt,
    Nat.shiftLeft_eq, Nat.mul_comm]

lemma Words.lo_of_toNat (v : BitVec 64) : (Words.of v).lo.toNat = v.toNat % 2 ^ 32 :=
  BitVec.toNat_setWidth 32 v

lemma Words.hi_of_toNat (v : BitVec 64) : (Words.of v).hi.toNat = v.toNat / 2 ^ 32 := by
  have hlt := v.isLt
  simp only [Words.of, BitVec.toNat_setWidth, BitVec.toNat_ushiftRight, Nat.shiftRight_eq_div_pow]
  omega

@[simp] lemma Words.value_of (v : BitVec 64) : (Words.of v).value = v := by
  apply BitVec.eq_of_toNat_eq
  rw [Words.toNat_value, Words.hi_of_toNat, Words.lo_of_toNat, Nat.div_add_mod]

lemma Words.value_injective : Function.Injective Words.value := by
  intro w w' h
  have hnat : w.value.toNat = w'.value.toNat := congrArg BitVec.toNat h
  rw [Words.toNat_value, Words.toNat_value] at hnat
  have hlo := w.lo.isLt
  have hlo' := w'.lo.isLt
  have hhi : w.hi = w'.hi := BitVec.eq_of_toNat_eq (by omega)
  have hlo : w.lo = w'.lo := BitVec.eq_of_toNat_eq (by omega)
  cases w
  cases w'
  simp_all

@[simp] lemma Words.of_value (w : Words) : Words.of w.value = w :=
  Words.value_injective (Words.value_of w.value)

/-- An operation on an object of either width. -/
inductive MintOp
  | w32 (op : AtomicOp 32)
  | w64 (op : AtomicOp 64)
  deriving DecidableEq

/-- What an operation returns. -/
abbrev MintAnswer := Option (BitVec 32) ⊕ Option (BitVec 64)

/-- The operation on the memory of the object. -/
def MintOp.apply : MintOp → Words → MintAnswer × Words
  | .w32 op, w => (.inl (op.apply w.lo).1, { w with lo := (op.apply w.lo).2 })
  | .w64 op, w => (.inr (op.apply w.value).1, Words.of (op.apply w.value).2)

/-- The words a caller passes after the object's address. -/
def MintOp.arguments : MintOp → List (BitVec 32)
  | .w32 .load | .w64 .load => []
  | .w32 (.store x) | .w32 (.fetchAdd x) | .w32 (.fetchAnd x) | .w32 (.fetchOr x) => [x]
  | .w32 (.compareExchangeStrong x y) => [x, y]
  | .w64 (.store x) | .w64 (.fetchAdd x) | .w64 (.fetchAnd x) | .w64 (.fetchOr x) =>
      [(Words.of x).lo, (Words.of x).hi]
  | .w64 (.compareExchangeStrong x y) =>
      [(Words.of x).lo, (Words.of x).hi, (Words.of y).lo, (Words.of y).hi]

end InfiTracing.Mintomic
