import Mathlib.Logic.Function.Basic
import InfiTracing.Mintomic.Atomic

/-!
# The atomic operations on ARM

The routines of `mintomic_gcc.c`, instruction by instruction, as any number of processors run
them on one object.  A load-exclusive reserves the object for the processor; a store-exclusive
stores only while the reservation stands, and a store by any processor ends the reservations of
the others.  A reservation may also be lost for no reason of the program's, as on a context
switch.

The arguments are passed in consecutive words, the address of the object first, the fifth word on
the stack: the calling convention the routines are written for.  The 32-bit load and store of
`mintomic_gcc_arm.h` are plain accesses, compiled to one instruction each; the other 32-bit
operations are the standalone ones for Thumb mode.
-/

namespace InfiTracing.Mintomic

open Framework

/-! ## Processors and instructions -/

/-- The registers the routines use. -/
inductive Reg
  | r0 | r1 | r2 | r3 | r4 | r5 | r6 | r7
  deriving DecidableEq, Repr

/-- The registers a routine must leave as its caller had them. -/
def calleeSaved : List Reg := [.r4, .r5, .r6, .r7]

/-- A processor: its registers, the flags, the words from the stack pointer upwards, the position
in the routine, and whether it has the object reserved. -/
structure Cpu where
  r : Reg → BitVec 32
  z : Bool
  c : Bool
  stack : List (BitVec 32)
  pc : ℕ
  exclusive : Bool

/-- The data-processing instructions. -/
inductive DataOp
  | and
  | orr
  | adds
  | adc
  deriving DecidableEq, Repr

/-- The word an instruction computes from the carry flag and its operands. -/
def DataOp.result (c : Bool) (a b : BitVec 32) : DataOp → BitVec 32
  | .and => a &&& b
  | .orr => a ||| b
  | .adds => a + b
  | .adc => a + b + (if c then 1 else 0)

/-- The carry flag afterwards; only `adds` sets it. -/
def DataOp.carry (c : Bool) (a b : BitVec 32) : DataOp → Bool
  | .adds => 2 ^ 32 ≤ a.toNat + b.toNat
  | _ => c

/-- The zero flag afterwards; only `adds` sets it. -/
def DataOp.zero (z : Bool) (a b : BitVec 32) : DataOp → Bool
  | .adds => a + b = 0
  | _ => z

/-- The instructions of the routines; a branch names the position it goes to. -/
inductive Instr
  | mov (d s : Reg)
  | data (op : DataOp) (d a b : Reg)
  | cmp (a b : Reg)
  | cmpZero (a : Reg)
  | cmpeq (a b : Reg)
  | bne (target : ℕ)
  | push (rs : List Reg)
  | pop (rs : List Reg)
  /-- `ldr d, [sp, #offset]`, the offset in words. -/
  | ldrSp (d : Reg) (offset : ℕ)
  | ldr (d a : Reg)
  | str (s a : Reg)
  | ldrex (d a : Reg)
  | strex (status s a : Reg)
  | ldrexd (lo hi a : Reg)
  | strexd (status lo hi a : Reg)
  | bxLr
  deriving DecidableEq, Repr

namespace Cpu

/-- The next instruction comes next. -/
def next (m : Cpu) : Cpu := { m with pc := m.pc + 1 }

/-- Register `d` gets `v`. -/
def set (m : Cpu) (d : Reg) (v : BitVec 32) : Cpu := { m with r := Function.update m.r d v }

/-- A comparison of two words. -/
def compare (m : Cpu) (a b : BitVec 32) : Cpu := { m with z := a = b, c := b ≤ a }

/-- Take registers off the stack, the first from the lowest address. -/
def pop (m : Cpu) : List Reg → Option Cpu
  | [] => some m
  | d :: rs => match m.stack with
    | [] => none
    | v :: stack => ({ m with stack }.set d v).pop rs

end Cpu

/-- One instruction: the processor afterwards, and the memory of the object if it stores.
`object` is the address of the object; an access elsewhere is none. -/
def Instr.exec (object : BitVec 32) (m : Cpu) (w : Words) : Instr → Option (Cpu × Option Words)
  | .mov d s => some ((m.set d (m.r s)).next, none)
  | .data op d a b => some
      ({ m.set d (op.result m.c (m.r a) (m.r b)) with
          z := op.zero m.z (m.r a) (m.r b), c := op.carry m.c (m.r a) (m.r b) }.next, none)
  | .cmp a b => some ((m.compare (m.r a) (m.r b)).next, none)
  | .cmpZero a => some ((m.compare (m.r a) 0).next, none)
  | .cmpeq a b => some ((if m.z then m.compare (m.r a) (m.r b) else m).next, none)
  | .bne target => some (if m.z then m.next else { m with pc := target }, none)
  | .push rs => some ({ m with stack := rs.map m.r ++ m.stack }.next, none)
  | .pop rs => (m.pop rs).map fun m => (m.next, none)
  | .ldrSp d offset => (m.stack[offset]?).map fun v => ((m.set d v).next, none)
  | .ldr d a => if m.r a = object then some ((m.set d w.lo).next, none) else none
  | .str s a => if m.r a = object then some (m.next, some { w with lo := m.r s }) else none
  | .ldrex d a =>
      if m.r a = object then some ({ m.set d w.lo with exclusive := true }.next, none) else none
  | .strex status s a =>
      if m.r a = object then
        if m.exclusive then
          some ({ m.set status 0 with exclusive := false }.next, some { w with lo := m.r s })
        else some ((m.set status 1).next, none)
      else none
  | .ldrexd lo hi a =>
      if m.r a = object then
        some ({ (m.set lo w.lo).set hi w.hi with exclusive := true }.next, none)
      else none
  | .strexd status lo hi a =>
      if m.r a = object then
        if m.exclusive then
          some ({ m.set status 0 with exclusive := false }.next, some ⟨m.r lo, m.r hi⟩)
        else some ((m.set status 1).next, none)
      else none
  | .bxLr => none

/-! ## The routines -/

/-- `mint_load_32_relaxed`: `return object->_nonatomic`. -/
def mintLoad32Relaxed : List Instr := [.ldr .r0 .r0, .bxLr]

/-- `mint_store_32_relaxed`: `object->_nonatomic = desired`. -/
def mintStore32Relaxed : List Instr := [.str .r1 .r0, .bxLr]

/-- `_mint_compare_exchange_strong_32_relaxed`. -/
def mintCompareExchangeStrong32Relaxed : List Instr :=
  [.push [.r4], .mov .r4 .r0,
    -- 1:
    .ldrex .r0 .r4, .cmp .r0 .r1, .bne 8, .strex .r3 .r2 .r4, .cmpZero .r3, .bne 2,
    -- 2:
    .pop [.r4], .bxLr]

/-- The three 32-bit routines that fetch a word and store what `op` makes of it. -/
def fetch32 (op : DataOp) : List Instr :=
  [.push [.r4], .mov .r4 .r0,
    -- 1:
    .ldrex .r0 .r4, .data op .r2 .r0 .r1, .strex .r3 .r2 .r4, .cmpZero .r3, .bne 2,
    .pop [.r4], .bxLr]

/-- `_mint_fetch_add_32_relaxed`. -/
def mintFetchAdd32Relaxed : List Instr := fetch32 .adds

/-- `_mint_fetch_and_32_relaxed`. -/
def mintFetchAnd32Relaxed : List Instr := fetch32 .and

/-- `_mint_fetch_or_32_relaxed`. -/
def mintFetchOr32Relaxed : List Instr := fetch32 .orr

/-- `_mint_load_64_relaxed`. -/
def mintLoad64Relaxed : List Instr :=
  [.mov .r2 .r0,
    -- 1:
    .ldrexd .r0 .r1 .r2, .strexd .r3 .r0 .r1 .r2, .cmpZero .r3, .bne 1, .bxLr]

/-- `_mint_store_64_relaxed`. -/
def mintStore64Relaxed : List Instr :=
  [.push [.r4, .r5], .mov .r5 .r0, .mov .r3 .r2, .mov .r2 .r1,
    -- 1:
    .ldrexd .r0 .r1 .r5, .strexd .r4 .r2 .r3 .r5, .cmpZero .r4, .bne 4,
    .pop [.r4, .r5], .bxLr]

/-- `_mint_compare_exchange_strong_64_relaxed`. -/
def mintCompareExchangeStrong64Relaxed : List Instr :=
  [.push calleeSaved, .mov .r6 .r3, .ldrSp .r7 4, .mov .r5 .r0, .mov .r4 .r1,
    -- 1:
    .ldrexd .r0 .r1 .r5, .cmp .r0 .r4, .cmpeq .r1 .r2, .bne 12, .strexd .r3 .r6 .r7 .r5,
    .cmpZero .r3, .bne 5,
    -- 2:
    .pop calleeSaved, .bxLr]

/-- The three 64-bit routines that fetch a double word and store what `low` and `high` make of
its halves. -/
def fetch64 (low high : DataOp) : List Instr :=
  [.push calleeSaved, .mov .r5 .r0, .mov .r4 .r1,
    -- 1:
    .ldrexd .r0 .r1 .r5, .data low .r6 .r0 .r4, .data high .r7 .r1 .r2, .strexd .r3 .r6 .r7 .r5,
    .cmpZero .r3, .bne 3,
    .pop calleeSaved, .bxLr]

/-- `_mint_fetch_add_64_relaxed`. -/
def mintFetchAdd64Relaxed : List Instr := fetch64 .adds .adc

/-- `_mint_fetch_and_64_relaxed`. -/
def mintFetchAnd64Relaxed : List Instr := fetch64 .and .and

/-- `_mint_fetch_or_64_relaxed`. -/
def mintFetchOr64Relaxed : List Instr := fetch64 .orr .orr

/-- The routine of an operation. -/
def MintOp.code : MintOp → List Instr
  | .w32 .load => mintLoad32Relaxed
  | .w32 (.store _) => mintStore32Relaxed
  | .w32 (.compareExchangeStrong _ _) => mintCompareExchangeStrong32Relaxed
  | .w32 (.fetchAdd _) => mintFetchAdd32Relaxed
  | .w32 (.fetchAnd _) => mintFetchAnd32Relaxed
  | .w32 (.fetchOr _) => mintFetchOr32Relaxed
  | .w64 .load => mintLoad64Relaxed
  | .w64 (.store _) => mintStore64Relaxed
  | .w64 (.compareExchangeStrong _ _) => mintCompareExchangeStrong64Relaxed
  | .w64 (.fetchAdd _) => mintFetchAdd64Relaxed
  | .w64 (.fetchAnd _) => mintFetchAnd64Relaxed
  | .w64 (.fetchOr _) => mintFetchOr64Relaxed

/-! ## Calls -/

/-- A processor in a routine, and what it was when its caller branched there. -/
structure Activation where
  caller : Cpu
  cpu : Cpu

/-- The reservation of the object is lost. -/
def Activation.disturbed (a : Activation) : Activation :=
  { a with cpu := { a.cpu with exclusive := false } }

namespace MintOp

variable (object : BitVec 32)

/-- The stack at the branch: the arguments that the registers do not hold are on it. -/
def entryStack (op : MintOp) (caller : Cpu) : List (BitVec 32) :=
  op.arguments.drop 3 ++ caller.stack

/-- The branch to a routine. -/
def enter (op : MintOp) (caller : Cpu) : Activation where
  caller := caller
  cpu :=
    { caller with
      r := fun
        | .r0 => object
        | .r1 => op.arguments[0]?.getD (caller.r .r1)
        | .r2 => op.arguments[1]?.getD (caller.r .r2)
        | .r3 => op.arguments[2]?.getD (caller.r .r3)
        | d => caller.r d
      stack := op.entryStack caller
      pc := 0 }

/-- The instruction a processor is at. -/
def instr (op : MintOp) (a : Activation) : Option Instr := op.code[a.cpu.pc]?

/-- What a routine returns in `r0` and `r1`. -/
def returned (op : MintOp) (m : Cpu) : MintAnswer :=
  match op with
  | .w32 (.store _) => .inl none
  | .w32 _ => .inl (some (m.r .r0))
  | .w64 (.store _) => .inr none
  | .w64 _ => .inr (some (m.r .r1 ++ m.r .r0))

end MintOp

/-- The routines as they run on the processors. -/
def arm (object : BitVec 32) : Routine Words MintOp Cpu MintAnswer Activation where
  enter op caller := op.enter object caller
  run op a w := (op.instr a).bind fun i =>
    (i.exec object a.cpu w).map fun (m, stored) => ({ a with cpu := m }, stored)
  leave op a := if op.instr a = some .bxLr then some (op.returned a.cpu) else none
  disturbed := Activation.disturbed

end InfiTracing.Mintomic
