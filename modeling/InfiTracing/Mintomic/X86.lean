import InfiTracing.Mintomic.Atomic

/-!
# The atomic operations on x86

The inline assembly of `mintomic_gcc_x86-64.h` for words that the processor accesses at once, and
the compare-and-exchange loops of that header and of `mintomic_msvc.h` for 64-bit objects on a
32-bit processor.  A locked instruction reads and writes the object in one step; the loops are
what makes more of it.

In the loops `object->_nonatomic` is a plain read of a 64-bit object by a 32-bit processor: two
reads, in the order the compiler likes, and the two halves may come from different values of the
object.  Nothing depends on them, since the exchange that follows compares them.

The 64-bit store on a 32-bit processor is not here: it uses `cmpxchg8b` without `lock`, and what
that does beside a locked instruction is up to the processor.
-/

namespace InfiTracing.Mintomic

open Framework

/-! ## Words of the processor's size -/

section Words

variable {width : ℕ}

/-- The instructions of the blocks.  `original`, `temp` and `operand` are the registers of that
name, `%0`, `%2` and `%3`, and the object is `%1`. -/
inductive X86Instr
  /-- `mov %1, %0`. -/
  | load
  /-- `mov %2, %1`. -/
  | store
  /-- `mov %0, %2`. -/
  | copy
  /-- `and %3, %2`. -/
  | and
  /-- `or %3, %2`. -/
  | or
  /-- `lock; cmpxchg %2, %1`. -/
  | lockCmpxchg
  /-- `lock; xadd %0, %1`. -/
  | lockXadd
  | jne (target : ℕ)

/-- The registers of a block, the zero flag and the position in the block. -/
structure X86Cpu (width : ℕ) where
  original : BitVec width
  temp : BitVec width
  operand : BitVec width
  zf : Bool
  pc : ℕ

/-- One instruction: the processor afterwards, and the value it stores, if it stores one. -/
def X86Instr.exec (m : X86Cpu width) (v : BitVec width) :
    X86Instr → X86Cpu width × Option (BitVec width)
  | .load => ({ m with original := v, pc := m.pc + 1 }, none)
  | .store => ({ m with pc := m.pc + 1 }, some m.temp)
  | .copy => ({ m with temp := m.original, pc := m.pc + 1 }, none)
  | .and => ({ m with temp := m.temp &&& m.operand, pc := m.pc + 1 }, none)
  | .or => ({ m with temp := m.temp ||| m.operand, pc := m.pc + 1 }, none)
  | .lockCmpxchg =>
      if v = m.original then ({ m with zf := true, pc := m.pc + 1 }, some m.temp)
      else ({ m with original := v, zf := false, pc := m.pc + 1 }, none)
  | .lockXadd => ({ m with original := v, pc := m.pc + 1 }, some (v + m.original))
  | .jne target => ({ m with pc := if m.zf then m.pc + 1 else target }, none)

/-- The block of an operation: `mint_load_64_relaxed` to `mint_fetch_or_64_relaxed`, and the same
for 32 bits. -/
def AtomicOp.block : AtomicOp width → List X86Instr
  | .load => [.load]
  | .store _ => [.store]
  | .compareExchangeStrong _ _ => [.lockCmpxchg]
  | .fetchAdd _ => [.lockXadd]
  | .fetchAnd _ => [.load, .copy, .and, .lockCmpxchg, .jne 0]
  | .fetchOr _ => [.load, .copy, .or, .lockCmpxchg, .jne 0]

/-- The registers at the start of a block, where its operands are, over what they held before. -/
def AtomicOp.operands (m : X86Cpu width) : AtomicOp width → X86Cpu width
  | .load => { m with pc := 0 }
  | .store desired => { m with temp := desired, pc := 0 }
  | .compareExchangeStrong expected desired =>
      { m with original := expected, temp := desired, pc := 0 }
  | .fetchAdd operand => { m with original := operand, pc := 0 }
  | .fetchAnd operand | .fetchOr operand => { m with operand := operand, pc := 0 }

/-- What is left in `original` at the end of a block, unless it returns nothing. -/
def AtomicOp.outcome (m : X86Cpu width) : AtomicOp width → Option (BitVec width)
  | .store _ => none
  | _ => some m.original

/-- The blocks as they run on the processors. -/
def x86 (width : ℕ) : Routine (BitVec width) (AtomicOp width) (X86Cpu width)
    (Option (BitVec width)) (X86Cpu width) where
  enter op m := op.operands m
  run op m v := (op.block[m.pc]?).map fun i => i.exec m v
  leave op m := if m.pc = op.block.length then some (op.outcome m) else none
  disturbed m := m

/-- The registers of the blocks that loop, at each instruction. -/
def loopAt (f : BitVec width → BitVec width → BitVec width) (x : BitVec width)
    (m : X86Cpu width) : Prop :=
  match m.pc with
  | 0 | 1 => m.operand = x
  | 2 => m.operand = x ∧ m.temp = m.original
  | 3 => m.operand = x ∧ m.temp = f m.original x
  | 4 => m.operand = x
  | 5 => True
  | _ => False

/-- The answer of a block that loops: the exchange set the flag, or not. -/
def loopAnswer (m : X86Cpu width) : Option (Option (BitVec width)) :=
  match m.pc with
  | 4 => if m.zf then some (some m.original) else none
  | 5 => some (some m.original)
  | _ => none

/-- What a block that loops does, instruction by instruction. -/
lemma advances_loop {op : AtomicOp width} {i : X86Instr}
    {f : BitVec width → BitVec width → BitVec width} {x : BitVec width}
    (hblock : op.block = [.load, .copy, i, .lockCmpxchg, .jne 0])
    (hi : ∀ m v, i.exec m v = ({ m with temp := f m.temp m.operand, pc := m.pc + 1 }, none))
    (happly : ∀ v, op.apply v = (some v, f v x)) {m : X86Cpu width} {v : BitVec width}
    (hat : loopAt f x m) (hend : m.pc ≠ op.block.length) :
    ∃ m' stored, (op.block[m.pc]?).map (fun i => i.exec m v) = some (m', stored) ∧
      loopAt f x m' ∧ Routine.Effect AtomicOp.apply op v (stored.getD v) (loopAnswer m)
        (loopAnswer m') := by
  rw [hblock] at hend ⊢
  obtain ⟨original, temp, operand, zf, pc⟩ := m
  match pc, hat with
  | 0, hx => exact ⟨_, _, rfl, hx, .inl ⟨rfl, rfl⟩⟩
  | 1, hx => exact ⟨_, _, rfl, ⟨hx, rfl⟩, .inl ⟨rfl, rfl⟩⟩
  | 2, ⟨hx, htemp⟩ =>
      have hx : operand = x := hx
      have htemp : temp = original := htemp
      refine ⟨⟨original, f original x, operand, zf, 3⟩, none, ?_, ⟨hx, rfl⟩, .inl ⟨rfl, rfl⟩⟩
      change some (i.exec _ v) = _
      rw [hi, hx, htemp]
  | 3, ⟨hx, htemp⟩ =>
      have htemp : temp = f original x := htemp
      by_cases hv : v = original
      · refine ⟨⟨original, temp, operand, true, 4⟩, some temp, ?_, hx, .inr ⟨rfl, ?_, ?_⟩⟩
        · exact congrArg some (if_pos hv)
        · rw [happly, hv]
          rfl
        · rw [happly, hv]
          exact htemp
      · refine ⟨⟨v, temp, operand, false, 4⟩, none, ?_, hx, .inl ⟨rfl, rfl⟩⟩
        exact congrArg some (if_neg hv)
  | 4, hx =>
      cases zf with
      | true => exact ⟨_, _, rfl, trivial, .inl ⟨rfl, rfl⟩⟩
      | false => exact ⟨_, _, rfl, hx, .inl ⟨rfl, rfl⟩⟩
  | 5, _ => exact absurd rfl hend

/-- The registers of a block, at each instruction. -/
def AtomicOp.X86At (op : AtomicOp width) (m : X86Cpu width) : Prop :=
  match op with
  | .load => m.pc ≤ 1
  | .store desired => m.pc ≤ 1 ∧ m.temp = desired
  | .compareExchangeStrong expected desired =>
      m.pc ≤ 1 ∧ (m.pc = 0 → m.original = expected ∧ m.temp = desired)
  | .fetchAdd operand => m.pc ≤ 1 ∧ (m.pc = 0 → m.original = operand)
  | .fetchAnd operand => loopAt (· &&& ·) operand m
  | .fetchOr operand => loopAt (· ||| ·) operand m

/-- The answer of a block that has taken effect: one of a single instruction at its end. -/
def AtomicOp.x86Answer (op : AtomicOp width) (m : X86Cpu width) :
    Option (Option (BitVec width)) :=
  match op with
  | .fetchAnd _ | .fetchOr _ => loopAnswer m
  | _ => if m.pc = 0 then none else some (op.outcome m)

/-- A block of one instruction takes effect there. -/
lemma advances_single {op : AtomicOp width} {m m' : X86Cpu width} {v : BitVec width}
    {stored : Option (BitVec width)} {i : X86Instr} (hblock : op.block = [i]) (hpc : m.pc = 0)
    (hexec : i.exec m v = (m', stored)) (hat : op.X86At m') (hpc' : m'.pc = 1)
    (happly : op.apply v = (op.outcome m', stored.getD v))
    (hanswer : ∀ m, op.x86Answer m = if m.pc = 0 then none else some (op.outcome m)) :
    ∃ m' stored, (op.block[m.pc]?).map (fun i => i.exec m v) = some (m', stored) ∧
      op.X86At m' ∧ Routine.Effect AtomicOp.apply op v (stored.getD v) (op.x86Answer m)
        (op.x86Answer m') := by
  refine ⟨m', stored, ?_, hat, .inr ⟨?_, ?_, ?_⟩⟩
  · rw [hblock, hpc]
    exact congrArg some hexec
  · rw [hanswer, if_pos hpc]
  · rw [hanswer, if_neg (by omega), happly]
  · rw [happly]

lemma AtomicOp.X86At.advances {op : AtomicOp width} {m : X86Cpu width} {v : BitVec width}
    (h : op.X86At m) (hend : m.pc ≠ op.block.length) :
    ∃ m' stored, (op.block[m.pc]?).map (fun i => i.exec m v) = some (m', stored) ∧
      op.X86At m' ∧ Routine.Effect AtomicOp.apply op v (stored.getD v) (op.x86Answer m)
        (op.x86Answer m') := by
  cases op with
  | load =>
      have hpc : m.pc = 0 := by
        have hle : m.pc ≤ 1 := h
        have hne : m.pc ≠ 1 := hend
        omega
      exact advances_single rfl hpc rfl (by simp [X86At, hpc]) (by simp [hpc]) rfl fun _ => rfl
  | store desired =>
      obtain ⟨hle, htemp⟩ := h
      have hpc : m.pc = 0 := by
        have hne : m.pc ≠ 1 := hend
        omega
      refine advances_single rfl hpc rfl ⟨by simp [hpc], htemp⟩ (by simp [hpc]) ?_ fun _ => rfl
      exact congrArg (Prod.mk none) htemp.symm
  | compareExchangeStrong expected desired =>
      obtain ⟨hle, hregs⟩ := h
      have hpc : m.pc = 0 := by
        have hne : m.pc ≠ 1 := hend
        omega
      obtain ⟨horiginal, htemp⟩ := hregs hpc
      by_cases hv : v = m.original
      · refine advances_single rfl hpc (if_pos hv) ⟨by simp [hpc], by simp⟩ (by simp [hpc]) ?_
          fun _ => rfl
        simp [apply, outcome, ← horiginal, hv, htemp]
      · refine advances_single rfl hpc (if_neg hv) ⟨by simp [hpc], by simp⟩ (by simp [hpc]) ?_
          fun _ => rfl
        simp [apply, outcome, ← horiginal, hv]
  | fetchAdd operand =>
      obtain ⟨hle, horiginal⟩ := h
      have hpc : m.pc = 0 := by
        have hne : m.pc ≠ 1 := hend
        omega
      refine advances_single rfl hpc rfl ⟨by simp [hpc], by simp⟩ (by simp [hpc]) ?_ fun _ => rfl
      simp [apply, outcome, horiginal hpc]
  | fetchAnd operand => exact advances_loop rfl (fun _ _ => rfl) (fun _ => rfl) h hend
  | fetchOr operand => exact advances_loop rfl (fun _ _ => rfl) (fun _ => rfl) h hend

/-- The outline of the blocks. -/
def x86Outline (width : ℕ) : (x86 width).Outline AtomicOp.apply where
  holds op m _ := op.X86At m
  answer op m := op.x86Answer m
  enter op m _ := by cases op <;> simp [x86, AtomicOp.operands, AtomicOp.X86At, loopAt,
    AtomicOp.x86Answer, loopAnswer]
  disturbed _ _ _ _ h := ⟨h, rfl⟩
  run op m v h hleave := by
    refine h.advances fun hend => ?_
    simp [x86, hend] at hleave
  leave op m v r h hleave := by
    by_cases hend : m.pc = op.block.length
    · obtain rfl : op.outcome m = r := by simpa [x86, hend] using hleave
      refine ⟨?_, by simp [x86, hend]⟩
      cases op <;> simp [AtomicOp.x86Answer, loopAnswer, hend, AtomicOp.block, AtomicOp.outcome]
    · simp [x86, hend] at hleave

/-- **The x86 blocks are linearizable**, for words of any width the processor accesses at once,
and no processor is ever stuck in one. -/
theorem x86_linearizable {Pid : Type*} [DecidableEq Pid] (width : ℕ) :
    Linearizable ((x86 width).machine Pid) ProcessState.value (x86 width).history
        AtomicOp.apply ∧
      ∀ s, ((x86 width).machine Pid).Reachable s → ∀ p, (s.process p).isSome →
        ∃ s', ((x86 width).machine Pid).step s (.run p) = some s' ∨
          ((x86 width).machine Pid).step s (.ret p) = some s' :=
  ⟨(x86Outline width).linearizable, fun _ hs _ hp => (x86Outline width).exists_step hs hp⟩

end Words

/-! ## Double words on a 32-bit processor -/

/-- What a fetching operation makes of a value. -/
inductive FetchOp
  | add
  | and
  | or
  deriving DecidableEq

def FetchOp.result (v operand : BitVec 64) : FetchOp → BitVec 64
  | .add => v + operand
  | .and => v &&& operand
  | .or => v ||| operand

/-- The operations on a 64-bit object that are made of compare-and-exchanges. -/
inductive ExchangeOp
  | load
  | compareExchangeStrong (expected desired : BitVec 64)
  | fetch (op : FetchOp) (operand : BitVec 64)
  deriving DecidableEq

/-- The operation as one of the library's. -/
def ExchangeOp.atomic : ExchangeOp → AtomicOp 64
  | .load => .load
  | .compareExchangeStrong expected desired => .compareExchangeStrong expected desired
  | .fetch .add operand => .fetchAdd operand
  | .fetch .and operand => .fetchAnd operand
  | .fetch .or operand => .fetchOr operand

/-- Where a processor stands in a loop. -/
inductive LoopPc
  /-- About to read the first half of `object->_nonatomic`. -/
  | readFirst
  /-- About to read the second half. -/
  | readSecond (half : BitVec 32)
  /-- About to compare the object with `expected` and exchange it. -/
  | exchange (expected : BitVec 64)
  /-- The exchange returned `original`; about to compare that with `expected`. -/
  | compare (expected original : BitVec 64)
  | returning (original : BitVec 64)

/-- A processor in a loop, and whether its compiler reads the low half of an object first. -/
structure LoopState where
  lowFirst : Bool
  pc : LoopPc

/-- A value from the half read first and the half of `v` read now. -/
def LoopState.join (l : LoopState) (half : BitVec 32) (v : BitVec 64) : BitVec 64 :=
  if l.lowFirst then (Words.mk half (Words.of v).hi).value
  else (Words.mk (Words.of v).lo half).value

namespace ExchangeOp

/-- What a successful exchange stores. -/
def desired (op : ExchangeOp) (expected : BitVec 64) : BitVec 64 :=
  match op with
  | .load => expected
  | .compareExchangeStrong _ desired => desired
  | .fetch op operand => op.result expected operand

/-- Where a loop starts.  The load exchanges whatever is in the registers, `dummy`, for itself. -/
def start (op : ExchangeOp) (dummy : BitVec 64) : LoopPc :=
  match op with
  | .load => .exchange dummy
  | .compareExchangeStrong expected _ => .exchange expected
  | .fetch _ _ => .readFirst

/-- One step of a loop.  After a failed exchange the loops of `mintomic_gcc_x86-64.h` read the
object again (`rereads`); those of `mintomic_msvc.h` go on with what the exchange returned. -/
def runLoop (rereads : Bool) (op : ExchangeOp) (l : LoopState) (v : BitVec 64) :
    Option (LoopState × Option (BitVec 64)) :=
  match l.pc with
  | .readFirst =>
      let half := if l.lowFirst then (Words.of v).lo else (Words.of v).hi
      some ({ l with pc := .readSecond half }, none)
  | .readSecond half => some ({ l with pc := .exchange (l.join half v) }, none)
  | .exchange expected =>
      let pc := match op with
        | .fetch _ _ => .compare expected v
        | _ => .returning v
      some ({ l with pc }, if v = expected then some (op.desired expected) else none)
  | .compare expected original =>
      if original = expected then some ({ l with pc := .returning original }, none)
      else some ({ l with pc := if rereads then .readFirst else .exchange original }, none)
  | .returning _ => none

/-- What a loop returns. -/
def leaveLoop (l : LoopState) : Option (Option (BitVec 64)) :=
  match l.pc with
  | .returning original => some (some original)
  | _ => none

end ExchangeOp

/-- The loops as they run on the processors; the caller's registers are the order of the reads and
the dummy of the load. -/
def x86Loop (rereads : Bool) :
    Routine (BitVec 64) ExchangeOp (Bool × BitVec 64) (Option (BitVec 64)) LoopState where
  enter op e := ⟨e.1, op.start e.2⟩
  run := ExchangeOp.runLoop rereads
  leave _ := ExchangeOp.leaveLoop
  disturbed l := l

namespace ExchangeOp

/-- Only a fetching operation reads and compares, and `compareExchangeStrong` expects one value. -/
def LoopAt (op : ExchangeOp) (l : LoopState) : Prop :=
  match l.pc, op with
  | .readFirst, .fetch _ _ | .readSecond _, .fetch _ _ | .compare _ _, .fetch _ _ => True
  | .exchange expected, .compareExchangeStrong expected' _ => expected = expected'
  | .exchange _, _ | .returning _, _ => True
  | _, _ => False

/-- The answer of an operation that has taken effect: its last exchange succeeded. -/
def loopAnswer (l : LoopState) : Option (Option (BitVec 64)) :=
  match l.pc with
  | .compare expected original => if original = expected then some (some original) else none
  | .returning original => some (some original)
  | _ => none

lemma LoopAt.advances {op : ExchangeOp} {l : LoopState} (rereads : Bool) (v : BitVec 64)
    (h : op.LoopAt l) (hleave : leaveLoop l = none) :
    ∃ l' stored, op.runLoop rereads l v = some (l', stored) ∧ op.LoopAt l' ∧
      Routine.Effect (fun op => op.atomic.apply) op v (stored.getD v) (loopAnswer l)
        (loopAnswer l') := by
  obtain ⟨lowFirst, pc⟩ := l
  cases pc with
  | readFirst =>
      cases op with
      | fetch op operand => exact ⟨_, _, rfl, trivial, .inl ⟨rfl, rfl⟩⟩
      | _ => exact h.elim
  | readSecond half =>
      cases op with
      | fetch op operand => exact ⟨_, _, rfl, trivial, .inl ⟨rfl, rfl⟩⟩
      | _ => exact h.elim
  | exchange expected =>
      refine ⟨_, _, rfl, ?_, ?_⟩
      · cases op <;> exact trivial
      · cases op with
        | load =>
            refine .inr ⟨rfl, rfl, ?_⟩
            by_cases hv : v = expected <;> simp [hv, desired, atomic, AtomicOp.apply]
        | compareExchangeStrong expected' desired' =>
            obtain rfl : expected = expected' := h
            refine .inr ⟨rfl, rfl, ?_⟩
            by_cases hv : v = expected <;> simp [hv, desired, atomic, AtomicOp.apply]
        | fetch op operand =>
            by_cases hv : v = expected
            · refine .inr ⟨rfl, ?_, ?_⟩
              · cases op <;> exact if_pos hv
              · cases op <;> simp [hv, desired, FetchOp.result, atomic, AtomicOp.apply]
            · exact .inl ⟨if_neg hv, by simp [hv]⟩
  | compare expected original =>
      cases op with
      | fetch op operand =>
          by_cases hv : original = expected
          · refine ⟨_, _, if_pos hv, trivial, .inl ⟨?_, rfl⟩⟩
            exact (if_pos hv).symm
          · refine ⟨_, _, if_neg hv, ?_, .inl ⟨?_, rfl⟩⟩
            · cases rereads <;> exact trivial
            · have hpending : loopAnswer ⟨lowFirst, .compare expected original⟩ = none := if_neg hv
              rw [hpending]
              cases rereads <;> rfl
      | _ => exact h.elim
  | returning original => cases hleave

end ExchangeOp

/-- The outline of the loops. -/
def x86LoopOutline (rereads : Bool) :
    (x86Loop rereads).Outline fun op => op.atomic.apply where
  holds op l _ := op.LoopAt l
  answer _ := ExchangeOp.loopAnswer
  enter op e _ := by cases op <;> exact ⟨by trivial, rfl⟩
  disturbed _ _ _ _ h := ⟨h, rfl⟩
  run _ _ v h hleave := h.advances rereads v hleave
  leave op l v r _ hleave := by
    obtain ⟨lowFirst, pc⟩ := l
    cases pc with
    | returning original => exact ⟨hleave, rfl⟩
    | _ => cases hleave

/-- **The loops of a 32-bit processor are linearizable**, though they read the object in two
halves, in either order, between which it may change. -/
theorem x86Loop_linearizable {Pid : Type*} [DecidableEq Pid] (rereads : Bool) :
    Linearizable ((x86Loop rereads).machine Pid) ProcessState.value (x86Loop rereads).history
        (fun op => op.atomic.apply) ∧
      ∀ s, ((x86Loop rereads).machine Pid).Reachable s → ∀ p, (s.process p).isSome →
        ∃ s', ((x86Loop rereads).machine Pid).step s (.run p) = some s' ∨
          ((x86Loop rereads).machine Pid).step s (.ret p) = some s' :=
  ⟨(x86LoopOutline rereads).linearizable,
    fun _ hs _ hp => (x86LoopOutline rereads).exists_step hs hp⟩

end InfiTracing.Mintomic
