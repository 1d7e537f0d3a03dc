import InfiTracing.Mintomic.Arm

/-!
# The ARM routines are linearizable

The proof outline of each routine of `Mintomic/Arm.lean`: at every instruction, what the registers
and the stack hold, and whether the operation has taken effect.  All of them follow one pattern.
Between a load-exclusive and the store-exclusive after it, a processor that still has the object
reserved has in its registers what the object holds (`Activation.Reserved`); a store that succeeds
therefore replaces the value it was computed from, and is the instant the operation takes effect.
A comparison that fails takes effect at the load.
-/

namespace InfiTracing.Mintomic

open Framework

variable {object : BitVec 32} {op : MintOp} {a b : Activation} {w : Words}

/-! ## The caller's registers -/

/-- The caller's registers and stack survive: those in `rs` on the stack, the others in place. -/
structure Kept (rs : List Reg) (op : MintOp) (a : Activation) : Prop where
  stack : a.cpu.stack = rs.map a.caller.r ++ op.entryStack a.caller
  regs : ∀ d ∈ calleeSaved, d ∉ rs → a.cpu.r d = a.caller.r d

lemma kept_enter (op : MintOp) (caller : Cpu) : Kept [] op (op.enter object caller) where
  stack := rfl
  regs d hd _ := by
    simp only [calleeSaved, List.mem_cons, List.not_mem_nil, or_false] at hd
    rcases hd with rfl | rfl | rfl | rfl <;> rfl

lemma Kept.congr {rs : List Reg} (h : Kept rs op a) (hcaller : b.caller = a.caller)
    (hr : b.cpu.r = a.cpu.r) (hstack : b.cpu.stack = a.cpu.stack) : Kept rs op b := by
  refine ⟨?_, fun d hd hrs => ?_⟩
  · rw [hstack, hcaller, h.stack]
  · rw [hr, hcaller, h.regs d hd hrs]

/-- A register that the caller does not expect back may change. -/
lemma Kept.update {rs : List Reg} (h : Kept rs op a) {d : Reg} {v : BitVec 32}
    (hd : d ∈ calleeSaved → d ∈ rs) (hcaller : b.caller = a.caller)
    (hr : b.cpu.r = Function.update a.cpu.r d v) (hstack : b.cpu.stack = a.cpu.stack) :
    Kept rs op b := by
  refine ⟨?_, fun e he hrs => ?_⟩
  · rw [hstack, hcaller, h.stack]
  · have hne : e ≠ d := fun heq => hrs (heq ▸ hd (heq ▸ he))
    rw [hr, Function.update_of_ne hne, hcaller, h.regs e he hrs]

lemma Kept.push {rs : List Reg} (h : Kept [] op a) (hrs : rs ⊆ calleeSaved)
    (hcaller : b.caller = a.caller) (hr : b.cpu.r = a.cpu.r)
    (hstack : b.cpu.stack = rs.map a.cpu.r ++ a.cpu.stack) : Kept rs op b := by
  refine ⟨?_, fun d hd _ => ?_⟩
  · rw [hstack, hcaller, h.stack]
    refine congrArg (· ++ _) (List.map_congr_left fun d hd => ?_)
    exact h.regs d (hrs hd) List.not_mem_nil
  · rw [hr, hcaller, h.regs d hd List.not_mem_nil]

/-- Popping gives the registers back. -/
lemma Cpu.pop_saved {f : Reg → BitVec 32} {rest : List (BitVec 32)} (rs : List Reg) (m : Cpu)
    (hstack : m.stack = rs.map f ++ rest) :
    ∃ m', m.pop rs = some m' ∧ m'.stack = rest ∧ (∀ d ∈ rs, m'.r d = f d) ∧
      (∀ d ∉ rs, m'.r d = m.r d) ∧ m'.pc = m.pc := by
  induction rs generalizing m with
  | nil => exact ⟨m, rfl, hstack, by simp, by simp, rfl⟩
  | cons d rs ih =>
      obtain ⟨m', hm', hrest, hin, hout, hpc⟩ :=
        ih ({ m with stack := rs.map f ++ rest }.set d (f d)) rfl
      refine ⟨m', ?_, hrest, fun e he => ?_, fun e he => ?_, hpc⟩
      · rw [Cpu.pop, hstack]
        exact hm'
      · by_cases hers : e ∈ rs
        · exact hin e hers
        · obtain rfl : e = d := by simpa [hers] using he
          rw [hout e hers]
          simp [Cpu.set]
      · simp only [List.mem_cons, not_or] at he
        rw [hout e he.2]
        simp [Cpu.set, he.1]

lemma Kept.pop {rs : List Reg} (h : Kept rs op a) :
    ∃ m', a.cpu.pop rs = some m' ∧ Kept [] op { a with cpu := m'.next } ∧
      (∀ d ∉ rs, m'.r d = a.cpu.r d) ∧ m'.pc = a.cpu.pc := by
  obtain ⟨m', hm', hstack, hin, hout, hpc⟩ := Cpu.pop_saved rs a.cpu h.stack
  refine ⟨m', hm', ⟨hstack, fun d hd _ => ?_⟩, hout, hpc⟩
  by_cases hrs : d ∈ rs
  · exact hin d hrs
  · exact (hout d hrs).trans (h.regs d hd hrs)

/-! ## Phases -/

/-- How far a processor is with its operation. -/
inductive Phase
  /-- It has not taken effect. -/
  | before
  /-- Nor has it here, between a load-exclusive and its store-exclusive. -/
  | reserved
  /-- It took effect at the load if the value loaded is not the expected one. -/
  | comparing
  /-- It took effect if the register holds 0. -/
  | stored (status : Reg)
  /-- It took effect if the branch is not taken. -/
  | branching
  /-- It has taken effect. -/
  | done
  deriving DecidableEq

/-- Whether the phase lies between a load-exclusive and its store-exclusive. -/
def Phase.isReserved : Phase → Bool
  | .reserved | .comparing => true
  | _ => false

/-- What the load-exclusive brought: a word in `r0`, or a double word in `r0` and `r1`. -/
def Activation.loaded (a : Activation) : Words := ⟨a.cpu.r .r0, a.cpu.r .r1⟩

/-- The phases of the 32-bit load and store. -/
def access32Phase : ℕ → Phase
  | 0 => .before
  | _ => .done

/-- The phases of `mintCompareExchangeStrong32Relaxed`. -/
def compareExchangeStrong32Phase : ℕ → Phase
  | 0 | 1 | 2 => .before
  | 3 | 4 => .comparing
  | 5 => .reserved
  | 6 => .stored .r3
  | 7 => .branching
  | _ => .done

/-- The phases of `fetch32`. -/
def fetch32Phase : ℕ → Phase
  | 0 | 1 | 2 => .before
  | 3 | 4 => .reserved
  | 5 => .stored .r3
  | 6 => .branching
  | _ => .done

/-- The phases of `mintLoad64Relaxed`. -/
def load64Phase : ℕ → Phase
  | 0 | 1 => .before
  | 2 => .reserved
  | 3 => .stored .r3
  | 4 => .branching
  | _ => .done

/-- The phases of `mintStore64Relaxed`. -/
def store64Phase : ℕ → Phase
  | 0 | 1 | 2 | 3 | 4 => .before
  | 5 => .reserved
  | 6 => .stored .r4
  | 7 => .branching
  | _ => .done

/-- The phases of `mintCompareExchangeStrong64Relaxed`. -/
def compareExchangeStrong64Phase : ℕ → Phase
  | 0 | 1 | 2 | 3 | 4 | 5 => .before
  | 6 | 7 | 8 => .comparing
  | 9 => .reserved
  | 10 => .stored .r3
  | 11 => .branching
  | _ => .done

/-- The phases of `fetch64`. -/
def fetch64Phase : ℕ → Phase
  | 0 | 1 | 2 | 3 => .before
  | 4 | 5 | 6 => .reserved
  | 7 => .stored .r3
  | 8 => .branching
  | _ => .done

namespace MintOp

/-- A comparison whose loaded value is not the expected one. -/
def mismatch (op : MintOp) (a : Activation) : Bool :=
  match op with
  | .w32 (.compareExchangeStrong expected _) => a.loaded.lo ≠ expected
  | .w64 (.compareExchangeStrong expected _) => a.loaded.value ≠ expected
  | _ => false

/-- The phases of a routine, by the position in it. -/
def phase : MintOp → ℕ → Phase
  | .w32 .load => access32Phase
  | .w32 (.store _) => access32Phase
  | .w32 (.compareExchangeStrong _ _) => compareExchangeStrong32Phase
  | .w32 (.fetchAdd _) => fetch32Phase
  | .w32 (.fetchAnd _) => fetch32Phase
  | .w32 (.fetchOr _) => fetch32Phase
  | .w64 .load => load64Phase
  | .w64 (.store _) => store64Phase
  | .w64 (.compareExchangeStrong _ _) => compareExchangeStrong64Phase
  | .w64 (.fetchAdd _) => fetch64Phase
  | .w64 (.fetchAnd _) => fetch64Phase
  | .w64 (.fetchOr _) => fetch64Phase

/-- The answer of an operation in a phase, if it has taken effect. -/
def answerIn (op : MintOp) (a : Activation) : Phase → Option MintAnswer
  | .before | .reserved => none
  | .comparing => if op.mismatch a then some (op.returned a.cpu) else none
  | .stored status => if a.cpu.r status = 0 then some (op.returned a.cpu) else none
  | .branching => if a.cpu.z then some (op.returned a.cpu) else none
  | .done => some (op.returned a.cpu)

/-- The answer of an operation that has taken effect. -/
def answer (op : MintOp) (a : Activation) : Option MintAnswer := op.answerIn a (op.phase a.cpu.pc)

/-- Whether the operation is on a double word. -/
def isDouble : MintOp → Bool
  | .w32 _ => false
  | .w64 _ => true

/-- A processor with the object reserved has in its registers what the object holds. -/
def Reserved (op : MintOp) (a : Activation) (w : Words) : Prop :=
  a.cpu.exclusive = true → w.lo = a.loaded.lo ∧ (op.isDouble = true → w.hi = a.loaded.hi)

end MintOp

/-! ## Assertions -/

section Assertions

variable (object : BitVec 32) (op : MintOp) (a : Activation)

/-- The registers of `mintLoad32Relaxed`. -/
def load32At : Prop :=
  match a.cpu.pc with
  | 0 => Kept [] op a ∧ a.cpu.r .r0 = object
  | 1 => Kept [] op a
  | _ => False

/-- The registers of `mintStore32Relaxed`. -/
def store32At (desired : BitVec 32) : Prop :=
  match a.cpu.pc with
  | 0 => Kept [] op a ∧ a.cpu.r .r0 = object ∧ a.cpu.r .r1 = desired
  | 1 => Kept [] op a
  | _ => False

/-- The registers of `mintCompareExchangeStrong32Relaxed`. -/
def compareExchangeStrong32At (expected desired : BitVec 32) : Prop :=
  match a.cpu.pc with
  | 0 => Kept [] op a ∧ a.cpu.r .r0 = object ∧ a.cpu.r .r1 = expected ∧ a.cpu.r .r2 = desired
  | 1 => Kept [.r4] op a ∧ a.cpu.r .r0 = object ∧ a.cpu.r .r1 = expected ∧ a.cpu.r .r2 = desired
  | 4 => Kept [.r4] op a ∧ a.cpu.r .r4 = object ∧ a.cpu.r .r1 = expected ∧
      a.cpu.r .r2 = desired ∧ a.cpu.z = decide (a.cpu.r .r0 = expected)
  | 5 => Kept [.r4] op a ∧ a.cpu.r .r4 = object ∧ a.cpu.r .r1 = expected ∧
      a.cpu.r .r2 = desired ∧ a.cpu.r .r0 = expected
  | 2 | 3 | 6 | 7 =>
      Kept [.r4] op a ∧ a.cpu.r .r4 = object ∧ a.cpu.r .r1 = expected ∧ a.cpu.r .r2 = desired
  | 8 => Kept [.r4] op a
  | 9 => Kept [] op a
  | _ => False

/-- The registers of `fetch32`, for a routine that makes `f v operand` of a word `v`. -/
def fetch32At (f : BitVec 32 → BitVec 32 → BitVec 32) (operand : BitVec 32) : Prop :=
  match a.cpu.pc with
  | 0 => Kept [] op a ∧ a.cpu.r .r0 = object ∧ a.cpu.r .r1 = operand
  | 1 => Kept [.r4] op a ∧ a.cpu.r .r0 = object ∧ a.cpu.r .r1 = operand
  | 4 => Kept [.r4] op a ∧ a.cpu.r .r4 = object ∧ a.cpu.r .r1 = operand ∧
      a.cpu.r .r2 = f (a.cpu.r .r0) operand
  | 2 | 3 | 5 | 6 => Kept [.r4] op a ∧ a.cpu.r .r4 = object ∧ a.cpu.r .r1 = operand
  | 7 => Kept [.r4] op a
  | 8 => Kept [] op a
  | _ => False

/-- The registers of `mintLoad64Relaxed`. -/
def load64At : Prop :=
  match a.cpu.pc with
  | 0 => Kept [] op a ∧ a.cpu.r .r0 = object
  | 1 | 2 | 3 | 4 => Kept [] op a ∧ a.cpu.r .r2 = object
  | 5 => Kept [] op a
  | _ => False

/-- The registers of `mintStore64Relaxed`. -/
def store64At (desired : Words) : Prop :=
  match a.cpu.pc with
  | 0 => Kept [] op a ∧ a.cpu.r .r0 = object ∧ a.cpu.r .r1 = desired.lo ∧ a.cpu.r .r2 = desired.hi
  | 1 => Kept [.r4, .r5] op a ∧ a.cpu.r .r0 = object ∧ a.cpu.r .r1 = desired.lo ∧
      a.cpu.r .r2 = desired.hi
  | 2 => Kept [.r4, .r5] op a ∧ a.cpu.r .r5 = object ∧ a.cpu.r .r1 = desired.lo ∧
      a.cpu.r .r2 = desired.hi
  | 3 => Kept [.r4, .r5] op a ∧ a.cpu.r .r5 = object ∧ a.cpu.r .r1 = desired.lo ∧
      a.cpu.r .r3 = desired.hi
  | 4 | 5 | 6 | 7 => Kept [.r4, .r5] op a ∧ a.cpu.r .r5 = object ∧ a.cpu.r .r2 = desired.lo ∧
      a.cpu.r .r3 = desired.hi
  | 8 => Kept [.r4, .r5] op a
  | 9 => Kept [] op a
  | _ => False

/-- The registers of the loop of `mintCompareExchangeStrong64Relaxed`. -/
structure Exchanging (expected desired : Words) : Prop where
  kept : Kept calleeSaved op a
  address : a.cpu.r .r5 = object
  expectedLo : a.cpu.r .r4 = expected.lo
  expectedHi : a.cpu.r .r2 = expected.hi
  desiredLo : a.cpu.r .r6 = desired.lo
  desiredHi : a.cpu.r .r7 = desired.hi

/-- The registers of `mintCompareExchangeStrong64Relaxed`. -/
def compareExchangeStrong64At (expected desired : Words) : Prop :=
  match a.cpu.pc with
  | 0 => Kept [] op a ∧ a.cpu.r .r0 = object ∧ a.cpu.r .r1 = expected.lo ∧
      a.cpu.r .r2 = expected.hi ∧ a.cpu.r .r3 = desired.lo
  | 1 => Kept calleeSaved op a ∧ a.cpu.r .r0 = object ∧ a.cpu.r .r1 = expected.lo ∧
      a.cpu.r .r2 = expected.hi ∧ a.cpu.r .r3 = desired.lo
  | 2 => Kept calleeSaved op a ∧ a.cpu.r .r0 = object ∧ a.cpu.r .r1 = expected.lo ∧
      a.cpu.r .r2 = expected.hi ∧ a.cpu.r .r6 = desired.lo
  | 3 => Kept calleeSaved op a ∧ a.cpu.r .r0 = object ∧ a.cpu.r .r1 = expected.lo ∧
      a.cpu.r .r2 = expected.hi ∧ a.cpu.r .r6 = desired.lo ∧ a.cpu.r .r7 = desired.hi
  | 4 => Kept calleeSaved op a ∧ a.cpu.r .r5 = object ∧ a.cpu.r .r1 = expected.lo ∧
      a.cpu.r .r2 = expected.hi ∧ a.cpu.r .r6 = desired.lo ∧ a.cpu.r .r7 = desired.hi
  | 7 => Exchanging object op a expected desired ∧
      a.cpu.z = decide (a.loaded.lo = expected.lo)
  | 8 => Exchanging object op a expected desired ∧ a.cpu.z = decide (a.loaded = expected)
  | 9 => Exchanging object op a expected desired ∧ a.loaded = expected
  | 5 | 6 | 10 | 11 => Exchanging object op a expected desired
  | 12 => Kept calleeSaved op a
  | 13 => Kept [] op a
  | _ => False

/-- The registers of the loop of `fetch64`. -/
structure Fetching (operand : Words) : Prop where
  kept : Kept calleeSaved op a
  address : a.cpu.r .r5 = object
  operandLo : a.cpu.r .r4 = operand.lo
  operandHi : a.cpu.r .r2 = operand.hi

/-- The registers of `fetch64`, for a routine that makes `f v operand` of a double word `v`. -/
def fetch64At (low : DataOp) (f : BitVec 64 → BitVec 64 → BitVec 64) (operand : Words) : Prop :=
  match a.cpu.pc with
  | 0 => Kept [] op a ∧ a.cpu.r .r0 = object ∧ a.cpu.r .r1 = operand.lo ∧
      a.cpu.r .r2 = operand.hi
  | 1 => Kept calleeSaved op a ∧ a.cpu.r .r0 = object ∧ a.cpu.r .r1 = operand.lo ∧
      a.cpu.r .r2 = operand.hi
  | 2 => Kept calleeSaved op a ∧ a.cpu.r .r5 = object ∧ a.cpu.r .r1 = operand.lo ∧
      a.cpu.r .r2 = operand.hi
  | 5 => Fetching object op a operand ∧ ∃ c,
      a.cpu.r .r6 = low.result c a.loaded.lo operand.lo ∧
        a.cpu.c = low.carry c a.loaded.lo operand.lo
  | 6 => Fetching object op a operand ∧
      (Words.mk (a.cpu.r .r6) (a.cpu.r .r7)).value = f a.loaded.value operand.value
  | 3 | 4 | 7 | 8 => Fetching object op a operand
  | 9 => Kept calleeSaved op a
  | 10 => Kept [] op a
  | _ => False

end Assertions

namespace MintOp

/-- What the registers hold at the instruction the processor is at. -/
def At (object : BitVec 32) (op : MintOp) (a : Activation) : Prop :=
  match op with
  | .w32 .load => load32At object op a
  | .w32 (.store x) => store32At object op a x
  | .w32 (.compareExchangeStrong x y) => compareExchangeStrong32At object op a x y
  | .w32 (.fetchAdd x) => fetch32At object op a (· + ·) x
  | .w32 (.fetchAnd x) => fetch32At object op a (· &&& ·) x
  | .w32 (.fetchOr x) => fetch32At object op a (· ||| ·) x
  | .w64 .load => load64At object op a
  | .w64 (.store x) => store64At object op a (.of x)
  | .w64 (.compareExchangeStrong x y) => compareExchangeStrong64At object op a (.of x) (.of y)
  | .w64 (.fetchAdd x) => fetch64At object op a .adds (· + ·) (.of x)
  | .w64 (.fetchAnd x) => fetch64At object op a .and (· &&& ·) (.of x)
  | .w64 (.fetchOr x) => fetch64At object op a .orr (· ||| ·) (.of x)

/-- The assertion on a processor in a routine. -/
structure Holds (object : BitVec 32) (op : MintOp) (a : Activation) (w : Words) : Prop where
  registers : op.At object a
  reserved : (op.phase a.cpu.pc).isReserved = true → op.Reserved a w

/-- The next instruction keeps the outline. -/
def Advances (object : BitVec 32) (op : MintOp) (a : Activation) (w : Words) : Prop :=
  ∃ b stored, (arm object).run op a w = some (b, stored) ∧
    op.Holds object b (stored.getD w) ∧
    Routine.Effect MintOp.apply op w (stored.getD w) (op.answer a) (op.answer b)

/-- The routine of an operation, with its phases and its assertion. -/
structure Follows (object : BitVec 32) (op : MintOp) (code : List Instr) (phase : ℕ → Phase)
    (At : Activation → Prop) : Prop where
  code : op.code = code
  phase : op.phase = phase
  at_iff : ∀ a, op.At object a ↔ At a

variable {code : List Instr} {phase : ℕ → Phase} {At : Activation → Prop} {i : Instr} {m : Cpu}

/-- A step that takes no effect. -/
lemma Follows.silent (h : Follows object op code phase At) (hi : code[a.cpu.pc]? = some i)
    (hexec : i.exec object a.cpu w = some (m, none)) (hat : At { a with cpu := m })
    (hreserved : (phase m.pc).isReserved = true → op.Reserved { a with cpu := m } w)
    (hanswer : op.answerIn { a with cpu := m } (phase m.pc) = op.answerIn a (phase a.cpu.pc)) :
    op.Advances object a w := by
  obtain ⟨rfl, rfl, hat_iff⟩ := h
  refine ⟨{ a with cpu := m }, none, ?_, ⟨(hat_iff _).mpr hat, hreserved⟩, .inl ⟨hanswer, rfl⟩⟩
  simp only [arm, instr, hi, Option.bind_some, hexec, Option.map_some]

/-- A step that takes effect. -/
lemma Follows.effect (h : Follows object op code phase At) {stored : Option Words}
    (hi : code[a.cpu.pc]? = some i) (hexec : i.exec object a.cpu w = some (m, stored))
    (hat : At { a with cpu := m }) (hreserved : (phase m.pc).isReserved = true →
      op.Reserved { a with cpu := m } (stored.getD w))
    (hpending : op.answerIn a (phase a.cpu.pc) = none)
    (hanswer : op.answerIn { a with cpu := m } (phase m.pc) = some (op.apply w).1)
    (hvalue : stored.getD w = (op.apply w).2) : op.Advances object a w := by
  obtain ⟨rfl, rfl, hat_iff⟩ := h
  refine ⟨{ a with cpu := m }, stored, ?_, ⟨(hat_iff _).mpr hat, hreserved⟩,
    .inr ⟨hpending, hanswer, hvalue⟩⟩
  simp only [arm, instr, hi, Option.bind_some, hexec, Option.map_some]

/-- What is returned depends on two registers only. -/
lemma returned_congr {m' : Cpu} (h0 : m'.r .r0 = m.r .r0) (h1 : m'.r .r1 = m.r .r1) :
    op.returned m' = op.returned m := by
  unfold returned
  split <;> simp only [h0, h1]

/-- The test of the status and the branch on it. -/
lemma answerIn_compare (status : Reg) :
    op.answerIn { a with cpu := (a.cpu.compare (a.cpu.r status) 0).next } .branching =
      op.answerIn a (.stored status) := by
  have hreturned : op.returned (a.cpu.compare (a.cpu.r status) 0).next = op.returned a.cpu :=
    returned_congr rfl rfl
  change (if decide (a.cpu.r status = 0) then some (op.returned _) else none) = _
  rw [hreturned]
  simp only [answerIn, decide_eq_true_eq]

/-- The registers given back to the caller, the answer still in place. -/
lemma Follows.pop (h : Follows object op code phase At) {rs : List Reg} (hkept : Kept rs op a)
    (hi : code[a.cpu.pc]? = some (.pop rs)) (hrs : rs ⊆ calleeSaved)
    (hat : ∀ b, b.cpu.pc = a.cpu.pc + 1 → Kept [] op b → At b)
    (hphase : phase a.cpu.pc = .done) (hphase' : phase (a.cpu.pc + 1) = .done) :
    op.Advances object a w := by
  obtain ⟨m, hpop, hkept', hsame, hpc⟩ := hkept.pop
  have hnext : m.next.pc = a.cpu.pc + 1 := congrArg (· + 1) hpc
  have hr0 : m.next.r .r0 = a.cpu.r .r0 := hsame .r0 fun hmem => absurd (hrs hmem) (by decide)
  have hr1 : m.next.r .r1 = a.cpu.r .r1 := hsame .r1 fun hmem => absurd (hrs hmem) (by decide)
  refine h.silent (m := m.next) hi (by rw [Instr.exec, hpop]; rfl) (hat _ hnext hkept') ?_ ?_
  · rw [hnext, hphase']
    exact nofun
  · rw [hnext, hphase', hphase]
    exact congrArg some (returned_congr hr0 hr1)

end MintOp

/-! ## The routines, instruction by instruction -/

section Routines

open MintOp

lemma advances_load32 {op : MintOp}
    (hf : Follows object op mintLoad32Relaxed access32Phase (load32At object op))
    (hreturned : ∀ m, op.returned m = .inl (some (m.r .r0)))
    (happly : ∀ w, op.apply w = (.inl (some w.lo), w)) (h : op.Holds object a w)
    (hne : op.instr a ≠ some .bxLr) : op.Advances object a w := by
  obtain ⟨hat, -⟩ := h
  rw [hf.at_iff] at hat
  obtain ⟨caller, ⟨r, z, c, stack, pc, ex⟩⟩ := a
  match pc, hat with
  | 0, ⟨hkept, h0⟩ =>
      refine hf.effect (i := .ldr .r0 .r0) rfl (if_pos h0) ?_ nofun rfl ?_ ?_
      · exact hkept.update (d := .r0) (by decide) rfl rfl rfl
      · rw [happly]
        exact congrArg some (hreturned _)
      · rw [happly]
        rfl
  | 1, _ => exact absurd (by rw [MintOp.instr, hf.code]; rfl) hne

lemma advances_store32 {op : MintOp} {x : BitVec 32}
    (hf : Follows object op mintStore32Relaxed access32Phase (store32At object op · x))
    (hreturned : ∀ m, op.returned m = .inl none)
    (happly : ∀ w, op.apply w = (.inl none, { w with lo := x })) (h : op.Holds object a w)
    (hne : op.instr a ≠ some .bxLr) : op.Advances object a w := by
  obtain ⟨hat, -⟩ := h
  rw [hf.at_iff] at hat
  obtain ⟨caller, ⟨r, z, c, stack, pc, ex⟩⟩ := a
  match pc, hat with
  | 0, ⟨hkept, h0, h1⟩ =>
      refine hf.effect (i := .str .r1 .r0) rfl (if_pos h0) (hkept.congr rfl rfl rfl) nofun rfl ?_ ?_
      · rw [happly]
        exact congrArg some (hreturned _)
      · rw [happly]
        exact congrArg (Words.mk · w.hi) h1
  | 1, _ => exact absurd (by rw [MintOp.instr, hf.code]; rfl) hne

/-- The three fetching routines on a word. -/
lemma advances_fetch32 (op : MintOp) {dop : DataOp} {f : BitVec 32 → BitVec 32 → BitVec 32}
    {x : BitVec 32}
    (hf : Follows object op (fetch32 dop) fetch32Phase (fetch32At object op · f x))
    (hdouble : op.isDouble = false) (hreturned : ∀ m, op.returned m = .inl (some (m.r .r0)))
    (happly : ∀ w, op.apply w = (.inl (some w.lo), { w with lo := f w.lo x }))
    (hresult : ∀ c v, dop.result c v x = f v x) (h : op.Holds object a w)
    (hne : op.instr a ≠ some .bxLr) : op.Advances object a w := by
  obtain ⟨hat, hres⟩ := h
  rw [hf.at_iff] at hat
  rw [hf.phase] at hres
  obtain ⟨caller, ⟨r, z, c, stack, pc, ex⟩⟩ := a
  match pc, hat, hres with
  | 0, ⟨hkept, h0, h1⟩, _ =>
      exact hf.silent rfl rfl ⟨hkept.push (by decide) rfl rfl rfl, h0, h1⟩ nofun rfl
  | 1, ⟨hkept, h0, h1⟩, _ =>
      exact hf.silent rfl rfl ⟨hkept.update (d := .r4) (by decide) rfl rfl rfl, h0, h1⟩ nofun rfl
  | 2, ⟨hkept, h4, h1⟩, _ =>
      refine hf.silent (i := .ldrex .r0 .r4) rfl (if_pos h4) ?_ ?_ rfl
      · exact ⟨hkept.update (d := .r0) (by decide) rfl rfl rfl, h4, h1⟩
      · exact fun _ _ => ⟨rfl, fun h => by simp [hdouble] at h⟩
  | 3, ⟨hkept, h4, h1⟩, hres =>
      refine hf.silent (i := .data dop .r2 .r0 .r1) rfl rfl ⟨?_, h4, h1, ?_⟩ (fun _ => hres rfl) rfl
      · exact hkept.update (d := .r2) (by decide) rfl rfl rfl
      · change dop.result c (r .r0) (r .r1) = f (r .r0) x
        rw [show r .r1 = x from h1, hresult]
  | 4, ⟨hkept, h4, h1, h2⟩, hres =>
      have hkept' : ∀ v w', Kept [.r4] op
          ⟨caller, ⟨Function.update r .r3 v, z, c, stack, 5, w'⟩⟩ :=
        fun v w' => hkept.update (d := .r3) (by decide) rfl rfl rfl
      cases ex with
      | false =>
          exact hf.silent (i := .strex .r3 .r2 .r4) rfl (if_pos h4) ⟨hkept' 1 _, h4, h1⟩ nofun rfl
      | true =>
          obtain ⟨hlo, -⟩ := hres rfl rfl
          have hlo : w.lo = r .r0 := hlo
          refine hf.effect (i := .strex .r3 .r2 .r4) rfl (if_pos h4) ⟨hkept' 0 _, h4, h1⟩ nofun rfl
            ?_ ?_
          · rw [happly, hlo]
            exact congrArg some (hreturned _)
          · rw [happly, hlo]
            exact congrArg (Words.mk · w.hi) h2
  | 5, ⟨hkept, h4, h1⟩, _ =>
      exact hf.silent rfl rfl ⟨hkept.congr rfl rfl rfl, h4, h1⟩ nofun (answerIn_compare .r3)
  | 6, ⟨hkept, h4, h1⟩, _ =>
      cases z with
      | true => exact hf.silent rfl rfl (hkept.congr rfl rfl rfl) nofun rfl
      | false => exact hf.silent rfl rfl ⟨hkept.congr rfl rfl rfl, h4, h1⟩ nofun rfl
  | 7, hkept, _ =>
      refine hf.pop hkept rfl (by decide) (fun b hpc hkept' => ?_) rfl rfl
      have hpc : b.cpu.pc = 8 := hpc
      rw [fetch32At, hpc]
      exact hkept'
  | 8, _, _ => exact absurd (by rw [MintOp.instr, hf.code]; rfl) hne

lemma advances_compareExchangeStrong32 {x y : BitVec 32}
    (h : (w32 (.compareExchangeStrong x y)).Holds object a w)
    (hne : instr (w32 (.compareExchangeStrong x y)) a ≠ some .bxLr) :
    (w32 (.compareExchangeStrong x y)).Advances object a w := by
  have hf : Follows object (w32 (.compareExchangeStrong x y)) mintCompareExchangeStrong32Relaxed
      compareExchangeStrong32Phase (compareExchangeStrong32At object _ · x y) :=
    ⟨rfl, rfl, fun _ => Iff.rfl⟩
  obtain ⟨hat, hres⟩ := h
  obtain ⟨caller, ⟨r, z, c, stack, pc, ex⟩⟩ := a
  match pc, hat, hres with
  | 0, ⟨hkept, h0, h1, h2⟩, _ =>
      exact hf.silent rfl rfl ⟨hkept.push (by decide) rfl rfl rfl, h0, h1, h2⟩ nofun rfl
  | 1, ⟨hkept, h0, h1, h2⟩, _ =>
      exact hf.silent rfl rfl ⟨hkept.update (d := .r4) (by decide) rfl rfl rfl, h0, h1, h2⟩
        nofun rfl
  | 2, ⟨hkept, h4, h1, h2⟩, _ =>
      have hkept' : Kept [.r4] (w32 (.compareExchangeStrong x y))
          ⟨caller, ⟨Function.update r .r0 w.lo, z, c, stack, 3, true⟩⟩ :=
        hkept.update (d := .r0) (by decide) rfl rfl rfl
      by_cases hx : w.lo = x
      · refine hf.silent (i := .ldrex .r0 .r4) rfl (if_pos h4) ⟨hkept', h4, h1, h2⟩
          (fun _ _ => ⟨rfl, nofun⟩) ?_
        exact if_neg (by simp [mismatch, Activation.loaded, Cpu.next, Cpu.set, hx])
      · -- the value is not the expected one, and never will be for this call
        refine hf.effect (i := .ldrex .r0 .r4) rfl (if_pos h4) ⟨hkept', h4, h1, h2⟩
          (fun _ _ => ⟨rfl, nofun⟩) rfl ?_ ?_
        · exact if_pos (by simp [mismatch, Activation.loaded, Cpu.next, Cpu.set, hx])
        · simp [MintOp.apply, AtomicOp.apply, hx]
  | 3, ⟨hkept, h4, h1, h2⟩, hres =>
      have h1' : r .r1 = x := h1
      refine hf.silent (i := .cmp .r0 .r1) rfl rfl ⟨hkept.congr rfl rfl rfl, h4, h1, h2, ?_⟩
        (fun _ => hres rfl) rfl
      simp [Cpu.next, Cpu.compare, h1']
  | 4, ⟨hkept, h4, h1, h2, hz⟩, hres =>
      have hz' : z = decide (r .r0 = x) := hz
      cases z with
      | true =>
          have hx : r .r0 = x := by simpa using hz'
          refine hf.silent (i := .bne 8) rfl rfl ⟨hkept.congr rfl rfl rfl, h4, h1, h2, hx⟩
            (fun _ => hres rfl) ?_
          exact (if_neg (by simp [mismatch, Activation.loaded, hx])).symm
      | false =>
          have hx : r .r0 ≠ x := by simpa using hz'
          refine hf.silent (i := .bne 8) rfl rfl (hkept.congr rfl rfl rfl) nofun ?_
          exact (if_pos (by simp [mismatch, Activation.loaded, hx])).symm
  | 5, ⟨hkept, h4, h1, h2, hx⟩, hres =>
      have hkept' : ∀ v w', Kept [.r4] (w32 (.compareExchangeStrong x y))
          ⟨caller, ⟨Function.update r .r3 v, z, c, stack, 6, w'⟩⟩ :=
        fun v w' => hkept.update (d := .r3) (by decide) rfl rfl rfl
      cases ex with
      | false =>
          exact hf.silent (i := .strex .r3 .r2 .r4) rfl (if_pos h4) ⟨hkept' 1 _, h4, h1, h2⟩
            nofun rfl
      | true =>
          have hlo : w.lo = r .r0 := (hres rfl rfl).1
          have hx : r .r0 = x := hx
          have h2' : r .r2 = y := h2
          refine hf.effect (i := .strex .r3 .r2 .r4) rfl (if_pos h4) ⟨hkept' 0 _, h4, h1, h2⟩
            nofun rfl ?_ ?_
          · simp [MintOp.apply, AtomicOp.apply, hlo, answerIn, compareExchangeStrong32Phase,
              Cpu.next, Cpu.set, returned]
          · simp [MintOp.apply, AtomicOp.apply, hlo, hx, h2']
  | 6, ⟨hkept, h4, h1, h2⟩, _ =>
      exact hf.silent rfl rfl ⟨hkept.congr rfl rfl rfl, h4, h1, h2⟩ nofun (answerIn_compare .r3)
  | 7, ⟨hkept, h4, h1, h2⟩, _ =>
      cases z with
      | true => exact hf.silent rfl rfl (hkept.congr rfl rfl rfl) nofun rfl
      | false => exact hf.silent rfl rfl ⟨hkept.congr rfl rfl rfl, h4, h1, h2⟩ nofun rfl
  | 8, hkept, _ =>
      refine hf.pop hkept rfl (by decide) (fun b hpc hkept' => ?_) rfl rfl
      have hpc : b.cpu.pc = 9 := hpc
      rw [compareExchangeStrong32At, hpc]
      exact hkept'
  | 9, _, _ => exact absurd rfl hne

lemma advances_load64 (h : (w64 .load).Holds object a w) (hne : instr (w64 .load) a ≠ some .bxLr) :
    (w64 .load).Advances object a w := by
  have hf : Follows object (w64 .load) mintLoad64Relaxed load64Phase (load64At object _) :=
    ⟨rfl, rfl, fun _ => Iff.rfl⟩
  obtain ⟨hat, hres⟩ := h
  obtain ⟨caller, ⟨r, z, c, stack, pc, ex⟩⟩ := a
  match pc, hat, hres with
  | 0, ⟨hkept, h0⟩, _ =>
      exact hf.silent rfl rfl ⟨hkept.update (d := .r2) (by decide) rfl rfl rfl, h0⟩ nofun rfl
  | 1, ⟨hkept, h2⟩, _ =>
      refine hf.silent (i := .ldrexd .r0 .r1 .r2) rfl (if_pos h2) ⟨?_, h2⟩
        (fun _ _ => ⟨rfl, fun _ => rfl⟩) rfl
      have hkept' := hkept.update (b := ⟨caller, ⟨Function.update r .r0 w.lo, z, c, stack, 1, ex⟩⟩)
        (d := .r0) (by decide) rfl rfl rfl
      exact hkept'.update (d := .r1) (by decide) rfl rfl rfl
  | 2, ⟨hkept, h2⟩, hres =>
      have hkept' : ∀ v w', Kept [] (w64 .load)
          ⟨caller, ⟨Function.update r .r3 v, z, c, stack, 3, w'⟩⟩ :=
        fun v w' => hkept.update (d := .r3) (by decide) rfl rfl rfl
      cases ex with
      | false =>
          exact hf.silent (i := .strexd .r3 .r0 .r1 .r2) rfl (if_pos h2) ⟨hkept' 1 _, h2⟩ nofun rfl
      | true =>
          -- it stores the very value it loaded
          have hlo : w.lo = r .r0 := (hres rfl rfl).1
          have hhi : w.hi = r .r1 := (hres rfl rfl).2 rfl
          have hw : (⟨r .r0, r .r1⟩ : Words) = w := Words.ext hlo.symm hhi.symm
          refine hf.effect (i := .strexd .r3 .r0 .r1 .r2) rfl (if_pos h2) ⟨hkept' 0 _, h2⟩ nofun rfl
            ?_ ?_
          · simp [MintOp.apply, AtomicOp.apply, answerIn, load64Phase, Cpu.next, Cpu.set, returned,
              Words.value, hlo, hhi]
          · simp [MintOp.apply, AtomicOp.apply, hw]
  | 3, ⟨hkept, h2⟩, _ =>
      exact hf.silent rfl rfl ⟨hkept.congr rfl rfl rfl, h2⟩ (fun h => absurd h Bool.false_ne_true)
        (answerIn_compare .r3)
  | 4, ⟨hkept, h2⟩, _ =>
      cases z with
      | true =>
          exact hf.silent rfl rfl (hkept.congr rfl rfl rfl) (fun h => absurd h Bool.false_ne_true)
            rfl
      | false =>
          exact hf.silent rfl rfl ⟨hkept.congr rfl rfl rfl, h2⟩
            (fun h => absurd h Bool.false_ne_true) rfl
  | 5, _, _ => exact absurd rfl hne

lemma advances_store64 {x : BitVec 64} (h : (w64 (.store x)).Holds object a w)
    (hne : instr (w64 (.store x)) a ≠ some .bxLr) : (w64 (.store x)).Advances object a w := by
  have hf : Follows object (w64 (.store x)) mintStore64Relaxed store64Phase
      (store64At object _ · (.of x)) := ⟨rfl, rfl, fun _ => Iff.rfl⟩
  obtain ⟨hat, -⟩ := h
  obtain ⟨caller, ⟨r, z, c, stack, pc, ex⟩⟩ := a
  match pc, hat with
  | 0, ⟨hkept, h0, h1, h2⟩ =>
      exact hf.silent rfl rfl ⟨hkept.push (by decide) rfl rfl rfl, h0, h1, h2⟩ nofun rfl
  | 1, ⟨hkept, h0, h1, h2⟩ =>
      exact hf.silent rfl rfl ⟨hkept.update (d := .r5) (by decide) rfl rfl rfl, h0, h1, h2⟩
        nofun rfl
  | 2, ⟨hkept, h5, h1, h2⟩ =>
      exact hf.silent rfl rfl ⟨hkept.update (d := .r3) (by decide) rfl rfl rfl, h5, h1, h2⟩
        nofun rfl
  | 3, ⟨hkept, h5, h1, h3⟩ =>
      exact hf.silent rfl rfl ⟨hkept.update (d := .r2) (by decide) rfl rfl rfl, h5, h1, h3⟩
        nofun rfl
  | 4, ⟨hkept, h5, h2, h3⟩ =>
      refine hf.silent (i := .ldrexd .r0 .r1 .r5) rfl (if_pos h5) ⟨?_, h5, h2, h3⟩
        (fun _ _ => ⟨rfl, fun _ => rfl⟩) rfl
      have hkept' := hkept.update (b := ⟨caller, ⟨Function.update r .r0 w.lo, z, c, stack, 4, ex⟩⟩)
        (d := .r0) (by decide) rfl rfl rfl
      exact hkept'.update (d := .r1) (by decide) rfl rfl rfl
  | 5, ⟨hkept, h5, h2, h3⟩ =>
      have hkept' : ∀ v w', Kept [.r4, .r5] (w64 (.store x))
          ⟨caller, ⟨Function.update r .r4 v, z, c, stack, 6, w'⟩⟩ :=
        fun v w' => hkept.update (d := .r4) (by decide) rfl rfl rfl
      cases ex with
      | false =>
          exact hf.silent (i := .strexd .r4 .r2 .r3 .r5) rfl (if_pos h5) ⟨hkept' 1 _, h5, h2, h3⟩
            nofun rfl
      | true =>
          have h2' : r .r2 = (Words.of x).lo := h2
          have h3' : r .r3 = (Words.of x).hi := h3
          refine hf.effect (i := .strexd .r4 .r2 .r3 .r5) rfl (if_pos h5) ⟨hkept' 0 _, h5, h2, h3⟩
            nofun rfl rfl ?_
          simp [MintOp.apply, AtomicOp.apply, h2', h3']
  | 6, ⟨hkept, h5, h2, h3⟩ =>
      exact hf.silent rfl rfl ⟨hkept.congr rfl rfl rfl, h5, h2, h3⟩ nofun (answerIn_compare .r4)
  | 7, ⟨hkept, h5, h2, h3⟩ =>
      cases z with
      | true => exact hf.silent rfl rfl (hkept.congr rfl rfl rfl) nofun rfl
      | false => exact hf.silent rfl rfl ⟨hkept.congr rfl rfl rfl, h5, h2, h3⟩ nofun rfl
  | 8, hkept =>
      refine hf.pop hkept rfl (by decide) (fun b hpc hkept' => ?_) rfl rfl
      have hpc : b.cpu.pc = 9 := hpc
      rw [store64At, hpc]
      exact hkept'
  | 9, _ => exact absurd rfl hne

/-- The loop of the 64-bit exchange changes no register it relies on. -/
lemma Exchanging.update {op : MintOp} {x y : Words} (h : Exchanging object op a x y) {d : Reg}
    {v : BitVec 32} (hd : d ∈ [Reg.r0, .r1, .r3]) (hcaller : b.caller = a.caller)
    (hr : b.cpu.r = Function.update a.cpu.r d v) (hstack : b.cpu.stack = a.cpu.stack) :
    Exchanging object op b x y := by
  have hne : ∀ e ∈ [Reg.r2, .r4, .r5, .r6, .r7], b.cpu.r e = a.cpu.r e := by
    intro e he
    rw [hr, Function.update_of_ne]
    rintro rfl
    revert he hd
    cases e <;> decide
  refine ⟨h.kept.update (d := d) (fun hmem => ?_) hcaller hr hstack, ?_, ?_, ?_, ?_, ?_⟩
  · exact hmem
  · rw [hne .r5 (by decide), h.address]
  · rw [hne .r4 (by decide), h.expectedLo]
  · rw [hne .r2 (by decide), h.expectedHi]
  · rw [hne .r6 (by decide), h.desiredLo]
  · rw [hne .r7 (by decide), h.desiredHi]

lemma Exchanging.congr {op : MintOp} {x y : Words} (h : Exchanging object op a x y)
    (hcaller : b.caller = a.caller) (hr : b.cpu.r = a.cpu.r)
    (hstack : b.cpu.stack = a.cpu.stack) : Exchanging object op b x y :=
  h.update (d := .r0) (v := a.cpu.r .r0) (by decide) hcaller
    (by rw [hr, Function.update_eq_self]) hstack

lemma Fetching.update {op : MintOp} {x : Words} (h : Fetching object op a x) {d : Reg}
    {v : BitVec 32} (hd : d ∈ [Reg.r0, .r1, .r3, .r6, .r7]) (hcaller : b.caller = a.caller)
    (hr : b.cpu.r = Function.update a.cpu.r d v) (hstack : b.cpu.stack = a.cpu.stack) :
    Fetching object op b x := by
  have hne : ∀ e ∈ [Reg.r2, .r4, .r5], b.cpu.r e = a.cpu.r e := by
    intro e he
    rw [hr, Function.update_of_ne]
    rintro rfl
    revert he hd
    cases e <;> decide
  refine ⟨h.kept.update (d := d) (fun hmem => ?_) hcaller hr hstack, ?_, ?_, ?_⟩
  · exact hmem
  · rw [hne .r5 (by decide), h.address]
  · rw [hne .r4 (by decide), h.operandLo]
  · rw [hne .r2 (by decide), h.operandHi]

lemma Fetching.congr {op : MintOp} {x : Words} (h : Fetching object op a x)
    (hcaller : b.caller = a.caller) (hr : b.cpu.r = a.cpu.r)
    (hstack : b.cpu.stack = a.cpu.stack) : Fetching object op b x :=
  h.update (d := .r0) (v := a.cpu.r .r0) (by decide) hcaller
    (by rw [hr, Function.update_eq_self]) hstack

lemma mismatch_eq_false_iff {x y : BitVec 64} :
    mismatch (w64 (.compareExchangeStrong x y)) a = false ↔ a.loaded = .of x := by
  rw [mismatch, decide_eq_false_iff_not, not_not]
  constructor
  · rintro rfl
    exact (Words.of_value _).symm
  · intro h
    rw [h, Words.value_of]

lemma advances_compareExchangeStrong64 {x y : BitVec 64}
    (h : (w64 (.compareExchangeStrong x y)).Holds object a w)
    (hne : instr (w64 (.compareExchangeStrong x y)) a ≠ some .bxLr) :
    (w64 (.compareExchangeStrong x y)).Advances object a w := by
  have hf : Follows object (w64 (.compareExchangeStrong x y)) mintCompareExchangeStrong64Relaxed
      compareExchangeStrong64Phase (compareExchangeStrong64At object _ · (.of x) (.of y)) :=
    ⟨rfl, rfl, fun _ => Iff.rfl⟩
  obtain ⟨hat, hres⟩ := h
  obtain ⟨caller, ⟨r, z, c, stack, pc, ex⟩⟩ := a
  match pc, hat, hres with
  | 0, ⟨hkept, h0, h1, h2, h3⟩, _ =>
      exact hf.silent rfl rfl ⟨hkept.push (by decide) rfl rfl rfl, h0, h1, h2, h3⟩ nofun rfl
  | 1, ⟨hkept, h0, h1, h2, h3⟩, _ =>
      exact hf.silent rfl rfl ⟨hkept.update (d := .r6) (by decide) rfl rfl rfl, h0, h1, h2, h3⟩
        nofun rfl
  | 2, ⟨hkept, h0, h1, h2, h6⟩, _ =>
      -- above the four registers pushed lies the last word of the arguments
      have hstack : stack[4]? = some (Words.of y).hi := by
        rw [show stack = _ from hkept.stack]
        rfl
      have hexec : (Instr.ldrSp .r7 4).exec object ⟨r, z, c, stack, 2, ex⟩ w =
          some (⟨Function.update r .r7 (Words.of y).hi, z, c, stack, 3, ex⟩, none) := by
        rw [Instr.exec, hstack]
        rfl
      exact hf.silent rfl hexec
        ⟨hkept.update (d := .r7) (by decide) rfl rfl rfl, h0, h1, h2, h6, rfl⟩ nofun rfl
  | 3, ⟨hkept, h0, h1, h2, h6, h7⟩, _ =>
      exact hf.silent rfl rfl
        ⟨hkept.update (d := .r5) (by decide) rfl rfl rfl, h0, h1, h2, h6, h7⟩ nofun rfl
  | 4, ⟨hkept, h5, h1, h2, h6, h7⟩, _ =>
      exact hf.silent rfl rfl
        ⟨hkept.update (d := .r4) (by decide) rfl rfl rfl, h5, h1, h2, h6, h7⟩ nofun rfl
  | 5, hloop, _ =>
      have hlo := hloop.update (b := ⟨caller, ⟨Function.update r .r0 w.lo, z, c, stack, 5, ex⟩⟩)
        (d := .r0) (by decide) rfl rfl rfl
      have hloop' : Exchanging object (w64 (.compareExchangeStrong x y))
          ⟨caller, ⟨Function.update (Function.update r .r0 w.lo) .r1 w.hi, z, c, stack, 6, true⟩⟩
          (.of x) (.of y) :=
        hlo.update (d := .r1) (by decide) rfl rfl rfl
      have hmismatch : mismatch (w64 (.compareExchangeStrong x y)) ⟨caller, ⟨Function.update
          (Function.update r .r0 w.lo) .r1 w.hi, z, c, stack, 6, true⟩⟩ = false ↔ w = .of x :=
        mismatch_eq_false_iff
      by_cases hx : w = .of x
      · refine hf.silent (i := .ldrexd .r0 .r1 .r5) rfl (if_pos hloop.address) hloop'
          (fun _ _ => ⟨rfl, fun _ => rfl⟩) ?_
        exact if_neg (Bool.eq_false_iff.mp (hmismatch.mpr hx))
      · -- the value is not the expected one, and never will be for this call
        have hvalue : w.value ≠ x := fun h => hx (by rw [← h, Words.of_value])
        refine hf.effect (i := .ldrexd .r0 .r1 .r5) rfl (if_pos hloop.address) hloop'
          (fun _ _ => ⟨rfl, fun _ => rfl⟩) rfl ?_ ?_
        · exact if_pos (Bool.ne_false_iff.mp fun h => hx (hmismatch.mp h))
        · simp [MintOp.apply, AtomicOp.apply, hvalue]
  | 6, hloop, hres =>
      have h4 : r .r4 = (Words.of x).lo := hloop.expectedLo
      refine hf.silent (i := .cmp .r0 .r4) rfl rfl ⟨hloop.congr rfl rfl rfl, ?_⟩
        (fun _ => hres rfl) rfl
      simp [Cpu.next, Cpu.compare, Activation.loaded, h4]
  | 7, ⟨hloop, hz⟩, hres =>
      have h2 : r .r2 = (Words.of x).hi := hloop.expectedHi
      cases z with
      | true =>
          have hlo : r .r0 = (Words.of x).lo := of_decide_eq_true hz.symm
          refine hf.silent (i := .cmpeq .r1 .r2) rfl rfl ⟨hloop.congr rfl rfl rfl, ?_⟩
            (fun _ => hres rfl) rfl
          simp [Cpu.next, Cpu.compare, Activation.loaded, h2, hlo, Words.ext_iff]
      | false =>
          have hlo : r .r0 ≠ (Words.of x).lo := of_decide_eq_false hz.symm
          refine hf.silent (i := .cmpeq .r1 .r2) rfl rfl ⟨hloop.congr rfl rfl rfl, ?_⟩
            (fun _ => hres rfl) rfl
          simp [Cpu.next, Activation.loaded, hlo, Words.ext_iff]
  | 8, ⟨hloop, hz⟩, hres =>
      cases z with
      | true =>
          have hx := of_decide_eq_true hz.symm
          refine hf.silent (i := .bne 12) rfl rfl ⟨hloop.congr rfl rfl rfl, hx⟩
            (fun _ => hres rfl) ?_
          exact (if_neg (Bool.eq_false_iff.mp (mismatch_eq_false_iff.mpr hx))).symm
      | false =>
          have hx := of_decide_eq_false hz.symm
          refine hf.silent (i := .bne 12) rfl rfl (hloop.kept.congr rfl rfl rfl) nofun ?_
          exact (if_pos (Bool.ne_false_iff.mp fun h => hx (mismatch_eq_false_iff.mp h))).symm
  | 9, ⟨hloop, hx⟩, hres =>
      have hloop' : ∀ v w', Exchanging object (w64 (.compareExchangeStrong x y))
          ⟨caller, ⟨Function.update r .r3 v, z, c, stack, 10, w'⟩⟩ (.of x) (.of y) :=
        fun v w' => hloop.update (d := .r3) (by decide) rfl rfl rfl
      cases ex with
      | false =>
          exact hf.silent (i := .strexd .r3 .r6 .r7 .r5) rfl (if_pos hloop.address)
            (hloop' 1 _) nofun rfl
      | true =>
          have hw : w = .of x := by
            obtain ⟨hlo, hhi⟩ := hres rfl rfl
            rw [← hx]
            exact Words.ext hlo (hhi rfl)
          have hloaded : r .r1 ++ r .r0 = x := by
            rw [← Words.value_of x, ← hx]
            rfl
          have h6 : r .r6 = (Words.of y).lo := hloop.desiredLo
          have h7 : r .r7 = (Words.of y).hi := hloop.desiredHi
          refine hf.effect (i := .strexd .r3 .r6 .r7 .r5) rfl (if_pos hloop.address)
            (hloop' 0 _) nofun rfl ?_ ?_
          · simp [MintOp.apply, AtomicOp.apply, answerIn, compareExchangeStrong64Phase, Cpu.next,
              Cpu.set, returned, hw, hloaded]
          · simp [MintOp.apply, AtomicOp.apply, hw, h6, h7]
  | 10, hloop, _ =>
      exact hf.silent rfl rfl (hloop.congr rfl rfl rfl) nofun (answerIn_compare .r3)
  | 11, hloop, _ =>
      cases z with
      | true => exact hf.silent rfl rfl (hloop.kept.congr rfl rfl rfl) nofun rfl
      | false => exact hf.silent rfl rfl (hloop.congr rfl rfl rfl) nofun rfl
  | 12, hkept, _ =>
      refine hf.pop hkept rfl (by decide) (fun b hpc hkept' => ?_) rfl rfl
      have hpc : b.cpu.pc = 13 := hpc
      rw [compareExchangeStrong64At, hpc]
      exact hkept'
  | 13, _, _ => exact absurd rfl hne

/-- What `low` makes of the low halves and `high`, with its carry, of the high halves, is `f`. -/
def Halves (low high : DataOp) (f : BitVec 64 → BitVec 64 → BitVec 64) : Prop :=
  ∀ c (v x : Words), (Words.mk (low.result c v.lo x.lo)
    (high.result (low.carry c v.lo x.lo) v.hi x.hi)).value = f v.value x.value

/-- `adds` and `adc` add double words. -/
lemma halves_add : Halves .adds .adc (· + ·) := by
  intro c v x
  apply BitVec.eq_of_toNat_eq
  have hv := v.lo.isLt
  have hx := x.lo.isLt
  simp only [DataOp.result, DataOp.carry, BitVec.toNat_add, Words.toNat_value, decide_eq_true_eq]
  by_cases hc : 2 ^ 32 ≤ v.lo.toNat + x.lo.toNat
  · rw [if_pos hc]
    have hone : (1 : BitVec 32).toNat = 1 := rfl
    omega
  · rw [if_neg hc]
    have hzero : (0 : BitVec 32).toNat = 0 := rfl
    omega

lemma halves_and : Halves .and .and (· &&& ·) := fun _ _ _ => BitVec.and_append.symm

lemma halves_orr : Halves .orr .orr (· ||| ·) := fun _ _ _ => BitVec.or_append.symm

/-- The three fetching routines on a double word. -/
lemma advances_fetch64 (op : MintOp) {low high : DataOp} {f : BitVec 64 → BitVec 64 → BitVec 64}
    {x : BitVec 64} (hf : Follows object op (fetch64 low high) fetch64Phase
      (fetch64At object op · low f (.of x)))
    (hreturned : ∀ m, op.returned m = .inr (some (m.r .r1 ++ m.r .r0)))
    (happly : ∀ w, op.apply w = (.inr (some w.value), .of (f w.value x)))
    (hdouble : op.isDouble = true) (hhalves : Halves low high f) (h : op.Holds object a w)
    (hne : op.instr a ≠ some .bxLr) : op.Advances object a w := by
  obtain ⟨hat, hres⟩ := h
  rw [hf.at_iff] at hat
  rw [hf.phase] at hres
  obtain ⟨caller, ⟨r, z, c, stack, pc, ex⟩⟩ := a
  match pc, hat, hres with
  | 0, ⟨hkept, h0, h1, h2⟩, _ =>
      exact hf.silent rfl rfl ⟨hkept.push (by decide) rfl rfl rfl, h0, h1, h2⟩ nofun rfl
  | 1, ⟨hkept, h0, h1, h2⟩, _ =>
      exact hf.silent rfl rfl ⟨hkept.update (d := .r5) (by decide) rfl rfl rfl, h0, h1, h2⟩
        nofun rfl
  | 2, ⟨hkept, h5, h1, h2⟩, _ =>
      exact hf.silent rfl rfl ⟨hkept.update (d := .r4) (by decide) rfl rfl rfl, h5, h1, h2⟩
        nofun rfl
  | 3, hloop, _ =>
      have hlo := hloop.update (b := ⟨caller, ⟨Function.update r .r0 w.lo, z, c, stack, 3, ex⟩⟩)
        (d := .r0) (by decide) rfl rfl rfl
      exact hf.silent (i := .ldrexd .r0 .r1 .r5) rfl (if_pos hloop.address)
        (hlo.update (d := .r1) (by decide) rfl rfl rfl) (fun _ _ => ⟨rfl, fun _ => rfl⟩) rfl
  | 4, hloop, hres =>
      have h4 : r .r4 = (Words.of x).lo := hloop.operandLo
      refine hf.silent (i := .data low .r6 .r0 .r4) rfl rfl
        ⟨hloop.update (d := .r6) (by decide) rfl rfl rfl, c, ?_, ?_⟩ (fun _ => hres rfl) rfl
      · exact congrArg (low.result c (r .r0)) h4
      · exact congrArg (low.carry c (r .r0)) h4
  | 5, ⟨hloop, c₀, h6, hc⟩, hres =>
      have h2 : r .r2 = (Words.of x).hi := hloop.operandHi
      refine hf.silent (i := .data high .r7 .r1 .r2) rfl rfl
        ⟨hloop.update (d := .r7) (by decide) rfl rfl rfl, ?_⟩ (fun _ => hres rfl) rfl
      change (Words.mk (r .r6) (high.result c (r .r1) (r .r2))).value = _
      rw [show r .r6 = _ from h6, show c = _ from hc, h2]
      exact hhalves c₀ ⟨r .r0, r .r1⟩ (.of x)
  | 6, ⟨hloop, hvalue⟩, hres =>
      have hloop' : ∀ v w', Fetching object op
          ⟨caller, ⟨Function.update r .r3 v, z, c, stack, 7, w'⟩⟩ (.of x) :=
        fun v w' => hloop.update (d := .r3) (by decide) rfl rfl rfl
      cases ex with
      | false =>
          exact hf.silent (i := .strexd .r3 .r6 .r7 .r5) rfl (if_pos hloop.address)
            (hloop' 1 _) nofun rfl
      | true =>
          obtain ⟨hlo, hhi⟩ := hres rfl rfl
          have hw : w = ⟨r .r0, r .r1⟩ := Words.ext hlo (hhi hdouble)
          refine hf.effect (i := .strexd .r3 .r6 .r7 .r5) rfl (if_pos hloop.address)
            (hloop' 0 _) nofun rfl ?_ ?_
          · rw [happly, hw]
            exact congrArg some (hreturned _)
          · rw [happly, hw, ← Words.of_value (Words.mk (r .r6) (r .r7)), ← Words.value_of x]
            exact congrArg Words.of hvalue
  | 7, hloop, _ =>
      exact hf.silent rfl rfl (hloop.congr rfl rfl rfl) nofun (answerIn_compare .r3)
  | 8, hloop, _ =>
      cases z with
      | true => exact hf.silent rfl rfl (hloop.kept.congr rfl rfl rfl) nofun rfl
      | false => exact hf.silent rfl rfl (hloop.congr rfl rfl rfl) nofun rfl
  | 9, hkept, _ =>
      refine hf.pop hkept rfl (by decide) (fun b hpc hkept' => ?_) rfl rfl
      have hpc : b.cpu.pc = 10 := hpc
      rw [fetch64At, hpc]
      exact hkept'
  | 10, _, _ => exact absurd (by rw [MintOp.instr, hf.code]; rfl) hne

/-- Every instruction but the return keeps the outline. -/
theorem MintOp.Holds.advances (h : op.Holds object a w) (hne : op.instr a ≠ some .bxLr) :
    op.Advances object a w := by
  cases op with
  | w32 op =>
      cases op with
      | load =>
          exact advances_load32 ⟨rfl, rfl, fun _ => Iff.rfl⟩ (fun _ => rfl) (fun _ => rfl) h hne
      | store x =>
          exact advances_store32 ⟨rfl, rfl, fun _ => Iff.rfl⟩ (fun _ => rfl) (fun _ => rfl) h hne
      | compareExchangeStrong x y => exact advances_compareExchangeStrong32 h hne
      | fetchAdd x =>
          exact advances_fetch32 (w32 (.fetchAdd x)) ⟨rfl, rfl, fun _ => Iff.rfl⟩ rfl
            (fun _ => rfl) (fun _ => rfl) (fun _ _ => rfl) h hne
      | fetchAnd x =>
          exact advances_fetch32 (w32 (.fetchAnd x)) ⟨rfl, rfl, fun _ => Iff.rfl⟩ rfl
            (fun _ => rfl) (fun _ => rfl) (fun _ _ => rfl) h hne
      | fetchOr x =>
          exact advances_fetch32 (w32 (.fetchOr x)) ⟨rfl, rfl, fun _ => Iff.rfl⟩ rfl
            (fun _ => rfl) (fun _ => rfl) (fun _ _ => rfl) h hne
  | w64 op =>
      cases op with
      | load => exact advances_load64 h hne
      | store x => exact advances_store64 h hne
      | compareExchangeStrong x y => exact advances_compareExchangeStrong64 h hne
      | fetchAdd x =>
          exact advances_fetch64 (w64 (.fetchAdd x)) ⟨rfl, rfl, fun _ => Iff.rfl⟩
            (fun _ => rfl) (fun _ => rfl) rfl halves_add h hne
      | fetchAnd x =>
          exact advances_fetch64 (w64 (.fetchAnd x)) ⟨rfl, rfl, fun _ => Iff.rfl⟩
            (fun _ => rfl) (fun _ => rfl) rfl halves_and h hne
      | fetchOr x =>
          exact advances_fetch64 (w64 (.fetchOr x)) ⟨rfl, rfl, fun _ => Iff.rfl⟩
            (fun _ => rfl) (fun _ => rfl) rfl halves_orr h hne

end Routines

/-! ## Calls and returns -/

namespace MintOp

lemma holds_enter (op : MintOp) (caller : Cpu) (w : Words) :
    op.Holds object (op.enter object caller) w := by
  refine ⟨?_, ?_⟩
  · have hkept : Kept [] op (op.enter object caller) := kept_enter op caller
    cases op with
    | w32 op => cases op with
      | load => exact ⟨hkept, rfl⟩
      | store x => exact ⟨hkept, rfl, rfl⟩
      | compareExchangeStrong x y => exact ⟨hkept, rfl, rfl, rfl⟩
      | fetchAdd x => exact ⟨hkept, rfl, rfl⟩
      | fetchAnd x => exact ⟨hkept, rfl, rfl⟩
      | fetchOr x => exact ⟨hkept, rfl, rfl⟩
    | w64 op => cases op with
      | load => exact ⟨hkept, rfl⟩
      | store x => exact ⟨hkept, rfl, rfl, rfl⟩
      | compareExchangeStrong x y => exact ⟨hkept, rfl, rfl, rfl, rfl⟩
      | fetchAdd x => exact ⟨hkept, rfl, rfl, rfl⟩
      | fetchAnd x => exact ⟨hkept, rfl, rfl, rfl⟩
      | fetchOr x => exact ⟨hkept, rfl, rfl, rfl⟩
  · cases op with
    | w32 op => cases op <;> exact nofun
    | w64 op => cases op <;> exact nofun

/-- The return is the last instruction of a routine, and comes when the operation is done. -/
lemma at_return (h : op.instr a = some .bxLr) :
    a.cpu.pc + 1 = op.code.length ∧ op.phase a.cpu.pc = .done := by
  have hlt : a.cpu.pc < op.code.length := (List.getElem?_eq_some_iff.mp h).1
  have hall : ∀ pc < op.code.length, op.code[pc]? = some .bxLr →
      pc + 1 = op.code.length ∧ op.phase pc = .done := by
    cases op with
    | w32 op => cases op <;> simp only [code, phase] <;> decide
    | w64 op => cases op <;> simp only [code, phase] <;> decide
  exact hall a.cpu.pc hlt h

/-- At the return the caller has its registers back. -/
lemma Holds.kept (h : op.Holds object a w) (hret : op.instr a = some .bxLr) : Kept [] op a := by
  obtain ⟨hat, -⟩ := h
  obtain ⟨hlast, -⟩ := at_return hret
  obtain ⟨caller, ⟨r, z, c, stack, pc, ex⟩⟩ := a
  cases op with
  | w32 op =>
      cases op <;> obtain rfl := Nat.succ.inj hlast <;> exact hat
  | w64 op =>
      cases op <;> obtain rfl := Nat.succ.inj hlast <;> exact hat

end MintOp

/-! ## The outline -/

lemma kept_disturbed {rs : List Reg} : Kept rs op a.disturbed ↔ Kept rs op a :=
  ⟨fun h => h.congr rfl rfl rfl, fun h => h.congr rfl rfl rfl⟩

lemma exchanging_disturbed {x y : Words} :
    Exchanging object op a.disturbed x y ↔ Exchanging object op a x y :=
  ⟨fun h => h.congr rfl rfl rfl, fun h => h.congr rfl rfl rfl⟩

lemma fetching_disturbed {x : Words} :
    Fetching object op a.disturbed x ↔ Fetching object op a x :=
  ⟨fun h => h.congr rfl rfl rfl, fun h => h.congr rfl rfl rfl⟩

/-- No assertion on the registers speaks of the reservation. -/
lemma MintOp.at_disturbed : op.At object a.disturbed ↔ op.At object a := by
  cases op with
  | w32 op =>
      cases op <;> simp only [At, load32At, store32At, compareExchangeStrong32At, fetch32At,
        kept_disturbed] <;> rfl
  | w64 op =>
      cases op <;> simp only [At, load64At, store64At, compareExchangeStrong64At, fetch64At,
        kept_disturbed, exchanging_disturbed, fetching_disturbed] <;> rfl

lemma MintOp.answerIn_disturbed (phase : Phase) :
    op.answerIn a.disturbed phase = op.answerIn a phase := by
  have hreturned : op.returned a.disturbed.cpu = op.returned a.cpu := returned_congr rfl rfl
  cases phase <;> simp only [answerIn, hreturned] <;> rfl

/-- The outline of all the routines. -/
def armOutline (object : BitVec 32) : (arm object).Outline MintOp.apply where
  holds op a w := op.Holds object a w
  answer op a := op.answer a
  enter op caller w := by
    refine ⟨op.holds_enter caller w, ?_⟩
    cases op with
    | w32 op => cases op <;> rfl
    | w64 op => cases op <;> rfl
  disturbed op a w w' h := by
    refine ⟨⟨MintOp.at_disturbed.mpr h.registers, fun _ => nofun⟩, ?_⟩
    exact MintOp.answerIn_disturbed _
  run op a w h hleave := by
    refine h.advances fun hret => ?_
    simp [arm, hret] at hleave
  leave op a w r h hleave := by
    by_cases hret : op.instr a = some .bxLr
    · obtain rfl : op.returned a.cpu = r := by simpa [arm, hret] using hleave
      refine ⟨?_, by simp [arm, hret, Instr.exec]⟩
      change op.answerIn a (op.phase a.cpu.pc) = _
      rw [(MintOp.at_return hret).2]
      rfl
    · simp [arm, hret] at hleave

section Results

variable {Pid : Type*} [DecidableEq Pid]

/-- **The ARM routines are linearizable.**  However many processors run them on one object,
interleaved instruction by instruction and with reservations lost at any time, every operation
takes effect at one instant between its call and its return.  No processor is ever stuck, and a
routine returns with the registers and the stack its caller expects. -/
theorem arm_linearizable (object : BitVec 32) :
    Linearizable ((arm object).machine Pid) ProcessState.value (arm object).history
        MintOp.apply ∧
      ∀ s, ((arm object).machine Pid).Reachable s → ∀ p op a, s.process p = some (op, a) →
        (∃ s', ((arm object).machine Pid).step s (.run p) = some s' ∨
          ((arm object).machine Pid).step s (.ret p) = some s') ∧
        (((arm object).leave op a).isSome →
          (∀ d ∈ calleeSaved, a.cpu.r d = a.caller.r d) ∧
            a.cpu.stack = op.entryStack a.caller) := by
  refine ⟨(armOutline object).linearizable, fun s hs p op a hp => ⟨?_, fun hleave => ?_⟩⟩
  · exact (armOutline object).exists_step hs (by rw [hp]; rfl)
  · have hret : op.instr a = some .bxLr := by
      by_contra hret
      simp [arm, hret] at hleave
    have hkept := ((armOutline object).holds_of_reachable hs p op a hp).kept hret
    exact ⟨fun d hd => hkept.regs d hd List.not_mem_nil, hkept.stack⟩

end Results

end InfiTracing.Mintomic
