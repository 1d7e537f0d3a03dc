import Mathlib.Data.List.Sort
import InfiTracing.RingBuffer.Slots

/-!
# One caller at a time

Pushes and pops one after the other, each a call of the methods of
`RingBuffer/Basic.lean` with nobody else active.  The pushes are numbered, and a delivered
message is the number of the last push into its slot.

`increasing_iff` says when the deliveries come out in the order of the pushes: exactly if
every pop that delivers finds the newest push still in the buffer.  After an overrun the
slot under the tail can hold the newest message; the pop that takes it leaves older ones for
the next pops (`delivered_out_of_order`).

`exec_sequential` connects the two models: a sequential run is a run of the atomic steps of
one producer and the consumer.
-/

namespace InfiTracing

open Framework TraceMessageRingBuffer

variable {capacity traceMessageCapacity : ℕ}

/-! ## The machine -/

/-- A call: a push with everything its producer writes, or a pop. -/
inductive Call
  | push (edits : List MessageEdit)
  | pop

/-- The buffer, the message popped into, and the numbering of the pushes. -/
structure SequentialRing (capacity : ℕ) where
  buffer : TraceMessageRingBuffer capacity
  message : TraceMessage
  memory : ℕ → UInt8
  pushes : ℕ
  /-- The number of the last push into the slot. -/
  lastPush : ℕ → ℕ
  /-- The numbers of the messages delivered, in order. -/
  delivered : List ℕ

namespace SequentialRing

/-- All the edits of a message, in order. -/
def applyEdits (edits : List MessageEdit) (m : TraceMessage) : TraceMessage :=
  edits.foldl (fun m e => e.apply m) m

/-- A call, run to its end; `none` where it would wait for a lock for ever. -/
def step (s : SequentialRing capacity) : Call → Option (SequentialRing capacity)
  | .push edits => s.buffer.reservePush.map fun (i, b) => { s with
      buffer := (b.modifyElement i (applyEdits edits)).commitPush i
      pushes := s.pushes + 1
      lastPush := Function.update s.lastPush i s.pushes }
  | .pop => (s.buffer.pop s.message s.memory).map fun (result, message, b) => { s with
      buffer := b
      message := message
      delivered :=
        if result then s.delivered ++ [s.lastPush s.buffer.tail] else s.delivered }

/-- A new buffer. -/
def start (traceMessageCapacity : ℕ) (elementMemory : ℕ → ℕ → UInt8) (message : TraceMessage)
    (memory : ℕ → UInt8) : SequentialRing capacity where
  buffer := .construct traceMessageCapacity elementMemory
  message := message
  memory := memory
  pushes := 0
  lastPush _ := 0
  delivered := []

end SequentialRing

/-- The machine of all sequential runs. -/
def sequentialRing (capacity traceMessageCapacity : ℕ) :
    Machine (SequentialRing capacity) Call where
  init s := ∃ elementMemory message memory,
    s = .start traceMessageCapacity elementMemory message memory
  step := SequentialRing.step

/-! ## What a call does -/

section Calls

/-- `reserve_push` with every lock free: the slot of the ticket is taken, and an overrun of it is
counted. -/
lemma reservePush_of_free {b : TraceMessageRingBuffer capacity} (hfree : ∀ i, b.busy i = false) :
    ∃ b', b.reservePush = some (b.takeSpace.1, b') ∧
      b'.head = b.takeSpace.2.head ∧ b'.tail = b.tail ∧
      b'.hasData = Function.update b.hasData b.takeSpace.1 true ∧
      b'.busy = Function.update b.busy b.takeSpace.1 true ∧
      b'.overflowCounter = b.overflowCounter + (b.hasData b.takeSpace.1).toNat := by
  unfold reservePush takeSpace
  by_cases hge : capacity ≤ b.head
  · simp only [ge_iff_le, hge, if_true, lockElement, testAndSet, hfree, Bool.not_false,
      Option.map_some]
    refine ⟨_, rfl, ?_⟩
    cases hd : b.hasData (masked capacity b.head) <;> simp [markData, testAndSet, hd]
  · simp only [ge_iff_le, hge, if_false, lockElement, testAndSet, hfree, Bool.not_false,
      Option.map_some]
    refine ⟨_, rfl, ?_⟩
    cases hd : b.hasData b.head <;> simp [markData, testAndSet, hd]

variable (hc : ∃ k, capacity = 2 ^ k)

include hc in
/-- With a power of two as the capacity, slot and head keep the residue of the head. -/
lemma takeSpace_eq (b : TraceMessageRingBuffer capacity) :
    b.takeSpace.1 = b.head % capacity ∧
      b.takeSpace.2.head % capacity = (b.head + 1) % capacity := by
  unfold takeSpace
  by_cases hge : capacity ≤ b.head
  · simp [hge, masked_eq_mod hc]
  · simp [hge, Nat.mod_eq_of_lt (not_le.mp hge)]

include hc in
/-- `reserve_push` on a free slot: the slot is the head's residue. -/
lemma reservePush_eq {b : TraceMessageRingBuffer capacity} (hfree : ∀ i, b.busy i = false) :
    ∃ b', b.reservePush = some (b.head % capacity, b') ∧
      b'.head % capacity = (b.head + 1) % capacity ∧ b'.tail = b.tail ∧
      b'.hasData = Function.update b.hasData (b.head % capacity) true ∧
      b'.busy = Function.update b.busy (b.head % capacity) true := by
  obtain ⟨hslot, hres⟩ := takeSpace_eq hc b
  obtain ⟨b', hreserve, hhead, htail, hdata, hbusy, -⟩ := reservePush_of_free hfree
  rw [hslot] at hreserve hdata hbusy
  exact ⟨b', hreserve, by rw [hhead, hres], htail, hdata, hbusy⟩

/-- The ways a call of a sequential run can go. -/
inductive SequentialStep (s : SequentialRing capacity) : Call → SequentialRing capacity → Prop
  | push {edits : List MessageEdit} {s' : SequentialRing capacity}
      (hhead : s'.buffer.head % capacity = (s.buffer.head + 1) % capacity)
      (htail : s'.buffer.tail = s.buffer.tail)
      (hdata : s'.buffer.hasData =
        Function.update s.buffer.hasData (s.buffer.head % capacity) true)
      (hbusy : s'.buffer.busy = s.buffer.busy)
      (hpushes : s'.pushes = s.pushes + 1)
      (hlast : s'.lastPush = Function.update s.lastPush (s.buffer.head % capacity) s.pushes)
      (hdelivered : s'.delivered = s.delivered) : SequentialStep s (.push edits) s'
  | deliver {s' : SequentialRing capacity}
      (hset : s.buffer.hasData s.buffer.tail = true)
      (hhead : s'.buffer.head = s.buffer.head)
      (htail : s'.buffer.tail = (s.buffer.tail + 1) % capacity)
      (hdata : s'.buffer.hasData = Function.update s.buffer.hasData s.buffer.tail false)
      (hbusy : s'.buffer.busy = s.buffer.busy)
      (hpushes : s'.pushes = s.pushes) (hlast : s'.lastPush = s.lastPush)
      (hdelivered : s'.delivered = s.delivered ++ [s.lastPush s.buffer.tail]) :
      SequentialStep s .pop s'
  | refuse (hclear : s.buffer.hasData s.buffer.tail = false) : SequentialStep s .pop s

include hc in
/-- **Inversion.**  With every lock free a call goes through, in one of these ways. -/
lemma SequentialStep.exists_of_free {s : SequentialRing capacity}
    (hfree : ∀ i, s.buffer.busy i = false) (call : Call) :
    ∃ s', s.step call = some s' ∧ SequentialStep s call s' := by
  cases call with
  | push edits =>
      obtain ⟨b, hb, hhead, htail, hdata, hbusy⟩ := reservePush_eq hc hfree
      simp only [SequentialRing.step, hb, Option.map_some, Option.some.injEq, exists_eq_left']
      refine .push hhead htail hdata ?_ rfl rfl rfl
      simp only [commitPush, unlockElement, modifyElement, hbusy, Function.update_idem]
      exact Function.update_eq_self_iff.mpr (hfree _).symm
  | pop =>
      cases hd : s.buffer.hasData s.buffer.tail with
      | false => exact ⟨s, by simp [SequentialRing.step, pop, hd], .refuse hd⟩
      | true =>
          simp only [SequentialRing.step, pop, hd, if_true, lockElement, testAndSet, hfree,
            Bool.not_false, Option.map_some, Option.some.injEq, exists_eq_left']
          refine .deliver hd rfl (masked_eq_mod hc _) rfl ?_ rfl rfl rfl
          simp only [unlockElement, Function.update_idem]
          exact Function.update_eq_self_iff.mpr (hfree _).symm

end Calls

/-! ## The invariant -/

/-- The numbers of the last pushes, and which of them have been delivered. -/
structure Numbered (s : SequentialRing capacity) : Prop where
  free : ∀ i, s.buffer.busy i = false
  head : s.buffer.head % capacity = s.pushes % capacity
  tail_lt : s.buffer.tail < capacity
  tail : ∀ d, s.delivered.getLast? = some d → s.buffer.tail = (d + 1) % capacity
  residue : ∀ i < capacity, i < s.pushes → s.lastPush i % capacity = i
  last_lt : ∀ i < capacity, i < s.pushes → s.lastPush i < s.pushes
  lt_next : ∀ i < capacity, i < s.pushes → s.pushes ≤ s.lastPush i + capacity
  flags : ∀ i < capacity, s.buffer.hasData i = true ↔
    i < s.pushes ∧ s.lastPush i ∉ s.delivered
  bound : ∀ d ∈ s.delivered, d < s.pushes

/-- A push: only the slot pushed into gets a new number, the number of the push. -/
lemma Numbered.push {s s' : SequentialRing capacity} (hn : Numbered s)
    (hhead : s'.buffer.head % capacity = (s.buffer.head + 1) % capacity)
    (htail : s'.buffer.tail = s.buffer.tail)
    (hdata : s'.buffer.hasData =
      Function.update s.buffer.hasData (s.buffer.head % capacity) true)
    (hbusy : s'.buffer.busy = s.buffer.busy) (hpushes : s'.pushes = s.pushes + 1)
    (hlast : s'.lastPush = Function.update s.lastPush (s.buffer.head % capacity) s.pushes)
    (hdelivered : s'.delivered = s.delivered) : Numbered s' := by
  have hpos : 0 < capacity := Nat.zero_lt_of_lt hn.tail_lt
  have hslot : s.pushes % capacity < capacity := Nat.mod_lt _ hpos
  have hle : s.pushes % capacity ≤ s.pushes := Nat.mod_le _ _
  rw [hn.head] at hdata hlast
  have hcases : ∀ i < capacity, i < s'.pushes →
      (i = s.pushes % capacity ∧ s'.lastPush i = s.pushes) ∨
        (i ≠ s.pushes % capacity ∧ i < s.pushes ∧ s'.lastPush i = s.lastPush i) := by
    intro i hi hlt
    by_cases hne : i = s.pushes % capacity
    · exact .inl ⟨hne, by rw [hlast, hne, Function.update_self]⟩
    · have hnew : i ≠ s.pushes := by
        rintro rfl
        exact hne (Nat.mod_eq_of_lt hi).symm
      exact .inr ⟨hne, by omega, by rw [hlast, Function.update_of_ne hne]⟩
  constructor
  · rw [hbusy]; exact hn.free
  · rw [hhead, hpushes]
    exact Nat.ModEq.add_right 1 hn.head
  · rw [htail]; exact hn.tail_lt
  · rw [htail, hdelivered]; exact hn.tail
  · intro i hi hlt
    rcases hcases i hi hlt with ⟨hslot, hnew⟩ | ⟨-, hold, hsame⟩
    · rw [hnew, hslot]
    · exact hsame ▸ hn.residue i hi hold
  · intro i hi hlt
    rcases hcases i hi hlt with ⟨-, hnew⟩ | ⟨-, hold, hsame⟩
    · omega
    · have := hn.last_lt i hi hold
      omega
  · intro i hi hlt
    rcases hcases i hi hlt with ⟨-, hnew⟩ | ⟨hne, hold, hsame⟩
    · omega
    · have hle' := hn.lt_next i hi hold
      -- one lap after the last push into slot `i` the next push is into slot `i`
      have hlap : s.pushes ≠ s.lastPush i + capacity := by
        intro heq
        rw [heq, Nat.add_mod_right] at hne
        exact hne (hn.residue i hi hold).symm
      omega
  · intro i hi
    rw [hdata, hdelivered]
    by_cases hne : i = s.pushes % capacity
    · rw [hlast, hne]
      simp only [Function.update_self, true_iff]
      exact ⟨by omega, fun hmem => absurd (hn.bound _ hmem) (lt_irrefl _)⟩
    · rw [hlast, Function.update_of_ne hne, Function.update_of_ne hne, hn.flags i hi]
      refine and_congr_left fun _ => ⟨fun h => by omega, fun h => ?_⟩
      rcases hcases i hi h with ⟨hslot, -⟩ | ⟨-, hold, -⟩
      · exact absurd hslot hne
      · exact hold
  · intro d hd
    rw [hdelivered] at hd
    have := hn.bound d hd
    omega

/-- A delivery: the number under the tail joins the delivered ones. -/
lemma Numbered.deliver {s s' : SequentialRing capacity} (hn : Numbered s)
    (hset : s.buffer.hasData s.buffer.tail = true)
    (hhead : s'.buffer.head = s.buffer.head)
    (htail : s'.buffer.tail = (s.buffer.tail + 1) % capacity)
    (hdata : s'.buffer.hasData = Function.update s.buffer.hasData s.buffer.tail false)
    (hbusy : s'.buffer.busy = s.buffer.busy)
    (hpushes : s'.pushes = s.pushes) (hlast : s'.lastPush = s.lastPush)
    (hdelivered : s'.delivered = s.delivered ++ [s.lastPush s.buffer.tail]) : Numbered s' := by
  have hpos : 0 < capacity := Nat.zero_lt_of_lt hn.tail_lt
  obtain ⟨hpushed, hfresh⟩ := (hn.flags _ hn.tail_lt).mp hset
  have hres := hn.residue _ hn.tail_lt hpushed
  constructor
  · rw [hbusy]; exact hn.free
  · rw [hhead, hpushes]; exact hn.head
  · rw [htail]; exact Nat.mod_lt _ hpos
  · intro d hd
    rw [hdelivered, List.getLast?_concat, Option.some.injEq] at hd
    rw [htail, ← hd]
    exact (Nat.ModEq.add_right 1 (hres.trans (Nat.mod_eq_of_lt hn.tail_lt).symm)).symm
  · rw [hpushes, hlast]; exact hn.residue
  · rw [hpushes, hlast]; exact hn.last_lt
  · rw [hpushes, hlast]; exact hn.lt_next
  · intro i hi
    rw [hdata, hpushes, hlast, hdelivered]
    by_cases hne : i = s.buffer.tail
    · simp [hne]
    · rw [Function.update_of_ne hne, hn.flags i hi]
      refine and_congr_right fun hlt => ?_
      -- messages in other slots have other numbers
      have hother : s.lastPush i ≠ s.lastPush s.buffer.tail := by
        intro heq
        exact hne ((hn.residue i hi hlt).symm.trans (heq ▸ hres))
      simp [hother]
  · intro d hd
    rw [hdelivered] at hd
    rw [hpushes]
    rcases List.mem_append.mp hd with hd | hd
    · exact hn.bound d hd
    · rw [List.mem_singleton.mp hd]
      exact hn.last_lt _ hn.tail_lt hpushed

lemma SequentialStep.numbered {s s' : SequentialRing capacity} {call : Call}
    (hstep : SequentialStep s call s') (hn : Numbered s) : Numbered s' := by
  cases hstep with
  | refuse hclear => exact hn
  | push hhead htail hdata hbusy hpushes hlast hdelivered =>
      exact hn.push hhead htail hdata hbusy hpushes hlast hdelivered
  | deliver hset hhead htail hdata hbusy hpushes hlast hdelivered =>
      exact hn.deliver hset hhead htail hdata hbusy hpushes hlast hdelivered

lemma numbered_start (hpos : 0 < capacity) (elementMemory : ℕ → ℕ → UInt8)
    (message : TraceMessage) (memory : ℕ → UInt8) :
    Numbered (.start traceMessageCapacity elementMemory message memory :
      SequentialRing capacity) := by
  constructor <;> simp [SequentialRing.start, construct, hpos]

theorem numbered_of_reachable (hc : ∃ k, capacity = 2 ^ k) {s : SequentialRing capacity}
    (hs : (sequentialRing capacity traceMessageCapacity).Reachable s) : Numbered s := by
  have hpos : 0 < capacity := capacity_pos hc
  refine hs.invariant ?_ ?_
  · rintro s ⟨elementMemory, message, memory, rfl⟩
    exact numbered_start hpos elementMemory message memory
  · intro s call s' _ hn hstep
    obtain ⟨t, ht, hcall⟩ := SequentialStep.exists_of_free hc hn.free call
    obtain rfl : t = s' := Option.some.inj (ht.symm.trans hstep)
    exact hcall.numbered hn

/-! ## The order of the deliveries -/

/-- A pop that delivers leaves no newer message behind that it could not reach in order: the
slot pushed last still has data. -/
def newestHeld (s : SequentialRing capacity) : Call → Bool
  | .push _ => true
  | .pop => !s.buffer.hasData s.buffer.tail ||
      s.buffer.hasData (masked capacity (s.buffer.head + (capacity - 1)))

/-- A number of the last lap is determined by its slot. -/
lemma Numbered.lastPush_of_residue {s : SequentialRing capacity} (hn : Numbered s) {d : ℕ}
    (hd : d < s.pushes) (hlap : s.pushes ≤ d + capacity) :
    s.lastPush (d % capacity) = d := by
  have hpos : 0 < capacity := Nat.zero_lt_of_lt hn.tail_lt
  have hslot : d % capacity < capacity := Nat.mod_lt _ hpos
  have hpushed : d % capacity < s.pushes := (Nat.mod_le _ _).trans_lt hd
  have hres := hn.residue _ hslot hpushed
  have hlt := hn.last_lt _ hslot hpushed
  have hle := hn.lt_next _ hslot hpushed
  rcases Nat.lt_trichotomy (s.lastPush (d % capacity)) d with hcmp | hcmp | hcmp
  · have := Nat.ModEq.add_le_of_lt hres hcmp
    omega
  · exact hcmp
  · have := Nat.ModEq.add_le_of_lt hres.symm hcmp
    omega

/-- The message under the tail is newer than the last delivery exactly if the last delivery
is not the newest message. -/
lemma Numbered.lt_lastPush_iff {s : SequentialRing capacity} (hn : Numbered s)
    (hset : s.buffer.hasData s.buffer.tail = true) {d : ℕ} (hd : s.delivered.getLast? = some d) :
    d < s.lastPush s.buffer.tail ↔ d + 1 < s.pushes := by
  obtain ⟨hpushed, hfresh⟩ := (hn.flags _ hn.tail_lt).mp hset
  have hres := hn.residue _ hn.tail_lt hpushed
  have hlt := hn.last_lt _ hn.tail_lt hpushed
  have hle := hn.lt_next _ hn.tail_lt hpushed
  have htail := hn.tail d hd
  constructor
  · intro h
    omega
  · intro h
    by_contra hge
    -- the tail's slot is the one after the last delivery, and it was pushed a lap later
    have hmod : s.lastPush s.buffer.tail ≡ d + 1 [MOD capacity] := hres.trans htail
    have := hmod.add_le_of_lt (by omega)
    omega

/-- The slot pushed last has data exactly while the newest message is not delivered. -/
lemma Numbered.newest_iff {s : SequentialRing capacity} (hc : ∃ k, capacity = 2 ^ k)
    (hn : Numbered s) (hpushed : 0 < s.pushes) :
    s.buffer.hasData (masked capacity (s.buffer.head + (capacity - 1))) = true ↔
      s.pushes - 1 ∉ s.delivered := by
  have hpos : 0 < capacity := Nat.zero_lt_of_lt hn.tail_lt
  have hslot : masked capacity (s.buffer.head + (capacity - 1)) = (s.pushes - 1) % capacity := by
    rw [masked_eq_mod hc]
    have : s.pushes + (capacity - 1) = s.pushes - 1 + capacity := by omega
    calc (s.buffer.head + (capacity - 1)) % capacity
        = (s.pushes + (capacity - 1)) % capacity := Nat.ModEq.add_right _ hn.head
      _ = (s.pushes - 1) % capacity := by rw [this, Nat.add_mod_right]
  have hlt : (s.pushes - 1) % capacity < s.pushes := (Nat.mod_le _ _).trans_lt (by omega)
  rw [hslot, hn.flags _ (Nat.mod_lt _ hpos), hn.lastPush_of_residue (by omega) (by omega)]
  exact and_iff_right hlt

/-- A call keeps the deliveries in order exactly if it meets the condition. -/
lemma SequentialStep.keepsOrder_iff (hc : ∃ k, capacity = 2 ^ k)
    {s s' : SequentialRing capacity} {call : Call} (hstep : SequentialStep s call s')
    (hn : Numbered s) :
    s'.delivered.SortedLT ↔ s.delivered.SortedLT ∧ newestHeld s call = true := by
  cases hstep with
  | push hhead htail hdata hbusy hpushes hlast hdelivered => simp [hdelivered, newestHeld]
  | refuse hclear => simp [newestHeld, hclear]
  | deliver hset hhead htail hdata hbusy hpushes hlast hdelivered =>
      have hpushed := ((hn.flags _ hn.tail_lt).mp hset).1
      have hcond : newestHeld s .pop = true ↔ s.pushes - 1 ∉ s.delivered := by
        rw [← hn.newest_iff hc (by omega)]
        simp [newestHeld, hset]
      rw [hcond, hdelivered, List.sortedLT_iff_isChain, List.sortedLT_iff_isChain,
        List.isChain_append]
      simp only [List.isChain_singleton, true_and, List.head?_cons, Option.mem_some_iff,
        forall_eq']
      refine and_congr_right fun hsorted => ⟨fun hlast hmem => ?_, fun hfresh d hd => ?_⟩
      · -- the newest message is not larger than the last delivery, so it is not below it
        have hne := List.ne_nil_of_mem hmem
        have hd := List.getLast?_eq_some_getLast hne
        have hle : s.pushes - 1 ≤ s.delivered.getLast hne :=
          (List.Pairwise.imp le_of_lt (List.isChain_iff_pairwise.mp hsorted)).rel_getLast hmem
        have := (hn.lt_lastPush_iff hset hd).mp (hlast _ hd)
        omega
      · have hmem : d ∈ s.delivered := List.mem_of_getLast? hd
        have hlt := hn.bound d hmem
        have hne : d ≠ s.pushes - 1 := by rintro rfl; exact hfresh hmem
        exact (hn.lt_lastPush_iff hset hd).mpr (by omega)

/-- With the locks free, every sequence of calls goes through. -/
lemma Numbered.exec_total (hc : ∃ k, capacity = 2 ^ k) {s : SequentialRing capacity}
    (hn : Numbered s) (calls : List Call) :
    ∃ s', (sequentialRing capacity traceMessageCapacity).exec s calls = some s' := by
  induction calls generalizing s with
  | nil => exact ⟨s, rfl⟩
  | cons call calls ih =>
      obtain ⟨t, ht, hcall⟩ := SequentialStep.exists_of_free hc hn.free call
      obtain ⟨s', hs'⟩ := ih (hcall.numbered hn)
      refine ⟨s', ?_⟩
      rw [Machine.exec_cons]
      exact Option.bind_eq_some_iff.mpr ⟨t, ht, hs'⟩

/-- **When deliveries come in push order.**  Every sequence of pushes and pops goes through,
and the numbers it delivers increase exactly if every pop that delivers finds the newest
message still in the buffer. -/
theorem increasing_iff (hc : ∃ k, capacity = 2 ^ k) {s₀ : SequentialRing capacity}
    (hinit : (sequentialRing capacity traceMessageCapacity).init s₀) (calls : List Call) :
    ∃ s, (sequentialRing capacity traceMessageCapacity).exec s₀ calls = some s ∧
      (s.delivered.SortedLT ↔
        ((sequentialRing capacity traceMessageCapacity).restrict
          fun s call => newestHeld s call).exec s₀ calls = some s) := by
  obtain ⟨s, hs⟩ := (numbered_of_reachable hc (.init hinit)).exec_total hc calls
  refine ⟨s, hs, Machine.exec_restrict_iff (P := fun s => s.delivered.SortedLT) ?_
    (.init hinit) ?_ hs⟩
  · intro s call s' hreach hstep
    have hn := numbered_of_reachable hc hreach
    obtain ⟨t, ht, hcall⟩ := SequentialStep.exists_of_free hc hn.free call
    obtain rfl : t = s' := Option.some.inj (ht.symm.trans hstep)
    exact hcall.keepsOrder_iff hc hn
  · obtain ⟨elementMemory, message, memory, rfl⟩ := hinit
    exact List.sortedLT_iff_pairwise.mpr List.Pairwise.nil

/-- Two slots, three pushes, two pops: the third push is delivered before the second. -/
theorem delivered_out_of_order :
    ∃ s, (sequentialRing 2 4).exec (.start 4 (fun _ _ => 7) .empty fun _ => 7)
        [.push [], .push [], .push [], .pop, .pop] = some s ∧ s.delivered = [2, 1] := by
  have h : ((sequentialRing 2 4).exec (.start 4 (fun _ _ => 7) .empty fun _ => 7)
      [.push [], .push [], .push [], .pop, .pop]).any (fun s => s.delivered = [2, 1]) = true := by
    decide
  obtain ⟨s, hs, hd⟩ := (Option.any_eq_true _ _).mp h
  exact ⟨s, hs, of_decide_eq_true hd⟩

/-- One slot: the second push overruns the first, and the third comes after a delivery. -/
theorem increasing_iff_overrun :
    ∃ s, (sequentialRing 1 4).exec (.start 4 (fun _ _ => 7) .empty fun _ => 7)
        [.push [], .push [], .pop, .push [], .pop] = some s ∧ s.delivered = [1, 2] ∧
      ((sequentialRing 1 4).restrict
        fun s call => newestHeld s call).exec (.start 4 (fun _ _ => 7) .empty fun _ => 7)
          [.push [], .push [], .pop, .push [], .pop] = some s := by
  have h : ((sequentialRing 1 4).exec (.start 4 (fun _ _ => 7) .empty fun _ => 7)
      [.push [], .push [], .pop, .push [], .pop]).any (fun s => s.delivered = [1, 2]) = true := by
    decide
  obtain ⟨s, hs, hiff⟩ := @increasing_iff 1 4 ⟨0, rfl⟩ _
    ⟨fun _ _ => 7, .empty, fun _ => 7, rfl⟩ [.push [], .push [], .pop, .push [], .pop]
  rw [hs] at h
  have hdelivered : s.delivered = [1, 2] := of_decide_eq_true h
  refine ⟨s, hs, hdelivered, hiff.mp ?_⟩
  rw [hdelivered]
  exact List.sortedLT_iff_pairwise.mpr (by decide)

/-! ## The same run in atomic steps -/

section Atomic

variable {Pid : Type} [DecidableEq Pid]

/-- The sequential state as a state of the system: every party idle. -/
def SequentialRing.toRing (s : SequentialRing capacity) : RingSystem capacity Pid where
  buffer := s.buffer
  producers _ := .idle
  consumer := .idle
  message := s.message
  memory := s.memory

/-- The steps of `reserve_push` on a free slot. -/
def reserveActions (b : TraceMessageRingBuffer capacity) (p : Pid) : List (Action Pid) :=
  [.headInc p] ++ (if capacity ≤ b.head then [.headMask p] else []) ++
    [.producerLock p, .markData p] ++
    (if b.hasData b.takeSpace.1 then [.overflowInc p, .resettableInc p] else [])

/-- The steps of a push. -/
def pushActions (b : TraceMessageRingBuffer capacity) (p : Pid) (edits : List MessageEdit) :
    List (Action Pid) :=
  reserveActions b p ++ edits.map (.edit p) ++ [.commitPush p]

/-- The steps of `pop` where nobody holds the slot. -/
def popActions (b : TraceMessageRingBuffer capacity) : List (Action Pid) :=
  if b.hasData b.tail then
    [.popTest, .consumerLock, .popRetest, .popCopy, .popRecycle, .popClear, .popUnlock]
  else [.popTest]

@[simp] lemma RingSystem.produce_produce (s : RingSystem capacity Pid) (p : Pid)
    (pc pc' : ProducerPc) (b b' : TraceMessageRingBuffer capacity) :
    (s.produce p pc b).produce p pc' b' = s.produce p pc' b' := by
  simp [RingSystem.produce]

variable (traceMessageCapacity)

/-- A producer alone goes through `reserve_push` to the slot and buffer of `reservePush`. -/
lemma exec_reserveActions (s : RingSystem capacity Pid) {p : Pid}
    (hidle : s.producers p = .idle) (hfree : ∀ i, s.buffer.busy i = false) :
    ∃ i b, s.buffer.reservePush = some (i, b) ∧
      (ring capacity traceMessageCapacity Pid).exec s (reserveActions s.buffer p) =
        some (s.produce p (.writing i) b) := by
  by_cases hge : capacity ≤ s.buffer.head
  · cases hd : s.buffer.hasData (masked capacity s.buffer.head) <;>
      simp [reserveActions, reservePush, takeSpace, lockElement, markData, testAndSet, hge, hd,
        hfree, ring, RingSystem.step, RingSystem.producerAcquired, hidle]
  · cases hd : s.buffer.hasData s.buffer.head <;>
      simp [reserveActions, reservePush, takeSpace, lockElement, markData, testAndSet, hge, hd,
        hfree, ring, RingSystem.step, RingSystem.producerAcquired, hidle]

/-- The edits of a message, one step each. -/
lemma exec_edits (s : RingSystem capacity Pid) (p : Pid) (i : ℕ)
    (b : TraceMessageRingBuffer capacity) (edits : List MessageEdit) :
    (ring capacity traceMessageCapacity Pid).exec (s.produce p (.writing i) b)
        (edits.map (.edit p)) =
      some (s.produce p (.writing i) (b.modifyElement i (SequentialRing.applyEdits edits))) := by
  induction edits generalizing b with
  | nil => simp [SequentialRing.applyEdits, modifyElement]
  | cons e edits ih =>
      have hstep : (ring capacity traceMessageCapacity Pid).step (s.produce p (.writing i) b)
          (.edit p e) = some (s.produce p (.writing i) (b.modifyElement i e.apply)) := by
        simp [ring, RingSystem.step]
      have hrest : (b.modifyElement i e.apply).modifyElement i
          (SequentialRing.applyEdits edits) =
            b.modifyElement i (SequentialRing.applyEdits (e :: edits)) := by
        simp [modifyElement, SequentialRing.applyEdits]
      rw [List.map_cons, Machine.exec_cons, hstep, Option.bind_some, ih, hrest]

/-- A push alone is the call of `SequentialRing.step`. -/
lemma exec_pushActions (s : SequentialRing capacity) (p : Pid)
    (hfree : ∀ i, s.buffer.busy i = false) (edits : List MessageEdit) :
    ∃ s', s.step (.push edits) = some s' ∧
      (ring capacity traceMessageCapacity Pid).exec s.toRing (pushActions s.buffer p edits) =
        some s'.toRing := by
  obtain ⟨i, b, hreserve, hexec⟩ := exec_reserveActions traceMessageCapacity
    (s.toRing : RingSystem capacity Pid) (p := p) rfl hfree
  change s.buffer.reservePush = some (i, b) at hreserve
  change (ring capacity traceMessageCapacity Pid).exec s.toRing (reserveActions s.buffer p) = _
    at hexec
  refine ⟨_, by rw [SequentialRing.step, hreserve]; rfl, ?_⟩
  rw [pushActions, Machine.exec_append, Machine.exec_append, hexec, Option.bind_some, exec_edits,
    Option.bind_some]
  simp [ring, RingSystem.step, SequentialRing.toRing, RingSystem.produce]

variable (Pid) in
/-- A pop alone is the call of `SequentialRing.step`. -/
lemma exec_popActions (s : SequentialRing capacity) (hfree : ∀ i, s.buffer.busy i = false) :
    ∃ s', s.step .pop = some s' ∧
      (ring capacity traceMessageCapacity Pid).exec s.toRing (popActions s.buffer) =
        some s'.toRing := by
  cases hd : s.buffer.hasData s.buffer.tail <;>
    simp [popActions, SequentialRing.step, pop, lockElement, testAndSet, hd, hfree, ring,
      RingSystem.step, RingSystem.consumerAcquired, SequentialRing.toRing, RingSystem.consume,
      modifyElement, unlockElement]

/-- A consumer alone goes through `get_and_reset_overflow_counter` as the method does: it
returns what it loads, and leaves the buffer of `getAndResetOverflowCounter`. -/
lemma exec_resetActions (s : RingSystem capacity Pid) (hidle : s.consumer = .idle) :
    (ring capacity traceMessageCapacity Pid).exec s [.resetLoad] =
        some (s.consume (.resetting s.buffer.getAndResetOverflowCounter.1) s.buffer) ∧
      (ring capacity traceMessageCapacity Pid).exec s [.resetLoad, .resetStore] =
        some (s.consume .idle s.buffer.getAndResetOverflowCounter.2) := by
  simp [ring, RingSystem.step, hidle, getAndResetOverflowCounter, RingSystem.consume]

/-- **A sequential run is a run of atomic steps.** -/
theorem exec_sequential (hc : ∃ k, capacity = 2 ^ k) (p : Pid) {s s' : SequentialRing capacity}
    (hn : Numbered s) {calls : List Call}
    (hrun : (sequentialRing capacity traceMessageCapacity).exec s calls = some s') :
    ∃ acts, (ring capacity traceMessageCapacity Pid).exec s.toRing acts = some s'.toRing := by
  induction calls generalizing s with
  | nil =>
      obtain rfl : s = s' := Option.some.inj hrun
      exact ⟨[], rfl⟩
  | cons call calls ih =>
      obtain ⟨t, ht, hrest⟩ := Option.bind_eq_some_iff.mp hrun
      obtain ⟨t', ht', hcall⟩ := SequentialStep.exists_of_free hc hn.free call
      obtain rfl : t' = t := Option.some.inj (ht'.symm.trans ht)
      obtain ⟨acts, hacts⟩ := ih (hcall.numbered hn) hrest
      have hfirst : ∃ first, (ring capacity traceMessageCapacity Pid).exec s.toRing first =
          some t'.toRing := by
        cases call with
        | push edits =>
            obtain ⟨u, hu, hexec⟩ := exec_pushActions traceMessageCapacity s p hn.free edits
            obtain rfl : u = t' := Option.some.inj (hu.symm.trans ht)
            exact ⟨_, hexec⟩
        | pop =>
            obtain ⟨u, hu, hexec⟩ := exec_popActions traceMessageCapacity Pid s hn.free
            obtain rfl : u = t' := Option.some.inj (hu.symm.trans ht)
            exact ⟨_, hexec⟩
      obtain ⟨first, hfirst⟩ := hfirst
      exact ⟨first ++ acts, by rw [Machine.exec_append, hfirst]; exact hacts⟩

end Atomic

end InfiTracing
