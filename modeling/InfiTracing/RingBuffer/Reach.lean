import Mathlib.NumberTheory.Padics.PadicVal.Basic
import InfiTracing.RingBuffer.Sequential

/-!
# Which slots the consumer reaches

The constructor's check that the capacity is a power of two is commented out, and the capacity
can be any positive number.  Then the tail, which is masked with `capacity - 1` after each pop
that delivers, only ever counts up to the lowest bit that is missing in the mask
(`and_pred_eq_mod`), and the slots from there on are never popped.

`delivered_slots` says which slots are: those below the largest power of two that divides the
capacity.  For every other capacity than a power of two it gives the pushes, at most as many as
there are slots and without an overrun, whose last message stays in the buffer for ever.
-/

namespace InfiTracing

open Framework TraceMessageRingBuffer

variable {capacity traceMessageCapacity : ℕ}

/-! ## Counting up under a mask -/

/-- Below the lowest bit missing in the mask nothing is lost, and that bit itself is. -/
lemma and_pred_eq_mod {c v n : ℕ} (hdvd : 2 ^ v ∣ c) (hmax : ¬ 2 ^ (v + 1) ∣ c)
    (hn : n ≤ 2 ^ v) : n &&& (c - 1) = n % 2 ^ v := by
  have hpos : 0 < 2 ^ v := Nat.two_pow_pos v
  have hsucc : 2 ^ (v + 1) = 2 ^ v + 2 ^ v := by omega
  -- in the last `v + 1` bits the mask is `v` ones below a zero
  have hmask : (c - 1) % 2 ^ (v + 1) = 2 ^ v - 1 := by
    obtain ⟨m, rfl⟩ := hdvd
    obtain ⟨k, hk⟩ : Odd m := by
      rw [← Nat.not_even_iff_odd]
      rintro ⟨k, rfl⟩
      exact hmax ⟨k, by ring⟩
    have hsplit : 2 ^ v * m - 1 = (2 ^ v - 1) + 2 ^ (v + 1) * k := by
      have hexpand : 2 ^ v * m = 2 ^ v + 2 ^ (v + 1) * k := by rw [hk]; ring
      omega
    rw [hsplit, Nat.add_mul_mod_self_left, Nat.mod_eq_of_lt (by omega)]
  have hle : n &&& (c - 1) ≤ n := Nat.and_le_left
  calc n &&& (c - 1) = (n &&& (c - 1)) % 2 ^ (v + 1) := (Nat.mod_eq_of_lt (by omega)).symm
    _ = n % 2 ^ (v + 1) &&& (c - 1) % 2 ^ (v + 1) := Nat.and_mod_two_pow
    _ = n &&& (2 ^ v - 1) := by rw [hmask, Nat.mod_eq_of_lt (by omega)]
    _ = n % 2 ^ v := Nat.and_two_pow_sub_one_eq_mod n v

/-- The slots of a buffer that the tail comes to. -/
def reach (capacity : ℕ) : ℕ := 2 ^ padicValNat 2 capacity

lemma reach_pos (capacity : ℕ) : 0 < reach capacity := Nat.two_pow_pos _

lemma reach_le (hc : 0 < capacity) : reach capacity ≤ capacity :=
  Nat.le_of_dvd hc pow_padicValNat_dvd

lemma reach_eq_capacity_iff : reach capacity = capacity ↔ ∃ k, capacity = 2 ^ k := by
  constructor
  · exact fun heq => ⟨_, heq.symm⟩
  · rintro ⟨k, rfl⟩
    rw [reach, padicValNat.prime_pow]

/-- The next tail: one slot further, and from the last slot reached back to the first. -/
lemma masked_succ (hc : 0 < capacity) {tail : ℕ} (htail : tail < reach capacity) :
    masked capacity (tail + 1) = (tail + 1) % reach capacity :=
  and_pred_eq_mod pow_padicValNat_dvd (pow_succ_padicValNat_not_dvd hc.ne') htail

/-! ## The slots popped -/

/-- The slot that the next pop delivers from. -/
def SequentialRing.popsFrom (s : SequentialRing capacity) : Option ℕ :=
  match s.buffer.pop s.message s.memory with
  | some (true, _) => some s.buffer.tail
  | _ => none

/-- Some run of pushes and pops ends where a pop delivers from the slot. -/
def Delivers (traceMessageCapacity : ℕ) (s₀ : SequentialRing capacity) (i : ℕ) : Prop :=
  ∃ calls s, (sequentialRing capacity traceMessageCapacity).exec s₀ calls = some s ∧
    s.popsFrom = some i

section Calls

variable {s s' : SequentialRing capacity}

/-- A push with every lock free. -/
lemma step_push (hfree : ∀ i, s.buffer.busy i = false) (edits : List MessageEdit) :
    ∃ s', s.step (.push edits) = some s' ∧
      s'.buffer.head = s.buffer.takeSpace.2.head ∧ s'.buffer.tail = s.buffer.tail ∧
      s'.buffer.hasData = Function.update s.buffer.hasData s.buffer.takeSpace.1 true ∧
      s'.buffer.busy = s.buffer.busy ∧
      s'.buffer.overflowCounter =
        s.buffer.overflowCounter + (s.buffer.hasData s.buffer.takeSpace.1).toNat ∧
      s'.pushes = s.pushes + 1 ∧
      s'.lastPush = Function.update s.lastPush s.buffer.takeSpace.1 s.pushes ∧
      s'.delivered = s.delivered := by
  obtain ⟨b, hb, hhead, htail, hdata, hbusy, hoverflow⟩ := reservePush_of_free hfree
  simp only [SequentialRing.step, hb, Option.map_some, Option.some.injEq, exists_eq_left']
  refine ⟨hhead, htail, hdata, ?_, hoverflow, by simp⟩
  simp only [commitPush, unlockElement, modifyElement, hbusy, Function.update_idem]
  exact Function.update_eq_self_iff.mpr (hfree _).symm

/-- A pop with every lock free and data under the tail. -/
lemma step_pop (hfree : ∀ i, s.buffer.busy i = false)
    (hset : s.buffer.hasData s.buffer.tail = true) :
    ∃ s', s.step .pop = some s' ∧ s'.buffer.head = s.buffer.head ∧
      s'.buffer.tail = masked capacity (s.buffer.tail + 1) ∧
      s'.buffer.hasData = Function.update s.buffer.hasData s.buffer.tail false ∧
      s'.buffer.busy = s.buffer.busy ∧
      s'.buffer.overflowCounter = s.buffer.overflowCounter ∧
      s'.pushes = s.pushes ∧ s'.lastPush = s.lastPush ∧
      s'.delivered = s.delivered ++ [s.lastPush s.buffer.tail] := by
  simp only [SequentialRing.step, pop, hset, if_true, lockElement, testAndSet, hfree,
    Bool.not_false, Option.map_some, Option.some.injEq, exists_eq_left']
  refine ⟨rfl, rfl, rfl, ?_, rfl, by simp⟩
  simp only [unlockElement, Function.update_idem]
  exact Function.update_eq_self_iff.mpr (hfree _).symm

/-- A pop without data under the tail changes nothing. -/
lemma step_pop_of_clear (hclear : s.buffer.hasData s.buffer.tail = false) :
    s.step .pop = some s := by
  simp [SequentialRing.step, pop, hclear]

lemma popsFrom_eq_some_iff (hfree : ∀ i, s.buffer.busy i = false) {i : ℕ} :
    s.popsFrom = some i ↔ s.buffer.tail = i ∧ s.buffer.hasData i = true := by
  cases hd : s.buffer.hasData s.buffer.tail with
  | false =>
      simp only [SequentialRing.popsFrom, pop, hd, Bool.false_eq_true, if_false, reduceCtorEq,
        false_iff, not_and]
      rintro rfl
      simp [hd]
  | true =>
      simp only [SequentialRing.popsFrom, pop, hd, if_true, lockElement, testAndSet, hfree,
        Bool.not_false, Option.map_some, Option.some.injEq]
      constructor
      · rintro rfl
        exact ⟨rfl, hd⟩
      · exact And.left

/-- Nobody holds a lock, and the tail is one of the slots it comes to. -/
structure TailReached (s : SequentialRing capacity) : Prop where
  free : ∀ i, s.buffer.busy i = false
  tail : s.buffer.tail < reach capacity

lemma TailReached.step (hc : 0 < capacity) (ht : TailReached s) {call : Call}
    (hstep : s.step call = some s') : TailReached s' := by
  cases call with
  | push edits =>
      obtain ⟨t, hpush, -, htail, -, hbusy, -⟩ := step_push ht.free edits
      obtain rfl : t = s' := Option.some.inj (hpush.symm.trans hstep)
      exact ⟨by rw [hbusy]; exact ht.free, htail ▸ ht.tail⟩
  | pop =>
      cases hd : s.buffer.hasData s.buffer.tail with
      | false =>
          obtain rfl : s = s' := Option.some.inj ((step_pop_of_clear hd).symm.trans hstep)
          exact ht
      | true =>
          obtain ⟨t, hpop, -, htail, -, hbusy, -⟩ := step_pop ht.free hd
          obtain rfl : t = s' := Option.some.inj (hpop.symm.trans hstep)
          refine ⟨by rw [hbusy]; exact ht.free, ?_⟩
          rw [htail, masked_succ hc ht.tail]
          exact Nat.mod_lt _ (reach_pos capacity)

theorem tailReached_of_reachable (hc : 0 < capacity)
    (hs : (sequentialRing capacity traceMessageCapacity).Reachable s) : TailReached s := by
  refine hs.invariant (I := TailReached) ?_ fun s call s' _ ht hstep => ht.step hc hstep
  rintro s ⟨elementMemory, message, memory, rfl⟩
  exact ⟨fun i => rfl, reach_pos capacity⟩

end Calls

/-! ## A run over the first slots -/

/-- The buffer after `k` pushes and `j` deliveries, before the first lap ends. -/
structure Filled (k j : ℕ) (s : SequentialRing capacity) : Prop where
  free : ∀ i, s.buffer.busy i = false
  head : s.buffer.head = k
  tail : s.buffer.tail = j
  data : ∀ i, s.buffer.hasData i = true ↔ j ≤ i ∧ i < k
  overflow : s.buffer.overflowCounter = 0
  pushes : s.pushes = k
  last : ∀ i < k, s.lastPush i = i
  delivered : s.delivered = List.range j

section Fill

variable {s : SequentialRing capacity} {k j : ℕ}

lemma filled_of_init (hinit : (sequentialRing capacity traceMessageCapacity).init s) :
    Filled 0 0 s := by
  obtain ⟨elementMemory, message, memory, rfl⟩ := hinit
  constructor <;> simp [SequentialRing.start, construct]

/-- One more push, into the slot with its number. -/
lemma Filled.push (hs : Filled k 0 s) (hk : k < capacity) (edits : List MessageEdit) :
    ∃ s', s.step (.push edits) = some s' ∧ Filled (k + 1) 0 s' := by
  have hspace : s.buffer.takeSpace.1 = k ∧ s.buffer.takeSpace.2.head = k + 1 := by
    have hlt : ¬ capacity ≤ k := not_le.mpr hk
    simp [takeSpace, hs.head, hlt]
  have hclear : s.buffer.hasData k = false := by
    rw [← Bool.not_eq_true, hs.data k]
    omega
  obtain ⟨s', hstep, hhead, htail, hdata, hbusy, hoverflow, hpushes, hlast, hdelivered⟩ :=
    step_push hs.free edits
  rw [hspace.1] at hdata hoverflow hlast
  refine ⟨s', hstep, by rw [hbusy]; exact hs.free, hhead.trans hspace.2, htail.trans hs.tail,
    fun i => ?_, ?_, by rw [hpushes, hs.pushes], fun i hi => ?_, hdelivered.trans hs.delivered⟩
  · rw [hdata, Function.update_apply]
    split_ifs with hik
    · simp [hik]
    · rw [hs.data i]
      omega
  · rw [hoverflow, hs.overflow, hclear]
    rfl
  · rw [hlast, Function.update_apply]
    split_ifs with hik
    · rw [hs.pushes, hik]
    · exact hs.last i (by omega)

/-- One more delivery, short of the end of the tail's lap. -/
lemma Filled.pop (hc : 0 < capacity) (hs : Filled k j s) (hj : j < k)
    (hreach : j + 1 < reach capacity) : ∃ s', s.step .pop = some s' ∧ Filled k (j + 1) s' := by
  have hset : s.buffer.hasData s.buffer.tail = true := by
    rw [hs.tail]
    exact (hs.data j).mpr ⟨le_rfl, hj⟩
  obtain ⟨s', hstep, hhead, htail, hdata, hbusy, hoverflow, hpushes, hlast, hdelivered⟩ :=
    step_pop hs.free hset
  have hnext : masked capacity (j + 1) = j + 1 := by
    rw [masked_succ hc (by omega), Nat.mod_eq_of_lt hreach]
  rw [hs.tail] at htail hdata hdelivered
  refine ⟨s', hstep, by rw [hbusy]; exact hs.free, hhead.trans hs.head, htail.trans hnext,
    fun i => ?_, hoverflow.trans hs.overflow, hpushes.trans hs.pushes,
    fun i hi => by rw [hlast, hs.last i hi], ?_⟩
  · rw [hdata, Function.update_apply]
    split_ifs with hij
    · simp [hij]
    · rw [hs.data i]
      omega
  · rw [hdelivered, hs.delivered, hs.last j hj, List.range_succ]

variable (traceMessageCapacity) in
/-- The first pushes, as many as there are slots at most. -/
lemma Filled.exec_pushes (hs : Filled k 0 s) (edits : List MessageEdit) (n : ℕ)
    (hn : k + n ≤ capacity) :
    ∃ s', (sequentialRing capacity traceMessageCapacity).exec s
        (List.replicate n (.push edits)) = some s' ∧ Filled (k + n) 0 s' := by
  induction n generalizing s k with
  | zero => exact ⟨s, rfl, hs⟩
  | succ n ih =>
      obtain ⟨t, hstep, ht⟩ := hs.push (by omega) edits
      obtain ⟨s', hrest, hs'⟩ := ih ht (by omega)
      refine ⟨s', ?_, by rwa [show k + (n + 1) = k + 1 + n by omega]⟩
      rw [List.replicate_succ, Machine.exec_cons]
      exact Option.bind_eq_some_iff.mpr ⟨t, hstep, hrest⟩

variable (traceMessageCapacity) in
/-- The first pops of a tail's lap. -/
lemma Filled.exec_pops (hc : 0 < capacity) (hs : Filled k j s) (n : ℕ) (hn : j + n ≤ k)
    (hreach : j + n < reach capacity) :
    ∃ s', (sequentialRing capacity traceMessageCapacity).exec s (List.replicate n .pop) =
        some s' ∧ Filled k (j + n) s' := by
  induction n generalizing s j with
  | zero => exact ⟨s, rfl, hs⟩
  | succ n ih =>
      obtain ⟨t, hstep, ht⟩ := hs.pop hc (by omega) (by omega)
      obtain ⟨s', hrest, hs'⟩ := ih ht (by omega) (by omega)
      refine ⟨s', ?_, by rwa [show j + (n + 1) = j + 1 + n by omega]⟩
      rw [List.replicate_succ, Machine.exec_cons]
      exact Option.bind_eq_some_iff.mpr ⟨t, hstep, hrest⟩

end Fill

/-! ## A message out of reach -/

/-- The message in the first slot that the tail does not come to has not been delivered. -/
structure OutOfReach (s : SequentialRing capacity) : Prop extends TailReached s where
  data : s.buffer.hasData (reach capacity) = true
  last : ∀ i ≤ reach capacity, s.lastPush i = i
  delivered : ∀ d ∈ s.delivered, d < reach capacity

section OutOfReach

variable {s : SequentialRing capacity}

lemma Filled.outOfReach (hs : Filled (reach capacity + 1) 0 s) : OutOfReach s where
  free := hs.free
  tail := hs.tail ▸ reach_pos capacity
  data := (hs.data _).mpr ⟨Nat.zero_le _, Nat.lt_succ_self _⟩
  last i hi := hs.last i (Nat.lt_succ_of_le hi)
  delivered := by simp [hs.delivered]

lemma OutOfReach.pop (hc : 0 < capacity) (hs : OutOfReach s) :
    ∃ s', s.step .pop = some s' ∧ OutOfReach s' := by
  cases hd : s.buffer.hasData s.buffer.tail with
  | false => exact ⟨s, step_pop_of_clear hd, hs⟩
  | true =>
      obtain ⟨s', hstep, -, -, hdata, -, -, -, hlast, hdelivered⟩ := step_pop hs.free hd
      refine ⟨s', hstep, hs.toTailReached.step hc hstep, ?_, by rw [hlast]; exact hs.last, ?_⟩
      · rw [hdata, Function.update_of_ne hs.tail.ne']
        exact hs.data
      · intro d hmem
        rw [hdelivered, hs.last _ hs.tail.le] at hmem
        rcases List.mem_append.mp hmem with hmem | hmem
        · exact hs.delivered d hmem
        · exact List.mem_singleton.mp hmem ▸ hs.tail

variable (traceMessageCapacity) in
lemma OutOfReach.exec_pops (hc : 0 < capacity) (hs : OutOfReach s) (n : ℕ) :
    ∃ s', (sequentialRing capacity traceMessageCapacity).exec s (List.replicate n .pop) =
        some s' ∧ OutOfReach s' := by
  induction n generalizing s with
  | zero => exact ⟨s, rfl, hs⟩
  | succ n ih =>
      obtain ⟨t, hstep, ht⟩ := hs.pop hc
      obtain ⟨s', hrest, hs'⟩ := ih ht
      refine ⟨s', ?_, hs'⟩
      rw [List.replicate_succ, Machine.exec_cons]
      exact Option.bind_eq_some_iff.mpr ⟨t, hstep, hrest⟩

end OutOfReach

/-! ## The slots delivered from -/

/-- The slots that a pop can deliver from are those the tail comes to. -/
lemma delivers_iff (hc : 0 < capacity) {s₀ : SequentialRing capacity}
    (hinit : (sequentialRing capacity traceMessageCapacity).init s₀) (i : ℕ) :
    Delivers traceMessageCapacity s₀ i ↔ i < reach capacity := by
  constructor
  · rintro ⟨calls, s, hrun, hpops⟩
    have ht := tailReached_of_reachable hc (Machine.reachable_of_exec hinit hrun)
    exact ((popsFrom_eq_some_iff ht.free).mp hpops).1 ▸ ht.tail
  · intro hi
    have hle := reach_le hc
    obtain ⟨s, hpush, hs⟩ := (filled_of_init hinit).exec_pushes traceMessageCapacity []
      (i + 1) (by omega)
    obtain ⟨s', hpop, hs'⟩ := hs.exec_pops traceMessageCapacity hc i (by omega) (by omega)
    rw [Nat.zero_add, Nat.zero_add] at hs'
    refine ⟨List.replicate (i + 1) (.push []) ++ List.replicate i .pop, s', ?_, ?_⟩
    · rw [Machine.exec_append, hpush]
      exact hpop
    · exact (popsFrom_eq_some_iff hs'.free).mpr
        ⟨hs'.tail, (hs'.data i).mpr ⟨le_rfl, Nat.lt_succ_self i⟩⟩

/-- **The slots of a capacity.**  For every positive capacity, over all runs of pushes and pops,
the slots that a pop can deliver from are those below the largest power of two that divides the
capacity; these are all slots exactly if the capacity is a power of two.  If it is not, then
some pushes, at most as many as there are slots, whatever they write, leave a message in the
buffer that no number of pops delivers, with no overrun counted. -/
theorem delivered_slots (hc : 0 < capacity) {s₀ : SequentialRing capacity}
    (hinit : (sequentialRing capacity traceMessageCapacity).init s₀) :
    (∀ i, Delivers traceMessageCapacity s₀ i ↔ i < 2 ^ padicValNat 2 capacity) ∧
      ((∀ i < capacity, Delivers traceMessageCapacity s₀ i) ↔ ∃ k, capacity = 2 ^ k) ∧
      ((¬ ∃ k, capacity = 2 ^ k) → ∀ edits, ∃ n s d, n < capacity + 1 ∧
        (sequentialRing capacity traceMessageCapacity).exec s₀
          (List.replicate n (.push edits)) = some s ∧
        s.buffer.overflowCounter = 0 ∧ d < s.pushes ∧
        ∀ m, ∃ s', (sequentialRing capacity traceMessageCapacity).exec s
            (List.replicate m .pop) = some s' ∧
          d ∉ s'.delivered ∧ ∃ i < capacity, s'.buffer.hasData i = true ∧ s'.lastPush i = d) := by
  have hle := reach_le hc
  refine ⟨delivers_iff hc hinit, ?_, fun hnot edits => ?_⟩
  · rw [← reach_eq_capacity_iff]
    constructor
    · intro hall
      by_contra hne
      exact absurd ((delivers_iff hc hinit _).mp (hall (reach capacity) (by omega)))
        (lt_irrefl _)
    · intro heq i hi
      exact (delivers_iff hc hinit i).mpr (heq.symm ▸ hi)
  · have hlt : reach capacity < capacity :=
      lt_of_le_of_ne hle (mt reach_eq_capacity_iff.mp hnot)
    obtain ⟨s, hpush, hs⟩ := (filled_of_init hinit).exec_pushes traceMessageCapacity edits
      (reach capacity + 1) (by omega)
    rw [Nat.zero_add] at hs
    refine ⟨reach capacity + 1, s, reach capacity, by omega, hpush, hs.overflow,
      by rw [hs.pushes]; exact Nat.lt_succ_self _, fun m => ?_⟩
    obtain ⟨s', hpops, hs'⟩ := hs.outOfReach.exec_pops traceMessageCapacity hc m
    exact ⟨s', hpops, fun hmem => lt_irrefl _ (hs'.delivered _ hmem), reach capacity, hlt,
      hs'.data, hs'.last _ le_rfl⟩

/-- Of six slots the second is popped and the third is not. -/
theorem delivered_slots_six :
    Delivers 4 (.start 4 (fun _ _ => 7) .empty fun _ => 7 : SequentialRing 6) 1 ∧
      ¬ Delivers 4 (.start 4 (fun _ _ => 7) .empty fun _ => 7 : SequentialRing 6) 2 := by
  have hsix : 2 ^ padicValNat 2 6 = 2 := by
    rw [show 6 = 2 * 3 from rfl, padicValNat.mul (by decide) (by decide), padicValNat_self,
      padicValNat.eq_zero_of_not_dvd (by decide : ¬ 2 ∣ 3)]
    rfl
  have hdelivers : ∀ i, Delivers 4
      (.start 4 (fun _ _ => 7) .empty fun _ => 7 : SequentialRing 6) i ↔ i < 2 ^ padicValNat 2 6 :=
    (delivered_slots (by decide) ⟨_, _, _, rfl⟩).1
  rw [hsix] at hdelivers
  exact ⟨(hdelivers 1).mpr one_lt_two, fun htwo => lt_irrefl 2 ((hdelivers 2).mp htwo)⟩

end InfiTracing
