import InfiTracing.Framework.Machine
import InfiTracing.TraceMessage.Memory

/-!
# Programs of `TraceMessage` operations

The serializers use a message in one pattern: `limit` is undone by `unlimit` with the value it
returned, in the reverse order, a `rewind` goes to an offset that `write_offset` returned, and a
message is recycled only when no limit is open.  `messageMachine` runs all programs of that
shape, for any arguments, on a message just constructed.

What keeps such a program inside the buffer is not the limit in force alone but all the ones
that wait to be restored: `Nested` says that they grow from the innermost outwards, from the
limit in force up to the capacity.  `message_safe` is what this gives for every run, and that an
`unlimit` restores the limit that was in force before its `limit`, where the two belong together
as brackets do (`Balanced`).
-/

namespace InfiTracing

open Framework

/-- A message, the limits returned by the `limit`s that are open, the innermost first, and the
offsets returned since the last `recycle`. -/
structure MessageRun where
  message : MessageMemory
  pending : List ℤ
  offsets : List ℤ

/-- The next operation, where it keeps to the pattern. -/
def MessageRun.step (s : MessageRun) : MessageOp → Option MessageRun
  | .limit size => some { s with
      message := s.message.perform (.limit size)
      pending := (s.message.limit size).1 :: s.pending }
  | .unlimit i => match s.pending with
    | [] => none
    | saved :: pending =>
        if i = saved then
          some { s with message := s.message.perform (.unlimit i), pending := pending }
        else none
  | .rewind offset =>
      if offset ∈ s.offsets then
        some { s with message := s.message.perform (.rewind offset) }
      else none
  | .recycle =>
      if s.pending = [] then
        some { s with message := s.message.perform .recycle, offsets := [] }
      else none
  | .writeOffset => some { s with offsets := s.message.writeIndex :: s.offsets }
  | .write str => some { s with message := s.message.perform (.write str) }
  | .printf text => some { s with message := s.message.perform (.printf text) }

/-- All programs on a message of the given capacity. -/
def messageMachine (capacity : ℤ) : Machine MessageRun MessageOp where
  init s := ∃ memory, s = ⟨.construct memory capacity, [], []⟩
  step := MessageRun.step

/-! ## Brackets -/

/-- Neither `limit` nor `unlimit`. -/
def MessageOp.isPlain : MessageOp → Bool
  | .limit _ | .unlimit _ => false
  | _ => true

/-- Every `limit` is followed by its `unlimit`. -/
inductive Balanced : List MessageOp → Prop
  | nil : Balanced []
  | plain {op : MessageOp} (hop : op.isPlain = true) : Balanced [op]
  | append {ops ops' : List MessageOp} (h : Balanced ops) (h' : Balanced ops') :
      Balanced (ops ++ ops')
  | nested {body : List MessageOp} (size i : ℤ) (h : Balanced body) :
      Balanced (.limit size :: body ++ [.unlimit i])

section Brackets

variable {capacity : ℤ} {s s' t : MessageRun} {ops body : List MessageOp} {op : MessageOp}

/-- What an operation does with the limits that are open. -/
def MessageRun.PendingStep (s s' : MessageRun) : MessageOp → Prop
  | .limit _ => s'.pending = s.message.limitIndex :: s.pending
  | .unlimit i => s.pending = i :: s'.pending
  | .recycle => s.pending = [] ∧ s'.pending = []
  | _ => s'.pending = s.pending

/-- **Inversion.**  A step performs the operation and opens or closes its limit. -/
lemma MessageRun.step_pending (hstep : (messageMachine capacity).step s op = some s') :
    s'.message = s.message.perform op ∧ s.PendingStep s' op := by
  change s.step op = some s' at hstep
  cases op with
  | write | printf | limit | writeOffset =>
      rw [← Option.some.inj hstep]
      exact ⟨rfl, rfl⟩
  | unlimit i =>
      simp only [MessageRun.step] at hstep
      split at hstep
      · cases hstep
      · next saved pending hpending =>
          split_ifs at hstep with hi
          rw [← Option.some.inj hstep]
          exact ⟨rfl, hpending.trans (by rw [hi])⟩
  | rewind offset =>
      simp only [MessageRun.step] at hstep
      split_ifs at hstep
      rw [← Option.some.inj hstep]
      exact ⟨rfl, rfl⟩
  | recycle =>
      simp only [MessageRun.step] at hstep
      split_ifs at hstep with hpending
      rw [← Option.some.inj hstep]
      exact ⟨rfl, hpending, hpending⟩

lemma MessageRun.pending_of_limit {size : ℤ}
    (hstep : (messageMachine capacity).step s (.limit size) = some s') :
    s'.pending = s.message.limitIndex :: s.pending := (step_pending hstep).2

lemma MessageRun.pending_of_unlimit {i : ℤ}
    (hstep : (messageMachine capacity).step s (.unlimit i) = some s') :
    s.pending = i :: s'.pending := (step_pending hstep).2

lemma MessageRun.pending_of_plain (hop : op.isPlain = true)
    (hstep : (messageMachine capacity).step s op = some s') : s'.pending = s.pending := by
  have hpending := (step_pending hstep).2
  cases op with
  | limit | unlimit => cases hop
  | recycle => exact hpending.2.trans hpending.1.symm
  | write | printf | rewind | writeOffset => exact hpending

/-- A balanced stretch leaves the open limits as they were. -/
lemma Balanced.pending_eq (h : Balanced ops)
    (hrun : (messageMachine capacity).exec s ops = some s') : s'.pending = s.pending := by
  induction h generalizing s s' with
  | nil => rw [Option.some.inj hrun]
  | plain hop =>
      rw [Machine.exec_cons] at hrun
      obtain ⟨t, hstep, hrest⟩ := Option.bind_eq_some_iff.mp hrun
      rw [← Option.some.inj hrest]
      exact MessageRun.pending_of_plain hop hstep
  | append _ _ ih ih' =>
      rw [Machine.exec_append] at hrun
      obtain ⟨t, hfirst, hsecond⟩ := Option.bind_eq_some_iff.mp hrun
      rw [ih' hsecond, ih hfirst]
  | @nested body size i _ ih =>
      obtain ⟨t, hopen, hclose⟩ := Machine.exec_concat.mp hrun
      obtain ⟨u, hlimit, hbody⟩ := Option.bind_eq_some_iff.mp hopen
      have hpopped := MessageRun.pending_of_unlimit hclose
      rw [ih hbody, MessageRun.pending_of_limit hlimit] at hpopped
      exact (List.cons.inj hpopped).2.symm

/-- Every open limit was opened by a `limit` of the run, and what came since is balanced but for
the ones opened later. -/
lemma exists_opening (hs : s.pending = []) {i : ℤ} {pending : List ℤ}
    (hrun : (messageMachine capacity).exec s ops = some s') (hopen : s'.pending = i :: pending) :
    ∃ pre size body t, ops = pre ++ .limit size :: body ∧ Balanced body ∧
      (messageMachine capacity).exec s pre = some t ∧ t.message.limitIndex = i ∧
      t.pending = pending := by
  induction hn : ops.length using Nat.strong_induction_on generalizing ops s' i pending with
  | _ n ih =>
    rcases List.eq_nil_or_concat ops with rfl | ⟨before, op, rfl⟩
    · rw [← Option.some.inj hrun, hs] at hopen
      cases hopen
    rw [List.concat_eq_append] at hrun hn ⊢
    rw [List.length_append, List.length_singleton] at hn
    obtain ⟨u, hbefore, hstep⟩ := Machine.exec_concat.mp hrun
    by_cases hplain : op.isPlain = true
    · rw [MessageRun.pending_of_plain hplain hstep] at hopen
      obtain ⟨pre, size, body, t, rfl, hbody, ht⟩ := ih _ (by omega) hbefore hopen rfl
      exact ⟨pre, size, body ++ [op], t, by simp, hbody.append (.plain hplain), ht⟩
    cases op with
    | limit size =>
        rw [MessageRun.pending_of_limit hstep] at hopen
        obtain ⟨hlimit, hrest⟩ := List.cons.inj hopen
        exact ⟨before, size, [], u, rfl, .nil, hbefore, hlimit, hrest⟩
    | unlimit j =>
        -- the `limit` that this one closes, and before it the one asked for
        have hpending := MessageRun.pending_of_unlimit hstep
        rw [hopen] at hpending
        obtain ⟨pre, size, body, t, hpre, hbody, ht, -, htopen⟩ :=
          ih _ (by omega) hbefore hpending rfl
        have hlt : pre.length < n := by
          rw [hpre, List.length_append] at hn
          omega
        obtain ⟨pre', size', body', t', hpre', hbody', ht'⟩ := ih _ hlt ht htopen rfl
        refine ⟨pre', size', body' ++ (.limit size :: body ++ [.unlimit j]), t', ?_,
          hbody'.append (.nested size j hbody), ht'⟩
        rw [hpre, hpre']
        simp
    | write | printf | rewind | recycle | writeOffset => exact absurd rfl hplain

end Brackets

/-! ## The invariant of a program -/

/-- The message is sound, and the limits that wait to be restored grow outwards, from the limit
in force up to the capacity. -/
structure Nested (capacity : ℤ) (s : MessageRun) : Prop where
  capacity_eq : s.message.capacity = capacity
  sound : s.message.Sound
  between : ∀ i ∈ s.pending, s.message.limitIndex ≤ i ∧ i ≤ capacity
  sorted : s.pending.Pairwise (· ≤ ·)

section Nested

variable {capacity : ℤ} {s s' : MessageRun} {op : MessageOp}

lemma nested_of_init (hcap : 1 ≤ capacity) (hinit : (messageMachine capacity).init s) :
    Nested capacity s := by
  obtain ⟨memory, rfl⟩ := hinit
  obtain ⟨hsound, hcapacity⟩ := MessageMemory.sound_construct memory hcap
  exact ⟨hcapacity, hsound, by simp, .nil⟩

/-- An operation under the limit in force. -/
lemma Nested.keep (hs : Nested capacity s) (hmessage : s'.message = s.message.perform op)
    (hsound : (s.message.perform op).Sound)
    (hlimit : (s.message.perform op).limitIndex = s.message.limitIndex)
    (hpending : s'.pending = s.pending) : Nested capacity s' := by
  refine ⟨?_, by rwa [hmessage], fun i hi => ?_, by rw [hpending]; exact hs.sorted⟩
  · rw [hmessage, MessageMemory.perform_capacity, hs.capacity_eq]
  · rw [hmessage, hlimit]
    exact hs.between i (hpending ▸ hi)

/-- **The invariant is kept by every operation of the pattern.** -/
lemma Nested.step (hs : Nested capacity s)
    (hstep : (messageMachine capacity).step s op = some s') : Nested capacity s' := by
  obtain ⟨hmessage, hpending⟩ := MessageRun.step_pending hstep
  have hwrite := hs.sound.write_le
  have hlimit := hs.sound.limit_le
  rw [hs.capacity_eq] at hlimit
  cases op with
  | write str =>
      exact hs.keep hmessage (hs.sound.writeLoop str.1)
        (s.message.writeLoop_frame str.1).2 hpending
  | printf text =>
      exact hs.keep hmessage (hs.sound.printf text) (s.message.printf_frame text).2 hpending
  | rewind offset => exact hs.keep hmessage (hs.sound.rewind offset) rfl hpending
  | writeOffset => exact hs.keep hmessage hs.sound rfl hpending
  | limit size =>
      have hsound := hs.sound.limit size
      have htighter : (s.message.limit size).2.limitIndex ≤ s.message.limitIndex := by
        obtain ⟨-, hle⟩ := @MessageMemory.clip_mem size s.message.availSize
          (by unfold MessageMemory.availSize; omega)
        show s.message.writeIndex + clip size 0 s.message.availSize ≤ _
        unfold MessageMemory.availSize at *
        omega
      refine ⟨?_, by rw [hmessage]; exact hsound, fun i hi => ?_, ?_⟩
      · rw [hmessage, MessageMemory.perform_capacity, hs.capacity_eq]
      · rw [hpending] at hi
        rw [hmessage]
        rcases List.mem_cons.mp hi with rfl | hi
        · exact ⟨htighter, hlimit⟩
        · exact ⟨htighter.trans (hs.between i hi).1, (hs.between i hi).2⟩
      · rw [hpending]
        exact .cons (fun i hi => (hs.between i hi).1) hs.sorted
  | unlimit i =>
      -- the limit restored is above the write position and below all that still wait
      have hi := hs.between i (hpending ▸ List.mem_cons_self)
      have hsorted := hs.sorted
      rw [hpending] at hsorted
      obtain ⟨hsound, hrestored⟩ := hs.sound.unlimitTo (i := i) (hwrite.trans hi.1)
        (by rw [hs.capacity_eq]; exact hi.2)
      refine ⟨?_, by rw [hmessage]; exact hsound, fun j hj => ?_, (List.pairwise_cons.mp hsorted).2⟩
      · rw [hmessage, MessageMemory.perform_capacity, hs.capacity_eq]
      · rw [hmessage]
        refine ⟨?_, (hs.between j (hpending ▸ List.mem_cons_of_mem i hj)).2⟩
        rw [MessageMemory.perform, hrestored]
        exact (List.pairwise_cons.mp hsorted).1 j hj
  | recycle =>
      have hsound : (s.message.perform .recycle).Sound := hs.sound.perform (by simp)
      refine ⟨?_, by rw [hmessage]; exact hsound, by simp [hpending.2], by simp [hpending.2]⟩
      rw [hmessage, MessageMemory.perform_capacity, hs.capacity_eq]

theorem nested_of_reachable (hcap : 1 ≤ capacity) (hs : (messageMachine capacity).Reachable s) :
    Nested capacity s :=
  hs.invariant (fun _ hinit => nested_of_init hcap hinit)
    fun _ _ _ _ hs hstep => Nested.step hs hstep

end Nested

/-! ## The law of a program -/

/-- A balanced stretch between a `limit` and its `unlimit` ends under the limit it began with. -/
lemma limit_restored {capacity : ℤ} (hcap : 1 ≤ capacity) {t s : MessageRun}
    (ht : (messageMachine capacity).Reachable t) {size i : ℤ} {body : List MessageOp}
    (hbody : Balanced body)
    (hrun : (messageMachine capacity).exec t (.limit size :: body ++ [.unlimit i]) = some s) :
    s.message.limitIndex = t.message.limitIndex := by
  obtain ⟨v, hopened, hclose⟩ := Machine.exec_concat.mp hrun
  obtain ⟨u, hlimit, hrest⟩ := Option.bind_eq_some_iff.mp hopened
  have hpopped := MessageRun.pending_of_unlimit hclose
  have hpending := hpopped
  rw [hbody.pending_eq hrest, MessageRun.pending_of_limit hlimit] at hpending
  obtain ⟨hi, -⟩ := List.cons.inj hpending
  have hv := nested_of_reachable hcap (ht.exec hopened)
  have hbetween := hv.between i (hpopped ▸ List.mem_cons_self)
  have hrestored := (hv.sound.unlimitTo (i := i) (hv.sound.write_le.trans hbetween.1)
    (by rw [hv.capacity_eq]; exact hbetween.2)).2
  rw [(MessageRun.step_pending hclose).1, MessageMemory.perform, hrestored, hi]

/-- **A message stays within its buffer.**  For every capacity of at least 1 and every program of
the pattern: write position and limit are in order and within the capacity at its end, and so at
every point of it, and were so whenever a byte was stored; every byte stored went into the buffer
and none but a NUL to its end, which is NUL; and the `limit` and `unlimit` that belong together
leave the limit as it was, where every `unlimit` has such a `limit`. -/
theorem message_safe {capacity : ℤ} (hcap : 1 ≤ capacity) {s₀ s : MessageRun}
    (hinit : (messageMachine capacity).init s₀) {ops : List MessageOp}
    (hrun : (messageMachine capacity).exec s₀ ops = some s) :
    (0 ≤ s.message.writeIndex ∧ s.message.writeIndex ≤ s.message.limitIndex ∧
        s.message.limitIndex ≤ capacity) ∧
      (∀ e ∈ s.message.stores, e.Within capacity) ∧
      s.message.buffer capacity = 0 ∧
      (∀ before i, ops = before ++ [.unlimit i] → ∃ pre size body,
        ops = pre ++ (.limit size :: body ++ [.unlimit i]) ∧ Balanced body) ∧
      ∀ pre size body i t, ops = pre ++ (.limit size :: body ++ [.unlimit i]) → Balanced body →
        (messageMachine capacity).exec s₀ pre = some t →
        s.message.limitIndex = t.message.limitIndex := by
  have hs := nested_of_reachable hcap (Machine.reachable_of_exec hinit hrun)
  have hcapacity := hs.capacity_eq
  have hsound := hs.sound
  refine ⟨⟨hsound.write_nonneg, hsound.write_le, hcapacity ▸ hsound.limit_le⟩,
    hcapacity ▸ hsound.stores, hcapacity ▸ hsound.nul, fun before i hops => ?_,
    fun pre size body i t hops hbody hpre => ?_⟩
  · have hempty : s₀.pending = [] := by
      obtain ⟨memory, rfl⟩ := hinit
      rfl
    rw [hops] at hrun
    obtain ⟨u, hbefore, hclose⟩ := Machine.exec_concat.mp hrun
    obtain ⟨pre, size, body, t, rfl, hbody, -⟩ :=
      exists_opening hempty hbefore (MessageRun.pending_of_unlimit hclose)
    exact ⟨pre, size, body, by rw [hops]; simp, hbody⟩
  · rw [hops, Machine.exec_append, hpre] at hrun
    exact limit_restored hcap (Machine.reachable_of_exec hinit hpre) hbody hrun

/-- Two limits one in the other, and a rewind between them. -/
def nestedLimits : List MessageOp :=
  [.writeOffset, .limit 3, .write (.literal "ab"), .limit (-1), .printf (.literal "c"),
    .rewind 0, .unlimit 3, .unlimit 4]

theorem message_safe_nestedLimits :
    ∃ s, (messageMachine 4).exec ⟨.construct (fun _ => 7) 4, [], []⟩ nestedLimits = some s ∧
      (0 ≤ s.message.writeIndex ∧ s.message.writeIndex ≤ s.message.limitIndex ∧
        s.message.limitIndex ≤ 4) ∧
      (∀ e ∈ s.message.stores, e.Within 4) ∧ s.message.buffer 4 = 0 := by
  have hrun : ((messageMachine 4).exec ⟨.construct (fun _ => 7) 4, [], []⟩
      nestedLimits).isSome = true := by decide +kernel
  obtain ⟨s, hs⟩ := Option.isSome_iff_exists.mp hrun
  obtain ⟨hindices, hstores, hnul, -⟩ := message_safe (by decide) ⟨_, rfl⟩ hs
  exact ⟨s, hs, hindices, hstores, hnul⟩

/-- The programs on a message and on its memory go the same way. -/
theorem represents_of_exec {capacity : ℤ} (hcap : 1 ≤ capacity) (hint : capacity < 2 ^ 31)
    {s s' : MessageRun} (hs : (messageMachine capacity).Reachable s) {m : TraceMessage}
    (hm : Represents s.message m) {ops : List MessageOp}
    (hrun : (messageMachine capacity).exec s ops = some s') :
    Represents s'.message (ops.foldl TraceMessage.perform m) := by
  induction ops generalizing s m with
  | nil => rwa [← Option.some.inj hrun]
  | cons op ops ih =>
      obtain ⟨t, hstep, hrest⟩ := Option.bind_eq_some_iff.mp hrun
      have hnested := nested_of_reachable hcap hs
      have hsize : m.capacity < 2 ^ 31 := by
        have hcapacity := hnested.capacity_eq
        rw [hm.capacity] at hcapacity
        omega
      refine ih (.step op hs hstep) ?_ hrest
      rw [(MessageRun.step_pending hstep).1]
      exact hm.perform hnested.sound hsize op

end InfiTracing
