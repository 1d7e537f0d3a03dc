import InfiTracing.RingBuffer.Slots

/-!
# What a delivered message says

Every slot shows what was written into it since it was last recycled (`contents_of_reachable`),
and that is what it held when it was last reserved followed by what the reservation wrote
(`authorship_of_reachable`).  So a delivered message is the last reservation's text only if
the slot was handed out empty.

`pop` recycles the slot it has copied, but `reserve_push` does not recycle the slot it hands
out on an overrun: the new reservation appends to the old text (`overrun_appends`).
`delivery_exact` is what remains: in the runs in which no reservation is handed a slot with
text in it, every delivered message is the text and severity of the one reservation that
committed it.
-/

namespace InfiTracing

open Framework

variable {capacity traceMessageCapacity : ℕ} {Pid : Type}

/-! ## What a slot shows -/

/-- The message is in the state that writing `d` into an empty message of this capacity
leaves. -/
structure Shows (traceMessageCapacity : ℕ) (m : TraceMessage) (d : Draft) : Prop where
  capacity : m.capacity = traceMessageCapacity
  text : m.Holds (d.text.take traceMessageCapacity)
  severity : m.severity = d.severity.getD severityNotset
  timestamp : m.timestamp = d.timestamp.getD 0

lemma shows_construct (memory : ℕ → UInt8) :
    Shows traceMessageCapacity (TraceMessage.empty.realloc memory traceMessageCapacity) {} := by
  unfold TraceMessage.realloc
  split
  · exact ⟨rfl, by simpa using TraceMessage.holds_recycled _ _ _, rfl, rfl⟩
  · obtain rfl : traceMessageCapacity = 0 := by omega
    exact ⟨rfl, by simpa using TraceMessage.holds_recycle _, rfl, rfl⟩

lemma Shows.recycle {m : TraceMessage} {d : Draft} (h : Shows traceMessageCapacity m d) :
    Shows traceMessageCapacity m.recycle {} :=
  ⟨h.capacity, by simpa using TraceMessage.holds_recycle m, rfl, rfl⟩

/-- An edit of the message is an edit of what it shows. -/
lemma Shows.edit {m : TraceMessage} {d : Draft} (h : Shows traceMessageCapacity m d)
    (e : MessageEdit) : Shows traceMessageCapacity (e.apply m) (d.edit e) := by
  cases e with
  | write str =>
      refine ⟨by simpa [MessageEdit.apply] using h.capacity, ?_,
        by simpa [MessageEdit.apply, Draft.edit] using h.severity,
        by simpa [MessageEdit.apply, Draft.edit] using h.timestamp⟩
      have htext := TraceMessage.holds_write h.text str
      have hcut : (d.text ++ str.1).take traceMessageCapacity =
          d.text.take traceMessageCapacity ++
            str.1.take (m.capacity - (d.text.take traceMessageCapacity).length) := by
        rw [List.take_append, h.capacity, List.length_take]
        congr 2
        omega
      rw [Draft.edit, hcut]
      exact htext
  | setSeverity v =>
      exact ⟨h.capacity, TraceMessage.holds_setSeverity h.text v, rfl, h.timestamp⟩
  | setTimestamp sec usec =>
      exact ⟨h.capacity, TraceMessage.holds_setTimestamp h.text sec usec, h.severity, rfl⟩

section

variable [DecidableEq Pid] {s s' : RingSystem capacity Pid} {h : History Pid} {a : Action Pid}

/-- Every slot shows what was written into it since it was recycled. -/
def Contents (traceMessageCapacity : ℕ) (s : RingSystem capacity Pid) (h : History Pid) : Prop :=
  ∀ i, Shows traceMessageCapacity (s.buffer.elements i) (h.content i)

lemma Step.contents (hstep : Step s a s') (hcon : Contents traceMessageCapacity s h) :
    Contents traceMessageCapacity s' (h.record s a) := by
  intro j
  cases hstep with
  | @edit p i e hpc =>
      have hslot : (s.producers p).slot = i := by rw [hpc]; rfl
      by_cases hj : j = i
      · subst hj
        simpa [History.record, TraceMessageRingBuffer.modifyElement, hslot] using (hcon j).edit e
      · simpa [History.record, TraceMessageRingBuffer.modifyElement, hslot, hj] using hcon j
  | @popRecycle i hpc =>
      have hslot : s.consumer.slot = i := by rw [hpc]; rfl
      by_cases hj : j = i
      · subst hj
        simpa [History.record, TraceMessageRingBuffer.modifyElement, hslot] using (hcon j).recycle
      · simpa [History.record, TraceMessageRingBuffer.modifyElement, hslot, hj] using hcon j
  | headInc | headIncOver | headMask | producerLock | producerSpin | producerWait | markData
  | markOverrun | overflowInc | resettableInc | commitPush | popFound | popNothing
  | consumerLock | consumerSpin | consumerWait | popRetest | popGone | popCopy | popClear
  | popUnlock | resetLoad | resetStore => exact hcon j

theorem contents_of_reachable {x : RingSystem capacity Pid × History Pid}
    (hx : (tracedRing capacity traceMessageCapacity Pid).Reachable x) :
    Contents traceMessageCapacity x.1 x.2 :=
  tracedRing_invariant (I := Contents traceMessageCapacity) hx
    (fun elementMemory _ _ i => shows_construct (elementMemory i))
    fun _ _ _ _ _ hcon hstep => hstep.contents hcon

/-! ## Who wrote it -/

/-- The slot a producer has marked and not committed yet. -/
def ProducerPc.marked : ProducerPc → Option ℕ
  | .overflowing i | .overflowed i | .writing i => some i
  | _ => none

lemma ProducerPc.held_of_marked {pc : ProducerPc} {i : ℕ} (h : pc.marked = some i) :
    pc.held = some i := by
  cases pc <;> simp_all [marked, held]

lemma ProducerPc.target_of_marked {pc : ProducerPc} {i : ℕ} (h : pc.marked = some i) :
    pc.target = some i := by
  cases pc <;> simp_all [marked, target]

@[simp] lemma RingSystem.marked_producerAcquired (i : ℕ) (collision : Bool) :
    (RingSystem.producerAcquired i collision).marked = none := by
  cases collision <;> rfl

/-- A marked slot has data and holds its producer's draft, on top of what it held before; a
committed slot holds what was committed, likewise; a slot without data is empty. -/
structure Authorship (s : RingSystem capacity Pid) (h : History Pid) : Prop where
  hasData : ∀ p i, (s.producers p).marked = some i → s.buffer.hasData i = true
  drafted : ∀ p i, (s.producers p).marked = some i →
    h.content i = (h.started i).followedBy (h.draft p)
  committed : ∀ i, s.buffer.hasData i = true → s.consumer ≠ .clearing i →
    (∀ p, (s.producers p).marked ≠ some i) →
    h.content i = (h.started i).followedBy (h.committed i)
  fresh : ∀ i, s.buffer.hasData i = false ∨ s.consumer = .clearing i → h.content i = {}

omit [DecidableEq Pid] in
/-- A step that marks, clears, writes and commits nothing. -/
lemma Authorship.congr (hau : Authorship s h) {h' : History Pid}
    (hmarked : ∀ p, (s'.producers p).marked = (s.producers p).marked)
    (hdata : s'.buffer.hasData = s.buffer.hasData)
    (hclearing : ∀ i, s'.consumer = .clearing i ↔ s.consumer = .clearing i)
    (hh : h'.content = h.content ∧ h'.started = h.started ∧ h'.draft = h.draft ∧
      h'.committed = h.committed) : Authorship s' h' := by
  obtain ⟨hcontent, hstarted, hdraft, hcommitted⟩ := hh
  constructor
  · simpa only [hmarked, hdata] using hau.hasData
  · simpa only [hmarked, hcontent, hstarted, hdraft] using hau.drafted
  · simpa only [hmarked, hdata, hcontent, hstarted, hcommitted, ne_eq, hclearing] using
      hau.committed
  · simpa only [hdata, hclearing, hcontent] using hau.fresh

lemma RingSystem.marked_produce {p : Pid} {pc : ProducerPc} {b : TraceMessageRingBuffer capacity}
    (hpc : pc.marked = (s.producers p).marked) (q : Pid) :
    ((s.produce p pc b).producers q).marked = (s.producers q).marked := by
  by_cases hq : q = p
  · subst hq
    simpa using hpc
  · simp [hq]

/-- A producer that goes on without a mark leaves the marks of the others. -/
lemma RingSystem.marked_of_produce {p q : Pid} {pc : ProducerPc}
    {b : TraceMessageRingBuffer capacity} {i : ℕ} (hpc : pc.marked = none)
    (hq : ((s.produce p pc b).producers q).marked = some i) :
    q ≠ p ∧ (s.producers q).marked = some i := by
  have hqp : q ≠ p := by
    rintro rfl
    simp [hpc] at hq
  exact ⟨hqp, by simpa [hqp] using hq⟩

omit [DecidableEq Pid] in
lemma RingSystem.active_of_marked {p : Pid} {i : ℕ} (hp : (s.producers p).marked = some i) :
    s.producers p ≠ .idle := by
  intro hidle
  simp [hidle, ProducerPc.marked] at hp

omit [DecidableEq Pid] in
/-- A slot under one producer's lock is marked by no other. -/
lemma marked_unique (hlocks : LockTable s.held s.buffer.busy) {p q : Pid} {i : ℕ}
    (hp : (s.producers p).held = some i) (hq : (s.producers q).marked = some i) : q = p :=
  Option.some.inj (hlocks.exclusive (some q) (some p) i (ProducerPc.held_of_marked hq) hp)

/-- A producer that marks the slot it holds leaves the marks of the others, which are on other
slots. -/
lemma RingSystem.marked_of_mark (hlocks : LockTable s.held s.buffer.busy) {p q : Pid}
    {i j : ℕ} {pc : ProducerPc} {b : TraceMessageRingBuffer capacity}
    (hheld : (s.producers p).held = some i) (hpc : pc.marked = some i)
    (hq : ((s.produce p pc b).producers q).marked = some j) :
    (q = p ∧ j = i) ∨ (q ≠ p ∧ j ≠ i ∧ (s.producers q).marked = some j) := by
  by_cases hqp : q = p
  · subst hqp
    exact .inl ⟨rfl, Option.some.inj (by simpa [hpc] using hq.symm)⟩
  · have hq' : (s.producers q).marked = some j := by simpa [hqp] using hq
    refine .inr ⟨hqp, ?_, hq'⟩
    rintro rfl
    exact hqp (marked_unique hlocks hheld hq')

omit [DecidableEq Pid] in
/-- A slot under the consumer's lock is marked by no producer. -/
lemma not_marked (hlocks : LockTable s.held s.buffer.busy) {i : ℕ}
    (hc : s.consumer.held = some i) (q : Pid) : (s.producers q).marked ≠ some i := by
  intro hq
  cases hlocks.exclusive (some q) none i (ProducerPc.held_of_marked hq) hc

omit [DecidableEq Pid] in
/-- The consumer does not clear the flag of a slot under a producer's lock. -/
lemma not_clearing (hlocks : LockTable s.held s.buffer.busy) {p : Pid} {i : ℕ}
    (hp : (s.producers p).held = some i) : s.consumer ≠ .clearing i := by
  intro hc
  cases hlocks.exclusive (some p) none i hp (by rw [RingSystem.held, hc]; rfl)

/-- A producer passes the test-and-set of its slot: its draft starts on what the slot holds. -/
lemma Authorship.mark (hau : Authorship s h) (hlocks : LockTable s.held s.buffer.busy)
    {p : Pid} {i : ℕ} {pc : ProducerPc} {b : TraceMessageRingBuffer capacity}
    (hpc : s.producers p = .marking i) (hmarked : pc.marked = some i)
    (hdata : b.hasData = Function.update s.buffer.hasData i true) :
    Authorship (s.produce p pc b) (h.record s (.markData p)) := by
  have hslot : (s.producers p).slot = i := by rw [hpc]; rfl
  have hheld : (s.producers p).held = some i := by rw [hpc]; rfl
  have hclearing := not_clearing hlocks hheld
  constructor
  · intro q j hq
    obtain ⟨rfl, rfl⟩ | ⟨hqp, hj, hq'⟩ := RingSystem.marked_of_mark hlocks hheld hmarked hq
    · simp [hdata]
    · simpa [hdata, hj] using hau.hasData q j hq'
  · intro q j hq
    obtain ⟨rfl, rfl⟩ | ⟨hqp, hj, hq'⟩ := RingSystem.marked_of_mark hlocks hheld hmarked hq
    · simp [History.record, hslot]
    · simpa [History.record, hslot, hqp, hj] using hau.drafted q j hq'
  · intro j hj hclear hunmarked
    -- the marked slot itself is excluded
    have hji : j ≠ i := by
      rintro rfl
      exact hunmarked p (by simpa using hmarked)
    simp only [RingSystem.produce_buffer, hdata, Function.update_of_ne hji] at hj
    simpa [History.record, hslot, hji] using hau.committed j hj hclear fun q hq =>
      hunmarked q (by
        have hqp : q ≠ p := by rintro rfl; simp [hpc, ProducerPc.marked] at hq
        simpa [hqp] using hq)
  · rintro j hj
    by_cases hji : j = i
    · rcases hj with hj | hj
      · simp [hdata, hji] at hj
      · exact absurd (hji ▸ hj) hclearing
    · exact hau.fresh j (by simpa [hdata, hji] using hj)

/-- A producer edits the message in the slot it has marked. -/
lemma Authorship.edit (hau : Authorship s h) (hlocks : LockTable s.held s.buffer.busy)
    {p : Pid} {i : ℕ} {e : MessageEdit} (hpc : s.producers p = .writing i) :
    Authorship (s.produce p (.writing i) (s.buffer.modifyElement i e.apply))
      (h.record s (.edit p e)) := by
  have hslot : (s.producers p).slot = i := by rw [hpc]; rfl
  have hheld : (s.producers p).held = some i := by rw [hpc]; rfl
  have hmarked : (s.producers p).marked = some i := by rw [hpc]; rfl
  have hsame : ∀ q, ((s.produce p (.writing i) (s.buffer.modifyElement i e.apply)).producers
      q).marked = (s.producers q).marked := RingSystem.marked_produce hmarked.symm
  constructor
  · intro q j hq
    exact hau.hasData q j (hsame q ▸ hq)
  · intro q j hq
    rw [hsame] at hq
    by_cases hqp : q = p
    · obtain rfl : i = j := Option.some.inj (hmarked.symm.trans (hqp ▸ hq))
      simp [History.record, hslot, hqp, Draft.followedBy_edit, hau.drafted p i hmarked]
    · have hj : j ≠ i := by
        rintro rfl
        exact hqp (marked_unique hlocks hheld hq)
      simpa [History.record, hslot, hqp, hj] using hau.drafted q j hq
  · intro j hj hclear hunmarked
    have hji : j ≠ i := by
      rintro rfl
      exact hunmarked p (by rw [hsame, hmarked])
    simpa [History.record, hslot, hji] using hau.committed j hj hclear fun q =>
      hsame q ▸ hunmarked q
  · rintro j hj
    have hji : j ≠ i := by
      rintro rfl
      rcases hj with hj | hj
      · exact absurd ((hau.hasData p j hmarked).symm.trans hj) (by simp)
      · exact not_clearing hlocks hheld hj
    simpa [History.record, hslot, hji] using hau.fresh j hj

/-- A producer commits the slot it has marked. -/
lemma Authorship.commitPush (hau : Authorship s h) {p : Pid} {i : ℕ}
    (hpc : s.producers p = .writing i) :
    Authorship (s.produce p .idle (s.buffer.commitPush i)) (h.record s (.commitPush p)) := by
  have hslot : (s.producers p).slot = i := by rw [hpc]; rfl
  have hmarked : (s.producers p).marked = some i := by rw [hpc]; rfl
  constructor
  · intro q j hq
    exact hau.hasData q j (RingSystem.marked_of_produce rfl hq).2
  · intro q j hq
    exact hau.drafted q j (RingSystem.marked_of_produce rfl hq).2
  · intro j hj hclear hunmarked
    by_cases hji : j = i
    · subst hji
      simpa [History.record, hslot] using hau.drafted p j hmarked
    · simp only [History.record, hslot, Function.update_of_ne hji]
      refine hau.committed j hj hclear fun q hq => ?_
      by_cases hqp : q = p
      · exact hji (Option.some.inj (by rw [← hq, hqp, hmarked]))
      · exact hunmarked q (by simpa [hqp] using hq)
  · exact hau.fresh

lemma Step.authorship (hstep : Step s a s') (hlocks : LockTable s.held s.buffer.busy)
    (hau : Authorship s h) : Authorship s' (h.record s a) := by
  cases hstep with
  | markData hpc hclear => exact hau.mark hlocks hpc rfl rfl
  | @markOverrun p i hpc hset =>
      have hsame : Function.update s.buffer.hasData i true = s.buffer.hasData :=
        Function.update_eq_self_iff.mpr hset.symm
      exact hau.mark hlocks hpc rfl hsame.symm
  | edit hpc => exact hau.edit hlocks hpc
  | commitPush hpc => exact hau.commitPush hpc
  | @popRecycle i hpc =>
      have hslot : s.consumer.slot = i := by rw [hpc]; rfl
      have hheld : s.consumer.held = some i := by rw [hpc]; rfl
      constructor
      · exact hau.hasData
      · intro q j hq
        have hj : j ≠ i := by
          rintro rfl
          exact not_marked hlocks hheld q hq
        simpa [History.record, hslot, hj] using hau.drafted q j hq
      · intro j hj hclear hunmarked
        have hji : j ≠ i := by
          rintro rfl
          exact hclear rfl
        simpa [History.record, hslot, hji] using
          hau.committed j hj (by simp [hpc]) hunmarked
      · intro j hj
        by_cases hji : j = i
        · simp [History.record, hslot, hji]
        · have hdata : s.buffer.hasData j = false := by
            rcases hj with hj | hj
            · exact hj
            · exact absurd (by simpa using hj.symm) hji
          simpa [History.record, hslot, hji] using hau.fresh j (.inl hdata)
  | @popClear i hpc =>
      have hheld : s.consumer.held = some i := by rw [hpc]; rfl
      constructor
      · intro q j hq
        have hj : j ≠ i := by
          rintro rfl
          exact not_marked hlocks hheld q hq
        simpa [hj] using hau.hasData q j hq
      · exact hau.drafted
      · intro j hj hclear hunmarked
        have hji : j ≠ i := by
          rintro rfl
          simp at hj
        exact hau.committed j (by simpa [hji] using hj) (by simpa [hpc] using Ne.symm hji)
          hunmarked
      · intro j hj
        by_cases hji : j = i
        · exact hau.fresh j (.inr (hji ▸ hpc))
        · exact hau.fresh j (.inl (by simpa [hji] using hj))
  | producerLock hpc hbusy =>
      exact hau.congr (RingSystem.marked_produce (by rw [hpc]; simp; rfl)) rfl
        (fun _ => Iff.rfl) ⟨rfl, rfl, rfl, rfl⟩
  | headInc hpc | headIncOver hpc | headMask hpc | producerSpin hpc | producerWait hpc
  | overflowInc hpc | resettableInc hpc =>
      exact hau.congr (RingSystem.marked_produce (by rw [hpc]; rfl)) rfl
        (fun _ => Iff.rfl) ⟨rfl, rfl, rfl, rfl⟩
  | @consumerLock i collision hpc hbusy =>
      refine hau.congr (fun _ => rfl) rfl (fun j => ?_) ⟨rfl, rfl, rfl, rfl⟩
      cases collision <;> simp [hpc, RingSystem.consumerAcquired]
  | popFound hpc | popNothing hpc | consumerSpin hpc | consumerWait hpc | popRetest hpc
  | popGone hpc | popCopy hpc | popUnlock hpc | resetLoad hpc | resetStore hpc =>
      exact hau.congr (fun _ => rfl) rfl (fun j => by simp [hpc]) ⟨rfl, rfl, rfl, rfl⟩

theorem authorship_of_reachable {x : RingSystem capacity Pid × History Pid}
    (hx : (tracedRing capacity traceMessageCapacity Pid).Reachable x) :
    Authorship x.1 x.2 := by
  refine tracedRing_invariant hx ?_ ?_
  · intro elementMemory message memory
    exact ⟨by simp [RingSystem.start, ProducerPc.marked], by simp [RingSystem.start,
      ProducerPc.marked], by simp [RingSystem.start, TraceMessageRingBuffer.construct],
      by simp⟩
  · intro s h a s' hreach hau hstep
    exact hstep.authorship (lockTable_of_reachable hreach.fst) hau

/-! ## Deliveries -/

/-- The delivered message shows what its slot held when it was last reserved, followed by
what that reservation committed, as far as it fits. -/
structure Faithful (traceMessageCapacity : ℕ) (d : Delivery) : Prop where
  text : d.text = (d.started.text ++ d.committed.text).take traceMessageCapacity
  severity : d.severity =
    (d.started.followedBy d.committed).severity.getD severityNotset
  timestamp : d.timestamp = (d.started.followedBy d.committed).timestamp.getD 0

/-- Copying a slot delivers what the last reservation left in it. -/
lemma faithful_popCopy {i : ℕ} (hpc : s.consumer = .copying i)
    (hlocks : LockTable s.held s.buffer.busy) (hpop : PopCommitted s)
    (hcon : Contents traceMessageCapacity s h) (hau : Authorship s h) :
    ∀ d ∈ (h.record s .popCopy).deliveries, d ∈ h.deliveries ∨
      (d.slot = i ∧ d.started = h.started i ∧ d.committed = h.committed i ∧
        Faithful traceMessageCapacity d) := by
  have hslot : s.consumer.slot = i := by rw [hpc]; rfl
  have hset := hpop.hasData i (by rw [hpc]; rfl)
  have hcontent := hau.committed i hset (by simp [hpc])
    (not_marked hlocks (by rw [hpc]; rfl))
  intro d hd
  simp only [History.record, List.mem_append, List.mem_singleton, hslot] at hd
  rcases hd with hd | rfl
  · exact .inl hd
  · have hshows := hcontent ▸ hcon i
    exact .inr ⟨rfl, rfl, rfl, by
      simpa [RingSystem.popped_of_copying hpc, TraceMessage.text_assign, Draft.followedBy] using
        hshows.text.text_eq,
      by simpa [RingSystem.popped_of_copying hpc] using hshows.severity,
      by simpa [RingSystem.popped_of_copying hpc] using hshows.timestamp⟩

/-- **What a delivered message says**, in every interleaving. -/
theorem faithful_of_reachable {x : RingSystem capacity Pid × History Pid}
    (hx : (tracedRing capacity traceMessageCapacity Pid).Reachable x) :
    ∀ d ∈ x.2.deliveries, Faithful traceMessageCapacity d := by
  refine tracedRing_invariant
    (I := fun _ h => ∀ d ∈ h.deliveries, Faithful traceMessageCapacity d) hx (by simp) ?_
  intro s h a s' hreach hall hstep d hd
  cases hstep with
  | popCopy hpc =>
      rcases faithful_popCopy hpc (lockTable_of_reachable hreach.fst)
        (popCommitted_of_reachable hreach.fst) (contents_of_reachable hreach)
        (authorship_of_reachable hreach) d hd with hd | ⟨-, -, -, hd⟩
      · exact hall d hd
      · exact hd
  | _ => exact hall d hd

/-- The copy of `pop` delivers what the consumer's message shows after it. -/
lemma delivered_popCopy {x x' : RingSystem capacity Pid × History Pid}
    (hstep : (tracedRing capacity traceMessageCapacity Pid).step x .popCopy = some x') :
    ∃ d : Delivery, x'.2.deliveries = x.2.deliveries ++ [d] ∧ d.shown = x'.1.message.shown := by
  obtain ⟨hs, hrec⟩ := tracedRing_step hstep
  rw [hrec]
  exact x.2.deliveries_popCopy hs

/-- The consumer's message shows the last delivery. -/
def ShowsLast (s : RingSystem capacity Pid) (h : History Pid) : Prop :=
  ∀ d ∈ h.deliveries.getLast?, s.message.shown = d.shown

lemma Step.message_eq (hstep : Step s a s') (ha : a ≠ .popCopy) : s'.message = s.message := by
  cases hstep <;> first | rfl | exact absurd rfl ha

lemma Step.showsLast (hstep : Step s a s') (hlast : ShowsLast s h) :
    ShowsLast s' (h.record s a) := by
  by_cases ha : a = .popCopy
  · subst ha
    obtain ⟨d, hd, hshown⟩ := h.deliveries_popCopy hstep
    intro d' hd'
    obtain rfl : d = d' := by simpa [hd] using hd'
    exact hshown.symm
  · intro d hd
    rw [h.deliveries_record ha] at hd
    rw [hstep.message_eq ha]
    exact hlast d hd

theorem showsLast_of_reachable {x : RingSystem capacity Pid × History Pid}
    (hx : (tracedRing capacity traceMessageCapacity Pid).Reachable x) : ShowsLast x.1 x.2 :=
  tracedRing_invariant hx (fun _ _ _ => by simp [ShowsLast])
    fun _ _ _ _ _ hlast hstep => hstep.showsLast hlast

/-! ## Slots handed out empty -/

/-- The action does not hand out a slot with text in it. -/
def handsOutEmpty (x : RingSystem capacity Pid × History Pid) : Action Pid → Bool
  | .markData p => (x.1.buffer.elements (x.1.producers p).slot).writeIndex = 0
  | _ => true

/-- Every reservation so far, delivered or not, started without text. -/
structure StartedEmpty (traceMessageCapacity : ℕ) (h : History Pid) : Prop where
  slots : ∀ i, (h.started i).text.take traceMessageCapacity = []
  deliveries : ∀ d ∈ h.deliveries, d.started.text.take traceMessageCapacity = []

lemma Step.startedEmpty (hstep : Step s a s') (hcon : Contents traceMessageCapacity s h)
    (hG : handsOutEmpty (s, h) a = true) (hempty : StartedEmpty traceMessageCapacity h) :
    StartedEmpty traceMessageCapacity (h.record s a) := by
  have hmark : ∀ p, a = .markData p →
      StartedEmpty traceMessageCapacity (h.record s (.markData p)) := by
    rintro p rfl
    refine ⟨fun i => ?_, hempty.deliveries⟩
    by_cases hi : i = (s.producers p).slot
    · have hwrite : (s.buffer.elements (s.producers p).slot).writeIndex = 0 := by
        simpa [handsOutEmpty] using hG
      have hlen := (hcon (s.producers p).slot).text.write
      simpa [History.record, hi] using List.length_eq_zero_iff.mp (hlen.symm.trans hwrite)
    · simpa [History.record, hi] using hempty.slots i
  cases hstep with
  | @markData p _ _ _ | @markOverrun p _ _ _ => exact hmark p rfl
  | popCopy hpc =>
      refine ⟨hempty.slots, fun d hd => ?_⟩
      simp only [History.record, List.mem_append, List.mem_singleton] at hd
      rcases hd with hd | rfl
      · exact hempty.deliveries d hd
      · exact hempty.slots _
  | headInc | headIncOver | headMask | producerLock | producerSpin | producerWait
  | overflowInc | resettableInc | edit | commitPush | popFound | popNothing | consumerLock
  | consumerSpin | consumerWait | popRetest | popGone | popRecycle | popClear | popUnlock
  | resetLoad | resetStore => exact ⟨hempty.slots, hempty.deliveries⟩

/-- **Deliveries are exact where slots are handed out empty.**  In every run in which no
reservation passes its test-and-set on a slot with text in it, each delivered message that
fits is the text, and where one was written the severity, of the one reservation that last
committed the slot.  What is delivered is what the consumer's message shows after the copy of
`pop`, and it shows the last delivery until the next one. -/
theorem delivery_exact {x : RingSystem capacity Pid × History Pid}
    (hx : ((tracedRing capacity traceMessageCapacity Pid).restrict
      fun x a => handsOutEmpty x a).Reachable x) :
    (∀ d ∈ x.2.deliveries, d.committed.text.length ≤ traceMessageCapacity →
      d.text = d.committed.text ∧ ∀ v, d.committed.severity = some v → d.severity = v) ∧
    (∀ x', (tracedRing capacity traceMessageCapacity Pid).step x .popCopy = some x' →
      ∃ d : Delivery, x'.2.deliveries = x.2.deliveries ++ [d] ∧
        d.shown = x'.1.message.shown) ∧
    ∀ d ∈ x.2.deliveries.getLast?, x.1.message.shown = d.shown := by
  have hempty : StartedEmpty traceMessageCapacity x.2 := by
    refine tracedRing_restrict_invariant (I := fun _ h => StartedEmpty traceMessageCapacity h)
      hx (fun _ _ _ => ⟨by simp, by simp⟩) ?_
    intro s h a s' hreach hempty hG hstep
    exact hstep.startedEmpty (contents_of_reachable hreach) hG hempty
  refine ⟨fun d hd hfits => ?_, fun x' hstep => delivered_popCopy hstep,
    showsLast_of_reachable hx.of_restrict⟩
  have hfaithful := faithful_of_reachable hx.of_restrict d hd
  constructor
  · have hstarted := hempty.deliveries d hd
    rw [hfaithful.text, List.take_append, hstarted, List.nil_append]
    rcases List.take_eq_nil_iff.mp hstarted with hzero | hnil
    · -- no room at all: the committed text is empty too
      have : d.committed.text = [] := List.length_eq_zero_iff.mp (by omega)
      simp [this]
    · simpa [hnil] using List.take_of_length_le hfits
  · intro v hv
    simp [hfaithful.severity, Draft.followedBy, hv]

/-- Two slots, three pushes with a text and a severity each, then a pop. -/
def overrunThenPop : List (Action Bool) :=
  [.headInc true, .producerLock true, .markData true,
    .edit true (.write ⟨[97], by decide⟩), .edit true (.setSeverity 1), .commitPush true,
    .headInc true, .producerLock true, .markData true,
    .edit true (.write ⟨[98], by decide⟩), .edit true (.setSeverity 1), .commitPush true,
    .headInc true, .headMask true, .producerLock true, .markData true, .overflowInc true,
    .resettableInc true, .edit true (.write ⟨[99], by decide⟩), .edit true (.setSeverity 1),
    .commitPush true,
    .popTest, .consumerLock, .popRetest, .popCopy, .popRecycle, .popClear, .popUnlock]

/-- On an overrun the old text is delivered in front of the new: "ac" for a reservation that
wrote "c". -/
theorem overrun_appends :
    ∃ x, (tracedRing 2 4 Bool).exec (.start 4 (fun _ _ => 7) .empty fun _ => 7, {})
        overrunThenPop = some x ∧ x.1.message.text = [97, 99] ∧
      ∃ d ∈ x.2.deliveries, d.committed.text = [99] ∧ d.text = [97, 99] := by
  have h : ((tracedRing 2 4 Bool).exec (.start 4 (fun _ _ => 7) .empty fun _ => 7, {})
      overrunThenPop).any (fun x => decide (x.1.message.text = [97, 99] ∧
        ∃ d ∈ x.2.deliveries, d.committed.text = [99] ∧ d.text = [97, 99])) = true := by decide
  obtain ⟨x, hx, hd⟩ := (Option.any_eq_true _ _).mp h
  exact ⟨x, hx, of_decide_eq_true hd⟩

/-- The second lap of a slot that was popped in between. -/
def pushPopPush : List (Action Bool) :=
  [.headInc true, .producerLock true, .markData true,
    .edit true (.write ⟨[97], by decide⟩), .edit true (.setSeverity 1), .commitPush true,
    .popTest, .consumerLock, .popRetest, .popCopy, .popRecycle, .popClear, .popUnlock,
    .headInc false, .headMask false, .producerLock false, .markData false,
    .edit false (.write ⟨[98], by decide⟩), .edit false (.setSeverity 2), .commitPush false,
    .popTest, .consumerLock, .popRetest, .popCopy, .popRecycle, .popClear, .popUnlock]

theorem delivery_exact_pushPopPush :
    ∃ x, ((tracedRing 1 4 Bool).restrict fun x a => handsOutEmpty x a).exec
        (.start 4 (fun _ _ => 7) .empty fun _ => 7, {}) pushPopPush = some x ∧
      x.2.deliveries.map Delivery.text = [[97], [98]] ∧ x.1.message.text = [98] ∧
      (∀ d ∈ x.2.deliveries, d.committed.text.length ≤ 4 →
        d.text = d.committed.text ∧ ∀ v, d.committed.severity = some v → d.severity = v) ∧
      ∀ d ∈ x.2.deliveries.getLast?, x.1.message.shown = d.shown := by
  have h : (((tracedRing 1 4 Bool).restrict fun x a => handsOutEmpty x a).exec
      (.start 4 (fun _ _ => 7) .empty fun _ => 7, {}) pushPopPush).any
        (fun x => x.2.deliveries.map Delivery.text = [[97], [98]] ∧ x.1.message.text = [98]) =
          true := by decide
  obtain ⟨x, hx, htexts⟩ := (Option.any_eq_true _ _).mp h
  obtain ⟨htexts, hmessage⟩ := of_decide_eq_true htexts
  obtain ⟨hexact, -, hlast⟩ :=
    delivery_exact (Machine.reachable_of_exec ⟨⟨_, _, _, rfl⟩, rfl⟩ hx)
  exact ⟨x, hx, htexts, hmessage, hexact, hlast⟩

end

end InfiTracing
