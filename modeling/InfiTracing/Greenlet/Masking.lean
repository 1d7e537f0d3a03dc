import InfiTracing.Greenlet.Suspension

/-!
# Suspension as a mask

A run with suspensions beside the run of the same events without any.  The two share the stacks
and the depths (`Session.Shadows`), and the second logs by the rule of `Activation.ToBeLogged`.
The first, where the counter is positive, goes by its own threshold; so the records agree exactly
where that threshold is right about the stack (`ThresholdRight`).

What the threshold of the first run says is told from its calls and returns
(`Session.Sighted`): which frames were called while tracing was suspended, and at which heights
the last event that tracing has seen was one of a `NO_TRACE_NESTED` frame.  A frame called while
tracing was suspended does harm where it is a `NO_TRACE_NESTED` one, which then suppresses
nothing, and where it stands in the place of one, which then goes on suppressing; the two may
make up for each other (`Unstraddled`).
-/

namespace InfiTracing

open Framework

/-! ## The comparison -/

/-- An event of a suspendable session: whether tracing is enabled then, and what is logged. -/
structure Outcome where
  enabled : Bool
  record : Option LogRecord
  deriving DecidableEq

/-- What is seen of an action. -/
def outcome (filterFunc : Filter) (gids : Finset UInt64) (s : Session) (a : SessionAction) :
    Option Outcome := do
  let e ← a.event?
  let record ← eventRecord filterFunc gids s e
  some ⟨0 < s.tstore.enabled, record⟩

/-- What is logged with suspensions is what is logged without, where tracing is enabled. -/
def Outcome.Masks (x : Outcome) (record : Option LogRecord) : Prop :=
  x.record = if x.enabled then record else none

instance : DecidableRel Outcome.Masks := fun x record =>
  inferInstanceAs (Decidable (x.record = if x.enabled then record else none))

/-- If tracing is enabled and the frame of the event has a level to be logged, the threshold is
right about the stack: it lets the event pass exactly if no frame below, called in the session,
suppresses what it calls. -/
def ThresholdRight (filterFunc : Filter) (gids : Finset UInt64) (s : Session)
    (a : SessionAction) : Prop :=
  ∀ e ∈ a.event?, ∀ o ∈ occurs gids s.stackOf e, 0 < s.tstore.enabled →
    o.activation.level filterFunc ≠ noTrace → o.activation.level filterFunc ≠ noTraceNested →
      (((s.tstore.storageOrNew o.gid o.back).countDepth o.what).1 ≤
          (s.tstore.storageOrNew o.gid o.back).noTraceFromDepth ↔
        ∀ y ∈ o.below, ¬ y.Suppresses filterFunc)

instance (filterFunc : Filter) (gids : Finset UInt64) (s : Session) (a : SessionAction) :
    Decidable (ThresholdRight filterFunc gids s a) :=
  inferInstanceAs (Decidable (∀ e ∈ a.event?, ∀ o ∈ occurs gids s.stackOf e, _ → _ → _ → _))

/-! ## What tracing has missed -/

/-- What tracing has missed of a greenlet and what it has seen, by height on the stack. -/
structure Sight where
  /-- The frame at this height was called while tracing was suspended. -/
  missed : ℕ → Bool := fun _ => false
  /-- Of the calls and returns made while tracing was enabled, the last one at this height or
  lower was one at this height, of a `NO_TRACE_NESTED` frame. -/
  nested : ℕ → Bool := fun _ => false

/-- An action, noted.  With the last frame of the greenlet all that was noted of it goes. -/
def Sight.note (filterFunc : Filter) (gids : Finset UInt64) (s : Session) (a : SessionAction)
    (sight : Sight) : Sight :=
  match a.event?.bind (occurs gids s.stackOf) with
  | none => sight
  | some o =>
      if o.what = .ret ∧ o.below = [] then {}
      else if 0 < s.tstore.enabled then
        { missed := Function.update sight.missed o.below.length false
          nested := markHeight sight.nested o.below.length
            (o.activation.level filterFunc = noTraceNested) }
      else { sight with missed := Function.update sight.missed o.below.length true }

/-- The session of a greenlet that suspends and resumes tracing, with what tracing has missed. -/
def sightedMachine (filterFunc : Filter) (traceLevelLruCapacity : ℕ) (gid : UInt64)
    (codes : Finset UInt64) : Machine (Session × Sight) SessionAction :=
  ((suspendableMachine filterFunc traceLevelLruCapacity {gid}).confine
    (Session.Bounded {gid} codes)).withHistory {} (Sight.note filterFunc {gid})

lemma lowInt_injOn_singleton (gid : UInt64) :
    Set.InjOn lowInt (({gid} : Finset UInt64) : Set UInt64) := by
  rw [Finset.coe_singleton]
  exact Set.injOn_singleton _ _

/-- The frames below that of an event, with their heights. -/
def Occurrence.places (o : Occurrence) : List (Activation × ℕ) := o.below.reverse.zipIdx

/-- If no `NO_TRACE_NESTED` frame below was called while tracing was enabled: of the frames below
that were called while it was suspended, one is a `NO_TRACE_NESTED` frame exactly if one is in the
place of a `NO_TRACE_NESTED` frame. -/
def Sight.Balanced (filterFunc : Filter) (sight : Sight) (o : Occurrence) : Prop :=
  (∀ y ∈ o.places, y.1.Suppresses filterFunc → sight.missed y.2 = true) →
    ((∃ y ∈ o.places, sight.missed y.2 = true ∧ y.1.Suppresses filterFunc) ↔
      ∃ y ∈ o.places, sight.missed y.2 = true ∧ sight.nested y.2 = true)

instance (filterFunc : Filter) (sight : Sight) (o : Occurrence) :
    Decidable (sight.Balanced filterFunc o) :=
  inferInstanceAs (Decidable ((∀ y ∈ o.places, _ → _) → (_ ↔ _)))

/-- What has been missed below an event is balanced, if tracing is enabled and the frame of the
event has a level to be logged. -/
def Unstraddled (filterFunc : Filter) (gids : Finset UInt64) (p : Session × Sight)
    (a : SessionAction) : Prop :=
  ∀ e ∈ a.event?, ∀ o ∈ occurs gids p.1.stackOf e, 0 < p.1.tstore.enabled →
    o.activation.level filterFunc ≠ noTrace → o.activation.level filterFunc ≠ noTraceNested →
      p.2.Balanced filterFunc o

instance (filterFunc : Filter) (gids : Finset UInt64) (p : Session × Sight)
    (a : SessionAction) : Decidable (Unstraddled filterFunc gids p a) :=
  inferInstanceAs (Decidable (∀ e ∈ a.event?, ∀ o ∈ occurs gids p.1.stackOf e, _ → _ → _ → _))

section Sighted

variable {filterFunc : Filter} {gids codes : Finset UInt64} {capacity : ℕ} {s s' : Session}
  {sight : Sight} {e : GreenletEvent} {o : Occurrence} {gid : UInt64}

/-- The threshold of a storage heeds the marks, at depths counted from 1 or less. -/
structure GreenletStorage.Heeding (gstore : GreenletStorage) (stack : List Activation)
    (nested : ℕ → Bool) : Prop where
  depth_le : gstore.depth ≤ stack.length
  heeds : Heeds (gstore.depth - stack.length + 1) noTraceFromDepthDisabled
    gstore.noTraceFromDepth nested

variable (capacity) in
/-- The event of a step between bounded states is within the bounds. -/
lemma Session.Bounded.of_step (hbounded : s.Bounded gids codes) (hbounded' : s'.Bounded gids codes)
    (hstep : (sessionMachine filterFunc capacity gids).step s e = some s')
    (ho : occurs gids s.stackOf e = some o) :
    o.frame.fCode ∈ codes ∧ (o.below.length : ℤ) + 1 < noTraceFromDepthDisabled := by
  obtain ⟨o', record, ho', -, hstack⟩ := sessionMachine_step_eq_some.mp hstep
  obtain rfl := Option.some.inj (ho.symm.trans ho')
  obtain ⟨tstore', stackOf'⟩ := s'
  obtain rfl := hstack
  exact hbounded.occurrence ho hbounded'

/-- While tracing is suspended an event is counted, and that is all. -/
lemma GreenletStorage.handle_of_suspended {gstore : GreenletStorage} {enabled : ℤ} {tid : UInt64}
    {what : PyTrace} {frame : Frame} (h : ¬ 0 < enabled) :
    gstore.handle filterFunc enabled tid what frame = some ((gstore.countDepth what).2, none) :=
  if_neg h

/-- An event moves the depth with the stack. -/
lemma countDepth_sub_length (ho : occurs gids s.stackOf e = some o) (gstore : GreenletStorage)
    (logged : Bool) :
    (gstore.countDepth o.what).2.depth - ((o.after logged).length : ℤ) =
      gstore.depth - (s.stackOf o.gid).length := by
  rcases (occurs_cases ho).2 with ⟨hwhat, -, hstack, -⟩ | ⟨hwhat, hstack⟩
  · simp only [GreenletStorage.countDepth, Occurrence.after, hwhat, hstack, reduceCtorEq, if_true,
      if_false, List.length_cons]
    omega
  · simp only [GreenletStorage.countDepth, Occurrence.after, hwhat, hstack, reduceCtorEq, if_true,
      if_false, List.length_cons]
    omega

namespace GreenletStorage.Heeding

variable {gstore : GreenletStorage} {nested : ℕ → Bool}
  (h : gstore.Heeding (s.stackOf o.gid) nested) (ho : occurs gids s.stackOf e = some o)

include h ho

/-- An event is visible exactly if no lower height is marked. -/
lemma visible_iff (hheight : (o.below.length : ℤ) + 1 < noTraceFromDepthDisabled) :
    (gstore.countDepth o.what).1 ≤ gstore.noTraceFromDepth ↔
      ∀ t < o.below.length, nested t = false := by
  have hbase := h.depth_le
  rw [depth_eq ho gstore]
  exact h.heeds _ (by omega)

/-- An event that is not seen leaves the marks. -/
lemma suspended (logged : Bool) :
    (gstore.countDepth o.what).2.Heeding (o.after logged) nested := by
  have hbase := countDepth_sub_length ho gstore logged
  have hdepth := h.depth_le
  refine ⟨by omega, ?_⟩
  rw [hbase, countDepth_noTraceFromDepth]
  exact h.heeds

/-- One that is seen sets the mark of its height. -/
lemma observed (hheight : (o.below.length : ℤ) + 1 < noTraceFromDepthDisabled) (lru : Lru)
    (logged : Bool) :
    GreenletStorage.Heeding
      { (gstore.countDepth o.what).2 with
        noTraceFromDepth := nextThreshold noTraceFromDepthDisabled (gstore.countDepth o.what).1
          gstore.noTraceFromDepth (o.activation.level filterFunc = noTraceNested)
        traceLevelLru := lru }
      (o.after logged)
      (markHeight nested o.below.length (o.activation.level filterFunc = noTraceNested)) := by
  have hbase := countDepth_sub_length ho gstore logged
  have hdepth := h.depth_le
  refine ⟨by dsimp only; omega, ?_⟩
  dsimp only
  rw [hbase, depth_eq ho gstore]
  exact h.heeds.observe (by omega)

end GreenletStorage.Heeding

/-- The threshold of the greenlet heeds what has been noted of it; and what has been noted of a
frame whose call was not missed is whether it suppresses. -/
structure Session.Sighted (filterFunc : Filter) (gid : UInt64) (s : Session) (sight : Sight) :
    Prop where
  heeding : ∀ gstore, s.tstore.storageOf gid = some gstore →
    gstore.Heeding (s.stackOf gid) sight.nested
  unseen : s.tstore.storageOf gid = none → ∀ t, sight.nested t = false
  frames : ∀ t y, (s.stackOf gid).reverse[t]? = some y → sight.missed t = false →
    (sight.nested t = true ↔ y.Suppresses filterFunc)

lemma Session.sighted_of_init (hinit : (sessionMachine filterFunc capacity {gid}).init s) :
    s.Sighted filterFunc gid {} := by
  obtain ⟨⟨id, hid⟩, -, hunseen⟩ := hinit
  refine ⟨fun gstore hstorage => by simp [hid] at hstorage, fun _ _ => rfl, fun t y hy _ => ?_⟩
  have hcalled := hunseen gid (Finset.mem_singleton_self gid) y
    (List.mem_reverse.mp (List.mem_of_getElem? hy))
  simp [Activation.Suppresses, hcalled]

/-- With a storage, what has been noted is checked on that storage. -/
lemma Session.Sighted.of_storage {gstore : GreenletStorage}
    (hstorage : s.tstore.storageOf gid = some gstore)
    (hheeding : gstore.Heeding (s.stackOf gid) sight.nested)
    (hframes : ∀ t y, (s.stackOf gid).reverse[t]? = some y → sight.missed t = false →
      (sight.nested t = true ↔ y.Suppresses filterFunc)) :
    s.Sighted filterFunc gid sight := by
  refine ⟨fun gstore' hgstore => ?_, fun hnone => ?_, hframes⟩
  · obtain rfl := Option.some.inj (hstorage.symm.trans hgstore)
    exact hheeding
  · rw [hstorage] at hnone
    cases hnone

/-- The frames below that of an event are those at the lower heights of the stack. -/
lemma getElem?_reverse_of_occurs (ho : occurs gids s.stackOf e = some o) {t : ℕ} {y : Activation}
    (hy : o.below.reverse[t]? = some y) : (s.stackOf o.gid).reverse[t]? = some y := by
  rcases (occurs_cases ho).2 with ⟨-, -, hstack, -⟩ | ⟨-, hstack⟩
  · rwa [hstack]
  · rw [hstack, List.reverse_cons]
    rwa [List.getElem?_append_left (List.getElem?_eq_some_iff.mp hy).1]

lemma mem_places_iff {y : Activation × ℕ} :
    y ∈ o.places ↔ o.below.reverse[y.2]? = some y.1 := List.mem_zipIdx_iff_getElem?

/-- Two ways of telling whether anything below suppresses agree exactly if, where nothing was
seen to, they agree on what was missed. -/
lemma agree_iff_of_missed {α : Type*} {l : List α} {missed nested : α → Bool}
    {suppresses : α → Prop}
    (h : ∀ y ∈ l, missed y = false → (nested y = true ↔ suppresses y)) :
    ((∀ y ∈ l, nested y = false) ↔ ∀ y ∈ l, ¬ suppresses y) ↔
      ((∀ y ∈ l, suppresses y → missed y = true) →
        ((∃ y ∈ l, missed y = true ∧ suppresses y) ↔
          ∃ y ∈ l, missed y = true ∧ nested y = true)) := by
  by_cases hseen : ∀ y ∈ l, suppresses y → missed y = true
  · have hsuppresses : (∀ y ∈ l, ¬ suppresses y) ↔
        ¬ ∃ y ∈ l, missed y = true ∧ suppresses y := by
      push Not
      exact forall₂_congr fun y hy => ⟨fun hnot _ => hnot, fun hnot hs => hnot (hseen y hy hs) hs⟩
    have hnested : (∀ y ∈ l, nested y = false) ↔
        ¬ ∃ y ∈ l, missed y = true ∧ nested y = true := by
      push Not
      refine forall₂_congr fun y hy => ?_
      cases hmissed : missed y with
      | true => simp
      | false =>
          have hclear : nested y ≠ true := fun hn => by
            have hmiss := hseen y hy ((h y hy hmissed).mp hn)
            rw [hmissed] at hmiss
            cases hmiss
          simpa using hclear
    rw [hsuppresses, hnested, not_iff_not]
    exact ⟨fun hiff _ => hiff.symm, fun hiff => (hiff hseen).symm⟩
  · refine iff_of_true ?_ fun hall => absurd hall hseen
    push Not at hseen
    obtain ⟨y, hy, hsuppress, hmissed⟩ := hseen
    have hmissed' : missed y = false := by simpa using hmissed
    refine iff_of_false (fun hall => ?_) fun hall => hall y hy hsuppress
    have hn := (h y hy hmissed').mpr hsuppress
    rw [hall y hy] at hn
    cases hn

namespace Session.Sighted

variable (h : s.Sighted filterFunc gid sight)

include h

/-- The storage an event starts from, old or new, heeds what has been noted. -/
lemma storageOrNew (ho : occurs {gid} s.stackOf e = some o) :
    (s.tstore.storageOrNew o.gid o.back).Heeding (s.stackOf o.gid) sight.nested := by
  obtain rfl : o.gid = gid := Finset.mem_singleton.mp (occurs_cases ho).1
  unfold ThreadStorage.storageOrNew
  cases hstorage : s.tstore.storageOf o.gid with
  | some gstore => exact h.heeding gstore hstorage
  | none =>
      have hlen : (o.back.length : ℤ) ≤ (s.stackOf o.gid).length := by
        rw [Occurrence.back, List.length_map]
        rcases (occurs_cases ho).2 with ⟨-, -, hstack, -⟩ | ⟨-, hstack⟩ <;> simp [hstack]
      exact ⟨hlen, heeds_limit (h.unseen hstorage)⟩

/-- **What makes the threshold right.** -/
lemma thresholdRight_iff
    (hheight : ∀ o ∈ occurs {gid} s.stackOf e,
      (o.below.length : ℤ) + 1 < noTraceFromDepthDisabled) :
    ThresholdRight filterFunc {gid} s (.event e) ↔
      Unstraddled filterFunc {gid} (s, sight) (.event e) := by
  simp only [ThresholdRight, Unstraddled, SessionAction.event?, Option.mem_some_iff, forall_eq']
  refine forall₂_congr fun o ho => forall₃_congr fun _ _ _ => ?_
  have hgid : o.gid = gid := Finset.mem_singleton.mp (occurs_cases ho).1
  rw [(h.storageOrNew ho).visible_iff ho (hheight o ho)]
  have hmarks : (∀ t < o.below.length, sight.nested t = false) ↔
      ∀ y ∈ o.places, sight.nested y.2 = false := by
    constructor
    · intro hall y hy
      have hlt := (List.getElem?_eq_some_iff.mp (mem_places_iff.mp hy)).1
      exact hall y.2 (by simpa using hlt)
    · intro hall t ht
      have hlt : t < o.below.reverse.length := by simpa using ht
      exact hall (o.below.reverse[t], t) (mem_places_iff.mpr (List.getElem?_eq_getElem hlt))
  have hbelow : (∀ y ∈ o.below, ¬ y.Suppresses filterFunc) ↔
      ∀ y ∈ o.places, ¬ y.1.Suppresses filterFunc := by
    constructor
    · intro hall y hy
      exact hall y.1 (List.mem_reverse.mp (List.mem_of_getElem? (mem_places_iff.mp hy)))
    · intro hall y hy
      obtain ⟨t, ht⟩ := List.mem_iff_getElem?.mp (List.mem_reverse.mpr hy)
      exact hall (y, t) (mem_places_iff.mpr ht)
  rw [hmarks, hbelow]
  have hframes : ∀ y ∈ o.places, sight.missed y.2 = false →
      (sight.nested y.2 = true ↔ y.1.Suppresses filterFunc) := fun y hy hmissed =>
    h.frames y.2 y.1 (hgid ▸ getElem?_reverse_of_occurs ho (mem_places_iff.mp hy)) hmissed
  exact agree_iff_of_missed hframes

/-- The counter has no part in it. -/
lemma withEnabled (enabled : ℤ) :
    Sighted filterFunc gid { s with tstore := { s.tstore with enabled := enabled } } sight :=
  ⟨h.heeding, h.unseen, h.frames⟩

/-- What has been noted of the frames goes with the stack. -/
lemma frames_update (ho : occurs {gid} s.stackOf e = some o) (logged : Bool) {sight' : Sight}
    (hbelow : ∀ t < o.below.length,
      sight'.missed t = sight.missed t ∧ sight'.nested t = sight.nested t)
    (hown : sight'.missed o.below.length = false →
      (sight'.nested o.below.length = true ↔ o.activation.level filterFunc = noTraceNested))
    (t : ℕ) (y : Activation) (hy : (o.after logged).reverse[t]? = some y)
    (hmissed : sight'.missed t = false) : sight'.nested t = true ↔ y.Suppresses filterFunc := by
  have hgid : o.gid = gid := Finset.mem_singleton.mp (occurs_cases ho).1
  have hold : ∀ z, o.below.reverse[t]? = some z →
      (sight'.nested t = true ↔ z.Suppresses filterFunc) := by
    intro z hz
    obtain ⟨hm, hn⟩ := hbelow t (by simpa using (List.getElem?_eq_some_iff.mp hz).1)
    rw [hn]
    exact h.frames t z (hgid ▸ getElem?_reverse_of_occurs ho hz) (hm ▸ hmissed)
  rcases what_of_occurs ho with hwhat | hwhat
  · simp only [Occurrence.after, hwhat, reduceCtorEq, if_false, List.reverse_cons] at hy
    rcases Nat.lt_or_ge t o.below.length with hlt | hge
    · exact hold y (by rwa [List.getElem?_append_left (by simpa using hlt)] at hy)
    · -- the frame called now
      rw [List.getElem?_append_right (by simpa using hge), List.length_reverse] at hy
      obtain ⟨hzero, rfl⟩ := List.getElem?_eq_some_iff.mp hy
      obtain rfl : t = o.below.length := by
        rw [List.length_singleton] at hzero
        omega
      simp only [Nat.sub_self, List.getElem_cons_zero]
      rw [hown hmissed]
      exact ⟨And.intro rfl, And.right⟩
  · simp only [Occurrence.after, hwhat, if_true] at hy
    exact hold y hy

variable (capacity) in
/-- **One event.** -/
lemma event (hcodes : Set.InjOn lowInt (codes : Set UInt64)) (hcons : s.Consistent {gid})
    (hcaches : ∀ o ∈ occurs {gid} s.stackOf e, CachesIn codes filterFunc
      (s.tstore.storageOrNew o.gid o.back).traceLevelLru)
    (hbounded : s.Bounded {gid} codes) (hbounded' : s'.Bounded {gid} codes)
    (hstep : (sessionMachine filterFunc capacity {gid}).step s e = some s') :
    s'.Sighted filterFunc gid (sight.note filterFunc {gid} s (.event e)) := by
  obtain ⟨o, gstore, record, ho, -, hhandle, hhandled, hstack⟩ :=
    hcons.exists_handled (lowInt_injOn_singleton gid) hstep
  obtain rfl : o.gid = gid := Finset.mem_singleton.mp (occurs_cases ho).1
  have hwithin := hbounded.of_step capacity hbounded' hstep ho
  have hafter : s'.stackOf o.gid = o.after record.isSome := by
    rw [hstack, Function.update_self]
  have hheeding := h.storageOrNew ho
  have hstorage := hhandled.storage
  simp only [Sight.note, SessionAction.event?, Option.bind_some, ho]
  by_cases hlast : o.what = .ret ∧ o.below = []
  · -- the storage is deleted
    rw [if_pos hlast]
    rw [if_pos ⟨hlast.1, List.map_eq_nil_iff.mpr hlast.2⟩] at hstorage
    refine ⟨fun gstore' hgstore => ?_, fun _ _ => rfl, fun t y hy _ => ?_⟩
    · rw [hstorage] at hgstore
      cases hgstore
    · rw [hafter] at hy
      simp [Occurrence.after, hlast.1, hlast.2] at hy
  · have hstays : ¬ (o.what = .ret ∧ o.back = []) := fun hback =>
      hlast ⟨hback.1, List.map_eq_nil_iff.mp hback.2⟩
    rw [if_neg hlast]
    rw [if_neg hstays] at hstorage
    by_cases henabled : 0 < s.tstore.enabled
    · rw [if_pos henabled]
      obtain ⟨lru, -, hevent⟩ := GreenletStorage.exists_handle hcodes (hcaches o ho)
        hwithin.1 henabled s.tstore.id o.what
      obtain ⟨rfl, -⟩ := Prod.mk.inj (Option.some.inj (hevent.symm.trans hhandle))
      refine .of_storage hstorage ?_ ?_
      · rw [hafter]
        exact hheeding.observed ho hwithin.2 lru _
      · rw [hafter]
        exact h.frames_update ho _
          (fun t ht => ⟨Function.update_of_ne ht.ne _ _, if_pos ht⟩) fun _ => by
            simp [markHeight]
    · rw [if_neg henabled]
      rw [GreenletStorage.handle_of_suspended henabled] at hhandle
      obtain ⟨rfl, -⟩ := Prod.mk.inj (Option.some.inj hhandle)
      refine .of_storage hstorage ?_ ?_
      · rw [hafter]
        exact hheeding.suspended ho _
      · rw [hafter]
        exact h.frames_update ho _ (fun t ht => ⟨Function.update_of_ne ht.ne _ _, rfl⟩)
          fun hseen => by simp at hseen

end Session.Sighted

end Sighted

/-! ## Two runs of the same events -/

/-- The two runs share stacks and depths; the second is levelled, and the caches of the first
hold levels of the filter. -/
structure Session.Shadows (filterFunc : Filter) (gids codes : Finset UInt64) (s t : Session) :
    Prop where
  stack : Stacks.Same gids s.stackOf t.stackOf
  depth : ∀ gid ∈ gids, (s.tstore.storageOf gid).map GreenletStorage.depth =
    (t.tstore.storageOf gid).map GreenletStorage.depth
  caches : ∀ gid ∈ gids, ∀ gstore, s.tstore.storageOf gid = some gstore →
    CachesIn codes filterFunc gstore.traceLevelLru
  id : s.tstore.id = t.tstore.id
  capacity : s.tstore.traceLevelLruCapacity = t.tstore.traceLevelLruCapacity
  consistent : t.Consistent gids
  levelled : t.Levelled filterFunc gids codes

namespace GreenletStorage

variable {filterFunc : Filter} {codes : Finset UInt64} {gstore gstore' : GreenletStorage}
  {enabled : ℤ} {tid : UInt64} {what : PyTrace} {frame : Frame} {record : Option LogRecord}

lemma countDepth_congr (h : gstore.depth = gstore'.depth) (what : PyTrace) :
    (gstore.countDepth what).1 = (gstore'.countDepth what).1 ∧
      (gstore.countDepth what).2.depth = (gstore'.countDepth what).2.depth := by
  unfold countDepth
  rw [h]
  split_ifs <;> exact ⟨rfl, rfl⟩

/-- A cache of levels stays one. -/
lemma cachesIn_of_handle (hcodes : Set.InjOn lowInt (codes : Set UInt64))
    (hcaches : CachesIn codes filterFunc gstore.traceLevelLru) (hcode : frame.fCode ∈ codes)
    (h : gstore.handle filterFunc enabled tid what frame = some (gstore', record)) :
    CachesIn codes filterFunc gstore'.traceLevelLru := by
  by_cases henabled : 0 < enabled
  · obtain ⟨lru, hlru, hhandle⟩ := exists_handle hcodes hcaches hcode henabled tid what
    obtain ⟨rfl, -⟩ := Prod.mk.inj (Option.some.inj (hhandle.symm.trans h))
    exact hlru
  · rw [handle_of_suspended henabled] at h
    obtain ⟨rfl, -⟩ := Prod.mk.inj (Option.some.inj h)
    rwa [countDepth_traceLevelLru]

end GreenletStorage

/-- What is logged by a threshold and by a rule is the same exactly if they agree where the
level is one to be logged. -/
lemma record_eq_iff {visible traced listed right : Prop} [Decidable (visible ∧ traced ∧ listed)]
    [Decidable (traced ∧ listed ∧ right)] (r : LogRecord) :
    ((if visible ∧ traced ∧ listed then some r else none) =
        if traced ∧ listed ∧ right then some r else none) ↔
      (traced → listed → (visible ↔ right)) := by
  by_cases htraced : traced <;> by_cases hlisted : listed <;> by_cases hvisible : visible <;>
    by_cases hright : right <;> simp [htraced, hlisted, hvisible, hright]

namespace Session.Shadows

variable {filterFunc : Filter} {capacity : ℕ} {gids codes : Finset UInt64}
  {s s' t : Session} {e : GreenletEvent} {o o' : Occurrence}

/-- The storage an event starts from is at the same depth in both runs. -/
lemma storageOrNew_depth (h : s.Shadows filterFunc gids codes t) (hgid : o.gid ∈ gids)
    (hsame : o.Same o') :
    (s.tstore.storageOrNew o.gid o.back).depth =
      (t.tstore.storageOrNew o'.gid o'.back).depth := by
  have hdepth := h.depth o.gid hgid
  rw [hsame.gid, hsame.back]
  unfold ThreadStorage.storageOrNew
  cases hs : s.tstore.storageOf o.gid <;> cases ht : t.tstore.storageOf o.gid <;>
    simp_all

lemma storageOrNew_cachesIn (h : s.Shadows filterFunc gids codes t) (hgid : o.gid ∈ gids) :
    CachesIn codes filterFunc (s.tstore.storageOrNew o.gid o.back).traceLevelLru := by
  unfold ThreadStorage.storageOrNew
  cases hs : s.tstore.storageOf o.gid with
  | some gstore => exact h.caches o.gid hgid gstore hs
  | none => exact cachesIn_create _ _ (h.capacity ▸ h.levelled.capacity)

lemma bounded (h : s.Shadows filterFunc gids codes t) (hs : s.Bounded gids codes) :
    t.Bounded gids codes := by
  intro gid hgid
  have hsame := h.stack gid hgid
  have hlength : (s.stackOf gid).length = (t.stackOf gid).length := by
    simpa using congrArg List.length hsame
  have hcode : ∀ l : List Activation, (∀ x ∈ l, x.frame.fCode ∈ codes) ↔
      ∀ z ∈ l.map Activation.seen, z.1.fCode ∈ codes := by
    intro l
    rw [List.forall_mem_map]
    rfl
  rw [← hlength, hcode, ← hsame, ← hcode]
  exact hs gid hgid

/-- The counter has no part in what the two runs share. -/
lemma withEnabled (h : s.Shadows filterFunc gids codes t) (enabled : ℤ) :
    Shadows filterFunc gids codes { s with tstore := { s.tstore with enabled := enabled } } t :=
  ⟨h.stack, h.depth, h.caches, h.id, h.capacity, h.consistent, h.levelled⟩

/-- An event leaves the two runs sharing what they shared. -/
lemma of_handled (h : s.Shadows filterFunc gids codes t)
    (hcodes : Set.InjOn lowInt (codes : Set UInt64)) (ho : occurs gids s.stackOf e = some o)
    (hsame : o.Same o') (hcode : o.frame.fCode ∈ codes) {gstore gstore' : GreenletStorage}
    {record record' : Option LogRecord} {tstore' : ThreadStorage} {enabled' : ℤ} {tid' : UInt64}
    (hhandle : (s.tstore.storageOrNew o.gid o.back).handle filterFunc s.tstore.enabled
      s.tstore.id o.what o.frame = some (gstore, record))
    (hhandled : ThreadStorage.Handled gids o.gid (o.what.nextFrame o.frame o.back) s.tstore
      s'.tstore (if o.what = .ret ∧ o.back = [] then none else some gstore))
    (hstack : s'.stackOf = Function.update s.stackOf o.gid (o.after record.isSome))
    (hhandle' : (t.tstore.storageOrNew o'.gid o'.back).handle filterFunc enabled' tid'
      o'.what o'.frame = some (gstore', record'))
    (hhandled' : ThreadStorage.Handled gids o'.gid (o'.what.nextFrame o'.frame o'.back) t.tstore
      tstore' (if o'.what = .ret ∧ o'.back = [] then none else some gstore'))
    (hcons : Consistent gids ⟨tstore', Function.update t.stackOf o'.gid
      (o'.after record'.isSome)⟩)
    (hlevelled : Levelled filterFunc gids codes ⟨tstore', Function.update t.stackOf o'.gid
      (o'.after record'.isSome)⟩) :
    s'.Shadows filterFunc gids codes
      ⟨tstore', Function.update t.stackOf o'.gid (o'.after record'.isSome)⟩ := by
  have hgid := (occurs_cases ho).1
  refine ⟨hstack ▸ h.stack.update hsame _ _, fun gid hmem => ?_,
    fun gid hmem gstore'' hstorage => ?_,
    hhandled.id.trans (h.id.trans hhandled'.id.symm),
    hhandled.capacity.trans (h.capacity.trans hhandled'.capacity.symm), hcons, hlevelled⟩
  · by_cases heq : gid = o.gid
    · -- both storages have been counted, or deleted
      have hdepth := (GreenletStorage.countDepth_congr (h.storageOrNew_depth hgid hsame) o.what).2
      rw [hsame.gid, hsame.what, hsame.back] at hhandled'
      rw [heq, hhandled.storage, hhandled'.storage]
      split_ifs
      · rfl
      · rw [Option.map_some, Option.map_some, GreenletStorage.handle_depth hhandle,
          GreenletStorage.handle_depth hhandle', hdepth, hsame.what]
    · rw [hhandled.others gid hmem heq, hhandled'.others gid hmem (hsame.gid ▸ heq)]
      exact h.depth gid hmem
  · by_cases heq : gid = o.gid
    · rw [heq, hhandled.storage] at hstorage
      obtain ⟨-, hsome⟩ := Option.ite_none_left_eq_some.mp hstorage
      rw [← Option.some.inj hsome]
      exact GreenletStorage.cachesIn_of_handle hcodes (h.storageOrNew_cachesIn hgid) hcode hhandle
    · rw [hhandled.others gid hmem heq] at hstorage
      exact h.caches gid hmem gstore'' hstorage

/-- What the two runs log of an event agrees exactly if the threshold is right. -/
lemma masks_iff (h : s.Shadows filterFunc gids codes t)
    (hgids : Set.InjOn lowInt (gids : Set UInt64)) (hcodes : Set.InjOn lowInt (codes : Set UInt64))
    (hcons : s.Consistent gids) (ho : occurs gids s.stackOf e = some o) (hsame : o.Same o')
    (hcode : o.frame.fCode ∈ codes) {gstore : GreenletStorage} {record : Option LogRecord}
    (hhandle : (s.tstore.storageOrNew o.gid o.back).handle filterFunc s.tstore.enabled
      s.tstore.id o.what o.frame = some (gstore, record)) :
    Outcome.Masks ⟨0 < s.tstore.enabled, record⟩
        (if o'.activation.ToBeLogged filterFunc o'.below then
          some (o'.record filterFunc t.tstore.id
            ((t.tstore.storageOrNew o'.gid o'.back).countDepth o'.what).1) else none) ↔
      ThresholdRight filterFunc gids s (.event e) := by
  have hgid := (occurs_cases ho).1
  simp only [Outcome.Masks, ThresholdRight, SessionAction.event?, Option.mem_some_iff, forall_eq',
    ho, decide_eq_true_eq]
  by_cases henabled : 0 < s.tstore.enabled
  · obtain ⟨lru, -, hevent⟩ := GreenletStorage.exists_handle hcodes
      (h.storageOrNew_cachesIn hgid) hcode henabled s.tstore.id o.what
    obtain ⟨-, rfl⟩ := Prod.mk.inj (Option.some.inj (hevent.symm.trans hhandle))
    have hrecord : o'.record filterFunc t.tstore.id
        ((t.tstore.storageOrNew o'.gid o'.back).countDepth o'.what).1 =
        ⟨o.what, (filterFunc o.frame.fCode).traceLevel, s.tstore.id,
          (s.tstore.storageOrNew o.gid o.back).gid,
          ((s.tstore.storageOrNew o.gid o.back).countDepth o.what).1, o.frame⟩ := by
      rw [Occurrence.record, hsame.what, hsame.level, hsame.gid, hsame.frame, h.id,
        hcons.linked.storageOrNew_gid hgids hgid,
        (GreenletStorage.countDepth_congr (h.storageOrNew_depth hgid hsame) o.what).1]
      rw [hsame.gid]
      rfl
    simp only [henabled, if_true, true_imp_iff, hrecord, Activation.ToBeLogged, hsame.level,
      hsame.suppresses]
    exact record_eq_iff _
  · rw [GreenletStorage.handle_of_suspended henabled] at hhandle
    obtain ⟨-, rfl⟩ := Prod.mk.inj (Option.some.inj hhandle)
    simp [henabled]

/-- **One event of two runs.**  The run without suspensions can go on, the two share what they
shared, and what they log agrees exactly if the threshold is right. -/
lemma event (h : s.Shadows filterFunc gids codes t)
    (hgids : Set.InjOn lowInt (gids : Set UInt64)) (hcodes : Set.InjOn lowInt (codes : Set UInt64))
    (hcons : s.Consistent gids) (hbounded : s.Bounded gids codes)
    (hbounded' : s'.Bounded gids codes)
    (hstep : (sessionMachine filterFunc capacity gids).step s e = some s') :
    ∃ t' record record', (sessionMachine filterFunc capacity gids).step t e = some t' ∧
      s'.Shadows filterFunc gids codes t' ∧ eventRecord filterFunc gids s e = some record ∧
      eventRecord filterFunc gids t e = some record' ∧
      (Outcome.Masks ⟨0 < s.tstore.enabled, record⟩ record' ↔
        ThresholdRight filterFunc gids s (.event e)) := by
  obtain ⟨o, gstore, record, ho, htrace, hhandle, hhandled, hstack⟩ :=
    hcons.exists_handled hgids hstep
  obtain ⟨o', ho', hsame⟩ := h.stack.occurs ho
  have hwithin := hbounded.of_step capacity hbounded' hstep ho
  rw [← hsame.frame, ← hsame.length] at hwithin
  obtain ⟨tstore', gstore', record', htrace', hrecord', hhandle', hhandled', hlevelled'⟩ :=
    h.levelled.exists_trace hgids hcodes h.consistent (h.bounded hbounded) ho' hwithin.1 hwithin.2
  have hcons' := h.consistent.of_handled ho' hhandled' record'.isSome
  refine ⟨_, record, record', sessionMachine_step_eq_some.mpr ⟨o', record', ho', htrace', rfl⟩,
    h.of_handled hcodes ho hsame (hsame.frame ▸ hwithin.1) hhandle hhandled hstack hhandle'
      hhandled' hcons' hlevelled', ?_, ?_, ?_⟩
  · simp [eventRecord, ho, htrace]
  · simp [eventRecord, ho', htrace']
  · rw [hrecord']
    exact h.masks_iff hgids hcodes hcons ho hsame (hsame.frame ▸ hwithin.1) hhandle

end Session.Shadows

/-! ## When suspension only masks -/

section Runs

variable {filterFunc : Filter} {capacity : ℕ} {gids codes : Finset UInt64}

lemma Session.shadows_of_init (hcap : 1 ≤ capacity) {s : Session}
    (hinit : (sessionMachine filterFunc capacity gids).init s) :
    s.Shadows filterFunc gids codes s :=
  ⟨fun _ _ => rfl, fun _ _ => rfl, fun gid _ gstore hstorage => by
    obtain ⟨⟨id, hid⟩, -, -⟩ := hinit
    simp [hid] at hstorage, rfl, rfl, Session.consistent_of_init hinit,
    Session.levelled_of_init hcap hinit⟩

/-- The two runs in lockstep. -/
def maskingLockstep (filterFunc : Filter) (capacity : ℕ) (gid : UInt64)
    (hcodes : Set.InjOn lowInt (codes : Set UInt64)) :
    Machine.Lockstep (sightedMachine filterFunc capacity gid codes)
      (sessionMachine filterFunc capacity {gid}) SessionAction.event?
      (fun p => outcome filterFunc {gid} p.1) (eventRecord filterFunc {gid}) Outcome.Masks
      (Unstraddled filterFunc {gid}) where
  rel p t := p.1.Shadows filterFunc {gid} codes t ∧ p.1.Sighted filterFunc gid p.2
  skip p t a p' _ hrel hstep hnone := by
    obtain ⟨hstep, hnote⟩ := Machine.withHistory_step_eq_some.mp hstep
    obtain ⟨hstep, -⟩ := Machine.confine_step_eq_some.mp hstep
    rcases suspendableMachine_step_cases hstep with ⟨e, rfl, -⟩ | ⟨-, enabled, hs⟩
    · cases hnone
    · have hsame : p'.2 = p.2 := by simp [hnote, Sight.note, hnone]
      rw [hs, hsame]
      exact ⟨by simp [outcome, hnone], by simp [Unstraddled, hnone],
        hrel.1.withEnabled enabled, hrel.2.withEnabled enabled⟩
  step p t a p' e hp hrel hstep hsome := by
    obtain ⟨hreach, hbounded⟩ := hp.fst.of_confine
    have hcons := Session.consistent_of_suspendable (lowInt_injOn_singleton gid) hreach
    obtain ⟨hstep, hnote⟩ := Machine.withHistory_step_eq_some.mp hstep
    obtain ⟨hstep, hbounded'⟩ := Machine.confine_step_eq_some.mp hstep
    rcases suspendableMachine_step_cases hstep with ⟨e', rfl, hstep⟩ | ⟨hnone, -⟩
    · obtain rfl := Option.some.inj hsome
      obtain ⟨t', record, record', ht, hrel', hrecord, hrecord', hiff⟩ :=
        hrel.1.event (lowInt_injOn_singleton gid) hcodes hcons hbounded hbounded' hstep
      have hsighted := hrel.2.event capacity hcodes hcons
        (fun o ho => hrel.1.storageOrNew_cachesIn (occurs_cases ho).1) hbounded hbounded' hstep
      have hright := hrel.2.thresholdRight_iff fun o ho =>
        (hbounded.of_step capacity hbounded' hstep ho).2
      exact ⟨t', _, record', ht, ⟨hrel', hnote ▸ hsighted⟩, by simp [outcome, hsome, hrecord],
        hrecord', hiff.trans hright⟩
    · rw [hnone] at hsome
      cases hsome

end Runs

/-- **When suspension only masks.**  The events of a greenlet that suspends and resumes tracing
can be gone through without, and what is logged of each is what is logged without, where tracing
is enabled, and nothing elsewhere, exactly if at every event of the run that tracing sees and
could log, what has been missed below is balanced: unless a `NO_TRACE_NESTED` frame called while
tracing was enabled is below, a frame called while tracing was suspended is a `NO_TRACE_NESTED`
one exactly if such a frame is in the place of one that tracing has seen there last. -/
theorem suspension_masks_iff {filterFunc : Filter} {capacity : ℕ} {gid : UInt64}
    {codes : Finset UInt64} (hcodes : Set.InjOn lowInt (codes : Set UInt64)) (hcap : 1 ≤ capacity)
    {s : Session} {p : Session × Sight} {acts : List SessionAction}
    (hinit : (sessionMachine filterFunc capacity {gid}).init s) (hbounded : s.Bounded {gid} codes)
    (hrun : (sightedMachine filterFunc capacity gid codes).exec (s, {}) acts = some p) :
    ∃ t, (sessionMachine filterFunc capacity {gid}).exec s
        (acts.filterMap SessionAction.event?) = some t ∧
      (List.Forall₂ Outcome.Masks
          ((sightedMachine filterFunc capacity gid codes).traceOf
            (fun p => outcome filterFunc {gid} p.1) (s, {}) acts)
          ((sessionMachine filterFunc capacity {gid}).traceOf (eventRecord filterFunc {gid}) s
            (acts.filterMap SessionAction.event?)) ↔
        ((sightedMachine filterFunc capacity gid codes).restrict
          (Unstraddled filterFunc {gid})).exec (s, {}) acts = some p) := by
  have hstart : (sightedMachine filterFunc capacity gid codes).init (s, {}) :=
    ⟨⟨hinit, hbounded⟩, rfl⟩
  obtain ⟨t, hexec, -, hiff⟩ := (maskingLockstep filterFunc capacity gid hcodes).exec
    (.init hstart) ⟨Session.shadows_of_init hcap hinit, Session.sighted_of_init hinit⟩ hrun
  exact ⟨t, hexec, hiff⟩

/-- A suspension inside a frame, around the whole of a suppressing one, and one in which a frame
is called that goes on after the resumption. -/
def suspendAround : List SessionAction :=
  [.event (.call 0x20 (frameAt 0x2000 0x5002)), .suspend 0x20,
    .event (.call 0x20 (frameAt 0x2100 0x5001)), .event (.ret 0x20),
    .event (.call 0x20 (frameAt 0x2200 0x5002)), .resume 0x20,
    .event (.call 0x20 (frameAt 0x2300 0x5000))]

/-- A suspension around the call of a suppressing frame alone. -/
def suspendAcross : List SessionAction :=
  [.suspend 0x20, .event (.call 0x20 (frameAt 0x2100 0x5001)), .resume 0x20,
    .event (.call 0x20 (frameAt 0x2200 0x5002))]

theorem suspension_masks_iff_around :
    ∃ p, (sightedMachine nestedFilter 4 0x20 {0x5000, 0x5001, 0x5002}).exec (idleThread, {})
        suspendAround = some p ∧
      ((sightedMachine nestedFilter 4 0x20 {0x5000, 0x5001, 0x5002}).traceOf
        (fun p => outcome nestedFilter {0x20} p.1) (idleThread, {}) suspendAround).map
          (fun x => (x.enabled, x.record.isSome)) =
        [(true, true), (false, false), (false, false), (false, false), (true, true)] ∧
      ∃ t, (sessionMachine nestedFilter 4 {0x20}).exec idleThread
        (suspendAround.filterMap SessionAction.event?) = some t ∧
        List.Forall₂ Outcome.Masks
          ((sightedMachine nestedFilter 4 0x20 {0x5000, 0x5001, 0x5002}).traceOf
            (fun p => outcome nestedFilter {0x20} p.1) (idleThread, {}) suspendAround)
          ((sessionMachine nestedFilter 4 {0x20}).traceOf (eventRecord nestedFilter {0x20})
            idleThread (suspendAround.filterMap SessionAction.event?)) := by
  have hrun : (((sightedMachine nestedFilter 4 0x20 {0x5000, 0x5001, 0x5002}).restrict
      (Unstraddled nestedFilter {0x20})).exec (idleThread, {}) suspendAround).isSome = true := by
    decide +kernel
  obtain ⟨p, hp⟩ := Option.isSome_iff_exists.mp hrun
  have hexec := Machine.exec_of_restrict hp
  have hcodes : Set.InjOn lowInt (({0x5000, 0x5001, 0x5002} : Finset UInt64) : Set UInt64) :=
    Finset.card_image_iff.mp (by decide)
  obtain ⟨t, ht, hiff⟩ := suspension_masks_iff hcodes (by decide) (idleThread_init _ _)
    (by decide) hexec
  exact ⟨p, hexec, by decide +kernel, t, ht, hiff.mpr hp⟩

/-- **A suspension that does not only mask.**  The suppressing frame is called while tracing is
suspended, so the frame it calls after the resumption is logged; without the suspension it is
not. -/
theorem suspension_unmasks :
    ¬ ∀ (filterFunc : Filter) (capacity : ℕ) (gid : UInt64) (codes : Finset UInt64),
      Set.InjOn lowInt (codes : Set UInt64) → 1 ≤ capacity →
      ∀ (s t : Session) (p : Session × Sight) (acts : List SessionAction),
      (sessionMachine filterFunc capacity {gid}).init s → s.Bounded {gid} codes →
      (sightedMachine filterFunc capacity gid codes).exec (s, {}) acts = some p →
      (sessionMachine filterFunc capacity {gid}).exec s
        (acts.filterMap SessionAction.event?) = some t →
      List.Forall₂ Outcome.Masks
        ((sightedMachine filterFunc capacity gid codes).traceOf
          (fun p => outcome filterFunc {gid} p.1) (s, {}) acts)
        ((sessionMachine filterFunc capacity {gid}).traceOf (eventRecord filterFunc {gid}) s
          (acts.filterMap SessionAction.event?)) := by
  intro h
  have hrun : ((sightedMachine nestedFilter 4 0x20 {0x5000, 0x5001, 0x5002}).exec
      (idleThread, {}) suspendAcross).isSome = true := by
    decide +kernel
  have hrun' : ((sessionMachine nestedFilter 4 {0x20}).exec idleThread
      (suspendAcross.filterMap SessionAction.event?)).isSome = true := by
    decide +kernel
  obtain ⟨p, hp⟩ := Option.isSome_iff_exists.mp hrun
  obtain ⟨t, ht⟩ := Option.isSome_iff_exists.mp hrun'
  exact absurd (h nestedFilter 4 0x20 {0x5000, 0x5001, 0x5002}
    (Finset.card_image_iff.mp (by decide)) (by decide) idleThread t p suspendAcross
      (idleThread_init _ _) (by decide) hp ht)
    (by decide +kernel)

end InfiTracing
