import InfiTracing.Greenlet.Session

/-!
# Filters that return `True` or `False`

The level of a frame is `int()` of what the filter returns, so `False` is `NO_TRACE`, and `True`
is 1, which is `NO_TRACE_NESTED`: a frame the filter says `True` of is not logged, and neither is
anything it calls.  The default filter `_filter_all` returns `True` always.

Every level an LRU has under a boolean filter is one of the two (`BooleanLevels`), also where the
LRU mixes code objects up; so no event is ever logged, and the events whose log is as the filter
asks for are those of frames it says `False` of (`boolean_filter_logged_iff`).
-/

namespace InfiTracing

open Framework

deriving instance DecidableEq for FilterResult

/-- `_filter_all`. -/
def filterAll : Filter := fun _ => .bool true

/-- The filter returns `True` or `False` for every frame. -/
def Filter.IsBoolean (filterFunc : Filter) : Prop := ∀ fCode, ∃ b, filterFunc fCode = .bool b

lemma isBoolean_filterAll : filterAll.IsBoolean := fun _ => ⟨true, rfl⟩

/-- An event, and whether it has been logged. -/
structure LogReport where
  occurrence : Occurrence
  logged : Bool
  deriving DecidableEq

/-- What is seen of a session: the event of each step, and whether it is logged. -/
def logReport (filterFunc : Filter) (gids : Finset UInt64) (s : Session) (e : GreenletEvent) :
    Option LogReport := do
  let o ← occurs gids s.stackOf e
  let (_, record) ← s.trace filterFunc o
  some ⟨o, record.isSome⟩

/-- The event is logged if the filter returns `True` for its frame, and not otherwise. -/
def LogReport.AsFiltered (filterFunc : Filter) (r : LogReport) : Prop :=
  r.logged = true ↔ filterFunc r.occurrence.frame.fCode = .bool true

/-- The filter returns `False` for the frame of the event. -/
def FilteredOut (filterFunc : Filter) (gids : Finset UInt64) (s : Session) (e : GreenletEvent) :
    Prop :=
  ∀ o ∈ occurs gids s.stackOf e, filterFunc o.frame.fCode = .bool false

instance (filterFunc : Filter) (gids : Finset UInt64) (s : Session) (e : GreenletEvent) :
    Decidable (FilteredOut filterFunc gids s e) :=
  inferInstanceAs (Decidable (∀ o ∈ occurs gids s.stackOf e, _))

/-! ## The levels of a boolean filter -/

/-- Every level in the cache is that of `False` or that of `True`. -/
def GreenletStorage.BooleanLevels (gstore : GreenletStorage) : Prop :=
  gstore.traceLevelLru.Holds fun _ entry => entry.v = noTrace ∨ entry.v = noTraceNested

section Levels

variable {filterFunc : Filter} (hbool : filterFunc.IsBoolean)

include hbool

lemma Filter.IsBoolean.traceLevel (fCode : UInt64) :
    (filterFunc fCode).traceLevel = noTrace ∨ (filterFunc fCode).traceLevel = noTraceNested := by
  obtain ⟨b, hb⟩ := hbool fCode
  rw [hb]
  cases b
  · exact .inl rfl
  · exact .inr rfl

/-- The level of a frame is that of `False` or that of `True`, right or wrong. -/
lemma Filter.IsBoolean.lookup {l l' : Lru} {fCode : UInt64} {level : ℤ}
    (hl : l.Holds fun _ entry => entry.v = noTrace ∨ entry.v = noTraceNested)
    {calls : List UInt64}
    (h : findTraceLevelOrCallFilter fCode filterFunc l = some (level, l', calls)) :
    (level = noTrace ∨ level = noTraceNested) ∧
      l'.Holds fun _ entry => entry.v = noTrace ∨ entry.v = noTraceNested := by
  rcases hl.lookup h with ⟨e, -, hentry, hvalue, -, hl'⟩ | ⟨-, rfl, e, -, hl'⟩
  · exact ⟨hvalue ▸ hentry, hl'⟩
  · exact ⟨hbool.traceLevel fCode,
      hl' _ (fun _ _ _ hentry => hentry) (hbool.traceLevel fCode)⟩

/-- **No event is logged.** -/
lemma GreenletStorage.BooleanLevels.handle {gstore gstore' : GreenletStorage} {enabled : ℤ}
    {tid : UInt64} {what : PyTrace} {frame : Frame} {record : Option LogRecord}
    (hlevels : gstore.BooleanLevels)
    (h : gstore.handle filterFunc enabled tid what frame = some (gstore', record)) :
    record = none ∧ gstore'.BooleanLevels := by
  have hcounted : (gstore.countDepth what).2.BooleanLevels := by
    rwa [BooleanLevels, countDepth_traceLevelLru]
  simp only [GreenletStorage.handle, traceEvent] at h
  split_ifs at h with henabled hdepth
  · obtain ⟨⟨level, lru, calls⟩, hlookup, hrest⟩ := Option.bind_eq_some_iff.mp h
    obtain ⟨hlevel, hlru⟩ := hbool.lookup hcounted hlookup
    dsimp only at hrest
    rcases hlevel with rfl | rfl
    · cases hrest
      exact ⟨rfl, hlru⟩
    · cases hrest
      exact ⟨rfl, hlru⟩
  · cases h
    exact ⟨rfl, hcounted⟩
  · cases h
    exact ⟨rfl, hcounted⟩

lemma Session.booleanLevels_trace {gids : Finset UInt64} {s : Session} {e : GreenletEvent}
    {o : Occurrence} (ho : occurs gids s.stackOf e = some o)
    (hs : s.tstore.Every GreenletStorage.BooleanLevels) {tstore : ThreadStorage}
    {record : Option LogRecord} (h : s.trace filterFunc o = some (tstore, record)) :
    record = none ∧ tstore.Every GreenletStorage.BooleanLevels := by
  obtain ⟨before, after, -, hhandle, hhandled⟩ :=
    ThreadStorage.exists_handledWith (what_of_occurs ho) h
  obtain ⟨hbefore, hevery⟩ := hhandled.every hs (fun gid depth => Lru.holds_create _ _)
    fun hbefore => (hbefore.handle hbool hhandle).2
  exact ⟨(hbefore.handle hbool hhandle).1, hevery⟩

end Levels

/-! ## What a boolean filter gets logged -/

/-- **A boolean filter gets nothing logged.**  In every run of a session with a filter that
returns `True` or `False`, the events logged are those of the frames it returns `True` for
exactly if it returns `False` for the frame of every event. -/
theorem boolean_filter_logged_iff {filterFunc : Filter} (hbool : filterFunc.IsBoolean)
    {capacity : ℕ} {gids : Finset UInt64} {s s' : Session} {events : List GreenletEvent}
    (hinit : (sessionMachine filterFunc capacity gids).init s)
    (hrun : (sessionMachine filterFunc capacity gids).exec s events = some s') :
    (∀ r ∈ (sessionMachine filterFunc capacity gids).traceOf (logReport filterFunc gids) s events,
        r.AsFiltered filterFunc) ↔
      ((sessionMachine filterFunc capacity gids).restrict (FilteredOut filterFunc gids)).exec s
        events = some s' := by
  refine Machine.forall_traceOf_iff (I := fun s => s.tstore.Every GreenletStorage.BooleanLevels)
    ?_ ?_ (.init hinit) ?_ hrun
  · intro s e s' _ hs hstep
    obtain ⟨o, record, ho, htrace, -⟩ := sessionMachine_step_eq_some.mp hstep
    obtain ⟨rfl, -⟩ := Session.booleanLevels_trace hbool ho hs htrace
    obtain ⟨b, hb⟩ := hbool o.frame.fCode
    have hreport : logReport filterFunc gids s e = some ⟨o, false⟩ := by
      simp [logReport, ho, htrace]
    simp only [hreport, Option.mem_some_iff, forall_eq', LogReport.AsFiltered, FilteredOut, ho, hb]
    cases b <;> simp
  · intro s e s' _ hs hstep _
    obtain ⟨o, record, ho, htrace, -⟩ := sessionMachine_step_eq_some.mp hstep
    exact (Session.booleanLevels_trace hbool ho hs htrace).2
  · obtain ⟨⟨id, hid⟩, -, -⟩ := hinit
    rw [hid]
    exact ThreadStorage.every_create _ _ _

/-- A filter that traces one code object, in a session of another. -/
theorem boolean_filter_logged_iff_filteredOut :
    ∃ s, (sessionMachine (fun fCode => .bool (fCode = 0x5001)) 4 {0x10, 0x20}).exec twoGreenlets
        [.call 0x20 ⟨0x3000, 0x5002, by decide⟩, .ret 0x20] = some s ∧
      ∀ r ∈ (sessionMachine (fun fCode => .bool (fCode = 0x5001)) 4 {0x10, 0x20}).traceOf
          (logReport (fun fCode => .bool (fCode = 0x5001)) {0x10, 0x20}) twoGreenlets
          [.call 0x20 ⟨0x3000, 0x5002, by decide⟩, .ret 0x20],
        r.AsFiltered fun fCode => .bool (fCode = 0x5001) := by
  have hrun : (((sessionMachine (fun fCode => .bool (fCode = 0x5001)) 4 {0x10, 0x20}).restrict
      (FilteredOut (fun fCode => .bool (fCode = 0x5001)) {0x10, 0x20})).exec twoGreenlets
        [.call 0x20 ⟨0x3000, 0x5002, by decide⟩, .ret 0x20]).isSome = true := by
    decide +kernel
  obtain ⟨s, hs⟩ := Option.isSome_iff_exists.mp hrun
  have hexec := Machine.exec_of_restrict hs
  exact ⟨s, hexec, (boolean_filter_logged_iff (fun _ => ⟨_, rfl⟩) (twoGreenlets_init _) hexec).mpr
    hs⟩

/-- **The default filter.**  A call is not logged. -/
theorem filterAll_not_logged :
    ¬ ∀ (filterFunc : Filter), filterFunc.IsBoolean → ∀ (capacity : ℕ) (gids : Finset UInt64)
      (s s' : Session) (events : List GreenletEvent),
      (sessionMachine filterFunc capacity gids).init s →
      (sessionMachine filterFunc capacity gids).exec s events = some s' →
      ∀ r ∈ (sessionMachine filterFunc capacity gids).traceOf (logReport filterFunc gids) s events,
        r.AsFiltered filterFunc := by
  intro h
  have hrun : ((sessionMachine filterAll 4 {0x10, 0x20}).exec twoGreenlets
      [.call 0x20 ⟨0x3000, 0x5002, by decide⟩]).isSome = true := by
    decide +kernel
  obtain ⟨s, hs⟩ := Option.isSome_iff_exists.mp hrun
  have hreport := h filterAll isBoolean_filterAll 4 {0x10, 0x20} twoGreenlets s _
    (twoGreenlets_init _) hs ⟨⟨.call, 0x20, ⟨⟨0x3000, 0x5002, by decide⟩, none⟩, []⟩, false⟩
    (by decide +kernel)
  exact absurd (hreport.mpr rfl) (by decide)

end InfiTracing
