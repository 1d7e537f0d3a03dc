import InfiTracing.Greenlet.Levels

/-!
# Reading a log as calls and returns

The log of a session has the events of all greenlets mixed, less those that are not to be logged.
A reader takes the lines of one greenlet and keeps a stack: a return belongs to the innermost call
that has none yet (`CallTree`).

`calls_matched` says that this reader is right.  A call and the return it is given are of the same
frame, with the same level and depth; the calls still open are those of the frames on the stack of
the greenlet that were logged when called; and the returns without a call are those of frames that
were on the stack before the session.
-/

namespace InfiTracing

open Framework

/-! ## The reader -/

/-- What a reader with a stack has made of a log. -/
structure CallTree where
  /-- The calls without a return yet, from the innermost. -/
  opened : List LogRecord := []
  /-- The calls with their returns. -/
  closed : List (LogRecord × LogRecord) := []
  /-- The returns without a call. -/
  orphans : List LogRecord := []

namespace CallTree

/-- One more line. -/
def read (t : CallTree) (r : LogRecord) : CallTree :=
  if r.what = .ret then
    match t.opened with
    | [] => { t with orphans := t.orphans ++ [r] }
    | call :: opened => { t with opened, closed := t.closed ++ [(call, r)] }
  else { t with opened := r :: t.opened }

/-- The lines of one greenlet. -/
def ofLog (gid : UInt64) (log : List LogRecord) : CallTree :=
  (log.filter (·.gid = gid)).foldl read {}

lemma ofLog_concat (gid : UInt64) (log : List LogRecord) (r : LogRecord) :
    ofLog gid (log ++ [r]) = if r.gid = gid then (ofLog gid log).read r else ofLog gid log := by
  rw [ofLog, List.filter_append, List.foldl_append, ← ofLog]
  by_cases h : r.gid = gid <;> simp [h]

end CallTree

/-! ## What there is to be read of a stack -/

section Reading

variable (filterFunc : Filter) (tid gid : UInt64) (base : ℤ)

/-- The lines of the calls of the frames on a stack, where depths are counted from `base`. -/
def callRecords : List Activation → List LogRecord
  | [] => []
  | x :: below =>
      if x.callLogged = some true then
        ⟨.call, x.level filterFunc, tid, gid, base + below.length, x.frame⟩ :: callRecords below
      else callRecords below

/-- The reader has the logged calls of the stack open, has given each call the return of its own
frame, and has those returns left over. -/
structure CallTree.ReadsAs (t : CallTree) (stack : List Activation) (strays : List LogRecord) :
    Prop where
  opened : t.opened = callRecords filterFunc tid gid base stack
  closed : ∀ p ∈ t.closed, p.1.what = .call ∧ p.2 = { p.1 with what := .ret }
  orphans : t.orphans = strays

variable {filterFunc tid gid base} {t : CallTree} {stack below : List Activation}
  {x : Activation} {strays : List LogRecord}

lemma callRecords_of_logged (h : x.callLogged = some true) :
    callRecords filterFunc tid gid base (x :: below) =
      ⟨.call, x.level filterFunc, tid, gid, base + below.length, x.frame⟩ ::
        callRecords filterFunc tid gid base below :=
  if_pos h

lemma callRecords_of_not_logged (h : x.callLogged ≠ some true) :
    callRecords filterFunc tid gid base (x :: below) =
      callRecords filterFunc tid gid base below :=
  if_neg h

/-- Nothing is open where no frame was called in the session. -/
lemma callRecords_eq_nil (h : ∀ x ∈ stack, x.callLogged = none) :
    callRecords filterFunc tid gid base stack = [] := by
  induction stack with
  | nil => rfl
  | cons x below ih =>
      obtain ⟨hx, hbelow⟩ := List.forall_mem_cons.mp h
      rw [callRecords_of_not_logged (by simp [hx]), ih hbelow]

lemma callRecords_frame (stack : List Activation) :
    (callRecords filterFunc tid gid base stack).map LogRecord.frame =
      (stack.filter (·.callLogged = some true)).map Activation.frame := by
  induction stack with
  | nil => rfl
  | cons x below ih =>
      by_cases h : x.callLogged = some true
      · rw [callRecords_of_logged h, List.map_cons, ih, List.filter_cons_of_pos (by simp [h]),
          List.map_cons]
      · rw [callRecords_of_not_logged h, ih, List.filter_cons_of_neg (by simp [h])]

namespace CallTree.ReadsAs

/-- A call that is logged. -/
lemma call (h : t.ReadsAs filterFunc tid gid base stack strays) (frame : Frame) {level : ℤ}
    (hlevel : level = (filterFunc frame.fCode).traceLevel) :
    (t.read ⟨.call, level, tid, gid, base + stack.length, frame⟩).ReadsAs filterFunc tid gid base
      (⟨frame, some true⟩ :: stack) strays := by
  refine ⟨?_, h.closed, h.orphans⟩
  rw [callRecords_of_logged rfl, ← h.opened, hlevel]
  rfl

/-- A call that is not logged. -/
lemma call_unlogged (h : t.ReadsAs filterFunc tid gid base stack strays) (frame : Frame) :
    t.ReadsAs filterFunc tid gid base (⟨frame, some false⟩ :: stack) strays :=
  ⟨h.opened.trans (callRecords_of_not_logged (by simp)).symm, h.closed, h.orphans⟩

/-- The return of a frame whose call was logged. -/
lemma ret (h : t.ReadsAs filterFunc tid gid base (x :: below) strays)
    (hlogged : x.callLogged = some true) :
    (t.read ⟨.ret, x.level filterFunc, tid, gid, base + below.length, x.frame⟩).ReadsAs filterFunc
      tid gid base below strays := by
  have hopened := h.opened.trans (callRecords_of_logged hlogged)
  simp only [read, hopened, if_true]
  refine ⟨rfl, fun p hp => ?_, h.orphans⟩
  rcases List.mem_append.mp hp with hp | hp
  · exact h.closed p hp
  · obtain rfl := List.mem_singleton.mp hp
    exact ⟨rfl, rfl⟩

/-- The return of a frame that was there before the session. -/
lemma ret_orphan (h : t.ReadsAs filterFunc tid gid base (x :: below) strays)
    (hunseen : ∀ y ∈ x :: below, y.callLogged = none) {r : LogRecord} (hr : r.what = .ret) :
    (t.read r).ReadsAs filterFunc tid gid base below (strays ++ [r]) := by
  have hopened := h.opened.trans (callRecords_eq_nil hunseen)
  simp only [read, hr, hopened, if_true]
  refine ⟨?_, h.closed, by rw [h.orphans]⟩
  exact (callRecords_eq_nil fun y hy => hunseen y (List.mem_cons_of_mem x hy)).symm

/-- A return that is not logged. -/
lemma ret_unlogged (h : t.ReadsAs filterFunc tid gid base (x :: below) strays)
    (hlogged : x.callLogged ≠ some true) : t.ReadsAs filterFunc tid gid base below strays :=
  ⟨h.opened.trans (callRecords_of_not_logged hlogged), h.closed, h.orphans⟩

/-- Where depths are counted from does not matter for an empty stack. -/
lemma of_base {base' : ℤ} (h : t.ReadsAs filterFunc tid gid base stack strays)
    (hbase : stack = [] ∨ base = base') :
    t.ReadsAs filterFunc tid gid base' stack strays := by
  rcases hbase with rfl | rfl
  · exact ⟨h.opened, h.closed, h.orphans⟩
  · exact h

variable {gids : Finset UInt64} {stackOf : Stacks} {e : GreenletEvent} {o : Occurrence}

/-- **An event that is logged.**  The frame of a return was logged when called, or was there before
the session, and then so were those below it. -/
lemma event_logged (h : t.ReadsAs filterFunc tid o.gid base (stackOf o.gid) strays)
    (ho : occurs gids stackOf e = some o)
    (honTop : (stackOf o.gid).Pairwise fun x y => x.callLogged = none → y.callLogged = none)
    (hcalled : ∀ logged, o.activation.callLogged = some logged → logged = true) :
    (t.read (o.record filterFunc tid (base + o.below.length))).ReadsAs filterFunc tid o.gid base
      (o.after true) (if o.what = .ret ∧ o.activation.callLogged = none then
        strays ++ [o.record filterFunc tid (base + o.below.length)] else strays) := by
  rcases (occurs_cases ho).2 with ⟨hwhat, -, hstack, -⟩ | ⟨hwhat, hstack⟩
  · rw [hstack] at h
    have hlevel : o.activation.level filterFunc = (filterFunc o.frame.fCode).traceLevel := rfl
    simpa [Occurrence.record, Occurrence.after, hwhat] using h.call o.frame hlevel
  · rw [hstack] at h honTop
    cases hlogged : o.activation.callLogged with
    | none =>
        have hunseen : ∀ y ∈ o.activation :: o.below, y.callLogged = none :=
          List.forall_mem_cons.mpr
            ⟨hlogged, fun y hy => (List.pairwise_cons.mp honTop).1 y hy hlogged⟩
        simpa [Occurrence.after, hwhat] using
          h.ret_orphan hunseen (r := o.record filterFunc tid (base + o.below.length)) hwhat
    | some logged =>
        obtain rfl := hcalled logged hlogged
        simpa [Occurrence.record, Occurrence.after, Occurrence.frame, hwhat] using h.ret hlogged

/-- **An event that is not logged.**  The frame of a return was not logged when called. -/
lemma event_unlogged (h : t.ReadsAs filterFunc tid o.gid base (stackOf o.gid) strays)
    (ho : occurs gids stackOf e = some o) (hcalled : o.activation.callLogged ≠ some true) :
    t.ReadsAs filterFunc tid o.gid base (o.after false) strays := by
  rcases (occurs_cases ho).2 with ⟨hwhat, -, hstack, -⟩ | ⟨hwhat, hstack⟩
  · rw [hstack] at h
    simpa [Occurrence.after, hwhat] using h.call_unlogged o.frame
  · rw [hstack] at h
    simpa [Occurrence.after, hwhat] using h.ret_unlogged hcalled

end CallTree.ReadsAs

end Reading

/-! ## The log of a session -/

/-- A line of the log, and the event it is of. -/
structure LogLine where
  occurrence : Occurrence
  record : LogRecord
  deriving DecidableEq

/-- The return of a frame of this greenlet that was there before the session. -/
def LogLine.IsStray (gid : UInt64) (l : LogLine) : Prop :=
  l.occurrence.gid = gid ∧ l.occurrence.what = .ret ∧ l.occurrence.activation.callLogged = none

instance (gid : UInt64) : DecidablePred (LogLine.IsStray gid) := fun l =>
  inferInstanceAs (Decidable (l.occurrence.gid = gid ∧ l.occurrence.what = .ret ∧
    l.occurrence.activation.callLogged = none))

/-- The lines of such returns. -/
def straysOf (gid : UInt64) (log : List LogLine) : List LogRecord :=
  (log.filter (·.IsStray gid)).map LogLine.record

/-- The line that is logged of an event, if one is. -/
def logLine (filterFunc : Filter) (gids : Finset UInt64) (s : Session) (e : GreenletEvent) :
    Option LogLine := do
  let o ← occurs gids s.stackOf e
  let (_, record) ← s.trace filterFunc o
  record.map fun r => ⟨o, r⟩

/-- A session within bounds, with its log. -/
def loggedSession (filterFunc : Filter) (capacity : ℕ) (gids codes : Finset UInt64) :
    Machine (Session × List LogLine) GreenletEvent :=
  ((sessionMachine filterFunc capacity gids).confine (Session.Bounded gids codes)).withHistory []
    fun s e log => log ++ (logLine filterFunc gids s e).toList

/-- What is read of a greenlet. -/
def readGreenlet (gid : UInt64) (log : List LogLine) : CallTree :=
  CallTree.ofLog gid (log.map LogLine.record)

lemma readGreenlet_concat (gid : UInt64) (log : List LogLine) (l : LogLine) :
    readGreenlet gid (log ++ [l]) =
      if l.record.gid = gid then (readGreenlet gid log).read l.record
      else readGreenlet gid log := by
  rw [readGreenlet, List.map_append, List.map_singleton, CallTree.ofLog_concat]
  rfl

lemma straysOf_concat (gid : UInt64) (log : List LogLine) (l : LogLine) :
    straysOf gid (log ++ [l]) =
      if l.IsStray gid then straysOf gid log ++ [l.record] else straysOf gid log := by
  rw [straysOf, List.filter_append, List.map_append]
  by_cases h : l.IsStray gid <;> simp [h, straysOf]

/-! ## The invariant -/

/-- The depth that the lowest frame of the greenlet has. -/
def Session.baseOf (s : Session) (gid : UInt64) : ℤ :=
  (s.tstore.storageOf gid).elim 0 fun gstore => gstore.depth - (s.stackOf gid).length + 1

/-- The log reads as the stacks, and the frames called in the session are on top of the others. -/
structure Session.ReadsAs (filterFunc : Filter) (gids : Finset UInt64) (s : Session)
    (log : List LogLine) : Prop where
  onTop : ∀ gid ∈ gids, (s.stackOf gid).Pairwise fun x y =>
    x.callLogged = none → y.callLogged = none
  reads : ∀ gid ∈ gids, (readGreenlet gid log).ReadsAs filterFunc s.tstore.id gid (s.baseOf gid)
    (s.stackOf gid) (straysOf gid log)

namespace Session

variable {filterFunc : Filter} {gids codes : Finset UInt64} {capacity : ℕ} {s s' : Session}
  {e : GreenletEvent} {o : Occurrence} {log : List LogLine}

lemma readsAs_of_init (h : (sessionMachine filterFunc capacity gids).init s) :
    s.ReadsAs filterFunc gids [] := by
  obtain ⟨-, -, hunseen⟩ := h
  refine ⟨fun gid hgid => List.pairwise_of_forall_mem_list fun x _ y hy _ => hunseen gid hgid y hy,
    fun gid hgid => ⟨?_, ?_, rfl⟩⟩
  · rw [callRecords_eq_nil (hunseen gid hgid)]
    rfl
  · intro p hp
    cases hp

/-- Reading from the depths of the storage that an event starts from, old or new. -/
lemma ReadsAs.storageOrNew (h : s.ReadsAs filterFunc gids log)
    (hs : s.Levelled filterFunc gids codes) (hgid : o.gid ∈ gids) :
    (readGreenlet o.gid log).ReadsAs filterFunc s.tstore.id o.gid
      ((s.tstore.storageOrNew o.gid o.back).depth - (s.stackOf o.gid).length + 1)
      (s.stackOf o.gid) (straysOf o.gid log) := by
  have hreads := h.reads _ hgid
  cases hstorage : s.tstore.storageOf o.gid with
  | some gstore =>
      have hbase : s.baseOf o.gid = gstore.depth - (s.stackOf o.gid).length + 1 := by
        rw [baseOf, hstorage, Option.elim_some]
      rw [ThreadStorage.storageOrNew, hstorage, Option.getD_some, ← hbase]
      exact hreads
  | none =>
      -- no frame was called in the session, and nothing is open, wherever depths start
      have hunseen := hs.unseen _ hgid hstorage
      refine ⟨hreads.opened.trans ?_, hreads.closed, hreads.orphans⟩
      rw [callRecords_eq_nil hunseen, callRecords_eq_nil hunseen]

/-- Where the depths of a greenlet start stays the same through an event, unless its stack is
empty afterwards. -/
lemma baseOf_after (ho : occurs gids s.stackOf e = some o) {gstore : GreenletStorage}
    (hstorage : s'.tstore.storageOf o.gid =
      if o.what = .ret ∧ o.back = [] then none else some gstore)
    (hdepth : gstore.depth =
      ((s.tstore.storageOrNew o.gid o.back).countDepth o.what).2.depth) {logged : Bool}
    (hstack' : s'.stackOf o.gid = o.after logged) :
    o.after logged = [] ∨
      (s.tstore.storageOrNew o.gid o.back).depth - (s.stackOf o.gid).length + 1 =
        s'.baseOf o.gid := by
  by_cases hlast : o.what = .ret ∧ o.back = []
  · have hbelow : o.below = [] := List.map_eq_nil_iff.mp hlast.2
    exact .inl (by simp [Occurrence.after, hlast.1, hbelow])
  · right
    rw [if_neg hlast] at hstorage
    rw [baseOf, hstorage, Option.elim_some, hstack', hdepth]
    rcases (occurs_cases ho).2 with ⟨hwhat, -, hstack, -⟩ | ⟨hwhat, hstack⟩
    · simp only [GreenletStorage.countDepth, Occurrence.after, hwhat, hstack, reduceCtorEq,
        if_true, if_false, List.length_cons]
      omega
    · simp only [GreenletStorage.countDepth, Occurrence.after, hwhat, hstack, reduceCtorEq,
        if_true, if_false, List.length_cons]
      omega

/-- The frames called in the session stay on top. -/
lemma onTop_after (ho : occurs gids s.stackOf e = some o)
    (h : (s.stackOf o.gid).Pairwise fun x y => x.callLogged = none → y.callLogged = none)
    (logged : Bool) :
    (o.after logged).Pairwise fun x y => x.callLogged = none → y.callLogged = none := by
  rcases (occurs_cases ho).2 with ⟨hwhat, -, hstack, -⟩ | ⟨hwhat, hstack⟩
  · rw [hstack] at h
    simpa [Occurrence.after, hwhat] using h
  · rw [hstack] at h
    simpa [Occurrence.after, hwhat] using (List.pairwise_cons.mp h).2

section Event

variable (ho : occurs gids s.stackOf e = some o) {record : Option LogRecord}

include ho

/-- What is read of the greenlet of an event goes with its stack. -/
lemma ReadsAs.reads_self (h : s.ReadsAs filterFunc gids log) (hs : s.Levelled filterFunc gids codes)
    (hrecord : record = if o.activation.ToBeLogged filterFunc o.below then
      some (o.record filterFunc s.tstore.id
        ((s.tstore.storageOrNew o.gid o.back).countDepth o.what).1) else none) :
    (readGreenlet o.gid (log ++ (record.map (LogLine.mk o)).toList)).ReadsAs filterFunc
      s.tstore.id o.gid
      ((s.tstore.storageOrNew o.gid o.back).depth - (s.stackOf o.gid).length + 1)
      (o.after record.isSome) (straysOf o.gid (log ++ (record.map (LogLine.mk o)).toList)) := by
  have hgid := (occurs_cases ho).1
  have hcalled : ∀ logged, o.activation.callLogged = some logged →
      (logged = true ↔ o.activation.ToBeLogged filterFunc o.below) := by
    intro logged hlogged
    rcases (occurs_cases ho).2 with ⟨-, hnone, -⟩ | ⟨-, hstack⟩
    · rw [hnone] at hlogged
      cases hlogged
    · exact hs.recorded _ hgid o.activation o.below (hstack ▸ List.suffix_rfl) logged hlogged
  have hreads := h.storageOrNew hs hgid
  rw [depth_eq ho] at hrecord
  by_cases hrule : o.activation.ToBeLogged filterFunc o.below
  · rw [if_pos hrule] at hrecord
    subst hrecord
    have hevent := hreads.event_logged ho (h.onTop _ hgid)
      fun logged hlogged => (hcalled logged hlogged).mpr hrule
    simpa [readGreenlet_concat, straysOf_concat, LogLine.IsStray, Occurrence.record] using hevent
  · rw [if_neg hrule] at hrecord
    subst hrecord
    have hevent := hreads.event_unlogged ho
      fun hlogged => hrule ((hcalled true hlogged).mp rfl)
    simpa using hevent

omit ho in
/-- What is read of another greenlet does not change. -/
lemma read_other {gid : UInt64} (hne : gid ≠ o.gid) (hrecord : ∀ r ∈ record, r.gid = o.gid) :
    readGreenlet gid (log ++ (record.map (LogLine.mk o)).toList) = readGreenlet gid log ∧
      straysOf gid (log ++ (record.map (LogLine.mk o)).toList) = straysOf gid log := by
  cases record with
  | none => simp
  | some r =>
      have hgid : r.gid ≠ gid := (hrecord r rfl).symm ▸ hne.symm
      simp [readGreenlet_concat, straysOf_concat, LogLine.IsStray, hgid, hne.symm]

/-- **One event.** -/
lemma ReadsAs.event (h : s.ReadsAs filterFunc gids log) (hs : s.Levelled filterFunc gids codes)
    {gstore : GreenletStorage}
    (hhandled : ThreadStorage.Handled gids o.gid (o.what.nextFrame o.frame o.back) s.tstore
      s'.tstore (if o.what = .ret ∧ o.back = [] then none else some gstore))
    (hdepth : gstore.depth =
      ((s.tstore.storageOrNew o.gid o.back).countDepth o.what).2.depth)
    (hrecord : record = if o.activation.ToBeLogged filterFunc o.below then
      some (o.record filterFunc s.tstore.id
        ((s.tstore.storageOrNew o.gid o.back).countDepth o.what).1) else none)
    (hstackOf : s'.stackOf = Function.update s.stackOf o.gid (o.after record.isSome)) :
    s'.ReadsAs filterFunc gids (log ++ (record.map (LogLine.mk o)).toList) := by
  have hself : s'.stackOf o.gid = o.after record.isSome := by rw [hstackOf, Function.update_self]
  have hothers {gid : UInt64} (hne : gid ≠ o.gid) : s'.stackOf gid = s.stackOf gid := by
    rw [hstackOf, Function.update_of_ne hne]
  refine ⟨fun gid hgid => ?_, fun gid hgid => ?_⟩
  · by_cases heq : gid = o.gid
    · rw [heq, hself]
      exact onTop_after ho (h.onTop _ (occurs_cases ho).1) _
    · rw [hothers heq]
      exact h.onTop gid hgid
  · rw [hhandled.id]
    by_cases heq : gid = o.gid
    · rw [heq, hself]
      exact (h.reads_self ho hs hrecord).of_base
        (baseOf_after ho hhandled.storage hdepth hself)
    · have hgids : ∀ r ∈ record, r.gid = o.gid := by
        intro r hr
        rw [hrecord] at hr
        obtain ⟨-, hr⟩ := Option.ite_none_right_eq_some.mp hr
        exact (Option.some.inj hr) ▸ rfl
      have hbase : s'.baseOf gid = s.baseOf gid := by
        rw [baseOf, baseOf, hhandled.others gid hgid heq, hothers heq]
      rw [(read_other heq hgids).1, (read_other heq hgids).2, hbase, hothers heq]
      exact h.reads gid hgid

end Event

variable (hgids : Set.InjOn lowInt (gids : Set UInt64))
  (hcodes : Set.InjOn lowInt (codes : Set UInt64)) (hcap : 1 ≤ capacity)

include hgids hcodes hcap

theorem readsAs_of_reachable {p : Session × List LogLine}
    (hp : (loggedSession filterFunc capacity gids codes).Reachable p) :
    p.1.ReadsAs filterFunc gids p.2 := by
  refine hp.invariant (I := fun p => p.1.ReadsAs filterFunc gids p.2) (fun p hinit => ?_)
    fun p e p' hp hreads hstep => ?_
  · rw [hinit.2]
    exact readsAs_of_init hinit.1.1
  · obtain ⟨hconfined, hlog⟩ := Machine.withHistory_step_eq_some.mp hstep
    have hs := hp.fst
    obtain ⟨hreach, hbounded⟩ := hs.of_confine
    obtain ⟨hsession, hbounded'⟩ := Machine.confine_step_eq_some.mp hconfined
    obtain ⟨o, record, ho, htrace, hstackOf⟩ := sessionMachine_step_eq_some.mp hsession
    have hafter : Bounded gids codes
        ⟨p'.1.tstore, Function.update p.1.stackOf o.gid (o.after record.isSome)⟩ :=
      hstackOf ▸ hbounded'
    obtain ⟨hcode, hheight⟩ := hbounded.occurrence ho hafter
    have hlevelled := levelled_of_reachable hgids hcodes hcap hs
    obtain ⟨tstore, gstore, record', htrace', hrecord, hhandle, hhandled, -⟩ :=
      hlevelled.exists_trace hgids hcodes (consistent_of_reachable hgids hreach) hbounded ho hcode
        hheight
    obtain ⟨rfl, rfl⟩ := Prod.mk.inj (Option.some.inj (htrace.symm.trans htrace'))
    have hline : logLine filterFunc gids p.1 e = record.map (LogLine.mk o) := by
      simp [logLine, ho, htrace]
    rw [hlog, hline]
    exact hreads.event ho hlevelled hhandled (GreenletStorage.handle_depth hhandle) hrecord hstackOf

end Session

/-! ## Calls and returns -/

/-- **Calls and returns are matched.**  In every interleaving of greenlets, reading the lines of
one of them with a stack gives each call the return of the same frame, with the same level and
depth; the calls left open are those of the frames on its stack that were logged when called; and
the returns without a call are those of frames that were there before the session. -/
theorem calls_matched {filterFunc : Filter} {capacity : ℕ} {gids codes : Finset UInt64}
    (hgids : Set.InjOn lowInt (gids : Set UInt64)) (hcodes : Set.InjOn lowInt (codes : Set UInt64))
    (hcap : 1 ≤ capacity) {p : Session × List LogLine}
    (hp : (loggedSession filterFunc capacity gids codes).Reachable p) {gid : UInt64}
    (hgid : gid ∈ gids) :
    (∀ c ∈ (readGreenlet gid p.2).closed, c.1.what = .call ∧ c.2 = { c.1 with what := .ret }) ∧
      (readGreenlet gid p.2).opened.map LogRecord.frame =
        ((p.1.stackOf gid).filter (·.callLogged = some true)).map Activation.frame ∧
      (readGreenlet gid p.2).orphans = straysOf gid p.2 := by
  have hreads := (Session.readsAs_of_reachable hgids hcodes hcap hp).reads gid hgid
  refine ⟨hreads.closed, ?_, hreads.orphans⟩
  rw [hreads.opened, callRecords_frame]

/-- A call and its return in one greenlet, with a call in the other between them, and then the
return of the main program. -/
theorem calls_matched_interleaved :
    ∃ p, (loggedSession (fun _ => .int 4) 4 {0x10, 0x20} {0x5000, 0x5001, 0x5002}).exec
        (twoGreenlets, [])
        [.call 0x10 ⟨0x2000, 0x5001, by decide⟩, .call 0x20 ⟨0x3000, 0x5002, by decide⟩,
          .ret 0x10, .ret 0x10] = some p ∧
      (readGreenlet 0x10 p.2).closed.length = 1 ∧
      (∀ c ∈ (readGreenlet 0x10 p.2).closed, c.1.what = .call ∧
        c.2 = { c.1 with what := .ret }) ∧
      (readGreenlet 0x10 p.2).opened.map LogRecord.frame =
        ((p.1.stackOf 0x10).filter (·.callLogged = some true)).map Activation.frame ∧
      (readGreenlet 0x10 p.2).orphans = straysOf 0x10 p.2 := by
  have hrun : ((loggedSession (fun _ => .int 4) 4 {0x10, 0x20} {0x5000, 0x5001, 0x5002}).exec
      (twoGreenlets, [])
      [.call 0x10 ⟨0x2000, 0x5001, by decide⟩, .call 0x20 ⟨0x3000, 0x5002, by decide⟩,
        .ret 0x10, .ret 0x10]).any
      (fun p => decide ((readGreenlet 0x10 p.2).closed.length = 1)) = true := by
    decide +kernel
  obtain ⟨p, hp, hclosed⟩ := (Option.any_eq_true _ _).mp hrun
  have hcodes : Set.InjOn lowInt (({0x5000, 0x5001, 0x5002} : Finset UInt64) : Set UInt64) :=
    Finset.card_image_iff.mp (by decide)
  have hbounded : Session.Bounded {0x10, 0x20} {0x5000, 0x5001, 0x5002} twoGreenlets := by
    decide
  have hinit : (loggedSession (fun _ => .int 4) 4 {0x10, 0x20} {0x5000, 0x5001, 0x5002}).init
      (twoGreenlets, []) :=
    ⟨⟨twoGreenlets_init _, hbounded⟩, rfl⟩
  exact ⟨p, hp, of_decide_eq_true hclosed, calls_matched lowInt_injOn_twoGreenlets hcodes
    (by decide) (Machine.reachable_of_exec hinit hp) (by decide)⟩

end InfiTracing
