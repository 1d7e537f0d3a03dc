import InfiTracing.Serialize.Records
import InfiTracing.TraceDump.FileLines

/-!
# Reading the events in a trace file

The lines of a trace file are the texts that `log_call` and `log_return` wrote, with the time before
them, which the test of the file dump cuts off before it splits the rest at the commas.

`trace_file_events_iff` is the round trip of the whole pipeline, from the calls of `log_call` and
`log_return` to the reader of the file.
-/

namespace InfiTracing

open Framework
open Serialize (Record Heap Pointer CPython LogEvent Render readRecord prefixText logCall logReturn
  logCall_read_iff logReturn_read_iff)

/-! ## The reader -/

namespace FileTraceDump

/-- The event of a line, without its time. -/
def readEvent (line : List UInt8) : Option Record := do
  let (_, text) ← readLine line
  readRecord text

/-- The events of a trace file. -/
def readEvents (file : List UInt8) : List (Option Record) := (lines 10 file).map readEvent

lemma readEvent_lineText {m : TraceMessage} (hyear : utcYear m.timestamp ≤ 9999) :
    readEvent (lineText m) = readRecord m.text := by
  rw [readEvent, readLine_lineText hyear, Option.bind_eq_bind, Option.bind_some]

/-- The events of a file are those of its messages exactly if no text has a newline. -/
theorem readEvents_iff {ms : List TraceMessage} (hyear : ∀ m ∈ ms, utcYear m.timestamp ≤ 9999)
    {events : List (Option Record)} (hlength : events.length = ms.length) :
    readEvents (ms.foldl (fun k m => process m k) []) = events ↔
      (∀ m ∈ ms, 10 ∉ m.text) ∧ ms.map (fun m => readRecord m.text) = events := by
  rw [foldl_process, List.nil_append]
  have hread : (ms.map lineText).map readEvent = ms.map fun m => readRecord m.text := by
    rw [List.map_map]
    exact List.map_congr_left fun m hm => readEvent_lineText (hyear m hm)
  have hlines : (∀ line ∈ ms.map lineText, 10 ∉ line) ↔ ∀ m ∈ ms, 10 ∉ m.text := by
    rw [List.forall_mem_map]
    exact forall₂_congr fun m _ => notMem_lineText_iff m
  rw [← hlines]
  constructor
  · intro h
    have hall : ∀ line ∈ ms.map lineText, 10 ∉ line := by
      apply length_lines_joined_iff.mp
      simpa [readEvents, hlength] using congrArg List.length h
    rw [readEvents, lines_joined hall, hread] at h
    exact ⟨hall, h⟩
  · rintro ⟨hall, h⟩
    rw [readEvents, lines_joined hall, hread, h]

end FileTraceDump

/-! ## The events -/

/-- A call of `log_call`, or of `log_return` with the result, on the objects of its time. -/
structure Logging where
  event : LogEvent
  result : Option Pointer
  heap : Heap

namespace Logging

/-- The first field of the line. -/
def direction (l : Logging) : String := if l.result = none then ">" else "<"

/-- What the function does to the message of its reservation. -/
def run (py : CPython) (pid : UInt64) (fuel : ℕ) (now : ℕ × ℕ) (l : Logging) : Render Unit :=
  match l.result with
  | none => logCall py l.heap fuel pid l.event now
  | some arg => logReturn py l.heap fuel pid l.event arg now

/-- The text is one that the function leaves in a recycled message. -/
def Writes (py : CPython) (pid : UInt64) (traceMessageCapacity : ℕ) (l : Logging)
    (text : List UInt8) : Prop :=
  ∃ fuel now, ∃ m m' : TraceMessage, traceMessageCapacity < fuel ∧
    m.capacity = traceMessageCapacity ∧ l.run py pid fuel now m.recycle = some ((), m') ∧
      m'.text = text

/-- What there is to be read of the call. -/
def record (pid : UInt64) (l : Logging) : Record := l.event.record l.direction pid

/-- The prefix fits into a message, and the names in it have no comma. -/
def Readable (pid : UInt64) (traceMessageCapacity : ℕ) (l : Logging) : Prop :=
  (prefixText l.direction pid l.event).1.length < traceMessageCapacity ∧ l.event.frame.NoComma

instance (pid : UInt64) (traceMessageCapacity : ℕ) (l : Logging) :
    Decidable (l.Readable pid traceMessageCapacity) :=
  inferInstanceAs (Decidable (_ ∧ _))

/-- A call whose text is read back. -/
lemma Writes.read_iff {py : CPython} {pid : UInt64} {traceMessageCapacity : ℕ} {l : Logging}
    {text : List UInt8} (h : l.Writes py pid traceMessageCapacity text) :
    readRecord text = some (l.record pid) ↔ l.Readable pid traceMessageCapacity := by
  obtain ⟨event, result, heap⟩ := l
  obtain ⟨fuel, now, m, m', hfuel, rfl, hrun, rfl⟩ := h
  cases result with
  | none =>
      obtain ⟨m'', hrun', hread⟩ := logCall_read_iff py heap hfuel pid event now
      obtain rfl : m'' = m' := congrArg Prod.snd (Option.some.inj (hrun'.symm.trans hrun))
      exact hread
  | some arg =>
      obtain ⟨m'', hrun', hread⟩ := logReturn_read_iff py heap hfuel pid event now arg
      obtain rfl : m'' = m' := congrArg Prod.snd (Option.some.inj (hrun'.symm.trans hrun))
      exact hread

end Logging

/-! ## The pipeline -/

section Pipeline

variable {capacity traceMessageCapacity : ℕ} {Pid : Type}

/-- Every ticket's message was committed. -/
lemma Pushed.exists_written {h : DumpHistory Pid} {ms : List TraceMessage}
    (hp : Pushed traceMessageCapacity h ms) {k : ℕ} (hk : k < h.ring.tickets) :
    ∃ d, h.ring.written k = some d := by
  have hmem : (h.ring.written k).map (Draft.shown traceMessageCapacity) ∈
      ms.map (some ∘ TraceMessage.shown) := by
    rw [hp]
    exact List.mem_map_of_mem (List.mem_range.mpr hk)
  obtain ⟨m, -, hm⟩ := List.mem_map.mp hmem
  obtain ⟨d, hd, -⟩ := Option.map_eq_some_iff.mp hm.symm
  exact ⟨d, hd⟩

/-- The messages of the tickets are read as those events, one each, exactly if each of them is. -/
lemma Pushed.map_read_iff {h : DumpHistory Pid} {ms : List TraceMessage}
    (hp : Pushed traceMessageCapacity h ms) (events : ℕ → Record) :
    ms.map (fun m => readRecord m.text) =
        (List.range h.ring.tickets).map (fun k => some (events k)) ↔
      ∀ k < h.ring.tickets, ∀ d ∈ h.ring.written k,
        readRecord (d.shown traceMessageCapacity).text = some (events k) := by
  have hread : ms.map (fun m => readRecord m.text) = (List.range h.ring.tickets).map fun k =>
      ((h.ring.written k).map (Draft.shown traceMessageCapacity)).bind fun s =>
        readRecord s.text := by
    have hmap := congrArg (List.map fun o => o.bind fun s : Shown => readRecord s.text) hp
    simpa [List.map_map, Function.comp_def, TraceMessage.shown] using hmap
  rw [hread, List.map_inj_left]
  refine ⟨fun hall k hk d hd => ?_, fun hall k hk => ?_⟩
  · have hk' := hall k (List.mem_range.mpr hk)
    rwa [hd, Option.map_some, Option.bind_some] at hk'
  · obtain ⟨d, hd⟩ := hp.exists_written (List.mem_range.mp hk)
    rw [hd, Option.map_some, Option.bind_some]
    exact hall k (List.mem_range.mp hk) d hd

variable [DecidableEq Pid] [Fintype Pid]

/-- **A trace file has every event.**  In a run without overruns in which every push is committed
before `stop` is first called, with what is pushed written by `log_call` and `log_return`: when
`stop` returns, reading the file gives what was logged, once and in the order of the pushes, exactly
if no text has a newline in it and every prefix fits into a message and shows no comma in a name. -/
theorem trace_file_events_iff (hc : ∃ k, capacity = 2 ^ k)
    {x : (DumpSystem capacity Pid × DumpHistory Pid) × List UInt8}
    (hx : (fileDump capacity traceMessageCapacity Pid).Reachable x)
    (hreturning : x.1.1.caller = .returning)
    (hyear : ∀ k < x.1.2.ring.tickets, ∀ d ∈ x.1.2.ring.written k,
      utcYear (d.shown traceMessageCapacity).timestamp ≤ 9999)
    (py : CPython) (pid : UInt64) (logged : ℕ → Logging)
    (hlogged : ∀ k < x.1.2.ring.tickets, ∀ d ∈ x.1.2.ring.written k,
      (logged k).Writes py pid traceMessageCapacity (d.shown traceMessageCapacity).text) :
    FileTraceDump.readEvents x.2 =
        (List.range x.1.2.ring.tickets).map (fun k => some ((logged k).record pid)) ↔
      ∀ k < x.1.2.ring.tickets, (logged k).Readable pid traceMessageCapacity ∧
        ∀ d ∈ x.1.2.ring.written k, 10 ∉ (d.shown traceMessageCapacity).text := by
  obtain ⟨ms, hpushed, hfile⟩ := sunkDump_pushed hc (by simp) hx hreturning
  have hyears : ∀ m ∈ ms, utcYear m.timestamp ≤ 9999 :=
    (hpushed.forall_iff (P := fun s => utcYear s.timestamp ≤ 9999)).mpr hyear
  have hlines : (∀ m ∈ ms, 10 ∉ m.text) ↔ ∀ k < x.1.2.ring.tickets, ∀ d ∈ x.1.2.ring.written k,
      10 ∉ (d.shown traceMessageCapacity).text :=
    hpushed.forall_iff (P := fun s => 10 ∉ s.text)
  have hlength : ((List.range x.1.2.ring.tickets).map fun k =>
      some ((logged k).record pid)).length = ms.length := by
    simpa using (congrArg List.length hpushed).symm
  rw [hfile, FileTraceDump.readEvents_iff hyears hlength, hlines, hpushed.map_read_iff]
  have hread : (∀ k < x.1.2.ring.tickets, ∀ d ∈ x.1.2.ring.written k,
      readRecord (d.shown traceMessageCapacity).text = some ((logged k).record pid)) ↔
        ∀ k < x.1.2.ring.tickets, (logged k).Readable pid traceMessageCapacity := by
    refine forall₂_congr fun k hk => ?_
    obtain ⟨d, hd⟩ := hpushed.exists_written hk
    have hiff := (hlogged k hk d hd).read_iff
    rw [hd]
    simpa using hiff
  rw [hread, ← forall₂_and]
  exact forall₂_congr fun _ _ => and_comm

end Pipeline

/-- The call of `f(x)` of `Serialize.oneArgument`. -/
def callLogging : Logging where
  event := ⟨4, 1, 16, 2, Serialize.oneArgument⟩
  result := none
  heap := Serialize.selfContaining

/-- Its line in a message of 40 bytes. -/
def callLine : List UInt8 :=
  (callLogging.run Serialize.plainCPython 7 41 (0, 0) (Serialize.staleMessage 120).recycle).elim []
    fun written => written.2.text

lemma writes_callLine : callLogging.Writes Serialize.plainCPython 7 40 callLine := by
  have hfuel : (Serialize.staleMessage 120).capacity < 41 := by decide
  obtain ⟨m', hcall, -⟩ := logCall_read_iff Serialize.plainCPython Serialize.selfContaining hfuel 7
    ⟨4, 1, 16, 2, Serialize.oneArgument⟩ (0, 0)
  have hrun : callLogging.run Serialize.plainCPython 7 41 (0, 0)
      (Serialize.staleMessage 120).recycle = some ((), m') := hcall
  refine ⟨41, (0, 0), Serialize.staleMessage 120, m', by decide, by decide, hrun, ?_⟩
  rw [callLine, hrun, Option.elim_some]

/-- A producer pushes that line, and `stop` drains it. -/
def pushCallLine : List (DumpAction Bool) :=
  [.callStart, .produce (.headInc true), .produce (.producerLock true),
    .produce (.markData true), .produce (.edit true (.write (.ofBuffer callLine))),
    .produce (.commitPush true), .callStop false, .threadTest, .join, .testSink] ++ drainOne

/-- The file of a run with one event. -/
theorem trace_file_events_iff_call :
    ∃ x, (fileDump 2 40 Bool).exec
        ((.construct 40 (fun _ _ => 7) (fun _ => 7) (fun _ => 7), {}), []) pushCallLine = some x ∧
      x.1.2.ring.tickets = 1 ∧ FileTraceDump.readEvents x.2 = [some (callLogging.record 7)] := by
  have h : ((fileDump 2 40 Bool).exec
      ((.construct 40 (fun _ _ => 7) (fun _ => 7) (fun _ => 7), {}), []) pushCallLine).any
        (fun x => decide (x.1.1.caller = .returning ∧ x.1.2.ring.tickets = 1 ∧
          ∀ k < x.1.2.ring.tickets, ∀ d ∈ x.1.2.ring.written k,
            utcYear (d.shown 40).timestamp ≤ 9999 ∧ (d.shown 40).text = callLine ∧
              10 ∉ (d.shown 40).text)) = true := by
    decide +kernel
  obtain ⟨x, hx, hx'⟩ := (Option.any_eq_true _ _).mp h
  obtain ⟨hreturning, htickets, hshown⟩ := of_decide_eq_true hx'
  have hreach : (fileDump 2 40 Bool).Reachable x :=
    Machine.reachable_of_exec ⟨⟨⟨_, _, _, rfl⟩, rfl⟩, rfl⟩ hx
  have hreadable : callLogging.Readable 7 40 := by decide +kernel
  have hread := (trace_file_events_iff ⟨1, rfl⟩ hreach hreturning
    (fun k hk d hd => (hshown k hk d hd).1) Serialize.plainCPython 7 (fun _ => callLogging)
    fun k hk d hd => (hshown k hk d hd).2.1.symm ▸ writes_callLine).mpr
    fun k hk => ⟨hreadable, fun d hd => (hshown k hk d hd).2.2⟩
  refine ⟨x, hx, htickets, ?_⟩
  rw [hread, htickets, List.range_one, List.map_singleton]

end InfiTracing
