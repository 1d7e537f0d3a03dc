import InfiTracing.TraceDump.IsoTime
import InfiTracing.TraceDump.Sink

/-!
# Reading a trace file

`FileTraceDump::process` prints one line for a message: the time, a tab and the text.  The reader
here goes the other way.  It takes the digits behind the point of the time for the number of
milliseconds that was printed there, so that it gets the timestamp back.  The decimal fraction of
a second that the digits denote is another number of milliseconds unless they are all zero.

`readLines_iff` is the round trip over any messages; `trace_file_read_iff` is that of the whole
pipeline, from the pushes of the producers through the ring buffer, the thread and `stop` to the
reader of the file.  A message text with a newline in it is what breaks it, and nothing else.
-/

namespace InfiTracing

open Framework

namespace FileTraceDump

/-! ## The reader -/

/-- The timestamp that was printed: the whole seconds, and the six digits behind the point as the
number of milliseconds that `%06d` has made of them. -/
def printedMillis (time : ℚ) : ℕ := (⌊time⌋ * 1000 + ⌊(time - ⌊time⌋) * 10 ^ 6⌋).toNat

/-- The timestamp and the text of a line. -/
def readLine (line : List UInt8) : Option (ℕ × List UInt8) := do
  let (time, text) ← cut 9 line
  let time ← readTime time
  some (printedMillis time, text)

/-- The entries of a trace file. -/
def readLines (file : List UInt8) : List (Option (ℕ × List UInt8)) :=
  (lines 10 file).map readLine

/-- What `process` does to the stream. -/
def process (m : TraceMessage) (file : List UInt8) : List UInt8 := file ++ (line m).1

/-! ## One line -/

/-- A line without its end. -/
def lineText (m : TraceMessage) : List UInt8 := (isoTime m.timestamp).1 ++ 90 :: 9 :: m.text

lemma line_val (m : TraceMessage) : (line m).1 = lineText m ++ [10] := by
  have htab : (CString.literal "Z\t").1 = [90, 9] := by decide
  have hend : (CString.literal "\n").1 = [10] := by decide
  simp only [line, lineText, CString.append_val, htab, hend, CString.ofMessage_val,
    List.append_assoc, List.cons_append, List.nil_append]

/-- The milliseconds come back, though they are printed as microseconds. -/
lemma printedMillis_time (ts : ℕ) :
    printedMillis ((ts / 1000 : ℕ) + (ts % 1000 : ℕ) / 10 ^ 6 : ℚ) = ts := by
  have hfraction : ((ts % 1000 : ℕ) / 10 ^ 6 : ℚ) < 1 := by
    have hlt : ((ts % 1000 : ℕ) : ℚ) < 1000 := by exact_mod_cast Nat.mod_lt ts (by norm_num)
    rw [div_lt_one (by norm_num)]
    linarith
  have hpos : (0 : ℚ) ≤ (ts % 1000 : ℕ) / 10 ^ 6 := by positivity
  have hfloor : ⌊((ts / 1000 : ℕ) + (ts % 1000 : ℕ) / 10 ^ 6 : ℚ)⌋ = (ts / 1000 : ℕ) := by
    rw [Int.floor_natCast_add, Int.floor_eq_zero_iff.mpr ⟨hpos, hfraction⟩, add_zero]
  have hrest : ((ts / 1000 : ℕ) + (ts % 1000 : ℕ) / 10 ^ 6 - (ts / 1000 : ℕ) : ℚ) * 10 ^ 6 =
      (ts % 1000 : ℕ) := by
    rw [add_sub_cancel_left]
    field_simp
  rw [printedMillis, hfloor, Int.cast_natCast, hrest, Int.floor_natCast]
  omega

/-- The text of a line is read back whatever is in it. -/
lemma readLine_lineText {m : TraceMessage} (hyear : utcYear m.timestamp ≤ 9999) :
    readLine (lineText m) = some (m.timestamp, m.text) := by
  have hcut := cut_isoTime (by decide : (9 : UInt8).toNat < 45) m.timestamp m.text
  rw [readLine, lineText, hcut]
  simp only [Option.bind_eq_bind, Option.bind_some, readTime_isoTime hyear, printedMillis_time]

lemma notMem_lineText_iff (m : TraceMessage) : 10 ∉ lineText m ↔ 10 ∉ m.text := by
  have htime : 10 ∉ (isoTime m.timestamp).1 := fun h => absurd (le_of_mem_isoTime h) (by decide)
  simp [lineText, htime]

/-! ## The file -/

lemma foldl_process (file : List UInt8) (ms : List TraceMessage) :
    ms.foldl (fun k m => process m k) file = file ++ joined 10 (ms.map lineText) := by
  induction ms generalizing file with
  | nil => exact (List.append_nil file).symm
  | cons m ms ih =>
      rw [List.foldl_cons, ih, process, line_val, List.map_cons, joined_cons, List.append_assoc,
        List.append_assoc, List.singleton_append]

/-- **The round trip of a trace file**: the entries come back exactly if no text has a newline. -/
theorem readLines_iff {ms : List TraceMessage} (hyear : ∀ m ∈ ms, utcYear m.timestamp ≤ 9999) :
    readLines (ms.foldl (fun k m => process m k) []) =
        ms.map (fun m => some (m.timestamp, m.text)) ↔
      ∀ m ∈ ms, 10 ∉ m.text := by
  rw [foldl_process, List.nil_append]
  have hread : (ms.map lineText).map readLine = ms.map fun m => some (m.timestamp, m.text) := by
    rw [List.map_map]
    exact List.map_congr_left fun m hm => readLine_lineText (hyear m hm)
  have hlines : (∀ line ∈ ms.map lineText, 10 ∉ line) ↔ ∀ m ∈ ms, 10 ∉ m.text := by
    rw [List.forall_mem_map]
    exact forall₂_congr fun m _ => notMem_lineText_iff m
  rw [← hlines]
  constructor
  · intro h
    apply length_lines_joined_iff.mp
    simpa [readLines] using congrArg List.length h
  · intro h
    rw [readLines, lines_joined h, hread]

end FileTraceDump

/-! ## The pipeline -/

variable {capacity traceMessageCapacity : ℕ} {Pid : Type} [DecidableEq Pid] [Fintype Pid]

/-- A `FileTraceDump` that closes its handle, and the file. -/
def fileDump (capacity traceMessageCapacity : ℕ) (Pid : Type) [DecidableEq Pid] [Fintype Pid] :
    Machine ((DumpSystem capacity Pid × DumpHistory Pid) × List UInt8) (DumpAction Pid) :=
  sunkDump [] FileTraceDump.process (.fileTraceDump true) capacity traceMessageCapacity Pid

/-- What is to be read of a message. -/
def Shown.entry (s : Shown) : ℕ × List UInt8 := (s.timestamp, s.text)

/-- **A trace file has every message.**  In a run without overruns in which every push is
committed before `stop` is first called, with the producers and the thread interleaved in any
way: when `stop` returns, reading the file gives the timestamp and the text of every message
pushed, once and in the order of the pushes, exactly if no text has a newline in it. -/
theorem trace_file_read_iff (hc : ∃ k, capacity = 2 ^ k)
    {x : (DumpSystem capacity Pid × DumpHistory Pid) × List UInt8}
    (hx : (fileDump capacity traceMessageCapacity Pid).Reachable x)
    (hreturning : x.1.1.caller = .returning)
    (hyear : ∀ k < x.1.2.ring.tickets, ∀ d ∈ x.1.2.ring.written k,
      utcYear (d.shown traceMessageCapacity).timestamp ≤ 9999) :
    FileTraceDump.readLines x.2 = (List.range x.1.2.ring.tickets).map (fun k =>
        (x.1.2.ring.written k).map fun d => (d.shown traceMessageCapacity).entry) ↔
      ∀ k < x.1.2.ring.tickets, ∀ d ∈ x.1.2.ring.written k,
        10 ∉ (d.shown traceMessageCapacity).text := by
  obtain ⟨ms, hpushed, hfile⟩ := sunkDump_pushed hc (by simp) hx hreturning
  have hyears : ∀ m ∈ ms, utcYear m.timestamp ≤ 9999 :=
    (hpushed.forall_iff (P := fun s => utcYear s.timestamp ≤ 9999)).mpr hyear
  have hentries : (List.range x.1.2.ring.tickets).map (fun k =>
      (x.1.2.ring.written k).map fun d => (d.shown traceMessageCapacity).entry) =
        ms.map fun m => some (m.timestamp, m.text) := by
    have hmap := congrArg (List.map (Option.map Shown.entry)) hpushed
    simpa [List.map_map, Function.comp_def, Shown.entry, TraceMessage.shown] using hmap.symm
  rw [hentries, hfile, FileTraceDump.readLines_iff hyears]
  exact hpushed.forall_iff (P := fun s => 10 ∉ s.text)

/-- The file of a run with one message, pushed before the thread first looks. -/
theorem trace_file_read_iff_one :
    ∃ x, (fileDump 2 4 Bool).exec
        ((.construct 4 (fun _ _ => 7) (fun _ => 7) (fun _ => 7), {}), [])
          (stopBeforeTest ++ drainOne) = some x ∧ x.1.1.caller = .returning ∧
      (FileTraceDump.readLines x.2 = (List.range x.1.2.ring.tickets).map (fun k =>
          (x.1.2.ring.written k).map fun d => (d.shown 4).entry) ↔
        ∀ k < x.1.2.ring.tickets, ∀ d ∈ x.1.2.ring.written k, 10 ∉ (d.shown 4).text) := by
  have h : ((fileDump 2 4 Bool).exec
      ((.construct 4 (fun _ _ => 7) (fun _ => 7) (fun _ => 7), {}), [])
        (stopBeforeTest ++ drainOne)).any (fun x => decide (x.1.1.caller = .returning ∧
          ∀ k < x.1.2.ring.tickets, ∀ d ∈ x.1.2.ring.written k,
            utcYear (d.shown 4).timestamp ≤ 9999)) = true := by
    decide +kernel
  obtain ⟨x, hx, hx'⟩ := (Option.any_eq_true _ _).mp h
  obtain ⟨hreturning, hyear⟩ := of_decide_eq_true hx'
  have hreach : (fileDump 2 4 Bool).Reachable x :=
    Machine.reachable_of_exec ⟨⟨⟨_, _, _, rfl⟩, rfl⟩, rfl⟩ hx
  exact ⟨x, hx, hreturning, trace_file_read_iff ⟨1, rfl⟩ hreach hreturning hyear⟩

end InfiTracing
