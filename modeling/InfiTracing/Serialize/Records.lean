import InfiTracing.Framework.Fields
import InfiTracing.Serialize.LogCall
import InfiTracing.Serialize.Renders

/-!
# Reading an event back from its text

The line of an event is `direction,pid:tid:gid:depth,file:line,module,function` and, at the higher
trace levels, a comma and more behind it.  The test of the file dump reads it back by position:
`d, _, _, mod, func_w_args = received.split(",", 4)`.  `readRecord` is that reader, with the two
fields taken apart that the test does not look at.

`record_read_iff` says when `log_call` and `log_return` write a line that is read back: exactly if
all of the prefix fits into the message with its NUL, and no name in it has a comma.  What is
written behind the prefix does not matter, and neither do colons in a file name.
-/

namespace InfiTracing.Serialize

open Framework

/-! ## The reader -/

/-- What the line of an event says, less the arguments or the result. -/
structure Record where
  direction : List UInt8
  pid : ℤ
  tid : ℤ
  gid : ℤ
  depth : ℤ
  fileName : List UInt8
  lineNo : ℤ
  moduleName : List UInt8
  funcName : List UInt8
  deriving DecidableEq

/-- `pid:tid:gid:depth`. -/
def readIds (ids : List UInt8) : Option (ℤ × ℤ × ℤ × ℤ) := do
  let (pid, ids) ← cut 58 ids
  let (tid, ids) ← cut 58 ids
  let (gid, depth) ← cut 58 ids
  some (← readDecimal pid, ← readDecimal tid, ← readDecimal gid, ← readDecimal depth)

/-- `file:line,module,function` with more behind it. -/
def readNames (line : List UInt8) : Option (List UInt8 × ℤ × List UInt8 × List UInt8) := do
  let (place, line) ← cut 44 line
  let (moduleName, funcWithArgs) ← cut 44 line
  let (fileName, lineNo) ← cutLast 58 place
  some (fileName, ← readDecimal lineNo, moduleName, funcWithArgs.takeWhile (· ≠ 44))

/-- The reader of a line. -/
def readRecord (line : List UInt8) : Option Record := do
  let (direction, line) ← cut 44 line
  let (ids, line) ← cut 44 line
  let (pid, tid, gid, depth) ← readIds ids
  let (fileName, lineNo, moduleName, funcName) ← readNames line
  some ⟨direction, pid, tid, gid, depth, fileName, lineNo, moduleName, funcName⟩

/-- The name that stands for the module in a line. -/
def TracedFrame.module (frame : TracedFrame) : CString :=
  frame.moduleName.getD (CString.literal "<unknown>")

/-- What there is to be read of an event. -/
def LogEvent.record (direction : String) (pid : UInt64) (event : LogEvent) : Record where
  direction := (CString.literal direction).1
  pid := toInt pid.toNat
  tid := event.tid.toInt % 32768
  gid := event.gid.toInt % 32768
  depth := toInt event.depth.toInt
  fileName := event.frame.fileName.1
  lineNo := event.frame.lineNo.toInt
  moduleName := event.frame.module.1
  funcName := event.frame.funcName.1

/-! ## The names of a line -/

section Names

variable {fileName moduleName funcName line rest : List UInt8} {lineNo : ℤ}

/-- The part of the prefix that `readNames` reads. -/
def namesText (fileName : List UInt8) (lineNo : ℤ) (moduleName rest : List UInt8) : List UInt8 :=
  fileName ++ 58 :: (decimal lineNo ++ 44 :: (moduleName ++ 44 :: rest))

lemma comma_notMem_decimal (z : ℤ) : 44 ∉ decimal z := by
  intro h
  rcases mem_decimal h with h | h
  · exact absurd h (by decide)
  · exact absurd h.1 (by decide)

lemma colon_notMem_decimal (z : ℤ) : 58 ∉ decimal z := by
  intro h
  rcases mem_decimal h with h | h
  · exact absurd h (by decide)
  · exact absurd h.2 (by decide)

lemma readNames_namesText (hfile : 44 ∉ fileName) (hmodule : 44 ∉ moduleName) :
    readNames (namesText fileName lineNo moduleName rest) =
      some (fileName, lineNo, moduleName, rest.takeWhile (· ≠ 44)) := by
  have hplace : 44 ∉ fileName ++ 58 :: decimal lineNo := by
    simp [hfile, comma_notMem_decimal]
  have hsplit : namesText fileName lineNo moduleName rest =
      (fileName ++ 58 :: decimal lineNo) ++ 44 :: (moduleName ++ 44 :: rest) := by
    simp [namesText]
  simp only [readNames, hsplit, cut_append hplace, cut_append hmodule, Option.bind_eq_bind,
    Option.bind_some, cutLast_append (colon_notMem_decimal lineNo), readDecimal_decimal]

/-- A line that is read has the names in it, without commas. -/
lemma of_readNames (h : readNames line = some (fileName, lineNo, moduleName, funcName)) :
    ∃ digits rest, line = fileName ++ 58 :: (digits ++ 44 :: (moduleName ++ 44 :: rest)) ∧
      44 ∉ fileName ∧ 44 ∉ digits ∧ 44 ∉ moduleName ∧ funcName = rest.takeWhile (· ≠ 44) := by
  simp only [readNames, Option.bind_eq_bind, Option.bind_eq_some_iff, Option.some.injEq,
    Prod.exists, Prod.mk.injEq] at h
  obtain ⟨place, line', hplace, _, rest, hmodule, _, digits, hfile, _, -, rfl, rfl, rfl, rfl⟩ := h
  have hnot := notMem_of_cut hplace
  rw [append_of_cutLast hfile, List.mem_append, List.mem_cons, not_or, not_or] at hnot
  refine ⟨digits, rest, ?_, hnot.1, hnot.2.2, notMem_of_cut hmodule, rfl⟩
  rw [append_of_cut hplace, append_of_cutLast hfile, append_of_cut hmodule]
  simp

/-- If the file and the module come back, the rest of the line is what was written behind them. -/
lemma rest_of_readNames {digits rest' : List UInt8} (hdigits : 44 ∉ digits)
    (h : fileName ++ 58 :: (decimal lineNo ++ 44 :: line) =
      fileName ++ 58 :: (digits ++ 44 :: (moduleName ++ 44 :: rest'))) :
    line = moduleName ++ 44 :: rest' := by
  have htail := List.cons.inj (List.append_cancel_left h)
  exact (append_sep_inj (comma_notMem_decimal lineNo) hdigits htail.2).2

lemma namesText_append (fileName : List UInt8) (lineNo : ℤ)
    (moduleName funcName rest : List UInt8) :
    namesText fileName lineNo moduleName funcName ++ rest =
      namesText fileName lineNo moduleName (funcName ++ rest) := by
  simp [namesText]

/-- **The names come back** exactly if none of them has a comma. -/
lemma readNames_namesText_iff (hrest : rest = [] ∨ rest.head? = some 44) :
    readNames (namesText fileName lineNo moduleName (funcName ++ rest)) =
        some (fileName, lineNo, moduleName, funcName) ↔
      44 ∉ fileName ∧ 44 ∉ moduleName ∧ 44 ∉ funcName := by
  constructor
  · intro h
    obtain ⟨digits, rest', hline, hfile, hdigits, hmodule, hfunc⟩ := of_readNames h
    refine ⟨hfile, hmodule, ?_⟩
    rw [hfunc]
    exact fun hmem => by simpa using List.mem_takeWhile_imp hmem
  · rintro ⟨hfile, hmodule, hfunc⟩
    rw [readNames_namesText hfile hmodule]
    have htake : (funcName ++ rest).takeWhile (· ≠ 44) = funcName := by
      have hnames : ∀ c ∈ funcName, decide (c ≠ 44) = true := by
        intro c hc
        exact decide_eq_true fun heq => hfunc (heq ▸ hc)
      rw [List.takeWhile_append_of_pos hnames]
      rcases hrest with rfl | hhead
      · simp
      · obtain ⟨tail, rfl⟩ := List.head?_eq_some_iff.mp hhead
        simp
    rw [htake]

/-- The names do not come back if the last byte is missing. -/
lemma readNames_dropLast_ne :
    readNames (namesText fileName lineNo moduleName funcName).dropLast ≠
      some (fileName, lineNo, moduleName, funcName) := by
  intro h
  obtain ⟨digits, rest, hline, -, hdigits, -, hfunc⟩ := of_readNames h
  have hdrop : (namesText fileName lineNo moduleName funcName).dropLast =
      fileName ++ 58 :: (decimal lineNo ++ 44 :: (moduleName ++ 44 :: funcName).dropLast) := by
    rw [namesText, List.dropLast_append_of_ne_nil (by simp), List.dropLast_cons_of_ne_nil (by simp),
      List.dropLast_append_of_ne_nil (by simp), List.dropLast_cons_of_ne_nil (by simp)]
  rw [hdrop] at hline
  have hlength := congrArg List.length (rest_of_readNames hdigits hline)
  have hprefix := (List.takeWhile_prefix (l := rest) (· ≠ 44)).length_le
  rw [← hfunc] at hprefix
  simp only [List.length_dropLast, List.length_append, List.length_cons] at hlength
  omega

end Names

/-! ## The line of an event -/

section Line

variable {direction : String} {pid : UInt64} {event : LogEvent} {line : List UInt8}

/-- `pid:tid:gid:depth`. -/
def idsText (pid tid gid depth : ℤ) : List UInt8 :=
  decimal pid ++ 58 :: (decimal tid ++ 58 :: (decimal gid ++ 58 :: decimal depth))

lemma readIds_idsText (pid tid gid depth : ℤ) :
    readIds (idsText pid tid gid depth) = some (pid, tid, gid, depth) := by
  simp only [readIds, idsText, cut_append (colon_notMem_decimal _), Option.bind_eq_bind,
    Option.bind_some, readDecimal_decimal]

lemma comma_notMem_idsText (pid tid gid depth : ℤ) : 44 ∉ idsText pid tid gid depth := by
  simp [idsText, comma_notMem_decimal]

/-- Reading a line is reading the names in it, which stand last. -/
lemma readRecord_eq_some_iff {first : List UInt8} (hfirst : 44 ∉ first) (pid tid gid depth : ℤ)
    {fileName moduleName funcName : List UInt8} {lineNo : ℤ} :
    readRecord (first ++ 44 :: (idsText pid tid gid depth ++ 44 :: line)) =
        some ⟨first, pid, tid, gid, depth, fileName, lineNo, moduleName, funcName⟩ ↔
      readNames line = some (fileName, lineNo, moduleName, funcName) := by
  simp only [readRecord, cut_append hfirst, cut_append (comma_notMem_idsText _ _ _ _),
    readIds_idsText, Option.bind_eq_bind, Option.bind_some]
  cases readNames line with
  | none => simp
  | some names => simp [Prod.ext_iff]

/-- The first fields of a line, and the rest of it. -/
def lineText (direction : String) (pid : UInt64) (event : LogEvent) (line : List UInt8) :
    List UInt8 :=
  (CString.literal direction).1 ++ 44 :: (idsText (toInt pid.toNat) (event.tid.toInt % 32768)
    (event.gid.toInt % 32768) (toInt event.depth.toInt) ++ 44 :: line)

/-- The format of `serialize_prefix`. -/
lemma format_val (direction fileName moduleName funcName : CString)
    (pid tid gid depth lineNo : ℤ) :
    (direction ++ CString.literal "," ++ CString.decimal pid ++ CString.literal ":" ++
        CString.decimal tid ++ CString.literal ":" ++ CString.decimal gid ++
        CString.literal ":" ++ CString.decimal depth ++ CString.literal "," ++ fileName ++
        CString.literal ":" ++ CString.decimal lineNo ++ CString.literal "," ++ moduleName ++
        CString.literal "," ++ funcName).1 =
      direction.1 ++ 44 :: (idsText pid tid gid depth ++
        44 :: namesText fileName.1 lineNo moduleName.1 funcName.1) := by
  have hcomma : (CString.literal ",").1 = [44] := by decide
  have hcolon : (CString.literal ":").1 = [58] := by decide
  have hdecimal (z : ℤ) : (CString.decimal z).1 = decimal z := rfl
  simp only [idsText, namesText, CString.append_val, hcomma, hcolon, hdecimal, List.append_assoc,
    List.cons_append, List.nil_append]

lemma prefixText_val (direction : String) (pid : UInt64) (event : LogEvent) :
    (prefixText direction pid event).1 = lineText direction pid event
      (namesText event.frame.fileName.1 event.frame.lineNo.toInt event.frame.module.1
        event.frame.funcName.1) :=
  format_val ..

lemma readRecord_lineText (hdirection : 44 ∉ (CString.literal direction).1) :
    readRecord (lineText direction pid event line) = some (event.record direction pid) ↔
      readNames line = some (event.frame.fileName.1, event.frame.lineNo.toInt,
        event.frame.module.1, event.frame.funcName.1) :=
  readRecord_eq_some_iff hdirection ..

lemma lineText_append (direction : String) (pid : UInt64) (event : LogEvent)
    (line rest : List UInt8) :
    lineText direction pid event line ++ rest = lineText direction pid event (line ++ rest) := by
  have happend (first ids : List UInt8) :
      first ++ 44 :: (ids ++ 44 :: line) ++ rest =
        first ++ 44 :: (ids ++ 44 :: (line ++ rest)) := by
    simp
  exact happend _ _

lemma dropLast_lineText (h : line ≠ []) : (lineText direction pid event line).dropLast =
    lineText direction pid event line.dropLast := by
  rw [lineText, lineText, List.dropLast_append_of_ne_nil (by simp),
    List.dropLast_cons_of_ne_nil (by simp), List.dropLast_append_of_ne_nil (by simp),
    List.dropLast_cons_of_ne_nil h]

/-- The names that a line shows. -/
def TracedFrame.NoComma (frame : TracedFrame) : Prop :=
  44 ∉ frame.fileName.1 ∧ 44 ∉ frame.module.1 ∧ 44 ∉ frame.funcName.1

instance : DecidablePred TracedFrame.NoComma := fun _ => inferInstanceAs (Decidable (_ ∧ _))

/-- What a message of this capacity can show of an event: the prefix with nothing or a comma behind
it, the prefix less its last byte, or nothing. -/
def Logged (capacity : ℕ) (prefixed text : List UInt8) : Prop :=
  (prefixed.length < capacity ∧ ∃ rest, text = prefixed ++ rest ∧
      (rest = [] ∨ rest.head? = some 44)) ∨
    (prefixed.length = capacity ∧ text = prefixed.dropLast) ∨
    (capacity < prefixed.length ∧ text = [])

/-- **The line of an event is read back** exactly if all of the prefix is there, with its NUL, and
no name has a comma. -/
theorem Logged.read_iff {capacity : ℕ} {text : List UInt8}
    (hdirection : 44 ∉ (CString.literal direction).1)
    (h : Logged capacity (prefixText direction pid event).1 text) :
    readRecord text = some (event.record direction pid) ↔
      (prefixText direction pid event).1.length < capacity ∧ event.frame.NoComma := by
  rcases h with ⟨hfits, rest, htext, hrest⟩ | ⟨hfull, htext⟩ | ⟨hlong, htext⟩
  · rw [and_iff_right hfits]
    rw [htext, prefixText_val, lineText_append, namesText_append, readRecord_lineText hdirection]
    exact readNames_namesText_iff hrest
  · refine iff_of_false ?_ fun h => h.1.ne hfull
    have hnames : namesText event.frame.fileName.1 event.frame.lineNo.toInt event.frame.module.1
        event.frame.funcName.1 ≠ [] := by simp [namesText]
    rw [htext, prefixText_val, dropLast_lineText hnames, readRecord_lineText hdirection]
    exact readNames_dropLast_ne
  · have hnone : readRecord [] = none := rfl
    rw [htext, hnone]
    exact iff_of_false (by simp) fun h => hlong.not_gt h.1

end Line

/-! ## What is written behind the prefix -/

section Opens

variable {m m' : TraceMessage} {c c' : Prop} {x : Render Unit} {n : ℤ}
  {repr : Pointer → Render Bool}

/-- The program leaves the message as it is unless `c`; then it appends something, which starts with
a comma if there is any space. -/
def Opens (c : Prop) (x : Render Unit) (m : TraceMessage) : Prop :=
  Yields x m fun _ m' => (¬ c ∧ m' = m) ∨
    (c ∧ ∃ bs, m.Appends m' bs ∧ (0 < m.availSize → bs.head? = some 44))

/-- From every message with less than `n` bytes available, the program appends something. -/
def AppendsBelow (n : ℤ) (repr : Pointer → Render Bool) : Prop :=
  ∀ m : TraceMessage, m.writeIndex ≤ m.limitIndex → m.availSize < n → ∀ ptr,
    Renders (repr ptr) m fun _ _ => True

lemma Opens.nothing (m : TraceMessage) : Opens False (return ()) m :=
  Yields.pure (.inl ⟨not_false, rfl⟩)

lemma Opens.mono (h : Opens c x m) (hiff : c ↔ c') : Opens c' x m := by
  rwa [Opens, ← hiff]

lemma Opens.of_renders
    (h : Renders x m fun _ bs => 0 < m.availSize → bs.head? = some 44) : Opens True x m :=
  Yields.mono h fun _ _ hbs => .inr ⟨trivial, hbs⟩

lemma Opens.ite [Decidable c] (h : c → Opens c' x m) :
    Opens (c ∧ c') (if c then x else return ()) m := by
  split
  · next hc => exact (h hc).mono (by simp [hc])
  · next hc => exact (Opens.nothing m).mono (by simp [hc])

/-- The rule of sequencing: what opens is what the first program that writes appends. -/
lemma Opens.bind {y : Render Unit} (hm : m.writeIndex ≤ m.limitIndex) (hn : m.availSize < n)
    (hx : Opens c x m)
    (hy : ∀ m' : TraceMessage, m'.writeIndex ≤ m'.limitIndex → m'.availSize < n → Opens c' y m') :
    Opens (c ∨ c') (x >>= fun _ => y) m := by
  refine Yields.bind hx fun _ m' hfirst => ?_
  rcases hfirst with ⟨hc, rfl⟩ | ⟨hc, bs, happends, hopens⟩
  · exact (hy m' hm hn).mono (by simp [hc])
  · have havail := happends.availSize
    refine Yields.mono (hy m' happends.within (by omega)) fun _ m'' hsecond => ?_
    refine .inr ⟨.inl hc, ?_⟩
    rcases hsecond with ⟨-, rfl⟩ | ⟨-, cs, happends', -⟩
    · exact ⟨bs, happends, hopens⟩
    · refine ⟨bs ++ cs, happends.trans happends', fun hpos => ?_⟩
      rw [List.head?_append, hopens hpos, Option.some_or]

/-- A text that starts with a comma, and more behind it. -/
lemma opens_write {label : String} (hlabel : (CString.literal label).1.head? = some 44)
    (hm : m.writeIndex ≤ m.limitIndex) {f : Bool → Render Unit}
    (hf : ∀ ok bs m', m.Appends m' bs → Renders (f ok) m' fun _ _ => True) :
    Opens True (write (CString.literal label) >>= f) m := by
  refine .of_renders (.bind (renders_write hm _) fun ok bs m' happends hwrite => ?_)
  refine (hf ok bs m' happends).mono fun _ cs _ hpos => ?_
  obtain ⟨rest, hrest⟩ := List.head?_eq_some_iff.mp hlabel
  obtain ⟨k, hk⟩ : ∃ k, m.availSize.toNat = k + 1 := ⟨m.availSize.toNat - 1, by omega⟩
  rw [hwrite.1, hrest, hk]
  rfl

variable (hrepr : AppendsBelow n repr)

include hrepr

lemma opens_writeArg {label : String} (hlabel : (CString.literal label).1.head? = some 44)
    (hm : m.writeIndex ≤ m.limitIndex) (hn : m.availSize < n) (ptr : Pointer) :
    Opens True (writeArg repr label ptr) m := by
  refine opens_write hlabel hm fun _ bs m' happends => ?_
  have havail := happends.availSize
  exact .bind (hrepr m' happends.within (by omega) ptr) fun _ _ m'' happends' _ =>
    .pure happends'.within trivial

lemma opens_writeArgs (hm : m.writeIndex ≤ m.limitIndex) (hn : m.availSize < n)
    (ptrs : List Pointer) : Opens (ptrs ≠ []) (writeArgs repr ptrs) m := by
  induction ptrs generalizing m with
  | nil => exact (Opens.nothing m).mono (by simp)
  | cons ptr ptrs ih =>
      refine (Opens.bind hm hn (opens_writeArg hrepr (by decide) hm hn ptr)
        fun m' hm' hn' => ih hm' hn').mono ?_
      simp

lemma opens_writeFlagged (flag : Bool) {label : String}
    (hlabel : (CString.literal label).1.head? = some 44) (hm : m.writeIndex ≤ m.limitIndex)
    (hn : m.availSize < n) (ptr : Pointer) :
    Opens (flag = true) (writeFlagged repr flag label ptr) m :=
  (Opens.ite fun _ => opens_writeArg hrepr hlabel hm hn ptr).mono (by simp)

/-- The arguments of a call, if there are any. -/
lemma exists_opens_writeArguments (frame : TracedFrame) : ∃ c, ∀ m : TraceMessage,
    m.writeIndex ≤ m.limitIndex → m.availSize < n → Opens c (writeArguments repr frame) m :=
  ⟨_, fun _ hm hn => .bind hm hn (opens_writeArgs hrepr hm hn _) fun _ hm' hn' =>
    .bind hm' hn' (opens_writeFlagged hrepr _ (by decide) hm' hn' _) fun _ hm'' hn'' =>
      opens_writeFlagged hrepr _ (by decide) hm'' hn'' _⟩

end Opens

/-! ## The text of an event -/

section Text

variable {m m' : TraceMessage}

/-- What shows of a message is what is written up to a NUL, and then what stands behind. -/
lemma text_of_written {bytes rest : List UInt8} (hwritten : m.written = bytes ++ rest)
    (hnul : 0 ∉ bytes) :
    ∃ tail, m.text = bytes ++ (rest ++ tail).takeWhile (· ≠ 0) := by
  refine ⟨m.buffer.drop m.writeIndex, ?_⟩
  have hbuffer : m.buffer = bytes ++ (rest ++ m.buffer.drop m.writeIndex) := by
    rw [← List.append_assoc, ← hwritten, TraceMessage.written, List.take_append_drop]
  have hbytes : ∀ c ∈ bytes, decide (c ≠ 0) = true := by
    intro c hc
    exact decide_eq_true fun heq => hnul (heq ▸ hc)
  rw [TraceMessage.text]
  nth_rewrite 1 [hbuffer]
  exact List.takeWhile_append_of_pos hbytes

lemma textEnds_recycle (m : TraceMessage) : m.recycle.TextEnds := by
  rw [TraceMessage.TextEnds, (TraceMessage.holds_recycle m).text_eq]
  rfl

/-- What `printf` leaves to be seen of a recycled message. -/
lemma text_printf_recycle (m : TraceMessage) (text : CString) :
    (m.recycle.printf text).2.text =
      if text.1.length ≤ m.capacity then text.1.take (m.capacity - 1) else [] := by
  have havail : m.recycle.availSize = m.capacity := Int.sub_zero _
  have hempty : m.recycle.text = [] := (TraceMessage.holds_recycle m).text_eq
  rw [TraceMessage.printf]
  split
  · next hle =>
      rw [TraceMessage.text_vnprintf_of_le (textEnds_recycle m) (by omega), hempty,
        List.nil_append, havail]
      congr 1
      omega
  · next hgt => rw [TraceMessage.text_vnprintf_of_lt (textEnds_recycle m) (by omega), hempty]

/-- **The text of an event**, printed into a recycled message with something behind it. -/
lemma logged_of_opens (m : TraceMessage) {text : CString} (hne : text.1 ≠ []) {c : Prop}
    {x : Render Unit} (hx : ∀ m' : TraceMessage, m'.writeIndex ≤ m'.limitIndex →
      m'.availSize ≤ m.capacity → Opens c x m') :
    Yields (do if ← printf text then x else return ()) m.recycle fun _ m' =>
      Logged m.capacity text.1 m'.text := by
  have hm : m.recycle.writeIndex ≤ m.recycle.limitIndex := Nat.zero_le _
  have havail : m.recycle.availSize = m.capacity := Int.sub_zero _
  have hshown := text_printf_recycle m text
  have hrun {ok : Bool} (hok : (m.recycle.printf text).1 = ok) :
      printf text m.recycle = some (ok, (m.recycle.printf text).2) :=
    congrArg some (Prod.ext hok rfl)
  rcases lt_trichotomy (text.1.length : ℤ) m.recycle.availSize with hlt | heq | hgt
  · obtain ⟨hok, happends⟩ := TraceMessage.printf_of_lt hm hlt
    have hspace := happends.availSize
    have hfits : text.1.length < m.capacity := by omega
    rw [if_pos hfits.le, List.take_of_length_le (by omega)] at hshown
    refine Yields.bind_of_run (hrun hok) (Yields.mono (hx _ happends.within (by omega)) ?_)
    rintro - m' (⟨-, rfl⟩ | ⟨-, bs, hmore, hopens⟩)
    · exact .inl ⟨hfits, [], by rw [hshown, List.append_nil], .inl rfl⟩
    · obtain ⟨rest, rfl⟩ := List.head?_eq_some_iff.mp (hopens (by omega))
      have hwritten : m'.written = text.1 ++ 44 :: rest := by
        rw [hmore.written, happends.written]
        rfl
      obtain ⟨tail, htext⟩ := text_of_written hwritten text.2
      exact .inl ⟨hfits, _, htext, .inr rfl⟩
  · obtain ⟨hok, happends⟩ := TraceMessage.printf_of_eq hm heq
    have hspace := happends.availSize
    have hfull : text.1.length = m.capacity := by omega
    have hdrop : text.1.take (m.capacity - 1) = text.1.dropLast := by
      rw [List.dropLast_eq_take, hfull]
    rw [if_pos hfull.le, hdrop] at hshown
    refine Yields.bind_of_run (hrun hok) (Yields.mono (hx _ happends.within (by omega)) ?_)
    rintro - m' (⟨-, rfl⟩ | ⟨-, bs, hmore, -⟩)
    · exact .inr (.inl ⟨hfull, hshown⟩)
    · -- the last byte written is a NUL, and what follows is behind it
      have hwritten : m'.written = text.1.dropLast ++ 0 :: bs := by
        rw [hmore.written, happends.written, TraceMessage.printed,
          if_neg (List.length_pos_of_ne_nil hne).ne', ← List.dropLast_eq_take]
        exact List.append_assoc _ [0] bs
      have hnul : 0 ∉ text.1.dropLast := fun h => text.2 (List.mem_of_mem_dropLast h)
      obtain ⟨tail, htext⟩ := text_of_written hwritten hnul
      refine .inr (.inl ⟨hfull, htext.trans ?_⟩)
      simp
  · obtain ⟨hok, -⟩ := TraceMessage.printf_of_gt hm hgt
    have hlong : m.capacity < text.1.length := by omega
    rw [if_neg hlong.not_ge] at hshown
    exact Yields.bind_of_run (hrun hok) (Yields.pure (.inr (.inr ⟨hlong, hshown⟩)))

end Text

/-! ## The line of a call and of a return -/

section Read

variable (py : CPython) (heap : Heap)

/-- `fast_repr` appends something. -/
lemma appendsBelow_fastRepr (fuel : ℕ) : AppendsBelow fuel (fastRepr py heap fuel) :=
  fun _ hm hfuel ptr => renders_fastRepr py heap hm hfuel ptr

variable {direction : String} {pid : UInt64} {event : LogEvent} {m : TraceMessage}

lemma prefixText_ne_nil : (prefixText direction pid event).1 ≠ [] := by
  rw [prefixText_val, lineText]
  simp

/-- The line is read back or not, whatever the time. -/
lemma exists_read_iff (hdirection : 44 ∉ (CString.literal direction).1) {x : Render Unit}
    (h : Yields x m.recycle fun _ m' =>
      Logged m.capacity (prefixText direction pid event).1 m'.text) (now : ℕ × ℕ) :
    ∃ m', (x >>= fun _ => setTimestamp now) m.recycle = some ((), m') ∧
      (readRecord m'.text = some (event.record direction pid) ↔
        (prefixText direction pid event).1.length < m.capacity ∧ event.frame.NoComma) := by
  obtain ⟨_, m', hrun, hlogged⟩ := h
  refine ⟨m'.setTimestamp now.1 now.2, ?_, hlogged.read_iff hdirection⟩
  show (x m.recycle).bind (fun r => some ((), r.2.setTimestamp now.1 now.2)) = _
  rw [hrun]
  rfl

lemma callText_logged {repr : Pointer → Render Bool} {n : ℤ} (hrepr : AppendsBelow n repr)
    (hn : m.capacity < n) : Yields (callText repr pid event) m.recycle fun _ m' =>
      Logged m.capacity (prefixText ">" pid event).1 m'.text := by
  obtain ⟨c, hopens⟩ := exists_opens_writeArguments hrepr event.frame
  exact logged_of_opens m prefixText_ne_nil fun m' hm' havail =>
    .ite fun _ => hopens m' hm' (by omega)

lemma returnText_logged {repr : Pointer → Render Bool} {n : ℤ} (hrepr : AppendsBelow n repr)
    (hn : m.capacity < n) (arg : Pointer) :
    Yields (returnText repr pid event arg) m.recycle fun _ m' =>
      Logged m.capacity (prefixText "<" pid event).1 m'.text := by
  have hresult : ∀ m' : TraceMessage, m'.writeIndex ≤ m'.limitIndex → m'.availSize ≤ m.capacity →
      Opens True (if arg ≠ 0 then writeArg repr "," arg else do
        let _ ← write (CString.literal ",")
        let _ ← write (CString.literal "exc")
        return ()) m' := by
    intro m' hm' havail
    split
    · exact opens_writeArg hrepr (by decide) hm' (by omega) arg
    · exact opens_write (by decide) hm' fun _ _ _ happends =>
        .bind (renders_write happends.within _) fun _ _ _ happends' _ =>
          .pure happends'.within trivial
  exact logged_of_opens m prefixText_ne_nil fun m' hm' havail =>
    .ite fun _ => hresult m' hm' havail

variable {fuel : ℕ} (hfuel : m.capacity < fuel) (pid : UInt64) (event : LogEvent) (now : ℕ × ℕ)

include hfuel

lemma logCall_read_iff : ∃ m', logCall py heap fuel pid event now m.recycle = some ((), m') ∧
    (readRecord m'.text = some (event.record ">" pid) ↔
      (prefixText ">" pid event).1.length < m.capacity ∧ event.frame.NoComma) :=
  exists_read_iff (by decide)
    (callText_logged (appendsBelow_fastRepr py heap fuel) (by omega)) now

lemma logReturn_read_iff (arg : Pointer) :
    ∃ m', logReturn py heap fuel pid event arg now m.recycle = some ((), m') ∧
      (readRecord m'.text = some (event.record "<" pid) ↔
        (prefixText "<" pid event).1.length < m.capacity ∧ event.frame.NoComma) :=
  exists_read_iff (by decide)
    (returnText_logged (appendsBelow_fastRepr py heap fuel) (by omega) arg) now

omit hfuel

end Read

end InfiTracing.Serialize
