import InfiTracing.Syslog.FormatMessage

/-!
# The fields of a syslog message

The RFC 5424 message that `format_message` builds, read by the grammar that its comment quotes:
`PRI VERSION SP TIMESTAMP SP HOSTNAME SP APP-NAME SP PROCID SP MSGID SP STRUCTURED-DATA SP MSG`,
where no field before `MSG` has a space in it.

The fields are found by their position alone, and the names are put between the spaces as the
caller gave them.  `parse_formatMessage_iff` says that they come back when none of them has a
space, and never otherwise.  The time comes back exactly when it is a whole second, here and in
the file (`printed_time_exact_iff`).
-/

namespace InfiTracing.Syslog

open Framework (cut cut_append notMem_of_cut)

/-- A message, split by the grammar. -/
structure SyslogMsg where
  /-- `PRI VERSION` -/
  priVersion : List UInt8
  timestamp : List UInt8
  hostname : List UInt8
  appName : List UInt8
  procId : List UInt8
  msgId : List UInt8
  structuredData : List UInt8
  msg : List UInt8
  deriving Repr, DecidableEq

namespace SyslogMsg

/-- Splits a message at its first seven spaces. -/
def parse (bytes : List UInt8) : Option SyslogMsg := do
  let (priVersion, bytes) ← cut 32 bytes
  let (timestamp, bytes) ← cut 32 bytes
  let (hostname, bytes) ← cut 32 bytes
  let (appName, bytes) ← cut 32 bytes
  let (procId, bytes) ← cut 32 bytes
  let (msgId, bytes) ← cut 32 bytes
  let (structuredData, msg) ← cut 32 bytes
  some ⟨priVersion, timestamp, hostname, appName, procId, msgId, structuredData, msg⟩

/-- What the caller of the writer chose: the three names, and the text. -/
def content (s : SyslogMsg) : List UInt8 × List UInt8 × List UInt8 × List UInt8 :=
  (s.hostname, s.appName, s.procId, s.msg)

/-- The time of a message, in seconds since the beginning of 1970. -/
def readTimestamp (bytes : List UInt8) : Option ℚ := do
  let (_, bytes) ← cut 32 bytes
  let (timestamp, _) ← cut 32 bytes
  Framework.readTime timestamp

/-- No name that is read has a space in it. -/
lemma space_notMem_of_parse {bytes : List UInt8} {s : SyslogMsg} (h : parse bytes = some s) :
    32 ∉ s.hostname ∧ 32 ∉ s.appName ∧ 32 ∉ s.procId := by
  simp only [parse, Option.bind_eq_bind, Option.bind_eq_some_iff, Option.some.injEq] at h
  obtain ⟨_, -, _, -, _, hhost, _, happ, _, hproc, _, -, _, -, rfl⟩ := h
  exact ⟨notMem_of_cut hhost, notMem_of_cut happ, notMem_of_cut hproc⟩

lemma space_notMem_of_content {bytes hostname appName procId msg : List UInt8}
    (h : (parse bytes).map content = some (hostname, appName, procId, msg)) :
    32 ∉ hostname ∧ 32 ∉ appName ∧ 32 ∉ procId := by
  obtain ⟨s, hparse, hs⟩ := Option.map_eq_some_iff.mp h
  have hnames := space_notMem_of_parse hparse
  simp only [content, Prod.mk.injEq] at hs
  obtain ⟨hhost, happ, hproc, -⟩ := hs
  rwa [hhost, happ, hproc] at hnames

/-- Fields without spaces are read as they were written. -/
lemma parse_fields {priVersion timestamp hostname appName procId msgId structuredData : List UInt8}
    (hpri : 32 ∉ priVersion) (htime : 32 ∉ timestamp) (hhost : 32 ∉ hostname)
    (happ : 32 ∉ appName) (hproc : 32 ∉ procId) (hid : 32 ∉ msgId) (hdata : 32 ∉ structuredData)
    (msg : List UInt8) :
    parse (priVersion ++ 32 :: (timestamp ++ 32 :: (hostname ++ 32 :: (appName ++
      32 :: (procId ++ 32 :: (msgId ++ 32 :: (structuredData ++ 32 :: msg))))))) =
        some ⟨priVersion, timestamp, hostname, appName, procId, msgId, structuredData, msg⟩ := by
  simp only [parse, Option.bind_eq_bind, cut_append hpri, cut_append htime, cut_append hhost,
    cut_append happ, cut_append hproc, cut_append hid, cut_append hdata, Option.bind_some]

end SyslogMsg

lemma space_notMem_orDash_iff (s : CString) : 32 ∉ (orDash (some s)).1 ↔ 32 ∉ s.1 := by
  have hdash : (32 : UInt8) ∉ (CString.literal "-").1 := by decide
  unfold orDash
  dsimp only
  split_ifs with hnil
  · rw [hnil]
    exact iff_of_true hdash List.not_mem_nil
  · exact Iff.rfl

namespace SyslogTraceDump

variable {d : SyslogTraceDump} {m : TraceMessage}

/-! ## The text as fields -/

/-- The field `PRI VERSION`. -/
def priVersion (d : SyslogTraceDump) (m : TraceMessage) : List UInt8 :=
  60 :: (Framework.decimal (d.priority m).toInt ++ [62, 49])

lemma space_notMem_priVersion : 32 ∉ d.priVersion m := by
  intro hmem
  simp only [priVersion, List.mem_cons, List.mem_append] at hmem
  obtain h | h | h | h | h := hmem
  · exact absurd h (by decide)
  · rcases Framework.mem_decimal h with hminus | hdigit
    · exact absurd hminus (by decide)
    · exact absurd hdigit.1 (by decide)
  · exact absurd h (by decide)
  · exact absurd h (by decide)
  · exact absurd h List.not_mem_nil

lemma length_priVersion_le : (d.priVersion m).length ≤ 14 := by
  have hlt := Int32.toInt_lt (d.priority m)
  have hge := Int32.le_toInt (d.priority m)
  have hdigits : (Framework.decimal (d.priority m).toInt).length ≤ 10 + 1 :=
    Framework.length_decimal_le (by norm_num) (by omega)
  simp only [priVersion, List.length_cons, List.length_append, List.length_nil]
  omega

/-- The text of an RFC 5424 message, with a space between any two fields. -/
lemma formatted_fields (h : d.rfc5424 = true) :
    (d.formatted m).1 = d.priVersion m ++ 32 :: (((isoTime m.timestamp).1 ++ [90]) ++
      32 :: (d.hostName.1 ++ 32 :: (d.applicationName.1 ++ 32 :: (d.processId.1 ++
        32 :: ([45] ++ 32 :: ([45] ++ 32 :: m.text)))))) := by
  rw [formatted_rfc5424 h]
  simp only [priVersion, List.append_assoc, List.cons_append, List.nil_append]

lemma space_notMem_time (ts : ℕ) : 32 ∉ (isoTime ts).1 ++ [90] := by
  rw [List.mem_append, not_or]
  exact ⟨fun h => absurd (le_of_mem_isoTime h) (by decide), by decide⟩

/-! ## The names -/

/-- What a message that fits reads as. -/
lemma parse_formatMessage (h : d.rfc5424 = true)
    (hfits : (d.textLength m : ℤ) < d.syslogBufferSize.toInt) (hhost : 32 ∉ d.hostName.1)
    (happ : 32 ∉ d.applicationName.1) (hproc : 32 ∉ d.processId.1) :
    SyslogMsg.parse (CString.ofBuffer (d.formatMessage m).message).1 =
      some ⟨d.priVersion m, (isoTime m.timestamp).1 ++ [90], d.hostName.1, d.applicationName.1,
        d.processId.1, [45], [45], m.text⟩ := by
  have hnul : (CString.ofBuffer (d.formatMessage m).message).1 = (d.formatted m).1 := by
    rw [message_of_lt hfits]
    exact TraceMessage.takeWhile_eq_of_prefix (d.formatted m).2 (List.prefix_refl _)
  rw [hnul, formatted_fields h]
  exact SyslogMsg.parse_fields space_notMem_priVersion (space_notMem_time _) hhost happ hproc
    (by decide) (by decide) m.text

section Names

variable {traceMessageCapacity : ℕ} {hostName applicationName processId : CString}
variable {facility : Int32} {memory : ℕ → UInt8}

lemma length_orDash_le (s : CString) : (orDash (some s)).1.length ≤ s.1.length + 1 := by
  have hdash : (CString.literal "-").1.length = 1 := by decide
  unfold orDash
  dsimp only
  split_ifs <;> omega

/-- Names of 8138 bytes together leave room for every text. -/
lemma textLength_lt_of_names {rfc5424 : Bool}
    (hconstruct : construct traceMessageCapacity (some hostName) (some applicationName)
      (some processId) facility rfc5424 memory = some d)
    (hcapacity : traceMessageCapacity + 8192 < 2 ^ 31) (hyear : utcYear m.timestamp ≤ 9999)
    (htext : m.text.length ≤ traceMessageCapacity)
    (hnames : hostName.1.length + applicationName.1.length + processId.1.length ≤ 8138) :
    (d.textLength m : ℤ) < d.syslogBufferSize.toInt := by
  obtain ⟨hhost, happ, hproc, -, -, hsize⟩ := construct_spec hconstruct
  have hbuffer : (bufferSize traceMessageCapacity).toInt = (traceMessageCapacity + 8192 : ℕ) :=
    Int32.toInt_ofNat_of_lt hcapacity
  have htime := length_isoTime_le hyear
  have hpri := length_priVersion_le (d := d) (m := m)
  have hdashHost := length_orDash_le hostName
  have hdashApp := length_orDash_le applicationName
  have hdashProc := length_orDash_le processId
  simp only [priVersion, List.length_cons, List.length_append, List.length_nil] at hpri
  rw [hsize, hbuffer, textLength, hhost, happ, hproc]
  split_ifs <;> omega

/-- **The names come back exactly when none of them has a space.** -/
theorem parse_formatMessage_iff
    (hconstruct : construct traceMessageCapacity (some hostName) (some applicationName)
      (some processId) facility true memory = some d)
    (hfits : (d.textLength m : ℤ) < d.syslogBufferSize.toInt) :
    (SyslogMsg.parse (CString.ofBuffer (d.formatMessage m).message).1).map SyslogMsg.content =
        some ((orDash (some hostName)).1, (orDash (some applicationName)).1,
          (orDash (some processId)).1, m.text) ↔
      32 ∉ hostName.1 ∧ 32 ∉ applicationName.1 ∧ 32 ∉ processId.1 := by
  obtain ⟨hhost, happ, hproc, hrfc, -, -⟩ := construct_spec hconstruct
  rw [← space_notMem_orDash_iff hostName, ← space_notMem_orDash_iff applicationName,
    ← space_notMem_orDash_iff processId]
  constructor
  · exact SyslogMsg.space_notMem_of_content
  · rintro ⟨hspaceHost, hspaceApp, hspaceProc⟩
    rw [← hhost] at hspaceHost
    rw [← happ] at hspaceApp
    rw [← hproc] at hspaceProc
    rw [parse_formatMessage hrfc hfits hspaceHost hspaceApp hspaceProc, Option.map_some,
      SyslogMsg.content, hhost, happ, hproc]

theorem parse_formatMessage_iff_plain : ∃ d,
    construct 100 (some (.literal "localhost")) (some (.literal "test")) (some (.literal "")) 16
        true (fun _ => 0) = some d ∧
      ((SyslogMsg.parse (CString.ofBuffer
            (d.formatMessage TraceMessage.empty).message).1).map SyslogMsg.content =
          some ((orDash (some (.literal "localhost"))).1, (orDash (some (.literal "test"))).1,
            (orDash (some (.literal ""))).1, TraceMessage.empty.text) ↔
        32 ∉ (CString.literal "localhost").1 ∧ 32 ∉ (CString.literal "test").1 ∧
          32 ∉ (CString.literal "").1) := by
  have hexists : ∃ d, construct 100 (some (.literal "localhost")) (some (.literal "test"))
      (some (.literal "")) 16 true (fun _ => 0) = some d := exists_construct (by norm_num)
  obtain ⟨d, hd⟩ := hexists
  have hfits := textLength_lt_of_names (m := TraceMessage.empty) hd (by norm_num)
    (by decide +kernel) (by decide) (by decide)
  exact ⟨d, hd, parse_formatMessage_iff hd hfits⟩

/-- A host name with a space in it does not come back. -/
theorem parse_formatMessage_spacedHost : ∃ d,
    construct 100 (some (.literal "my host")) (some (.literal "test")) (some (.literal "")) 16
        true (fun _ => 0) = some d ∧
      (d.textLength TraceMessage.empty : ℤ) < d.syslogBufferSize.toInt ∧
      ¬ (SyslogMsg.parse (CString.ofBuffer
            (d.formatMessage TraceMessage.empty).message).1).map SyslogMsg.content =
          some ((orDash (some (.literal "my host"))).1, (orDash (some (.literal "test"))).1,
            (orDash (some (.literal ""))).1, TraceMessage.empty.text) := by
  have hexists : ∃ d, construct 100 (some (.literal "my host")) (some (.literal "test"))
      (some (.literal "")) 16 true (fun _ => 0) = some d := exists_construct (by norm_num)
  obtain ⟨d, hd⟩ := hexists
  refine ⟨d, hd, ?_, fun hcontent => ?_⟩
  · exact textLength_lt_of_names hd (by norm_num) (by decide +kernel) (by decide) (by decide)
  · have hspace := (SyslogMsg.space_notMem_of_content hcontent).1
    rw [space_notMem_orDash_iff] at hspace
    exact hspace (by decide)

end Names

/-! ## The time -/

/-- The time in the buffer is the printed one: the buffer has room for it. -/
lemma readTimestamp_formatMessage (h : d.rfc5424 = true) (hyear : utcYear m.timestamp ≤ 9999) :
    SyslogMsg.readTimestamp (CString.ofBuffer (d.formatMessage m).syslogBuffer).1 =
      Framework.readTime ((isoTime m.timestamp).1 ++ [90]) := by
  have hsize := d.le_size
  have hpri := length_priVersion_le (d := d) (m := m)
  have htime := length_isoTime_le hyear
  have hroom : (d.priVersion m ++ 32 :: (((isoTime m.timestamp).1 ++ [90]) ++ [32])).length ≤
      d.syslogBufferSize.toInt.toNat - 1 := by
    simp only [List.length_append, List.length_cons, List.length_nil]
    omega
  have hheader : d.priVersion m ++ 32 :: (((isoTime m.timestamp).1 ++ [90]) ++ [32]) <+:
      (d.formatted m).1 := by
    rw [formatted_fields h, List.prefix_append_right_inj, List.cons_prefix_cons,
      List.prefix_append_right_inj, List.cons_prefix_cons]
    exact ⟨rfl, rfl, List.nil_prefix⟩
  obtain ⟨rest, hrest⟩ := List.prefix_take_iff.mpr ⟨hheader, hroom⟩
  rw [ofBuffer_formatMessage, ← hrest, List.append_assoc, List.cons_append, List.append_assoc,
    List.singleton_append]
  simp only [SyslogMsg.readTimestamp, Option.bind_eq_bind, cut_append space_notMem_priVersion,
    cut_append (space_notMem_time _), Option.bind_some]

/-- **The printed time is the timestamp exactly when that is a whole second**, in a line of the
file and in an RFC 5424 message. -/
theorem printed_time_exact_iff (h : d.rfc5424 = true) (hyear : utcYear m.timestamp ≤ 9999) :
    (FileTraceDump.readLineTime (FileTraceDump.line m).1 = some (m.timestamp / 1000 : ℚ) ↔
      m.timestamp % 1000 = 0) ∧
    (SyslogMsg.readTimestamp (CString.ofBuffer (d.formatMessage m).syslogBuffer).1 =
        some (m.timestamp / 1000 : ℚ) ↔
      m.timestamp % 1000 = 0) := by
  rw [readLineTime_line, readTimestamp_formatMessage h hyear, readTime_isoTime hyear,
    Option.some.injEq, seconds_add_micros_eq_iff]
  exact ⟨Iff.rfl, Iff.rfl⟩

/-- A message of the first millisecond of 1970. -/
def firstMillisecond : TraceMessage := TraceMessage.empty.setTimestamp 0 1000

theorem printed_time_exact_iff_firstMillisecond : ∃ d,
    construct 100 none none none 16 true (fun _ => 0) = some d ∧
      (FileTraceDump.readLineTime (FileTraceDump.line firstMillisecond).1 =
          some (firstMillisecond.timestamp / 1000 : ℚ) ↔ firstMillisecond.timestamp % 1000 = 0) ∧
      (SyslogMsg.readTimestamp
            (CString.ofBuffer (d.formatMessage firstMillisecond).syslogBuffer).1 =
          some (firstMillisecond.timestamp / 1000 : ℚ) ↔
        firstMillisecond.timestamp % 1000 = 0) := by
  have hexists : ∃ d, construct 100 none none none 16 true (fun _ => 0) = some d :=
    exists_construct (by norm_num)
  obtain ⟨d, hd⟩ := hexists
  obtain ⟨-, -, -, hrfc, -, -⟩ := construct_spec hd
  exact ⟨d, hd, printed_time_exact_iff hrfc (by decide +kernel)⟩

/-- It is printed with the time of the first microsecond. -/
theorem readLineTime_firstMillisecond :
    FileTraceDump.readLineTime (FileTraceDump.line firstMillisecond).1 ≠
      some (firstMillisecond.timestamp / 1000 : ℚ) := by
  have hyear : utcYear firstMillisecond.timestamp ≤ 9999 := by decide +kernel
  rw [readLineTime_line, readTime_isoTime hyear, ne_eq, Option.some.injEq,
    seconds_add_micros_eq_iff]
  decide

end SyslogTraceDump

end InfiTracing.Syslog
