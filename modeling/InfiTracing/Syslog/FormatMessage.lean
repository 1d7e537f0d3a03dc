import InfiTracing.Syslog.TcpSocket
import InfiTracing.TraceDump.IsoTime

/-!
# Formatting a syslog message

`SyslogTraceDump::format_message` of `trace_dump.cpp`, and the part of the constructor that it
depends on: the three names, the facility and the buffer.  `snprintf` is C99's: it stores at
most `size - 1` bytes and a NUL and returns the length of the whole text, or `-1` when that is
no `int`.

The value of `snprintf` is compared with the size of the buffer to tell a truncated message
from a whole one, but only a text of exactly that length is taken for truncated.  `size_of_lt`,
`size_of_eq`, `size_of_gt` and `size_of_huge` are the four cases of the length;
`formatMessage_sends_text_iff` says which of them send the text and nothing else.  While no text
is longer than the buffer, a whole run of messages arrives so (`decode_formatAll`).
-/

namespace InfiTracing.Syslog

open Framework (overwrite take_overwrite length_overwrite)

/-- `LOG_DEBUG`. -/
def logDebug : ℤ := 7

/-- The fields of the class `SyslogTraceDump` that `format_message` uses.  The proof fields say
that the buffer has its size, and that the size is what the constructor gives it at least. -/
structure SyslogTraceDump where
  hostName : CString
  applicationName : CString
  processId : CString
  rfc5424 : Bool
  facility : Int32
  syslogBufferSize : Int32
  syslogBuffer : List UInt8
  le_size : 8192 ≤ syslogBufferSize.toInt
  length_buffer : (syslogBuffer.length : ℤ) = syslogBufferSize.toInt

/-- `(s == NULL || s[0] == '\0') ? "-" : s`. -/
def orDash : Option CString → CString
  | none => .literal "-"
  | some s => if s.1 = [] then .literal "-" else s

lemma orDash_of_ne_nil {s : CString} (h : s.1 ≠ []) : orDash (some s) = s := if_neg h

namespace SyslogTraceDump

/-- `syslog_buffer_size`, an `int`. -/
def bufferSize (traceMessageCapacity : ℕ) : Int32 := Int32.ofNat (traceMessageCapacity + 8192)

/-- The constructor; `memory` is what the newly allocated bytes contain.  `new char[]`
throws on a negative size.  The other sizes below 8192 are those for a message capacity that is
itself negative as an `int`, which no ring buffer survives. -/
def construct (traceMessageCapacity : ℕ) (hostName applicationName processId : Option CString)
    (facility : Int32) (rfc5424 : Bool) (memory : ℕ → UInt8) : Option SyslogTraceDump :=
  if h : 8192 ≤ (bufferSize traceMessageCapacity).toInt then
    some
      { hostName := orDash hostName
        applicationName := orDash applicationName
        processId := orDash processId
        rfc5424 := rfc5424
        facility := facility
        syslogBufferSize := bufferSize traceMessageCapacity
        syslogBuffer := (List.range (bufferSize traceMessageCapacity).toInt.toNat).map memory
        le_size := h
        length_buffer := by
          rw [List.length_map, List.length_range]
          omega }
  else
    none

section Construct

variable {traceMessageCapacity : ℕ} {hostName applicationName processId : Option CString}
variable {facility : Int32} {rfc5424 : Bool} {memory : ℕ → UInt8}

/-- The constructor succeeds for every capacity that leaves the size of the buffer an `int`. -/
lemma exists_construct (h : traceMessageCapacity + 8192 < 2 ^ 31) :
    ∃ d, construct traceMessageCapacity hostName applicationName processId facility rfc5424
      memory = some d := by
  have hsize : (bufferSize traceMessageCapacity).toInt = (traceMessageCapacity + 8192 : ℕ) :=
    Int32.toInt_ofNat_of_lt h
  exact ⟨_, dif_pos (by omega)⟩

/-- What the constructor leaves in the fields. -/
lemma construct_spec {d : SyslogTraceDump}
    (h : construct traceMessageCapacity hostName applicationName processId facility rfc5424
      memory = some d) :
    d.hostName = orDash hostName ∧ d.applicationName = orDash applicationName ∧
      d.processId = orDash processId ∧ d.rfc5424 = rfc5424 ∧ d.facility = facility ∧
      d.syslogBufferSize = bufferSize traceMessageCapacity := by
  obtain ⟨hle, heq⟩ := Option.dite_none_right_eq_some.mp h
  obtain rfl := Option.some.inj heq
  exact ⟨rfl, rfl, rfl, rfl, rfl, rfl⟩

end Construct

variable (d : SyslogTraceDump) (m : TraceMessage)

/-- The severity that is sent. -/
def severity : ℤ := if m.severity = severityNotset then logDebug else m.severity

/-- `priority`. -/
def priority : Int32 := (d.facility <<< 3) + Int32.ofInt (severity m)

/-- What `snprintf` formats: `"<%d>1 %sZ %s %s %s - - %s"` or `"<%d>[%s]: %s"`. -/
def formatted : CString :=
  if d.rfc5424 then
    .literal "<" ++ .decimal (d.priority m).toInt ++ .literal ">1 " ++ isoTime m.timestamp ++
      .literal "Z " ++ d.hostName ++ .literal " " ++ d.applicationName ++ .literal " " ++
      d.processId ++ .literal " - - " ++ .ofMessage m
  else
    .literal "<" ++ .decimal (d.priority m).toInt ++ .literal ">[" ++ d.applicationName ++
      .literal "]: " ++ .ofMessage m

/-- `snprintf(buffer, size, ..)` on the formatted text: its value, and the buffer after it. -/
def snprintf (buffer : List UInt8) (size : ℕ) (text : CString) : Int32 × List UInt8 :=
  (if text.1.length < 2 ^ 31 then Int32.ofNat text.1.length else -1,
    overwrite buffer 0 (TraceMessage.printed size text.1))

/-- `format_message()`. -/
def formatMessage : Formatted :=
  let printed := snprintf d.syslogBuffer d.syslogBufferSize.toInt.toNat (d.formatted m)
  { syslogBuffer := printed.2
    size :=
      if printed.1 = d.syslogBufferSize then
        -- truncated
        printed.1
      else if 0 < printed.1 then
        printed.1 + 1
      else
        -1 }

/-! ## The bytes of the text -/

variable {d m} in
/-- The text of an RFC 5424 message. -/
lemma formatted_rfc5424 (h : d.rfc5424 = true) :
    (d.formatted m).1 = 60 :: (Framework.decimal (d.priority m).toInt ++ 62 :: 49 :: 32 ::
      ((isoTime m.timestamp).1 ++ 90 :: 32 :: (d.hostName.1 ++ 32 :: (d.applicationName.1 ++
        32 :: (d.processId.1 ++ 32 :: 45 :: 32 :: 45 :: 32 :: m.text))))) := by
  have hopen : (CString.literal "<").1 = [60] := by decide
  have hversion : (CString.literal ">1 ").1 = [62, 49, 32] := by decide
  have hzone : (CString.literal "Z ").1 = [90, 32] := by decide
  have hspace : (CString.literal " ").1 = [32] := by decide
  have hnil : (CString.literal " - - ").1 = [32, 45, 32, 45, 32] := by decide
  simp only [formatted, h, if_true, CString.append_val, hopen, hversion, hzone, hspace, hnil,
    CString.decimal, CString.ofMessage_val, List.append_assoc, List.cons_append, List.nil_append]

variable {d m} in
/-- The text of a message in the older format. -/
lemma formatted_bsd (h : d.rfc5424 = false) :
    (d.formatted m).1 = 60 :: (Framework.decimal (d.priority m).toInt ++
      62 :: 91 :: (d.applicationName.1 ++ 93 :: 58 :: 32 :: m.text)) := by
  have hopen : (CString.literal "<").1 = [60] := by decide
  have hbracket : (CString.literal ">[").1 = [62, 91] := by decide
  have hcolon : (CString.literal "]: ").1 = [93, 58, 32] := by decide
  simp only [formatted, h, Bool.false_eq_true, if_false, CString.append_val, hopen, hbracket,
    hcolon, CString.decimal, CString.ofMessage_val, List.append_assoc, List.cons_append,
    List.nil_append]

/-- The length of the formatted text, from those of its parts. -/
def textLength : ℕ :=
  if d.rfc5424 then
    (Framework.decimal (d.priority m).toInt).length + (isoTime m.timestamp).1.length +
      d.hostName.1.length + d.applicationName.1.length + d.processId.1.length + m.text.length + 13
  else
    (Framework.decimal (d.priority m).toInt).length + d.applicationName.1.length +
      m.text.length + 6

lemma length_formatted : (d.formatted m).1.length = d.textLength m := by
  unfold textLength
  cases hrfc : d.rfc5424 with
  | true =>
      rw [if_pos rfl, formatted_rfc5424 hrfc]
      simp only [List.length_append, List.length_cons]
      omega
  | false =>
      rw [if_neg (by simp), formatted_bsd hrfc]
      simp only [List.length_append, List.length_cons]
      omega

lemma textLength_pos : 0 < d.textLength m := by
  unfold textLength
  split_ifs <;> omega

/-! ## The size that is returned -/

variable {d m}

/-- Only a text of exactly the size of the buffer is taken for truncated: for any other the size
is the length of the whole text and its NUL, as an `int`. -/
lemma size_of_ne (hint : d.textLength m < 2 ^ 31)
    (hne : (d.textLength m : ℤ) ≠ d.syslogBufferSize.toInt) :
    (d.formatMessage m).size = Int32.ofNat (d.textLength m + 1) := by
  have hvalue : (Int32.ofNat (d.textLength m)).toInt = d.textLength m :=
    Int32.toInt_ofNat_of_lt hint
  have hsize : Int32.ofNat (d.textLength m) ≠ d.syslogBufferSize := by
    rwa [ne_eq, ← Int32.toInt_inj, hvalue]
  have hpos : 0 < Int32.ofNat (d.textLength m) := by
    rw [Int32.lt_iff_toInt_lt, hvalue, Int32.toInt_zero]
    exact_mod_cast d.textLength_pos m
  simp only [formatMessage, snprintf, length_formatted]
  rw [if_pos hint, if_neg hsize, if_pos hpos, Int32.ofNat_add]
  rfl

lemma size_of_lt (h : (d.textLength m : ℤ) < d.syslogBufferSize.toInt) :
    (d.formatMessage m).size.toInt = d.textLength m + 1 := by
  have hmax := Int32.toInt_lt d.syslogBufferSize
  rw [size_of_ne (by omega) (by omega), Int32.toInt_ofNat_of_lt (by omega)]
  exact_mod_cast rfl

lemma size_of_eq (h : (d.textLength m : ℤ) = d.syslogBufferSize.toInt) :
    (d.formatMessage m).size = d.syslogBufferSize := by
  have hmax := Int32.toInt_lt d.syslogBufferSize
  have hint : d.textLength m < 2 ^ 31 := by omega
  have hvalue : Int32.ofNat (d.textLength m) = d.syslogBufferSize := by
    rw [← Int32.toInt_inj, Int32.toInt_ofNat_of_lt hint, h]
  simp only [formatMessage, snprintf, length_formatted]
  rw [if_pos hint, hvalue, if_pos rfl]

/-- The size of a text that is longer than the buffer does not end within the buffer, and is not
`-1` either: if it is negative, that is because the length of the text is the largest `int`. -/
lemma size_of_gt (h : d.syslogBufferSize.toInt < d.textLength m)
    (hint : d.textLength m < 2 ^ 31) :
    (d.formatMessage m).size ≠ -1 ∧
      ((d.formatMessage m).size.toInt < 1 ∨
        d.syslogBufferSize.toInt < (d.formatMessage m).size.toInt) := by
  rw [size_of_ne hint (by omega)]
  rcases Nat.lt_or_ge (d.textLength m + 1) (2 ^ 31) with hlt | hge
  · have hvalue := Int32.toInt_ofNat_of_lt hlt
    refine ⟨fun heq => ?_, .inr (by omega)⟩
    have hminus : (-1 : Int32).toInt = -1 := by decide
    rw [heq, hminus] at hvalue
    omega
  · have hmax : d.textLength m + 1 = 2 ^ 31 := by omega
    rw [hmax]
    exact ⟨by decide, .inl (by decide)⟩

lemma size_of_huge (h : 2 ^ 31 ≤ d.textLength m) : (d.formatMessage m).size = -1 := by
  have hsize : (-1 : Int32) ≠ d.syslogBufferSize := by
    intro hminus
    have hle := d.le_size
    rw [← hminus] at hle
    exact absurd hle (by decide)
  simp only [formatMessage, snprintf, length_formatted]
  rw [if_neg h.not_gt, if_neg hsize, if_neg (by decide)]

/-! ## The bytes that are sent -/

/-- The text, cut to the buffer, and its NUL. -/
def sent (d : SyslogTraceDump) (m : TraceMessage) : List UInt8 :=
  (d.formatted m).1.take (d.syslogBufferSize.toInt.toNat - 1) ++ [0]

lemma printed_formatted :
    TraceMessage.printed d.syslogBufferSize.toInt.toNat (d.formatted m).1 = d.sent m := by
  have hle := d.le_size
  exact if_neg (by omega)

/-- The C string in the buffer is the text, cut to the buffer. -/
lemma ofBuffer_formatMessage : (CString.ofBuffer (d.formatMessage m).syslogBuffer).1 =
    (d.formatted m).1.take (d.syslogBufferSize.toInt.toNat - 1) := by
  refine TraceMessage.takeWhile_eq_of_prefix (CString.zero_notMem_take _ _) ?_
  simp only [formatMessage, snprintf, printed_formatted, overwrite]
  rw [List.take_zero, List.nil_append]
  exact List.prefix_append _ _

/-- A size that ends where `snprintf` ended sends what it stored, and nothing that was in the
buffer before. -/
lemma message_formatMessage (hsize : (d.formatMessage m).size.toInt.toNat =
    min (d.textLength m) (d.syslogBufferSize.toInt.toNat - 1) + 1) :
    (d.formatMessage m).message = d.sent m := by
  have hlen : (d.sent m).length =
      min (d.textLength m) (d.syslogBufferSize.toInt.toNat - 1) + 1 := by
    rw [sent, List.length_append, List.length_take, length_formatted, List.length_singleton,
      min_comm]
  have hstored := take_overwrite (i := 0) (Nat.zero_le d.syslogBuffer.length) hlen.ge
  rw [Formatted.message, hsize]
  simp only [formatMessage, snprintf, printed_formatted]
  rw [← Nat.zero_add (_ + 1), hstored, List.take_zero, List.nil_append, ← hlen, List.take_length]

/-- A text that fits is sent whole, with its NUL. -/
lemma message_of_lt (h : (d.textLength m : ℤ) < d.syslogBufferSize.toInt) :
    (d.formatMessage m).message = (d.formatted m).1 ++ [0] := by
  have hsize := size_of_lt h
  have hlen := length_formatted d m
  rw [message_formatMessage (by omega), sent, List.take_of_length_le (by omega)]

/-- Whatever the text, the buffer keeps its length. -/
lemma length_syslogBuffer_formatMessage :
    ((d.formatMessage m).syslogBuffer.length : ℤ) = d.syslogBufferSize.toInt := by
  have hbuffer := d.length_buffer
  have hprinted :=
    TraceMessage.length_printed_le d.syslogBufferSize.toInt.toNat (d.formatted m).1
  simp only [formatMessage, snprintf]
  rw [length_overwrite (by omega), hbuffer]

/-- A text no longer than the buffer leaves a size that the socket can send. -/
theorem fits_formatMessage (h : (d.textLength m : ℤ) ≤ d.syslogBufferSize.toInt) :
    (d.formatMessage m).Fits := by
  have hlen := length_syslogBuffer_formatMessage (d := d) (m := m)
  have hle := d.le_size
  rcases h.lt_or_eq with hlt | heq
  · have hsize := size_of_lt hlt
    exact ⟨by omega, by omega⟩
  · have hsize := size_of_eq heq
    rw [Formatted.Fits, hsize]
    exact ⟨by omega, hlen.ge⟩

/-- A text no longer than the buffer is sent, cut by the last byte if it is as long. -/
lemma message_of_le (h : (d.textLength m : ℤ) ≤ d.syslogBufferSize.toInt) :
    (d.formatMessage m).message = d.sent m := by
  have hle := d.le_size
  rcases h.lt_or_eq with hlt | heq
  · have hsize := size_of_lt hlt
    exact message_formatMessage (by omega)
  · have hsize := size_of_eq heq
    refine message_formatMessage ?_
    rw [hsize]
    omega

variable (d m)

/-- **What is sent of a message**: either nothing, or the text, cut to the buffer, with a NUL
behind it, unless the text is longer than the buffer. -/
theorem formatMessage_sends_text_iff :
    ((d.formatMessage m).size = -1 ∨
      (1 ≤ (d.formatMessage m).size.toInt ∧
        (d.formatMessage m).size.toInt ≤ d.syslogBufferSize.toInt ∧
        (d.formatMessage m).message = d.sent m)) ↔
      (d.textLength m : ℤ) ≤ d.syslogBufferSize.toInt ∨ 2 ^ 31 ≤ d.textLength m := by
  constructor
  · intro hsends
    by_contra hlong
    obtain ⟨hgt, hint⟩ := not_or.mp hlong
    obtain ⟨hne, hout⟩ := size_of_gt (not_le.mp hgt) (not_le.mp hint)
    rcases hsends with hminus | ⟨hpos, hfits, -⟩
    · exact hne hminus
    · rcases hout with hneg | hover <;> omega
  · rintro (hfits | hhuge)
    · obtain ⟨hpos, hbuffer⟩ := fits_formatMessage hfits
      rw [length_syslogBuffer_formatMessage] at hbuffer
      exact .inr ⟨hpos, hbuffer, message_of_le hfits⟩
    · exact .inl (size_of_huge hhuge)

/-- An application name that is longer than the buffer of a small message capacity. -/
def longName : CString :=
  ⟨List.replicate 9000 97, fun h => absurd (List.eq_of_mem_replicate h) (by decide)⟩

lemma length_longName : longName.1.length = 9000 := List.length_replicate

/-- With such a name the size goes past the buffer. -/
theorem formatMessage_longName : ∃ d,
    construct 1 none (some longName) none 16 false (fun _ => 0) = some d ∧
      ¬ ((d.formatMessage TraceMessage.empty).size = -1 ∨
        (1 ≤ (d.formatMessage TraceMessage.empty).size.toInt ∧
          (d.formatMessage TraceMessage.empty).size.toInt ≤ d.syslogBufferSize.toInt ∧
          (d.formatMessage TraceMessage.empty).message = d.sent TraceMessage.empty)) := by
  have hexists : ∃ d, construct 1 none (some longName) none 16 false (fun _ => 0) = some d :=
    exists_construct (by norm_num)
  obtain ⟨d, hd⟩ := hexists
  refine ⟨d, hd, ?_⟩
  obtain ⟨-, happlication, -, hrfc, hfacility, hsize⟩ := construct_spec hd
  have hname : orDash (some longName) = longName :=
    orDash_of_ne_nil (List.ne_nil_of_length_pos (by rw [length_longName]; norm_num))
  have hlength : d.textLength TraceMessage.empty = 9009 := by
    have hpriority : d.priority TraceMessage.empty = 135 := by
      rw [priority, hfacility]
      decide
    have hdigits : (Framework.decimal (135 : Int32).toInt).length = 3 := by decide
    have htext : TraceMessage.empty.text.length = 0 := by decide
    rw [textLength, hrfc, if_neg (by decide), hpriority, hdigits, happlication, hname,
      length_longName, htext]
  have hbuffer : d.syslogBufferSize.toInt = 8193 := by
    rw [hsize]
    decide
  obtain ⟨hne, hout⟩ := size_of_gt (by rw [hlength, hbuffer]; norm_num)
    (by rw [hlength]; norm_num)
  rintro (hminus | ⟨hpos, hfits, -⟩)
  · exact hne hminus
  · rcases hout with hneg | hover <;> omega

/-! ## Runs -/

variable {d m}

/-- The dump after a message has been formatted: the text stays in the buffer. -/
def afterFormat (d : SyslogTraceDump) (m : TraceMessage) : SyslogTraceDump :=
  { d with
    syslogBuffer := (d.formatMessage m).syslogBuffer
    length_buffer := length_syslogBuffer_formatMessage }

/-- The messages of a run, formatted one after the other into the one buffer. -/
def formatAll : SyslogTraceDump → List TraceMessage → List Formatted
  | _, [] => []
  | d, m :: ms => d.formatMessage m :: (d.afterFormat m).formatAll ms

lemma fits_formatAll {ms : List TraceMessage}
    (h : ∀ m ∈ ms, (d.textLength m : ℤ) ≤ d.syslogBufferSize.toInt) :
    ∀ f ∈ d.formatAll ms, f.Fits := by
  induction ms generalizing d with
  | nil => exact List.forall_mem_nil _
  | cons m ms ih =>
      obtain ⟨hfirst, hrest⟩ := List.forall_mem_cons.mp h
      exact List.forall_mem_cons.mpr ⟨fits_formatMessage hfirst, ih hrest⟩

/-- What earlier messages left in the buffer is not sent. -/
lemma map_message_formatAll {ms : List TraceMessage}
    (h : ∀ m ∈ ms, (d.textLength m : ℤ) ≤ d.syslogBufferSize.toInt) :
    (d.formatAll ms).map Formatted.message = ms.map d.sent := by
  induction ms generalizing d with
  | nil => rfl
  | cons m ms ih =>
      obtain ⟨hfirst, hrest⟩ := List.forall_mem_cons.mp h
      have hafter : ((d.afterFormat m).formatAll ms).map Formatted.message =
          ms.map (d.afterFormat m).sent := ih hrest
      have hsent : (d.afterFormat m).sent = d.sent := rfl
      rw [formatAll, List.map_cons, List.map_cons, message_of_le hfirst, hafter, hsent]

/-- **What arrives of a run.**  As long as no text is longer than the buffer, the connections
decode to the texts of some of the messages, each once, in their order, and to nothing else. -/
theorem decode_formatAll (net : Network) {ms : List TraceMessage}
    (h : ∀ m ∈ ms, (d.textLength m : ℤ) ≤ d.syslogBufferSize.toInt) :
    ∃ delivered : List TraceMessage, delivered.Sublist ms ∧
      (World.initial.processAll net (d.formatAll ms)).2.connections.flatMap
        Framework.OctetCounting.decode = delivered.map d.sent := by
  obtain ⟨mss, hcarry, hflat⟩ :=
    (World.wellFramed_initial.processAll net (fits_formatAll h)).carry
  have hsublist := (World.processAll_sublist net World.initial (d.formatAll ms)).map
    Formatted.message
  rw [map_message_formatAll h] at hsublist
  obtain ⟨delivered, hdelivered, heq⟩ := List.sublist_map_iff.mp hsublist
  refine ⟨delivered, hdelivered, ?_⟩
  rw [Framework.OctetCounting.decode_streams hcarry, hflat, List.nil_append, heq]

end SyslogTraceDump

end InfiTracing.Syslog
