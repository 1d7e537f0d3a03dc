import InfiTracing.Framework.OctetCounting
import Mathlib.Data.List.Forall2

/-!
# Syslog over TCP

`SyslogTCPSocket` of `trace_dump.cpp`, and the loop of `SyslogTraceDump::process` that sends a
formatted message with it.  The model keeps what the peers see: the bytes put on every
connection, in the order the connections were made.

A `Network` answers the system calls, one answer for each point in time, so a theorem about
every network covers every behaviour of `socket`, `connect` and `::send`: a failure, or a
count up to the length asked for.  A short count puts that many bytes on the wire.

A frame goes out in two sends.  When either comes back short the socket is closed, so nothing
follows a torn frame on its connection, and the message is tried once more on a new one.
`process` is proved one frame at a time: `send_spec` is the law of one attempt,
`WellFramed.process` the law of one message, and `decode_connections` the law of a whole run.
-/

namespace InfiTracing.Syslog

open Framework.OctetCounting
open Framework (decimal)

/-! ## The network -/

/-- How the network behaves: the answer to the system call made at each point in time. -/
structure Network where
  /-- whether `socket()` gives a descriptor -/
  socket : ℕ → Bool
  /-- whether `connect()` succeeds -/
  connect : ℕ → Bool
  /-- what `::send()` returns when asked to send so many bytes: `-1`, or a count up to them -/
  send : ℕ → (requested : ℕ) → Option (Fin (requested + 1))

/-- The socket and what it has done to the network. -/
structure World where
  /-- `fd`: `-1` as `none`, else the number of the connection it is, or is about to be -/
  fd : Option ℕ
  /-- the bytes put on each connection made so far, in the order they were made -/
  connections : List (List UInt8)
  /-- the number of system calls made so far -/
  clock : ℕ
  deriving Repr, DecidableEq

namespace World

/-- A new `SyslogTCPSocket`, before any connection. -/
def initial : World where
  fd := none
  connections := []
  clock := 0

/-- `SyslogSocket::close`. -/
def close (w : World) : World := { w with fd := none }

variable (net : Network)

/-- `fd = socket(AF_INET, SOCK_STREAM, 0)`. -/
def openSocket (w : World) : World :=
  { w with
    fd := if net.socket w.clock then some w.connections.length else none
    clock := w.clock + 1 }

/-- `::connect(fd, ..) == 0`; a connection starts with no bytes on it. -/
def connect (w : World) : Bool × World :=
  if net.connect w.clock then
    (true, { w with connections := w.connections ++ [[]], clock := w.clock + 1 })
  else
    (false, { w with clock := w.clock + 1 })

/-- `::send(fd, bytes, length)`: the count, or `none` for `-1`.  The bytes it accepted are on
the wire. -/
def put (w : World) (bytes : List UInt8) : Option ℕ × World :=
  match net.send w.clock bytes.length, w.fd with
  | some count, some connection =>
      (some count, { w with
        connections := w.connections.modify connection (· ++ bytes.take count)
        clock := w.clock + 1 })
  | _, _ => (none, { w with clock := w.clock + 1 })

/-- `SyslogTCPSocket::try_connect`. -/
def tryConnect (w : World) : Bool × World :=
  if w.fd ≠ none then
    (true, w)
  else
    let opened := w.openSocket net
    if opened.fd = none then
      (false, opened)
    else
      let connected := opened.connect net
      if connected.1 then (true, connected.2) else (false, connected.2.close)

/-- What `snprintf` prints for `"%ld "`. -/
def sizePrefix (size : ℤ) : List UInt8 := decimal size ++ [32]

/-- `SyslogTCPSocket::send(buffer, size)`. -/
def send (w : World) (buffer : List UInt8) (size : ℤ) : Bool × World :=
  if (sizePrefix size).length = 64 then
    (false, w)
  else
    let first := w.put net (sizePrefix size)
    if first.1 = some (sizePrefix size).length then
      let second := first.2.put net (buffer.take size.toNat)
      if second.1 = some size.toNat then (true, second.2) else (false, second.2.close)
    else
      (false, first.2.close)

end World

/-! ## The trace dump -/

/-- What `format_message` leaves behind: the bytes of `syslog_buffer`, and the size it
returns. -/
structure Formatted where
  syslogBuffer : List UInt8
  size : Int32
  deriving Repr, DecidableEq

/-- The bytes `process` hands to the socket. -/
def Formatted.message (f : Formatted) : Message := f.syslogBuffer.take f.size.toInt.toNat

/-- The size is positive and within the buffer. -/
def Formatted.Fits (f : Formatted) : Prop :=
  1 ≤ f.size.toInt ∧ f.size.toInt ≤ f.syslogBuffer.length
  deriving Decidable

namespace World

variable (net : Network)

/-- The loop of `process`, for the number of attempts that are left.  The `Bool` says whether
a `send` returned `true`. -/
def attempts (f : Formatted) : ℕ → World → Bool × World
  | 0, w => (false, w)
  | n + 1, w =>
      let connected := w.tryConnect net
      if connected.1 then
        let sent := connected.2.send net f.syslogBuffer f.size.toInt
        if sent.1 then (true, sent.2) else sent.2.attempts f n
      else
        connected.2.attempts f n

/-- `SyslogTraceDump::process`, on a message as `format_message` formatted it. -/
def process (w : World) (f : Formatted) : Bool × World :=
  if 0 < f.size.toInt then w.attempts net f 2 else (false, w)

/-- One message after the other.  The list keeps those for which a `send` returned `true`. -/
def processAll : World → List Formatted → List Formatted × World
  | w, [] => ([], w)
  | w, f :: fs =>
      let first := w.process net f
      let rest := first.2.processAll fs
      (if first.1 then f :: rest.1 else rest.1, rest.2)

end World

/-! ## The frame of a message -/

lemma Formatted.Fits.length_message {f : Formatted} (h : f.Fits) :
    f.message.length = f.size.toInt.toNat := by
  obtain ⟨hpos, hle⟩ := h
  rw [Formatted.message, List.length_take]
  omega

lemma Formatted.Fits.message_ne_nil {f : Formatted} (h : f.Fits) : f.message ≠ [] := by
  have hlen := h.length_message
  have hpos := h.1
  refine List.ne_nil_of_length_pos ?_
  omega

/-- The two sends of a message are its frame. -/
lemma Formatted.Fits.frame_eq {f : Formatted} (h : f.Fits) :
    frame f.message = World.sizePrefix f.size.toInt ++ f.message := by
  have hpos := h.1
  have hneg : ¬ f.size.toInt < 0 := by omega
  rw [frame, h.length_message, World.sizePrefix, decimal, if_neg hneg,
    show f.size.toInt.toNat = f.size.toInt.natAbs by omega]
  simp

/-- The prefix of a size that is an `int` is far from filling its 64 bytes. -/
lemma Formatted.Fits.length_sizePrefix {f : Formatted} (h : f.Fits) :
    (World.sizePrefix f.size.toInt).length ≠ 64 := by
  have hpos := h.1
  have hlt : f.size.toInt < 2 ^ 31 := Int32.toInt_lt f.size
  have hdigits : (decimal f.size.toInt).length ≤ 10 + 1 :=
    Framework.length_decimal_le (by norm_num) (by omega)
  rw [World.sizePrefix, List.length_append, List.length_singleton]
  omega

/-! ## One send -/

namespace World

variable {net : Network} {w : World}

/-- The socket is open, and `stream` is what its connection, the newest one, carries so far. -/
structure Open (w : World) (older : List (List UInt8)) (stream : List UInt8) : Prop where
  fd : w.fd = some older.length
  connections : w.connections = older ++ [stream]

lemma modify_newest (older : List (List UInt8)) (stream : List UInt8)
    (g : List UInt8 → List UInt8) :
    (older ++ [stream]).modify older.length g = older ++ [g stream] := by
  induction older with
  | nil => rfl
  | cons first older ih =>
      rw [List.cons_append, List.length_cons, List.modify_succ_cons, ih, List.cons_append]

/-- `::send` puts a prefix of its bytes on the open connection, the one it returns the length
of. -/
lemma Open.put (net : Network) {older : List (List UInt8)} {stream : List UInt8}
    (h : w.Open older stream) (bytes : List UInt8) :
    ∃ count ≤ bytes.length, (w.put net bytes).2.Open older (stream ++ bytes.take count) ∧
      ((w.put net bytes).1 = some count ∨ (w.put net bytes).1 = none ∧ count = 0) := by
  unfold World.put
  rw [h.fd]
  cases net.send w.clock bytes.length with
  | none =>
      refine ⟨0, Nat.zero_le _, ⟨rfl, ?_⟩, Or.inr ⟨rfl, rfl⟩⟩
      simpa using h.connections
  | some count =>
      refine ⟨count, Nat.le_of_lt_succ count.2, ⟨rfl, ?_⟩, Or.inl rfl⟩
      show w.connections.modify older.length _ = _
      rw [h.connections, modify_newest]

lemma Open.put_full {older : List (List UInt8)} {stream : List UInt8}
    (h : w.Open older stream) {bytes : List UInt8}
    (hfull : (w.put net bytes).1 = some bytes.length) :
    (w.put net bytes).2.Open older (stream ++ bytes) := by
  obtain ⟨count, -, hopen, hsome | ⟨hnone, -⟩⟩ := h.put net bytes
  · have hcount : count = bytes.length := Option.some.inj (hsome.symm.trans hfull)
    rwa [hcount, List.take_length] at hopen
  · simp [hnone] at hfull

lemma Open.put_short {older : List (List UInt8)} {stream : List UInt8}
    (h : w.Open older stream) {bytes : List UInt8} (hne : bytes ≠ [])
    (hshort : (w.put net bytes).1 ≠ some bytes.length) :
    ∃ p, p <+: bytes ∧ p ≠ bytes ∧ (w.put net bytes).2.Open older (stream ++ p) := by
  obtain ⟨count, hle, hopen, hret⟩ := h.put net bytes
  refine ⟨bytes.take count, List.take_prefix _ _, fun heq => ?_, hopen⟩
  have hcount : count = bytes.length := by
    have := congrArg List.length heq
    rw [List.length_take] at this
    omega
  rcases hret with hsome | ⟨-, hzero⟩
  · exact hshort (hcount ▸ hsome)
  · exact hne (List.length_eq_zero_iff.mp (hcount.symm.trans hzero))

/-- The socket is closed, and `streams` is what all connections so far carry. -/
structure Closed (w : World) (streams : List (List UInt8)) : Prop where
  fd : w.fd = none
  connections : w.connections = streams

lemma Open.close {older : List (List UInt8)} {stream : List UInt8} (h : w.Open older stream) :
    w.close.Closed (older ++ [stream]) := ⟨rfl, h.connections⟩

/-- **One attempt**: either the whole frame is on the connection, or a torn frame is and the
socket is closed. -/
theorem Open.send (net : Network) {older : List (List UInt8)} {stream : List UInt8}
    (h : w.Open older stream) {f : Formatted} (hf : f.Fits) :
    ((w.send net f.syslogBuffer f.size.toInt).1 = true ∧
      (w.send net f.syslogBuffer f.size.toInt).2.Open older (stream ++ frame f.message)) ∨
    ((w.send net f.syslogBuffer f.size.toInt).1 = false ∧
      ∃ p, Torn p ∧
        (w.send net f.syslogBuffer f.size.toInt).2.Closed (older ++ [stream ++ p])) := by
  have hframe := hf.frame_eq
  have hlen : f.message.length = f.size.toInt.toNat := hf.length_message
  by_cases hfull : (w.put net (sizePrefix f.size.toInt)).1 =
      some (sizePrefix f.size.toInt).length
  · -- the prefix is out, and it is the send of the message that decides
    have hfirst := h.put_full hfull
    set w₁ := (w.put net (sizePrefix f.size.toInt)).2 with hw₁
    by_cases hall : (w₁.put net f.message).1 = some f.message.length
    · left
      have hsecond := hfirst.put_full hall
      rw [List.append_assoc, ← hframe] at hsecond
      have hsend : w.send net f.syslogBuffer f.size.toInt = (true, (w₁.put net f.message).2) := by
        rw [hlen] at hall
        simp only [World.send, if_neg hf.length_sizePrefix, if_pos hfull, ← hw₁]
        exact if_pos hall
      rw [hsend]
      exact ⟨rfl, hsecond⟩
    · right
      obtain ⟨p, hpre, hne, hsecond⟩ := hfirst.put_short hf.message_ne_nil hall
      rw [List.append_assoc] at hsecond
      have hsend : w.send net f.syslogBuffer f.size.toInt =
          (false, (w₁.put net f.message).2.close) := by
        rw [hlen] at hall
        simp only [World.send, if_neg hf.length_sizePrefix, if_pos hfull, ← hw₁]
        exact if_neg hall
      rw [hsend]
      refine ⟨rfl, _, ⟨f.message, hf.message_ne_nil, ?_, ?_⟩, hsecond.close⟩
      · rw [hframe]
        exact (List.prefix_append_right_inj _).mpr hpre
      · rw [hframe]
        exact fun heq => hne (List.append_cancel_left heq)
  · right
    obtain ⟨p, hpre, hne, hfirst⟩ := h.put_short (by simp [sizePrefix]) hfull
    have hsend : w.send net f.syslogBuffer f.size.toInt =
        (false, (w.put net (sizePrefix f.size.toInt)).2.close) := by
      simp only [World.send, if_neg hf.length_sizePrefix, if_neg hfull]
    rw [hsend]
    refine ⟨rfl, p, ⟨f.message, hf.message_ne_nil, ?_, fun heq => ?_⟩, hfirst.close⟩
    · rw [hframe]
      exact hpre.trans (List.prefix_append _ _)
    · have hle := hpre.length_le
      have hpos := List.length_pos_iff.mpr hf.message_ne_nil
      rw [heq, hframe, List.length_append] at hle
      omega

/-! ## Connecting -/

lemma Open.tryConnect (net : Network) {older : List (List UInt8)} {stream : List UInt8}
    (h : w.Open older stream) : w.tryConnect net = (true, w) := by
  rw [World.tryConnect, if_pos (by simp [h.fd])]

/-- On a closed socket `try_connect` makes a new connection, or leaves the socket closed. -/
theorem Closed.tryConnect (net : Network) {streams : List (List UInt8)} (h : w.Closed streams) :
    ((w.tryConnect net).1 = true ∧ (w.tryConnect net).2.Open streams []) ∨
      ((w.tryConnect net).1 = false ∧ (w.tryConnect net).2.Closed streams) := by
  obtain ⟨hfd, rfl⟩ := h
  cases hsocket : net.socket w.clock with
  | false =>
      right
      have hnone : (w.openSocket net).fd = none := by simp [openSocket, hsocket]
      simp only [World.tryConnect, hfd, ne_eq, not_true_eq_false, if_false, hnone, if_true]
      exact ⟨trivial, hnone, rfl⟩
  | true =>
      have hsome : (w.openSocket net).fd = some w.connections.length := by
        simp [openSocket, hsocket]
      simp only [World.tryConnect, hfd, ne_eq, not_true_eq_false, if_false, hsome,
        reduceCtorEq]
      cases hconnect : net.connect (w.openSocket net).clock with
      | true =>
          left
          simp only [connect, hconnect, if_true]
          exact ⟨trivial, hsome, rfl⟩
      | false =>
          right
          simp only [connect, hconnect, Bool.false_eq_true, if_false]
          exact ⟨trivial, rfl, rfl⟩

/-! ## Runs -/

/-- **The invariant**: every connection but the open one carries its messages and at most one
torn frame, the open one carries whole frames only, and the messages on all of them, in order,
are `delivered`. -/
inductive WellFramed (w : World) (delivered : List Message) : Prop where
  | opened (older : List (List UInt8)) (mss : List (List Message)) (ms : List Message)
      (socket : w.Open older (ms.flatMap frame)) (whole : [] ∉ ms)
      (carry : List.Forall₂ Carries older mss) (eq : mss.flatten ++ ms = delivered)
  | closed (streams : List (List UInt8)) (mss : List (List Message))
      (socket : w.Closed streams) (carry : List.Forall₂ Carries streams mss)
      (eq : mss.flatten = delivered)

lemma wellFramed_initial : initial.WellFramed [] :=
  .closed [] [] ⟨rfl, rfl⟩ .nil rfl

/-- What is on the wire, whether the socket is open or not. -/
lemma WellFramed.carry {delivered : List Message} (h : w.WellFramed delivered) :
    ∃ mss, List.Forall₂ Carries w.connections mss ∧ mss.flatten = delivered := by
  cases h with
  | opened older mss ms socket whole carry eq =>
      refine ⟨mss ++ [ms], ?_, by simpa using eq⟩
      rw [socket.connections]
      exact List.rel_append carry (.cons (carries_frames whole) .nil)
  | closed streams mss socket carry eq => exact ⟨mss, socket.connections ▸ carry, eq⟩

lemma WellFramed.tryConnect (net : Network) {delivered : List Message}
    (h : w.WellFramed delivered) :
    (w.tryConnect net).2.WellFramed delivered ∧
      ((w.tryConnect net).1 = true → (w.tryConnect net).2.fd ≠ none) := by
  cases h with
  | opened older mss ms socket whole carry eq =>
      rw [socket.tryConnect]
      exact ⟨.opened older mss ms socket whole carry eq, fun _ => by simp [socket.fd]⟩
  | closed streams mss socket carry eq =>
      rcases socket.tryConnect net with ⟨-, hopen⟩ | ⟨hfalse, hclosed⟩
      · refine ⟨.opened streams mss [] hopen (by simp) carry (by simpa using eq), fun _ => ?_⟩
        simp [hopen.fd]
      · exact ⟨.closed streams mss hclosed carry eq, fun htrue => by simp [hfalse] at htrue⟩

/-- A send that returns `true` delivers its message; any other delivers nothing. -/
lemma WellFramed.send (net : Network) {delivered : List Message} (h : w.WellFramed delivered)
    (hopen : w.fd ≠ none) {f : Formatted} (hf : f.Fits) :
    (w.send net f.syslogBuffer f.size.toInt).2.WellFramed
      (if (w.send net f.syslogBuffer f.size.toInt).1 then delivered ++ [f.message]
        else delivered) := by
  cases h with
  | opened older mss ms socket whole carry eq =>
      rcases socket.send net hf with ⟨htrue, hnext⟩ | ⟨hfalse, p, hp, hnext⟩
      · rw [if_pos htrue]
        refine .opened older mss (ms ++ [f.message]) (by simpa using hnext) ?_ carry ?_
        · simpa [whole] using hf.message_ne_nil.symm
        · rw [← eq, List.append_assoc]
      · rw [if_neg (by simp [hfalse])]
        refine .closed _ (mss ++ [ms]) hnext ?_ (by simpa using eq)
        exact List.rel_append carry (.cons ⟨whole, p, hp, rfl⟩ .nil)
  | closed streams mss socket carry eq => exact absurd socket.fd hopen

/-- The loop of `process`, by induction on the attempts left: a message is delivered once, by
the attempt that ends the loop, or not at all. -/
lemma WellFramed.attempts (net : Network) {f : Formatted} (hf : f.Fits) (n : ℕ)
    {delivered : List Message} (h : w.WellFramed delivered) :
    (w.attempts net f n).2.WellFramed
      (if (w.attempts net f n).1 then delivered ++ [f.message] else delivered) := by
  induction n generalizing w with
  | zero => exact h
  | succ n ih =>
      obtain ⟨hconnected, hopen⟩ := h.tryConnect net
      unfold World.attempts
      by_cases hconn : (w.tryConnect net).1 = true
      · simp only [if_pos hconn]
        have hsend := hconnected.send net (hopen hconn) hf
        by_cases hsent : ((w.tryConnect net).2.send net f.syslogBuffer f.size.toInt).1 = true
        · rw [if_pos hsent] at hsend
          simpa only [if_pos hsent, if_true] using hsend
        · rw [if_neg hsent] at hsend
          simpa only [if_neg hsent] using ih hsend
      · simpa only [if_neg hconn] using ih hconnected

/-- **The law of `process`**. -/
theorem WellFramed.process (net : Network) {f : Formatted} (hf : f.Fits) {delivered : List Message}
    (h : w.WellFramed delivered) :
    (w.process net f).2.WellFramed
      (if (w.process net f).1 then delivered ++ [f.message] else delivered) := by
  have hpos : 0 < f.size.toInt := hf.1
  rw [World.process, if_pos hpos]
  exact h.attempts net hf 2

/-- A run delivers the messages it says it sent. -/
lemma WellFramed.processAll (net : Network) {fs : List Formatted} (hfs : ∀ f ∈ fs, f.Fits)
    {delivered : List Message} (h : w.WellFramed delivered) :
    (w.processAll net fs).2.WellFramed
      (delivered ++ (w.processAll net fs).1.map Formatted.message) := by
  induction fs generalizing w delivered with
  | nil => simpa [World.processAll] using h
  | cons f fs ih =>
      have hnext := ih (fun g hg => hfs g (List.mem_cons_of_mem f hg))
        (h.process net (hfs f List.mem_cons_self))
      simp only [World.processAll]
      split_ifs at hnext ⊢ with hsent
      · rwa [List.map_cons, List.append_cons]
      · exact hnext

lemma processAll_sublist (net : Network) (w : World) (fs : List Formatted) :
    (w.processAll net fs).1.Sublist fs := by
  induction fs generalizing w with
  | nil => exact List.Sublist.slnil
  | cons f fs ih =>
      simp only [World.processAll]
      split_ifs
      · exact (ih _).cons_cons f
      · exact (ih _).cons f

end World

/-! ## The law of a run -/

/-- **The wire stays decodable.**  Whatever the network does, every connection carries whole
frames and then at most one torn frame, and decoding the connections in order gives the
messages for which a send returned `true`, each once, in the order they were processed. -/
theorem decode_connections (net : Network) (fs : List Formatted) (hfs : ∀ f ∈ fs, f.Fits) :
    (∀ stream ∈ (World.initial.processAll net fs).2.connections,
        ∃ (ms : List Message) (p : List UInt8), stream = ms.flatMap frame ++ p ∧ Torn p) ∧
      (World.initial.processAll net fs).2.connections.flatMap decode =
        (World.initial.processAll net fs).1.map Formatted.message ∧
      (World.initial.processAll net fs).1.Sublist fs := by
  obtain ⟨mss, hcarry, hflat⟩ := (World.wellFramed_initial.processAll net hfs).carry
  refine ⟨fun stream hstream => ?_, ?_, World.processAll_sublist net _ fs⟩
  · obtain ⟨ms, -, p, hp, heq⟩ := exists_carries_of_mem hcarry hstream
    exact ⟨ms, p, heq, hp⟩
  · rw [decode_streams hcarry, hflat, List.nil_append]

/-- A network that accepts everything but at time 5, when it takes one byte only. -/
def breakingNetwork : Network where
  socket _ := true
  connect _ := true
  send t requested := if t = 5 then some (Fin.ofNat _ 1) else some (Fin.last requested)

/-- Two messages, of the bytes `"a"` and `"bc"`, each with the NUL `format_message` counts. -/
def twoMessages : List Formatted := [⟨[97, 0, 0, 0], 2⟩, ⟨[98, 99, 0, 0], 3⟩]

/-- The second message is torn on the first connection and sent again on another one. -/
theorem decode_connections_breakingNetwork :
    (World.initial.processAll breakingNetwork twoMessages).2.connections =
        [[50, 32, 97, 0, 51, 32, 98], [51, 32, 98, 99, 0]] ∧
      (World.initial.processAll breakingNetwork twoMessages).2.connections.flatMap decode =
        (World.initial.processAll breakingNetwork twoMessages).1.map Formatted.message :=
  ⟨by decide, (decode_connections breakingNetwork twoMessages (by decide)).2.1⟩

end InfiTracing.Syslog
