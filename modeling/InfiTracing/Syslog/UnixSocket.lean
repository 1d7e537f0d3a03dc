import InfiTracing.Framework.Fields
import InfiTracing.Syslog.Pipeline

/-!
# Syslog over a UNIX socket

`SyslogUNIXSocket` of `trace_dump.cpp`: a datagram socket where the daemon has one, and a stream
otherwise.  A datagram is one message.  On a stream the messages end at the NULs that
`format_message` counts in, and there is no other framing: a message that was cut short is told
from a whole one by the missing NUL, after which the socket is closed.

A network takes a datagram as a whole or not at all; of a stream it takes any part.  The model
also counts the descriptors that `socket()` has given out and that `close` has given back.

`unix_arrives` is for this socket what `syslog_arrives` is for `SyslogTCPSocket`.
-/

namespace InfiTracing.Syslog

open Framework Framework.OctetCounting SyslogTraceDump

/-! ## The socket -/

/-- `SOCK_DGRAM` and `SOCK_STREAM`. -/
inductive SocketType
  | dgram
  | stream
  deriving Repr, DecidableEq

/-- How the network behaves: the answer to the system call made at each point in time. -/
structure UnixNetwork where
  /-- whether `socket()` gives a descriptor -/
  socket : ℕ → Bool
  /-- whether `connect()` succeeds -/
  connect : ℕ → Bool
  /-- whether `::send()` takes a datagram -/
  datagram : ℕ → Bool
  /-- what `::send()` returns on a stream: `-1`, or a count up to what it is asked to send -/
  send : ℕ → (requested : ℕ) → Option (Fin (requested + 1))

/-- What `::send()` returns on a socket of the given type. -/
def UnixNetwork.accepts (net : UnixNetwork) (t : ℕ) (type : SocketType) (requested : ℕ) :
    Option ℕ :=
  match type with
  | .dgram => if net.datagram t then some requested else none
  | .stream => (net.send t requested).map Fin.val

/-- A network takes no more than it is asked to, and a part of it only on a stream. -/
lemma UnixNetwork.accepts_spec {net : UnixNetwork} {t requested count : ℕ} {type : SocketType}
    (h : net.accepts t type requested = some count) :
    count ≤ requested ∧ (count ≠ requested → type = .stream) := by
  cases type with
  | dgram =>
      rw [accepts] at h
      split_ifs at h
      obtain rfl := Option.some.inj h
      exact ⟨le_rfl, fun hne => absurd rfl hne⟩
  | stream =>
      obtain ⟨taken, -, rfl⟩ := Option.map_eq_some_iff.mp h
      exact ⟨Nat.le_of_lt_succ taken.2, fun _ => rfl⟩

/-- A connection: its type, and what each `::send()` has put on it. -/
structure UnixConnection where
  type : SocketType
  sends : List (List UInt8)
  deriving Repr, DecidableEq

/-- The socket and what it has done to the network. -/
structure UnixWorld where
  /-- `fd`: `-1` as `none`, else the number of the connection it is, or is about to be -/
  fd : Option ℕ
  connections : List UnixConnection
  /-- the number of system calls made so far -/
  clock : ℕ
  /-- the descriptors that `socket()` has given out -/
  opened : ℕ
  /-- the descriptors that were closed -/
  closed : ℕ
  deriving Repr, DecidableEq

namespace UnixWorld

/-- A new `SyslogUNIXSocket`. -/
def initial : UnixWorld where
  fd := none
  connections := []
  clock := 0
  opened := 0
  closed := 0

/-- `SyslogSocket::close`. -/
def close (w : UnixWorld) : UnixWorld :=
  if w.fd ≠ none then { w with fd := none, closed := w.closed + 1 } else w

variable (net : UnixNetwork)

/-- `fd = socket(AF_UNIX, type, 0)`. -/
def openSocket (w : UnixWorld) : UnixWorld :=
  { w with
    fd := if net.socket w.clock then some w.connections.length else none
    opened := if net.socket w.clock then w.opened + 1 else w.opened
    clock := w.clock + 1 }

/-- `::connect(fd, ..) == 0`. -/
def connect (w : UnixWorld) (type : SocketType) : Bool × UnixWorld :=
  if net.connect w.clock then
    (true, { w with connections := w.connections ++ [⟨type, []⟩], clock := w.clock + 1 })
  else
    (false, { w with clock := w.clock + 1 })

/-- `::send(fd, bytes, length, 0)`: the count, or `none` for `-1`. -/
def put (w : UnixWorld) (bytes : List UInt8) : Option ℕ × UnixWorld :=
  match w.fd.bind (w.connections[·]?) with
  | none => (none, { w with clock := w.clock + 1 })
  | some c => match net.accepts w.clock c.type bytes.length with
    | none => (none, { w with clock := w.clock + 1 })
    | some count =>
        (some count, { w with
          connections := w.connections.modify (w.fd.getD 0) fun c =>
            { c with sends := c.sends ++ [bytes.take count] }
          clock := w.clock + 1 })

/-- `SyslogUNIXSocket::try_connect_to_type`. -/
def tryConnectToType (w : UnixWorld) (type : SocketType) : Bool × UnixWorld :=
  let opened := w.openSocket net
  if opened.fd = none then
    (false, opened)
  else
    let connected := opened.connect net type
    if connected.1 then (true, connected.2) else (false, connected.2.close)

/-- `SyslogUNIXSocket::try_connect`. -/
def tryConnect (w : UnixWorld) : Bool × UnixWorld :=
  if w.fd ≠ none then
    (true, w)
  else
    let datagram := w.tryConnectToType net .dgram
    if datagram.1 then (true, datagram.2) else datagram.2.tryConnectToType net .stream

/-- `SyslogUNIXSocket::send(buffer, size)`. -/
def send (w : UnixWorld) (buffer : List UInt8) (size : ℤ) : Bool × UnixWorld :=
  let sent := w.put net (buffer.take size.toNat)
  if sent.1 = some size.toNat then (true, sent.2) else (false, sent.2.close)

end UnixWorld

/-- A `SyslogUNIXSocket`. -/
def unixSocket (net : UnixNetwork) : Sender UnixWorld Formatted where
  tryConnect w := w.tryConnect net
  send w f := w.send net f.syslogBuffer f.size.toInt

/-- The messages the daemon receives on a connection: the datagrams, or what a stream has up to
each NUL. -/
def UnixConnection.received (c : UnixConnection) : List (List UInt8) :=
  match c.type with
  | .dgram => c.sends.map fun bytes => bytes.takeWhile (· ≠ 0)
  | .stream => lines 0 c.sends.flatten

/-! ## What a connection carries -/

/-- A connection on which so many texts were sent whole, each with its NUL. -/
def UnixConnection.whole (type : SocketType) (ts : List (List UInt8)) : UnixConnection :=
  ⟨type, ts.map (· ++ [0])⟩

section Connection

variable {ts : List (List UInt8)} {type : SocketType}

lemma received_whole (hts : ∀ t ∈ ts, 0 ∉ t) : (UnixConnection.whole type ts).received = ts := by
  cases type with
  | dgram =>
      rw [UnixConnection.received, UnixConnection.whole, List.map_map]
      refine (List.map_congr_left fun t ht => ?_).trans ts.map_id
      exact TraceMessage.takeWhile_eq_of_prefix (hts t ht) (List.prefix_refl _)
  | stream =>
      have hjoined : (ts.map (· ++ [0])).flatten = joined 0 ts := by
        rw [joined, List.flatMap_def]
      rw [UnixConnection.received, UnixConnection.whole]
      simp only [hjoined, lines_joined hts]

/-- A torn message on a stream is not received. -/
lemma received_torn (hts : ∀ t ∈ ts, 0 ∉ t) {p : List UInt8} (hp : 0 ∉ p) :
    UnixConnection.received ⟨.stream, ts.map (· ++ [0]) ++ [p]⟩ = ts := by
  have hjoined : (ts.map (· ++ [0]) ++ [p]).flatten = joined 0 ts ++ p := by
    rw [List.flatten_append, joined, List.flatMap_def, List.flatten_singleton]
  simp only [UnixConnection.received, hjoined, lines_joined_append hts hp]

end Connection

/-! ## One attempt -/

namespace UnixWorld

/-- What the daemon has received on all connections, in the order they were made. -/
def received (w : UnixWorld) : List (List UInt8) := w.connections.flatMap UnixConnection.received

/-- The socket is open, and its connection, the newest one, carries whole texts only; the one
descriptor that is not closed is its own. -/
structure Open (w : UnixWorld) (ts : List (List UInt8)) : Prop where
  newest : ∃ older type last, w.fd = some older.length ∧
    w.connections = older ++ [UnixConnection.whole type last] ∧ (∀ t ∈ last, 0 ∉ t) ∧
      older.flatMap UnixConnection.received ++ last = ts
  descriptors : w.opened = w.closed + 1

/-- The socket is closed, and so are all descriptors. -/
structure Closed (w : UnixWorld) (ts : List (List UInt8)) : Prop where
  fd : w.fd = none
  received : w.received = ts
  descriptors : w.opened = w.closed

/-- **The invariant**: the daemon has received the messages, each without its NUL. -/
def Holds (w : UnixWorld) (ms : List Message) : Prop :=
  ∃ ts : List (List UInt8), ts.map (· ++ [0]) = ms ∧ (w.Open ts ∨ w.Closed ts)

lemma holds_initial : initial.Holds [] := ⟨[], rfl, .inr ⟨rfl, rfl, rfl⟩⟩

variable {net : UnixNetwork} {w : UnixWorld} {ts : List (List UInt8)}

lemma Open.fd_ne_none (h : w.Open ts) : w.fd ≠ none := by
  obtain ⟨older, type, last, hfd, -⟩ := h.newest
  simp [hfd]

lemma Open.received (h : w.Open ts) : w.received = ts := by
  obtain ⟨older, type, last, -, hconnections, hlast, rfl⟩ := h.newest
  rw [UnixWorld.received, hconnections, List.flatMap_append, List.flatMap_singleton,
    received_whole hlast]

/-- Whether the socket is open or not. -/
lemma Holds.received {ms : List Message} (h : w.Holds ms) : w.received.map (· ++ [0]) = ms := by
  obtain ⟨ts, rfl, hopen | hclosed⟩ := h
  · rw [hopen.received]
  · rw [hclosed.received]

/-- Once the socket is closed, every descriptor given out has been given back. -/
lemma Holds.close_descriptors {ms : List Message} (h : w.Holds ms) :
    w.close.fd = none ∧ w.close.opened = w.close.closed := by
  obtain ⟨ts, -, hopen | hclosed⟩ := h
  · rw [UnixWorld.close, if_pos hopen.fd_ne_none]
    exact ⟨rfl, hopen.descriptors⟩
  · rw [UnixWorld.close, if_neg (not_not.mpr hclosed.fd)]
    exact ⟨hclosed.fd, hclosed.descriptors⟩

/-- A closed socket is connected, or left closed. -/
lemma Closed.tryConnectToType (net : UnixNetwork) (h : w.Closed ts) (type : SocketType) :
    ((w.tryConnectToType net type).1 = true ∧ (w.tryConnectToType net type).2.Open ts) ∨
      ((w.tryConnectToType net type).1 = false ∧ (w.tryConnectToType net type).2.Closed ts) := by
  obtain ⟨hfd, hreceived, hdescriptors⟩ := h
  unfold UnixWorld.tryConnectToType
  cases hsocket : net.socket w.clock with
  | false =>
      right
      have hnone : (w.openSocket net).fd = none := by simp [openSocket, hsocket]
      simp only [if_pos hnone]
      exact ⟨trivial, hnone, hreceived, by simpa [openSocket, hsocket] using hdescriptors⟩
  | true =>
      have hsome : (w.openSocket net).fd = some w.connections.length := by
        simp [openSocket, hsocket]
      have hopened : (w.openSocket net).opened = (w.openSocket net).closed + 1 := by
        simp [openSocket, hsocket, hdescriptors]
      simp only [hsome, reduceCtorEq, if_false]
      cases hconnect : net.connect (w.openSocket net).clock with
      | true =>
          left
          simp only [UnixWorld.connect, hconnect, if_true]
          refine ⟨trivial, ⟨w.connections, type, [], hsome, rfl, List.forall_mem_nil _, ?_⟩,
            hopened⟩
          rw [List.append_nil]
          exact hreceived
      | false =>
          right
          simp only [UnixWorld.connect, hconnect, Bool.false_eq_true, if_false]
          rw [UnixWorld.close, if_pos (by simp [hsome])]
          exact ⟨trivial, rfl, hreceived, hopened⟩

/-- `try_connect` leaves the socket open where it returns `true`, and closed where not. -/
lemma Closed.tryConnect (net : UnixNetwork) (h : w.Closed ts) :
    ((w.tryConnect net).1 = true ∧ (w.tryConnect net).2.Open ts) ∨
      ((w.tryConnect net).1 = false ∧ (w.tryConnect net).2.Closed ts) := by
  rw [UnixWorld.tryConnect, if_neg (not_not.mpr h.fd)]
  rcases h.tryConnectToType net .dgram with ⟨htrue, hopen⟩ | ⟨hfalse, hclosed⟩
  · simp only [htrue, if_true]
    exact .inl ⟨trivial, hopen⟩
  · simp only [hfalse, Bool.false_eq_true, if_false]
    exact hclosed.tryConnectToType net .stream

lemma Open.tryConnect (net : UnixNetwork) (h : w.Open ts) : w.tryConnect net = (true, w) := by
  rw [UnixWorld.tryConnect, if_pos h.fd_ne_none]

lemma modify_newest {older : List UnixConnection} (c : UnixConnection)
    (g : UnixConnection → UnixConnection) :
    (older ++ [c]).modify older.length g = older ++ [g c] := by
  induction older with
  | nil => rfl
  | cons first older ih =>
      rw [List.cons_append, List.length_cons, List.modify_succ_cons, ih, List.cons_append]

/-- The newest connection of an open socket takes what it takes. -/
lemma put_eq (net : UnixNetwork) {older : List UnixConnection} {c : UnixConnection}
    (hfd : w.fd = some older.length) (hconnections : w.connections = older ++ [c])
    (bytes : List UInt8) :
    w.put net bytes = match net.accepts w.clock c.type bytes.length with
      | none => (none, { w with clock := w.clock + 1 })
      | some count => (some count, { w with
          connections := older ++ [{ c with sends := c.sends ++ [bytes.take count] }]
          clock := w.clock + 1 }) := by
  have hget : w.fd.bind (w.connections[·]?) = some c := by
    rw [hfd, hconnections, Option.bind_some, List.getElem?_concat_length]
  simp only [put, hget]
  cases net.accepts w.clock c.type bytes.length with
  | none => rfl
  | some count => simp only [hconnections, hfd, Option.getD_some, modify_newest]

/-- A socket is closed over a last connection that carries these texts. -/
lemma closed_close {older : List UnixConnection} {c : UnixConnection} {last : List (List UInt8)}
    (hfd : w.fd ≠ none) (hconnections : w.connections = older ++ [c]) (hlast : c.received = last)
    (hdescriptors : w.opened = w.closed + 1) :
    w.close.Closed (older.flatMap UnixConnection.received ++ last) := by
  rw [UnixWorld.close, if_pos hfd]
  refine ⟨rfl, ?_, hdescriptors⟩
  rw [UnixWorld.received, hconnections, List.flatMap_append, List.flatMap_singleton, hlast]

/-- A send puts the whole text on the connection, and the socket stays open, or tears it, and the
socket is closed. -/
lemma Open.send (net : UnixNetwork) (h : w.Open ts) {f : Formatted} {t : CString}
    (hf : f.Fits) (ht : f.message = t.1 ++ [0]) :
    ((w.send net f.syslogBuffer f.size.toInt).1 = true ∧
        (w.send net f.syslogBuffer f.size.toInt).2.Open (ts ++ [t.1])) ∨
      ((w.send net f.syslogBuffer f.size.toInt).1 = false ∧
        (w.send net f.syslogBuffer f.size.toInt).2.Closed ts) := by
  obtain ⟨⟨older, type, last, hfd, hconnections, hlast, rfl⟩, hdescriptors⟩ := h
  have hlength := hf.length_message
  have hbytes : f.syslogBuffer.take f.size.toInt.toNat = t.1 ++ [0] := ht
  have hput := put_eq net hfd hconnections (t.1 ++ [0])
  rw [UnixWorld.send, hbytes, ← hlength, ht, hput]
  cases haccepts : net.accepts w.clock (UnixConnection.whole type last).type
      (t.1 ++ [0]).length with
  | none =>
      right
      exact ⟨rfl, closed_close (by simp [hfd]) hconnections (received_whole hlast) hdescriptors⟩
  | some count =>
      by_cases hfull : count = (t.1 ++ [0]).length
      · left
        subst hfull
        simp only [if_true]
        refine ⟨trivial, ⟨older, type, last ++ [t.1], hfd, ?_, ?_, ?_⟩, hdescriptors⟩
        · simp [UnixConnection.whole]
        · simpa [or_imp, forall_and] using ⟨hlast, t.2⟩
        · rw [List.append_assoc]
      · -- only a stream takes a part, which ends before the NUL
        right
        obtain ⟨hle, hstream⟩ := UnixNetwork.accepts_spec haccepts
        obtain rfl : type = .stream := hstream hfull
        have htaken : (t.1 ++ [0]).take count = t.1.take count := by
          rw [List.length_append, List.length_singleton] at hle hfull
          exact List.take_append_of_le_length (by omega)
        have htorn : UnixConnection.received ⟨.stream, last.map (· ++ [0]) ++
            [(t.1 ++ [0]).take count]⟩ = last := by
          rw [htaken]
          exact received_torn hlast fun h => t.2 (List.mem_of_mem_take h)
        simp only [Option.some.injEq, hfull, if_false]
        exact ⟨trivial, closed_close (by simp [hfd]) rfl htorn hdescriptors⟩

lemma fd_tryConnectToType {type : SocketType} (h : (w.tryConnectToType net type).1 = true) :
    (w.tryConnectToType net type).2.fd ≠ none := by
  have hsame : ((w.openSocket net).connect net type).2.fd = (w.openSocket net).fd := by
    unfold UnixWorld.connect
    split <;> rfl
  unfold UnixWorld.tryConnectToType at h ⊢
  by_cases hopened : (w.openSocket net).fd = none
  · simp [hopened] at h
  · by_cases hconnected : ((w.openSocket net).connect net type).1 = true
    · simp [hopened, hconnected, hsame]
    · simp [hopened, hconnected] at h

lemma fd_tryConnect (h : (w.tryConnect net).1 = true) : (w.tryConnect net).2.fd ≠ none := by
  unfold UnixWorld.tryConnect at h ⊢
  by_cases hfd : w.fd ≠ none
  · rwa [if_pos hfd]
  · rw [if_neg hfd] at h ⊢
    by_cases hdatagram : (w.tryConnectToType net .dgram).1 = true
    · simpa [hdatagram] using fd_tryConnectToType hdatagram
    · simp only [if_neg hdatagram] at h ⊢
      exact fd_tryConnectToType h

end UnixWorld

lemma delivery_unixSocket (net : UnixNetwork) : (unixSocket net).Delivery (·.fd ≠ none)
    Formatted.IsText Formatted.message UnixWorld.Holds where
  connect := by
    rintro w - ⟨ts, rfl, hopen | hclosed⟩
    · have hsame : (unixSocket net).tryConnect w = (true, w) := hopen.tryConnect net
      rw [hsame]
      exact ⟨ts, rfl, .inl hopen⟩
    · exact ⟨ts, rfl, (hclosed.tryConnect net).imp And.right And.right⟩
  ready _ := UnixWorld.fd_tryConnect
  send := by
    rintro w - f ⟨ts, rfl, hopen | hclosed⟩ hfd hf
    · obtain ⟨t, ht⟩ := hf.text
      rcases hopen.send net hf.fits ht with ⟨htrue, hnext⟩ | ⟨hfalse, hnext⟩
      · rw [show ((unixSocket net).send w f).1 = true from htrue, if_pos rfl, ht]
        exact ⟨ts ++ [t.1], by rw [List.map_append, List.map_singleton], .inl hnext⟩
      · rw [show ((unixSocket net).send w f).1 = false from hfalse]
        exact ⟨ts, rfl, .inr hnext⟩
    · exact absurd hclosed.fd hfd

/-! ## What an attempt costs -/

/-- A system call made at the time `t` is answered as asked. -/
structure UnixNetwork.WorksAt (net : UnixNetwork) (t : ℕ) : Prop where
  socket : net.socket t = true
  connect : net.connect t = true
  datagram : net.datagram t = true
  send : ∀ requested, net.send t requested = some (Fin.last requested)

section Costs

variable {fault : ℕ → Prop} [DecidablePred fault] {net : UnixNetwork} {w : UnixWorld}
  (hfault : ∀ t, ¬ fault t → net.WorksAt t)

lemma UnixWorld.clock_close (w : UnixWorld) : w.close.clock = w.clock := by
  unfold UnixWorld.close
  split <;> rfl

include hfault

lemma spends_tryConnectToType (w : UnixWorld) (type : SocketType) :
    Spends fault w.clock (w.tryConnectToType net type).2.clock
      (if (w.tryConnectToType net type).1 then 0 else 1) := by
  unfold UnixWorld.tryConnectToType
  cases hsocket : net.socket w.clock with
  | false =>
      have hnone : (w.openSocket net).fd = none := by simp [UnixWorld.openSocket, hsocket]
      have hbad : fault w.clock := by
        by_contra hnot
        simp [(hfault _ hnot).socket] at hsocket
      simp only [if_pos hnone, Bool.false_eq_true, if_false]
      exact Spends.one hbad
  | true =>
      have hsome : (w.openSocket net).fd = some w.connections.length := by
        simp [UnixWorld.openSocket, hsocket]
      have hopened : Spends fault w.clock (w.clock + 1) 0 := Spends.of_le (Nat.le_succ _)
      simp only [hsome, reduceCtorEq, if_false]
      cases hconnect : net.connect (w.openSocket net).clock with
      | true =>
          simp only [UnixWorld.connect, hconnect, if_true]
          exact hopened.trans (Spends.of_le (Nat.le_succ _))
      | false =>
          have hbad : fault (w.clock + 1) := by
            by_contra hnot
            simp [UnixWorld.openSocket, (hfault _ hnot).connect] at hconnect
          simp only [UnixWorld.connect, hconnect, Bool.false_eq_true, if_false,
            UnixWorld.clock_close]
          exact (hopened.trans (Spends.one hbad)).mono (by omega)

/-- A datagram socket that cannot be had costs a failure, but the attempt only where the stream
cannot be had either. -/
lemma spends_tryConnect_unix (w : UnixWorld) : Spends fault w.clock (w.tryConnect net).2.clock
    (if (w.tryConnect net).1 then 0 else 1) := by
  rw [UnixWorld.tryConnect]
  by_cases hfd : w.fd ≠ none
  · rw [if_pos hfd]
    exact Spends.of_le le_rfl
  · rw [if_neg hfd]
    have hdatagram := spends_tryConnectToType hfault w .dgram
    have hstream := spends_tryConnectToType hfault (w.tryConnectToType net .dgram).2 .stream
    by_cases hconn : (w.tryConnectToType net .dgram).1 = true
    · simp only [if_pos hconn, if_true] at hdatagram ⊢
      exact hdatagram
    · simp only [if_neg hconn] at hdatagram ⊢
      exact (hdatagram.trans hstream).mono (by omega)

/-- A send that does not return `true` has met with a failure. -/
lemma spends_send_unix {ts : List (List UInt8)} (hopen : w.Open ts) {f : Formatted}
    (hf : f.IsText) : Spends fault w.clock (w.send net f.syslogBuffer f.size.toInt).2.clock
      (if (w.send net f.syslogBuffer f.size.toInt).1 then 0 else 1) := by
  obtain ⟨older, type, last, hfd, hconnections, -⟩ := hopen.newest
  obtain ⟨t, ht⟩ := hf.text
  have hlength := hf.fits.length_message
  have hbytes : f.syslogBuffer.take f.size.toInt.toNat = t.1 ++ [0] := ht
  have hput := UnixWorld.put_eq net hfd hconnections (t.1 ++ [0])
  have hclock : (w.put net (t.1 ++ [0])).2.clock = w.clock + 1 := by
    rw [hput]
    split <;> rfl
  rw [UnixWorld.send, hbytes, ← hlength, ht]
  by_cases hfull : (w.put net (t.1 ++ [0])).1 = some (t.1 ++ [0]).length
  · simp only [if_pos hfull, if_true, hclock]
    exact Spends.of_le (Nat.le_succ _)
  · simp only [if_neg hfull, Bool.false_eq_true, if_false, UnixWorld.clock_close, hclock]
    refine Spends.one ?_
    by_contra hnot
    apply hfull
    have hworks := hfault _ hnot
    have haccepts : ∀ n, net.accepts w.clock (UnixConnection.whole type last).type n = some n := by
      intro n
      cases type with
      | dgram => exact if_pos hworks.datagram
      | stream => simp [UnixNetwork.accepts, UnixConnection.whole, hworks.send]
    rw [hput, haccepts]

lemma costs_unixSocket : (unixSocket net).Costs UnixWorld.clock fault (·.fd ≠ none)
    Formatted.IsText UnixWorld.Holds where
  connect := spends_tryConnect_unix hfault
  send := by
    rintro w - f ⟨ts, rfl, hopen | hclosed⟩ hfd hf
    · exact spends_send_unix hfault hopen hf
    · exact absurd hclosed.fd hfd

end Costs

/-- **What arrives at the local daemon.**  In a run without overruns in which every push is
committed before `stop` is first called, with the producers and the thread interleaved in any way
and a network that behaves in any way: when `stop` returns, what the daemon has received, datagram
by datagram or up to the NULs of a stream, are the texts of the messages pushed, in the order of
the pushes, but for some that are missing; for each message missing there are two moments at which
the network did not work; and of the descriptors opened all are closed when the socket is. -/
theorem unix_arrives {capacity traceMessageCapacity : ℕ} {Pid : Type} [DecidableEq Pid]
    [Fintype Pid] (hc : ∃ k, capacity = 2 ^ k) {hostName applicationName processId : Option CString}
    {facility : Int32} {rfc5424 : Bool} {memory : ℕ → UInt8} {d : SyslogTraceDump}
    (hint : traceMessageCapacity + 8192 < 2 ^ 31)
    (hd : construct traceMessageCapacity hostName applicationName processId facility rfc5424
      memory = some d)
    (hnames : (orDash hostName).1.length + (orDash applicationName).1.length +
      (orDash processId).1.length < 8142)
    {net : UnixNetwork} {fault : ℕ → Prop} [DecidablePred fault]
    (hfault : ∀ t, ¬ fault t → net.WorksAt t)
    {x : (DumpSystem capacity Pid × DumpHistory Pid) × (UnixWorld × SyslogTraceDump)}
    (hx : (syslogDump (unixSocket net) UnixWorld.initial d capacity traceMessageCapacity
      Pid).Reachable x) (hreturning : x.1.1.caller = .returning)
    (hyear : rfc5424 = true → ∀ k < x.1.2.ring.tickets, ∀ e ∈ x.1.2.ring.written k,
      utcYear (e.shown traceMessageCapacity).timestamp ≤ 9999) :
    ∃ ms delivered : List TraceMessage, Pushed traceMessageCapacity x.1.2 ms ∧
      delivered.Sublist ms ∧ x.2.1.received = delivered.map (fun m => (d.formatted m).1) ∧
      2 * (ms.length - delivered.length) ≤ Nat.count fault x.2.1.clock ∧
      x.2.1.close.opened = x.2.1.close.closed := by
  have hrfc : d.rfc5424 = rfc5424 := (construct_spec hd).2.2.2.1
  obtain ⟨ms, delivered, hpushed, hdelivered, hholds, hloss⟩ := arrives_of_laws
    (delivery_unixSocket net) (costs_unixSocket hfault) UnixWorld.holds_initial rfl hc
    (roomy_construct hint hd hnames) hx hreturning fun h => hyear (hrfc ▸ h)
  refine ⟨ms, delivered, hpushed, hdelivered, ?_, hloss, hholds.close_descriptors.2⟩
  have hnul : Function.Injective fun t : List UInt8 => t ++ [0] := List.append_left_injective [0]
  apply List.map_injective_iff.mpr hnul
  rw [hholds.received, List.map_map]
  rfl

/-- A daemon without a datagram socket: the first attempt to connect fails. -/
def UnixNetwork.streamOnly : UnixNetwork where
  socket _ := true
  connect t := t ≠ 1
  datagram _ := true
  send _ requested := some (Fin.last requested)

/-- One message to it: one failure is not enough to lose a message. -/
theorem unix_arrives_one :
    ∃ d x, construct 4 none none none 16 true (fun _ => 0) = some d ∧
      (syslogDump (unixSocket .streamOnly) UnixWorld.initial d 2 4 Bool).exec
        ((.construct 4 (fun _ _ => 7) (fun _ => 7) (fun _ => 7), {}), (UnixWorld.initial, d))
          (stopBeforeTest ++ drainOne) = some x ∧ x.1.1.caller = .returning ∧
      ∃ ms delivered : List TraceMessage, Pushed 4 x.1.2 ms ∧ delivered.Sublist ms ∧
        x.2.1.received = delivered.map (fun m => (d.formatted m).1) ∧
        2 * (ms.length - delivered.length) ≤ Nat.count (fun t => t = 1) x.2.1.clock ∧
        x.2.1.close.opened = x.2.1.close.closed := by
  have hexists : ∃ d, construct 4 none none none 16 true (fun _ => 0) = some d :=
    exists_construct (by norm_num)
  obtain ⟨d, hd⟩ := hexists
  obtain ⟨x, hx, hreturning, hyear⟩ := exec_stopBeforeTest
  have hsink : ∃ k, (syslogDump (unixSocket .streamOnly) UnixWorld.initial d 2 4 Bool).exec
      (_, (UnixWorld.initial, d)) (stopBeforeTest ++ drainOne) = some (x, k) :=
    Machine.exists_exec_withHistory hx _
  obtain ⟨k, hrun⟩ := hsink
  have hreach : (syslogDump (unixSocket .streamOnly) UnixWorld.initial d 2 4 Bool).Reachable
      (x, k) := Machine.reachable_of_exec ⟨⟨⟨_, _, _, rfl⟩, rfl⟩, rfl⟩ hrun
  exact ⟨d, (x, k), hd, hrun, hreturning, unix_arrives ⟨1, rfl⟩ (by norm_num) hd (by decide)
    (fun t ht => ⟨rfl, decide_eq_true ht, rfl, fun _ => rfl⟩) hreach hreturning fun _ => hyear⟩

end InfiTracing.Syslog
