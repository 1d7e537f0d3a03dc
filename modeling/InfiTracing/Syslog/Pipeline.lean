import InfiTracing.Framework.Retry
import InfiTracing.Syslog.FormatMessage
import InfiTracing.TraceDump.Sink

/-!
# From a push to the syslog server

`SyslogTraceDump::process` over a socket of either class, at the end of the pipeline that begins
with the pushes of the producers and goes through the ring buffer, the thread and `stop`.

The loop of `process` is that of `Framework/Retry.lean` with two attempts, so what is known of one
attempt over a socket is enough for a whole run (`Sender.arrives`): its messages arrive in order,
but for some, and each that is missing has met with two moments at which the network did not do
what it was asked.  `syslog_arrives` is the outcome for a `SyslogTCPSocket` and a server that
decodes the connections.
-/

namespace InfiTracing.Syslog

open Framework Framework.OctetCounting SyslogTraceDump

/-! ## The dump over a socket -/

/-- A formatted message that the socket is to send: a text and its NUL. -/
structure Formatted.IsText (f : Formatted) : Prop where
  fits : f.Fits
  text : ∃ t : CString, f.message = t.1 ++ [0]

section Process

variable {W : Type*}

/-- `SyslogTraceDump::process` over any socket: what it does to it, and to the buffer. -/
def deliver (S : Sender W Formatted) (m : TraceMessage) (k : W × SyslogTraceDump) :
    W × SyslogTraceDump :=
  (if 0 < (k.2.formatMessage m).size.toInt then (S.attempts (k.2.formatMessage m) 2 k.1).2
    else k.1, k.2.afterFormat m)

/-- A `SyslogTraceDump` and its socket. -/
def syslogDump (S : Sender W Formatted) (start : W) (d : SyslogTraceDump)
    (capacity traceMessageCapacity : ℕ) (Pid : Type) [DecidableEq Pid] [Fintype Pid] :
    Machine ((DumpSystem capacity Pid × DumpHistory Pid) × (W × SyslogTraceDump))
      (DumpAction Pid) :=
  sunkDump (start, d) (deliver S) .syslogTraceDump capacity traceMessageCapacity Pid

variable {S : Sender W Formatted} {d : SyslogTraceDump} {m : TraceMessage}
  {ms : List TraceMessage} {capacity traceMessageCapacity : ℕ}

/-- A text that is shorter than the buffer is sent whole. -/
lemma isText_formatMessage (h : (d.textLength m : ℤ) < d.syslogBufferSize.toInt) :
    (d.formatMessage m).IsText :=
  ⟨fits_formatMessage h.le, d.formatted m, message_of_lt h⟩

lemma isText_formatAll (h : ∀ m ∈ ms, (d.textLength m : ℤ) < d.syslogBufferSize.toInt) :
    ∀ f ∈ d.formatAll ms, f.IsText := by
  induction ms generalizing d with
  | nil => exact List.forall_mem_nil _
  | cons m ms ih =>
      obtain ⟨hfirst, hrest⟩ := List.forall_mem_cons.mp h
      exact List.forall_mem_cons.mpr ⟨isText_formatMessage hfirst, ih hrest⟩

/-- A run of `process` sends one formatted message after the other. -/
lemma foldl_deliver (h : ∀ m ∈ ms, (d.textLength m : ℤ) < d.syslogBufferSize.toInt) (w : W) :
    (ms.foldl (fun k m => deliver S m k) (w, d)).1 = (S.sendAll 2 w (d.formatAll ms)).2 := by
  induction ms generalizing d w with
  | nil => rfl
  | cons m ms ih =>
      obtain ⟨hfirst, hrest⟩ := List.forall_mem_cons.mp h
      have hpos : 0 < (d.formatMessage m).size.toInt := (isText_formatMessage hfirst).fits.1
      have hstep : deliver S m (w, d) =
          ((S.attempts (d.formatMessage m) 2 w).2, d.afterFormat m) := by
        rw [deliver, if_pos hpos]
      have hih : ∀ w', (ms.foldl (fun k m => deliver S m k) (w', d.afterFormat m)).1 =
          (S.sendAll 2 w' ((d.afterFormat m).formatAll ms)).2 :=
        ih (d := d.afterFormat m) hrest
      rw [List.foldl_cons, hstep, hih]
      rfl

/-- A text is shorter than the buffer, as long as the names leave it the room. -/
lemma textLength_lt (hsize : d.syslogBufferSize.toInt = (traceMessageCapacity + 8192 : ℕ))
    (hnames : d.hostName.1.length + d.applicationName.1.length + d.processId.1.length < 8142)
    (hyear : d.rfc5424 = true → utcYear m.timestamp ≤ 9999)
    (htext : m.text.length ≤ traceMessageCapacity) :
    (d.textLength m : ℤ) < d.syslogBufferSize.toInt := by
  have hpriority : (Framework.decimal (d.priority m).toInt).length ≤ 10 + 1 := by
    have hle := Int32.le_toInt (d.priority m)
    have hlt := Int32.toInt_lt (d.priority m)
    exact Framework.length_decimal_le (by norm_num) (by omega)
  rw [hsize, textLength]
  split_ifs with hrfc
  · have htime := length_isoTime_le (hyear hrfc)
    omega
  · omega

end Process

/-! ## What arrives -/

/-- A dump as its constructor leaves it, whose buffer has room for the names. -/
structure Roomy (d : SyslogTraceDump) (traceMessageCapacity : ℕ) : Prop where
  size : d.syslogBufferSize.toInt = (traceMessageCapacity + 8192 : ℕ)
  names : d.hostName.1.length + d.applicationName.1.length + d.processId.1.length < 8142

lemma roomy_construct {d : SyslogTraceDump} {traceMessageCapacity : ℕ}
    {hostName applicationName processId : Option CString} {facility : Int32} {rfc5424 : Bool}
    {memory : ℕ → UInt8} (hint : traceMessageCapacity + 8192 < 2 ^ 31)
    (hd : construct traceMessageCapacity hostName applicationName processId facility rfc5424
      memory = some d)
    (hnames : (orDash hostName).1.length + (orDash applicationName).1.length +
      (orDash processId).1.length < 8142) : Roomy d traceMessageCapacity := by
  obtain ⟨hhost, happlication, hprocess, -, -, hsize⟩ := construct_spec hd
  refine ⟨?_, by rwa [hhost, happlication, hprocess]⟩
  rw [hsize]
  exact Int32.toInt_ofNat_of_lt hint

section Arrives

variable {W : Type*} {S : Sender W Formatted} {Ready : W → Prop}
  {Inv : W → List Message → Prop} {clock : W → ℕ} {fault : ℕ → Prop} [DecidablePred fault]
  {d : SyslogTraceDump} {capacity traceMessageCapacity : ℕ} {Pid : Type} [DecidableEq Pid]
  [Fintype Pid]

/-- **What arrives over a socket**, from what is known of one attempt over it: of the messages of
the tickets, in order, all but some, and each that is missing takes two moments of failure. -/
theorem arrives_of_laws (hS : S.Delivery Ready Formatted.IsText Formatted.message Inv)
    (hcosts : S.Costs clock fault Ready Formatted.IsText Inv) {start : W} (hstart : Inv start [])
    (hclock : clock start = 0) (hc : ∃ k, capacity = 2 ^ k) (hd : Roomy d traceMessageCapacity)
    {x : (DumpSystem capacity Pid × DumpHistory Pid) × (W × SyslogTraceDump)}
    (hx : (syslogDump S start d capacity traceMessageCapacity Pid).Reachable x)
    (hreturning : x.1.1.caller = .returning)
    (hyear : d.rfc5424 = true → ∀ k < x.1.2.ring.tickets, ∀ e ∈ x.1.2.ring.written k,
      utcYear (e.shown traceMessageCapacity).timestamp ≤ 9999) :
    ∃ ms delivered : List TraceMessage, Pushed traceMessageCapacity x.1.2 ms ∧
      delivered.Sublist ms ∧ Inv x.2.1 (delivered.map fun m => (d.formatted m).1 ++ [0]) ∧
      2 * (ms.length - delivered.length) ≤ Nat.count fault (clock x.2.1) := by
  obtain ⟨ms, hpushed, hsink⟩ := sunkDump_pushed hc (by simp) hx hreturning
  have htexts : ∀ m ∈ ms, m.text.length ≤ traceMessageCapacity :=
    (hpushed.forall_iff (P := fun s => s.text.length ≤ traceMessageCapacity)).mpr
      fun k _ e _ => List.length_take_le _ _
  have hyears : d.rfc5424 = true → ∀ m ∈ ms, utcYear m.timestamp ≤ 9999 := fun h =>
    (hpushed.forall_iff (P := fun s => utcYear s.timestamp ≤ 9999)).mpr (hyear h)
  have hfits : ∀ m ∈ ms, (d.textLength m : ℤ) < d.syslogBufferSize.toInt := fun m hm =>
    textLength_lt hd.size hd.names (fun h => hyears h m hm) (htexts m hm)
  have hworld : x.2.1 = (S.sendAll 2 start (d.formatAll ms)).2 := by
    rw [hsink]
    exact foldl_deliver hfits start
  have hmessages := map_message_formatAll fun m hm => (hfits m hm).le
  have hdelivery := hS.sendAll (isText_formatAll hfits) hstart 2
  have hloss := (hcosts.sendAll hS (isText_formatAll hfits) hstart 2).2
  have hsublist := (S.sendAll_sublist 2 start (d.formatAll ms)).map Formatted.message
  rw [hmessages] at hsublist
  obtain ⟨delivered, hdelivered, heq⟩ := List.sublist_map_iff.mp hsublist
  refine ⟨ms, delivered, hpushed, hdelivered, ?_, ?_⟩
  · have hsent : delivered.map d.sent = delivered.map fun m => (d.formatted m).1 ++ [0] := by
      refine List.map_congr_left fun m hm => ?_
      have hlt := hfits m (hdelivered.subset hm)
      have hlength := length_formatted d m
      rw [sent, List.take_of_length_le (by omega)]
    rw [List.nil_append, heq, hsent, ← hworld] at hdelivery
    exact hdelivery
  · have hcount := congrArg List.length heq
    have hcount' := congrArg List.length hmessages
    simp only [List.length_map] at hcount hcount'
    rw [hcount, hcount', ← hworld, hclock, Nat.count_zero, Nat.zero_add] at hloss
    exact hloss

end Arrives

/-! ## Over TCP -/

/-- A `SyslogTCPSocket`. -/
def tcpSocket (net : Network) : Sender World Formatted where
  tryConnect w := w.tryConnect net
  send w f := w.send net f.syslogBuffer f.size.toInt

/-- A system call made at the time `t` is answered as asked. -/
structure Network.WorksAt (net : Network) (t : ℕ) : Prop where
  socket : net.socket t = true
  connect : net.connect t = true
  send : ∀ requested, net.send t requested = some (Fin.last requested)

section Tcp

variable {fault : ℕ → Prop} [DecidablePred fault] {net : Network} {w : World}

lemma clock_put (w : World) (bytes : List UInt8) : (w.put net bytes).2.clock = w.clock + 1 := by
  unfold World.put
  split <;> rfl

lemma fd_put (w : World) (bytes : List UInt8) : (w.put net bytes).2.fd = w.fd := by
  unfold World.put
  split <;> rfl

/-- On an open socket a working network takes all the bytes. -/
lemma put_of_worksAt (hopen : w.fd ≠ none) (hworks : net.WorksAt w.clock) (bytes : List UInt8) :
    (w.put net bytes).1 = some bytes.length := by
  obtain ⟨connection, hfd⟩ := Option.ne_none_iff_exists'.mp hopen
  simp [World.put, hworks.send, hfd]

/-- After a successful attempt to connect the socket is open. -/
lemma fd_tryConnect (h : (w.tryConnect net).1 = true) : (w.tryConnect net).2.fd ≠ none := by
  have hsame : ((w.openSocket net).connect net).2.fd = (w.openSocket net).fd := by
    unfold World.connect
    split <;> rfl
  unfold World.tryConnect at h ⊢
  by_cases hfd : w.fd ≠ none
  · rwa [if_pos hfd]
  · rw [if_neg hfd] at h ⊢
    by_cases hopened : (w.openSocket net).fd = none
    · simp [hopened] at h
    · by_cases hconnected : ((w.openSocket net).connect net).1 = true
      · simp [hopened, hconnected, hsame]
      · simp [hopened, hconnected] at h

lemma delivery_tcpSocket (net : Network) :
    (tcpSocket net).Delivery (·.fd ≠ none) Formatted.IsText Formatted.message World.WellFramed where
  connect h := (h.tryConnect net).1
  ready _ := fd_tryConnect
  send h hopen hf := h.send net hopen hf.fits

variable (hfault : ∀ t, ¬ fault t → net.WorksAt t)

include hfault

/-- A send that comes back short is made at a moment of failure. -/
lemma spends_put (hopen : w.fd ≠ none) {bytes : List UInt8}
    (hshort : (w.put net bytes).1 ≠ some bytes.length) :
    Spends fault w.clock (w.put net bytes).2.clock 1 := by
  rw [clock_put]
  refine Spends.one ?_
  by_contra hnot
  exact hshort (put_of_worksAt hopen (hfault _ hnot) bytes)

/-- An attempt to connect that fails has met with a failure. -/
lemma spends_tryConnect (w : World) : Spends fault w.clock (w.tryConnect net).2.clock
    (if (w.tryConnect net).1 then 0 else 1) := by
  by_cases hfd : w.fd ≠ none
  · rw [World.tryConnect, if_pos hfd]
    exact Spends.of_le le_rfl
  · rw [World.tryConnect, if_neg hfd]
    cases hsocket : net.socket w.clock with
    | false =>
        have hnone : (w.openSocket net).fd = none := by simp [World.openSocket, hsocket]
        have hbad : fault w.clock := by
          by_contra hnot
          simp [(hfault _ hnot).socket] at hsocket
        simp only [if_pos hnone, Bool.false_eq_true, if_false]
        exact Spends.one hbad
    | true =>
        have hsome : (w.openSocket net).fd = some w.connections.length := by
          simp [World.openSocket, hsocket]
        have hopened : Spends fault w.clock (w.clock + 1) 0 := Spends.of_le (Nat.le_succ _)
        simp only [hsome, reduceCtorEq, if_false]
        cases hconnect : net.connect (w.openSocket net).clock with
        | true =>
            simp only [World.connect, hconnect, if_true]
            exact hopened.trans (Spends.of_le (Nat.le_succ _))
        | false =>
            have hbad : fault (w.clock + 1) := by
              by_contra hnot
              simp [World.openSocket, (hfault _ hnot).connect] at hconnect
            simp only [World.connect, hconnect, Bool.false_eq_true, if_false]
            exact (hopened.trans (Spends.one hbad)).mono (by omega)

/-- A send that does not return `true` has met with a failure. -/
lemma spends_send (hopen : w.fd ≠ none) {f : Formatted} (hf : f.Fits) :
    Spends fault w.clock (w.send net f.syslogBuffer f.size.toInt).2.clock
      (if (w.send net f.syslogBuffer f.size.toInt).1 then 0 else 1) := by
  have hlength : (f.syslogBuffer.take f.size.toInt.toNat).length = f.size.toInt.toNat :=
    hf.length_message
  rw [World.send, if_neg hf.length_sizePrefix]
  set first := w.put net (World.sizePrefix f.size.toInt) with hfirst
  have hclock : first.2.clock = w.clock + 1 := clock_put w _
  by_cases hfull : first.1 = some (World.sizePrefix f.size.toInt).length
  · simp only [if_pos hfull]
    have hfd : first.2.fd ≠ none := by rwa [hfirst, fd_put]
    have hbefore : Spends fault w.clock first.2.clock 0 := Spends.of_le (by omega)
    set second := first.2.put net (f.syslogBuffer.take f.size.toInt.toNat) with hsecond
    have hclock' : second.2.clock = first.2.clock + 1 := clock_put _ _
    by_cases hall : second.1 = some f.size.toInt.toNat
    · simp only [if_pos hall, if_true]
      exact Spends.of_le (by omega)
    · simp only [if_neg hall, Bool.false_eq_true, if_false]
      exact (hbefore.trans (spends_put hfault hfd (by rwa [hlength]))).mono (by omega)
  · simp only [if_neg hfull, Bool.false_eq_true, if_false]
    exact spends_put hfault hopen hfull

lemma costs_tcpSocket :
    (tcpSocket net).Costs World.clock fault (·.fd ≠ none) Formatted.IsText World.WellFramed where
  connect := spends_tryConnect hfault
  send _ hopen hf := spends_send hfault hopen hf.fits

end Tcp

/-- **What arrives at the syslog server.**  In a run without overruns in which every push is
committed before `stop` is first called, with the producers and the thread interleaved in any way
and a network that behaves in any way: when `stop` returns, the connections decode to the texts of
the messages pushed, in the order of the pushes, but for some that are missing; and for each
message missing there are two moments at which the network did not work. -/
theorem syslog_arrives {capacity traceMessageCapacity : ℕ} {Pid : Type} [DecidableEq Pid]
    [Fintype Pid] (hc : ∃ k, capacity = 2 ^ k) {hostName applicationName processId : Option CString}
    {facility : Int32} {rfc5424 : Bool} {memory : ℕ → UInt8} {d : SyslogTraceDump}
    (hint : traceMessageCapacity + 8192 < 2 ^ 31)
    (hd : construct traceMessageCapacity hostName applicationName processId facility rfc5424
      memory = some d)
    (hnames : (orDash hostName).1.length + (orDash applicationName).1.length +
      (orDash processId).1.length < 8142)
    {net : Network} {fault : ℕ → Prop} [DecidablePred fault]
    (hfault : ∀ t, ¬ fault t → net.WorksAt t)
    {x : (DumpSystem capacity Pid × DumpHistory Pid) × (World × SyslogTraceDump)}
    (hx : (syslogDump (tcpSocket net) World.initial d capacity traceMessageCapacity
      Pid).Reachable x)
    (hreturning : x.1.1.caller = .returning)
    (hyear : rfc5424 = true → ∀ k < x.1.2.ring.tickets, ∀ e ∈ x.1.2.ring.written k,
      utcYear (e.shown traceMessageCapacity).timestamp ≤ 9999) :
    ∃ ms delivered : List TraceMessage, Pushed traceMessageCapacity x.1.2 ms ∧
      delivered.Sublist ms ∧
      x.2.1.connections.flatMap decode = delivered.map (fun m => (d.formatted m).1 ++ [0]) ∧
      2 * (ms.length - delivered.length) ≤ Nat.count fault x.2.1.clock := by
  have hrfc : d.rfc5424 = rfc5424 := (construct_spec hd).2.2.2.1
  obtain ⟨ms, delivered, hpushed, hdelivered, hframed, hloss⟩ := arrives_of_laws
    (delivery_tcpSocket net) (costs_tcpSocket hfault) World.wellFramed_initial rfl hc
    (roomy_construct hint hd hnames) hx hreturning fun h => hyear (hrfc ▸ h)
  obtain ⟨mss, hcarry, hflat⟩ := hframed.carry
  exact ⟨ms, delivered, hpushed, hdelivered, (decode_streams hcarry).trans hflat, hloss⟩

/-- A network that always works. -/
def Network.working : Network where
  socket _ := true
  connect _ := true
  send _ requested := some (Fin.last requested)

/-- A run with one message, as far as the dump is concerned. -/
lemma exec_stopBeforeTest : ∃ x, (quietDump .syslogTraceDump 2 4 Bool).exec
      (.construct 4 (fun _ _ => 7) (fun _ => 7) (fun _ => 7), {}) (stopBeforeTest ++ drainOne) =
        some x ∧ x.1.caller = .returning ∧
      ∀ k < x.2.ring.tickets, ∀ e ∈ x.2.ring.written k, utcYear (e.shown 4).timestamp ≤ 9999 := by
  have h : ((quietDump .syslogTraceDump 2 4 Bool).exec
      (.construct 4 (fun _ _ => 7) (fun _ => 7) (fun _ => 7), {})
        (stopBeforeTest ++ drainOne)).any (fun x => decide (x.1.caller = .returning ∧
          ∀ k < x.2.ring.tickets, ∀ e ∈ x.2.ring.written k,
            utcYear (e.shown 4).timestamp ≤ 9999)) = true := by
    decide +kernel
  obtain ⟨x, hx, hx'⟩ := (Option.any_eq_true _ _).mp h
  exact ⟨x, hx, of_decide_eq_true hx'⟩

/-- One message, over a network that always works: none can be missing. -/
theorem syslog_arrives_one :
    ∃ d x, construct 4 none none none 16 true (fun _ => 0) = some d ∧
      (syslogDump (tcpSocket .working) World.initial d 2 4 Bool).exec
        ((.construct 4 (fun _ _ => 7) (fun _ => 7) (fun _ => 7), {}), (World.initial, d))
          (stopBeforeTest ++ drainOne) = some x ∧ x.1.1.caller = .returning ∧
      ∃ ms delivered : List TraceMessage, Pushed 4 x.1.2 ms ∧ delivered.Sublist ms ∧
        x.2.1.connections.flatMap decode = delivered.map (fun m => (d.formatted m).1 ++ [0]) ∧
        2 * (ms.length - delivered.length) ≤ Nat.count (fun _ => False) x.2.1.clock := by
  have hexists : ∃ d, construct 4 none none none 16 true (fun _ => 0) = some d :=
    exists_construct (by norm_num)
  obtain ⟨d, hd⟩ := hexists
  obtain ⟨x, hx, hreturning, hyear⟩ := exec_stopBeforeTest
  have hsink : ∃ k, (syslogDump (tcpSocket .working) World.initial d 2 4 Bool).exec
      (_, (World.initial, d)) (stopBeforeTest ++ drainOne) = some (x, k) :=
    Machine.exists_exec_withHistory hx _
  obtain ⟨k, hrun⟩ := hsink
  have hreach : (syslogDump (tcpSocket .working) World.initial d 2 4 Bool).Reachable (x, k) :=
    Machine.reachable_of_exec ⟨⟨⟨_, _, _, rfl⟩, rfl⟩, rfl⟩ hrun
  exact ⟨d, (x, k), hd, hrun, hreturning, syslog_arrives ⟨1, rfl⟩ (by norm_num) hd (by decide)
    (fun t _ => ⟨rfl, rfl, fun _ => rfl⟩) hreach hreturning fun _ => hyear⟩

end InfiTracing.Syslog
