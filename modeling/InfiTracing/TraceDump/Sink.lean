import InfiTracing.TraceDump.Stop

/-!
# A dump and what it writes to

`process` writes the message buffer somewhere: to a stream, or to a socket.  `sunkDump` is a dump
with that sink beside it, which every call of `process` moves on by one message.

Whatever the sink is, it has taken the messages processed, one after the other
(`sunkDump_taken`).  In the quiet runs of a class of dump that drains, these are the messages
pushed, in the order of their tickets, when `stop` returns (`sunkDump_pushed`).
-/

namespace InfiTracing

open Framework

variable {σ : Type*} {kind : DumpKind} {capacity traceMessageCapacity : ℕ} {Pid : Type}
  [DecidableEq Pid]

/-- The sink after action `a`: `deliver` is what `process` does to it. -/
def recordSink (deliver : TraceMessage → σ → σ) (x : DumpSystem capacity Pid × DumpHistory Pid) :
    DumpAction Pid → σ → σ
  | .process _ => deliver x.1.ring.message
  | _ => id

/-- The messages of the tickets, as the producers committed them. -/
def Pushed (traceMessageCapacity : ℕ) (h : DumpHistory Pid) (ms : List TraceMessage) : Prop :=
  ms.map (some ∘ TraceMessage.shown) = (List.range h.ring.tickets).map fun k =>
    (h.ring.written k).map (Draft.shown traceMessageCapacity)

omit [DecidableEq Pid] in
/-- The messages are what the tickets were written with. -/
lemma Pushed.forall_iff {h : DumpHistory Pid} {ms : List TraceMessage}
    (hp : Pushed traceMessageCapacity h ms) {P : Shown → Prop} :
    (∀ m ∈ ms, P m.shown) ↔ ∀ k < h.ring.tickets, ∀ d ∈ h.ring.written k,
      P (d.shown traceMessageCapacity) := by
  have hsome : (∀ m ∈ ms, P m.shown) ↔
      ∀ o ∈ ms.map (some ∘ TraceMessage.shown), ∀ s, o = some s → P s := by
    simp
  rw [hsome, hp]
  simp

/-- The sink has taken these messages, and they are those processed. -/
structure Taken (start : σ) (deliver : TraceMessage → σ → σ) (h : DumpHistory Pid) (sink : σ)
    (ms : List TraceMessage) : Prop where
  processed : ms.map TraceMessage.shown = h.processed
  sink : sink = ms.foldl (fun k m => deliver m k) start

section Taken

variable {start : σ} {deliver : TraceMessage → σ → σ}

lemma Taken.record {h : DumpHistory Pid} {sink : σ} {ms : List TraceMessage}
    (ht : Taken start deliver h sink ms) (s : DumpSystem capacity Pid) (a : DumpAction Pid) :
    ∃ ms', Taken start deliver (h.record s a) (recordSink deliver (s, h) a sink) ms' := by
  cases a with
  | process who =>
      refine ⟨ms ++ [s.ring.message], ?_, ?_⟩
      · rw [List.map_append, ht.processed]
        rfl
      · rw [List.foldl_append, ← ht.sink]
        rfl
  | _ => exact ⟨ms, ht.processed, ht.sink⟩

/-- **The sink takes what is processed**, in every run of the dump. -/
theorem sunkDump_taken {G : DumpSystem capacity Pid × DumpHistory Pid → DumpAction Pid → Prop}
    [∀ x a, Decidable (G x a)] {x : (DumpSystem capacity Pid × DumpHistory Pid) × σ}
    (hx : (((tracedDump kind capacity traceMessageCapacity Pid).restrict G).withHistory start
      (recordSink deliver)).Reachable x) : ∃ ms, Taken start deliver x.1.2 x.2 ms := by
  refine hx.invariant (I := fun x => ∃ ms, Taken start deliver x.1.2 x.2 ms) ?_ ?_
  · rintro ⟨⟨s, h⟩, sink⟩ ⟨⟨-, rfl⟩, rfl⟩
    exact ⟨[], rfl, rfl⟩
  · rintro ⟨⟨s, h⟩, sink⟩ a ⟨⟨s', h'⟩, sink'⟩ - ⟨ms, ht⟩ hstep
    obtain ⟨hstep, rfl⟩ := Machine.withHistory_step_eq_some.mp hstep
    obtain ⟨-, hstep⟩ := Machine.restrict_step_eq_some.mp hstep
    obtain ⟨-, rfl⟩ := Machine.withHistory_step_eq_some.mp hstep
    exact ht.record s a

/-- The quiet runs with their sink. -/
def sunkDump (start : σ) (deliver : TraceMessage → σ → σ) (kind : DumpKind)
    (capacity traceMessageCapacity : ℕ) (Pid : Type) [DecidableEq Pid] [Fintype Pid] :
    Machine ((DumpSystem capacity Pid × DumpHistory Pid) × σ) (DumpAction Pid) :=
  (quietDump kind capacity traceMessageCapacity Pid).withHistory start (recordSink deliver)

/-- **What a sink has taken when `stop` returns.**  In a quiet run of a class of dump that drains,
the messages of all tickets, in order. -/
theorem sunkDump_pushed [Fintype Pid] (hc : ∃ k, capacity = 2 ^ k)
    (hkind : kind ≠ .fileTraceDump false)
    {x : (DumpSystem capacity Pid × DumpHistory Pid) × σ}
    (hx : (sunkDump start deliver kind capacity traceMessageCapacity Pid).Reachable x)
    (hreturning : x.1.1.caller = .returning) :
    ∃ ms, Pushed traceMessageCapacity x.1.2 ms ∧ x.2 = ms.foldl (fun k m => deliver m k) start := by
  obtain ⟨ms, ht⟩ := sunkDump_taken hx
  have hall : AllProcessed traceMessageCapacity x.1 :=
    allProcessed_of_returning hc hkind hx.fst hreturning
  refine ⟨ms, ?_, ht.sink⟩
  rw [Pushed, ← hall, ← ht.processed, List.map_map]

end Taken

end InfiTracing
