import InfiTracing.Serialize.Termination

/-!
# `log_call` and `log_return`

The text of one traced call or return, `ctracing_log.pyx`: a prefix that says who called what,
and at the higher trace levels the arguments or the result.  The slot of the ring buffer the
event goes to was recycled, so all its bytes but two are those of earlier messages.

`text_log_eq` says that none of them shows: two slots of one capacity, whatever they held
before, end up with the same text.
-/

namespace InfiTracing.Serialize

open Framework

/-! ## The event -/

/-- What `log_call` and `log_return` read of a frame.  `moduleName` is the module's `__name__`, if
it has one. -/
structure TracedFrame where
  fileName : CString
  funcName : CString
  moduleName : Option CString
  lineNo : Int32
  /-- `co_argcount`, and the flags `CO_VARARGS` and `CO_VARKEYWORDS` -/
  argcount : ℕ
  varargs : Bool
  varkeywords : Bool
  /-- `f_localsplus` -/
  localsplus : ℕ → Pointer

/-- One traced call or return. -/
structure LogEvent where
  traceLevel : ℤ
  tid : Int64
  gid : Int64
  depth : Int64
  frame : TracedFrame

/-- `TRACE_FUNC_NAME`. -/
def traceFuncName : ℤ := 2

/-- The text of `serialize_prefix`'s format.  `%d` reads the low 32 bits of the wider integers it
is given. -/
def prefixText (direction : String) (pid : UInt64) (event : LogEvent) : CString :=
  CString.literal direction ++ CString.literal "," ++ CString.decimal (toInt pid.toNat) ++
    CString.literal ":" ++ CString.decimal (event.tid.toInt % 32768) ++ CString.literal ":" ++
    CString.decimal (event.gid.toInt % 32768) ++ CString.literal ":" ++
    CString.decimal (toInt event.depth.toInt) ++ CString.literal "," ++ event.frame.fileName ++
    CString.literal ":" ++ CString.decimal event.frame.lineNo.toInt ++ CString.literal "," ++
    event.frame.moduleName.getD (CString.literal "<unknown>") ++ CString.literal "," ++
    event.frame.funcName

def serializePrefix (direction : String) (pid : UInt64) (event : LogEvent) : Render Bool :=
  printf (prefixText direction pid event)

/-! ## The two functions -/

section

variable (repr : Pointer → Render Bool)

/-- `trace_message.write(label)` and `fast_repr(ptr, trace_message)`. -/
def writeArg (label : String) (ptr : Pointer) : Render Unit := do
  let _ ← write (CString.literal label)
  let _ ← repr ptr
  return ()

/-- The loop over the positional arguments. -/
def writeArgs : List Pointer → Render Unit
  | [] => return ()
  | ptr :: ptrs => do
      writeArg repr "," ptr
      writeArgs ptrs

/-- The arguments behind the positional ones: a flag of the code object says if there is one. -/
def writeFlagged (flag : Bool) (label : String) (ptr : Pointer) : Render Unit :=
  if flag then writeArg repr label ptr else return ()

/-- The arguments of a call; the one for `**kwargs` stands behind the one for `*args`. -/
def writeArguments (frame : TracedFrame) : Render Unit := do
  writeArgs repr ((List.range frame.argcount).map frame.localsplus)
  writeFlagged repr frame.varargs ",vargs=" (frame.localsplus frame.argcount)
  writeFlagged repr frame.varkeywords ",kwargs="
    (frame.localsplus (frame.argcount + if frame.varargs then 1 else 0))

/-- What `log_call` writes. -/
def callText (pid : UInt64) (event : LogEvent) : Render Unit := do
  if ← serializePrefix ">" pid event then
    if traceFuncName < event.traceLevel then writeArguments repr event.frame else return ()
  else return ()

/-- What `log_return` writes; the result is `NULL` when an exception was raised. -/
def returnText (pid : UInt64) (event : LogEvent) (arg : Pointer) : Render Unit := do
  if ← serializePrefix "<" pid event then
    if traceFuncName < event.traceLevel then
      if arg ≠ 0 then writeArg repr "," arg
      else
        let _ ← write (CString.literal ",")
        let _ ← write (CString.literal "exc")
        return ()
    else return ()
  else return ()

end

/-- `trace_message.set_timestamp()`, given what `gettimeofday` returned. -/
def setTimestamp (now : ℕ × ℕ) : Render Unit := operation fun m => ((), m.setTimestamp now.1 now.2)

variable (py : CPython) (heap : Heap)

/-- `log_call`, between `reserve_push` and `commit_push`. -/
def logCall (fuel : ℕ) (pid : UInt64) (event : LogEvent) (now : ℕ × ℕ) : Render Unit := do
  callText (fastRepr py heap fuel) pid event
  setTimestamp now

/-- `log_return`, between `reserve_push` and `commit_push`. -/
def logReturn (fuel : ℕ) (pid : UInt64) (event : LogEvent) (arg : Pointer) (now : ℕ × ℕ) :
    Render Unit := do
  returnText (fastRepr py heap fuel) pid event arg
  setTimestamp now

/-! ## On two messages -/

/-- From messages that are alike and have less than `n` bytes available, `x` has a result on
both, the same one, and settles them. -/
def SteadyWithin {α : Type} (n : ℤ) (x : Render α) : Prop :=
  ∀ ⦃a b⦄, Alike a b → a.availSize < n → Couples x a b fun _ => Settled a b

section

variable {n : ℤ} {α β : Type}

lemma Steady.steadyWithin {x : Render α} (h : Steady x) : SteadyWithin n x :=
  fun _ _ hab _ => h hab

/-- One program after another; the first one leaves no more space than there was. -/
lemma SteadyWithin.bind {x : Render α} {f : α → Render β} (hx : SteadyWithin n x)
    (hf : ∀ v, SteadyWithin n (f v)) : SteadyWithin n (x >>= f) := by
  intro a b hab hlt
  refine (hx hab hlt).bind fun v a' b' hmid => ?_
  have hspace := hmid.left.availSize_le.2
  exact (hf v hmid.alike (hspace.trans_lt hlt)).mono
    fun _ _ _ hpost => hmid.abreast.settled hpost

lemma SteadyWithin.ite {c : Prop} [Decidable c] {x y : Render α} (hx : SteadyWithin n x)
    (hy : SteadyWithin n y) : SteadyWithin n (if c then x else y) := by
  split
  · exact hx
  · exact hy

variable {repr : Pointer → Render Bool}

lemma writeArg_steady (h : SteadyBelow n repr) (label : String) (ptr : Pointer) :
    SteadyWithin n (writeArg repr label ptr) :=
  .bind (steady_write _).steadyWithin fun _ => .bind (h ptr) fun _ =>
    (steady_pure ()).steadyWithin

lemma writeArgs_steady (h : SteadyBelow n repr) (ptrs : List Pointer) :
    SteadyWithin n (writeArgs repr ptrs) := by
  induction ptrs with
  | nil => exact (steady_pure ()).steadyWithin
  | cons ptr ptrs ih => exact .bind (writeArg_steady h "," ptr) fun _ => ih

lemma writeArguments_steady (h : SteadyBelow n repr) (frame : TracedFrame) :
    SteadyWithin n (writeArguments repr frame) := by
  have hflagged (flag : Bool) (label : String) (ptr : Pointer) :
      SteadyWithin n (writeFlagged repr flag label ptr) :=
    .ite (writeArg_steady h label ptr) (steady_pure ()).steadyWithin
  exact .bind (writeArgs_steady h _) fun _ => .bind (hflagged _ _ _) fun _ => hflagged _ _ _

lemma callText_steady (h : SteadyBelow n repr) (pid : UInt64) (event : LogEvent) :
    SteadyWithin n (callText repr pid event) :=
  .bind (steady_printf _).steadyWithin fun _ => .ite
    (.ite (writeArguments_steady h _) (steady_pure ()).steadyWithin)
    (steady_pure ()).steadyWithin

lemma returnText_steady (h : SteadyBelow n repr) (pid : UInt64) (event : LogEvent)
    (arg : Pointer) : SteadyWithin n (returnText repr pid event arg) := by
  have hexc : Steady (do
      let _ ← write (CString.literal ",")
      let _ ← write (CString.literal "exc")
      return ()) :=
    .bind (steady_write _) fun _ => .bind (steady_write _) fun _ => steady_pure ()
  exact .bind (steady_printf _).steadyWithin fun _ => .ite
    (.ite (.ite (writeArg_steady h "," arg) hexc.steadyWithin) (steady_pure ()).steadyWithin)
    (steady_pure ()).steadyWithin

end

/-! ## No stale byte shows -/

/-- Recycled messages of one capacity are alike, whatever they held before. -/
lemma alike_recycle {a b : TraceMessage} (hcap : b.capacity = a.capacity) :
    Alike a.recycle b.recycle := by
  refine ⟨⟨hcap, hcap, rfl, Nat.zero_le _, rfl⟩, fun _ => ?_⟩
  rw [(TraceMessage.holds_recycle a).text_eq, (TraceMessage.holds_recycle b).text_eq]

/-- Texts that are equal before the timestamps are set are equal after. -/
lemma text_eq_of_steadyWithin {a b : TraceMessage} (hcap : b.capacity = a.capacity) {fuel : ℕ}
    (hfuel : a.capacity < fuel) {x : Render Unit} (hx : SteadyWithin fuel x)
    (now now' : ℕ × ℕ) :
    ∃ a' b', (x >>= fun _ => setTimestamp now) a.recycle = some ((), a') ∧
      (x >>= fun _ => setTimestamp now') b.recycle = some ((), b') ∧ b'.text = a'.text := by
  have hspace : a.recycle.availSize = a.capacity := Int.sub_zero _
  obtain ⟨_, a', b', ha, hb, hpost⟩ := hx (alike_recycle hcap) (by omega)
  refine ⟨a'.setTimestamp now.1 now.2, b'.setTimestamp now'.1 now'.2, ?_, ?_, ?_⟩
  · show (x a.recycle).bind (fun r => some ((), r.2.setTimestamp now.1 now.2)) = _
    rw [ha]
    rfl
  · show (x b.recycle).bind (fun r => some ((), r.2.setTimestamp now'.1 now'.2)) = _
    rw [hb]
    rfl
  · -- no limit is in force at the end, since none was after `recycle`
    refine hpost.alike.text ?_
    rw [hpost.left.limitIndex, hpost.left.capacity]
    rfl

/-- **No stale byte shows.**  Any two slots of one capacity that are recycled and given the
same call, or the same return, end up with the same text. -/
theorem text_log_eq {a b : TraceMessage} (hcap : b.capacity = a.capacity) {fuel : ℕ}
    (hfuel : a.capacity < fuel) (pid : UInt64) (event : LogEvent) (now now' : ℕ × ℕ) :
    (∃ a' b', logCall py heap fuel pid event now a.recycle = some ((), a') ∧
        logCall py heap fuel pid event now' b.recycle = some ((), b') ∧ b'.text = a'.text) ∧
      ∀ arg, ∃ a' b', logReturn py heap fuel pid event arg now a.recycle = some ((), a') ∧
        logReturn py heap fuel pid event arg now' b.recycle = some ((), b') ∧
        b'.text = a'.text :=
  have hrepr := fastRepr_steady py heap fuel
  ⟨text_eq_of_steadyWithin hcap hfuel (callText_steady hrepr pid event) now now',
    fun arg => text_eq_of_steadyWithin hcap hfuel (returnText_steady hrepr pid event arg) now now'⟩

/-- A frame of `f(x)` in module `m`, with one local at address 1. -/
def oneArgument : TracedFrame where
  fileName := CString.literal "m.py"
  funcName := CString.literal "f"
  moduleName := some (CString.literal "m")
  lineNo := 3
  argcount := 1
  varargs := false
  varkeywords := false
  localsplus _ := 1

theorem text_log_eq_staleMessage :
    ∃ a' b', logCall plainCPython selfContaining 41 7 ⟨4, 1, 16, 2, oneArgument⟩ (0, 0)
        (staleMessage 120).recycle = some ((), a') ∧
      logCall plainCPython selfContaining 41 7 ⟨4, 1, 16, 2, oneArgument⟩ (1, 0)
        (staleMessage 60).recycle = some ((), b') ∧ b'.text = a'.text :=
  (@text_log_eq plainCPython selfContaining (staleMessage 120) (staleMessage 60) rfl 41
    (by decide) 7 ⟨4, 1, 16, 2, oneArgument⟩ (0, 0) (1, 0)).1

end InfiTracing.Serialize
