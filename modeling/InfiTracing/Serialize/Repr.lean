import InfiTracing.Serialize.Objects
import InfiTracing.Framework.Coupling

/-!
# The serializers

`ctracing_log_serialize.pyx`, function by function, as programs over the message they write
to.  The recursion of `fast_repr` through containers is not structural, since a container may
contain itself: the containers take `fast_repr` as a parameter (`repr`), and `fastRepr` ties
the knot with a bound on the depth of the recursion.  A program without a result is one that
ran out of that depth.

A conversion in the source from a length to an `int` is one here (`toInt`): `min` and
`init_trunc_len_str` take their lengths as `int`.
-/

namespace InfiTracing.Serialize

/-- A program that writes to a message. -/
abbrev Render := StateT TraceMessage Option

/-! ## The operations of the message -/

/-- An operation of the message that always has a result. -/
def operation {α : Type} (f : TraceMessage → α × TraceMessage) : Render α := fun m => some (f m)

def write (s : CString) : Render Bool := operation fun m => m.write s

def printf (text : CString) : Render Bool := operation fun m => m.printf text

def availSize : Render ℤ := operation fun m => (m.availSize, m)

def writeOffset : Render ℕ := operation fun m => (m.writeIndex, m)

def limit (size : ℕ) : Render ℕ := operation fun m => m.limit size

def unlimit (i : ℕ) : Render Unit := operation fun m => ((), m.unlimitTo i)

def rewind (offset : ℕ) : Render Unit := operation fun m => ((), m.rewind offset)

/-- `last_limit = output.limit(size)`, and `output.unlimit(last_limit)` in the end. -/
def limited (size : ℕ) (x : Render Bool) : Render Bool := do
  let lastLimit ← limit size
  let result ← x
  unlimit lastLimit
  return result

/-! ## Constants -/

def maxStrLen : ℕ := 64

def maxListElemLen : ℕ := 64

def maxListElems : ℕ := 4

def maxDictElems : ℕ := 4

def maxDictKeyLen : ℕ := 32

def maxDictValLen : ℕ := 64

/-! ## Numbers and strings -/

def intRepr (value : Int64) : Render Bool := printf (CString.decimal value.toInt)

def longRepr (py : CPython) (value : ℤ) : Render Bool := do
  let s := py.longFormat value
  if s.1.length ≤ (← availSize) then write s else return false

def floatRepr (py : CPython) (bits : UInt64) : Render Bool := do
  let s := py.floatFormat bits
  if s.1.length + 1 ≤ (← availSize) then
    let _ ← write s
    let _ ← write (CString.literal "f")
    return true
  else
    return false

/-- `init_trunc_len_str(buffer, buffer_len, len)`: the length it returns and the text it leaves
in the buffer. -/
def initTruncLenStr (bufferLen : ℕ) (len : ℤ) : ℕ × CString :=
  let text := CString.literal "... <len=" ++ CString.decimal (toInt len) ++ CString.literal ">"
  (text.1.length, text.take (bufferLen - 2))

/-- `str_or_unicode_repr`, for the kind of string whose `repr` is given. -/
def strOrUnicodeRepr {χ : Type} (reprOf : List χ → CString) (chars : List χ) : Render Bool := do
  let repr := reprOf (if maxStrLen < chars.length then chars.take maxStrLen else chars)
  let truncated := maxStrLen < chars.length ∨ repr.1.length + 1 > (← availSize)
  let (truncatedLen, truncatedBuffer) :=
    if truncated then initTruncLenStr 64 chars.length else (0, CString.literal "")
  -- `+ 1` is for the NUL of `snprintf`
  if repr.1.length + truncatedLen + 1 > (← availSize) then
    -- `- 2` is for the extra quote and the NUL
    let reprLen := (← availSize) - truncatedLen - 2
    if reprLen > 0 then
      printf (repr.take reprLen.toNat ++ CString.literal "'" ++ truncatedBuffer)
    else
      return false
  else
    printf (repr ++ truncatedBuffer)

/-! ## Containers -/

/-- The variables of a container's loop when it ends: the index of the last item it came to,
the offset from which the marker is sure to fit, and whether an item was cut short. -/
structure LoopEnd where
  i : ℕ
  ofs : ℕ
  truncated : Bool

/-- `ofs_with_spare_for_truncated_len = output.write_offset()`, if the marker still fits. -/
def spareOffset (truncatedLen ofs : ℕ) : Render ℕ := do
  -- `+ 2` is for the closing parenthesis and the NUL
  if (truncatedLen : ℤ) + 2 ≤ (← availSize) then writeOffset else return ofs

/-- `if i > 0: output.write(",")`. -/
def separator (i : ℕ) : Render Bool :=
  if 0 < i then write (CString.literal ",") else return true

/-- The loop `list_or_tuple_repr` and `dict_repr` share, from index `i` on; `part` renders one
item and says whether it was rendered.  After the last item `i` keeps its value. -/
def containerLoop {χ : Type} (part : ℕ → χ → Render Bool) (truncatedLen : ℕ) :
    ℕ → ℕ → List χ → Render LoopEnd
  | i, ofs, [] => return ⟨i - 1, ofs, false⟩
  | i, ofs, item :: items => do
      let ofs ← spareOffset truncatedLen ofs
      if ← part i item then containerLoop part truncatedLen (i + 1) ofs items
      else return ⟨i, ofs, true⟩

/-- One element in `list_or_tuple_repr`; the comma counts against its limit. -/
def listElement (repr : Pointer → Render Bool) (i : ℕ) (item : Pointer) : Render Bool :=
  limited maxListElemLen do
    if ← separator i then repr item else return false

/-- One item in `dict_repr`. -/
def dictItem (repr : Pointer → Render Bool) (i : ℕ) (item : Pointer × Pointer) :
    Render Bool := do
  if ← separator i then
    if ← limited maxDictKeyLen (repr item.1) then
      if ← write (CString.literal ":") then limited maxDictValLen (repr item.2)
      else return false
    else return false
  else return false

/-- What `list_or_tuple_repr` and `dict_repr` share: the brackets around the loop, and the
marker behind a container that was cut short. -/
def container (opening closing : CString) (len : ℕ) (loop : ℕ → Render LoopEnd) :
    Render Bool := do
  let (truncatedLen, truncatedBuffer) := initTruncLenStr 64 len
  -- `+ 3` is for the brackets and the NUL
  if (truncatedLen : ℤ) + 3 > (← availSize) then return false else
    let _ ← write opening
    let ended ← loop truncatedLen
    let closed ← write closing
    if ended.i + 1 < len ∨ ended.truncated ∨ ¬ closed then
      if (← availSize) < truncatedLen then
        -- not enough room for the marker: some items are overwritten
        rewind ended.ofs
        let _ ← printf (closing ++ truncatedBuffer)
        return true
      else
        let _ ← write truncatedBuffer
        return true
    else return true

/-- `min(len, max)`, the number of items that are shown.  It is at most `len`, so `PyDict_Next`
finds an item each time. -/
def shownItems (len max : ℕ) : ℕ := (min (toInt len) max).toNat

def listOrTupleRepr (repr : Pointer → Render Bool) (isList : Bool) (items : List Pointer) :
    Render Bool :=
  container (CString.literal (if isList then "[" else "("))
    (CString.literal (if isList then "]" else ")")) items.length fun truncatedLen =>
      containerLoop (listElement repr) truncatedLen 0 0
        (items.take (shownItems items.length maxListElems))

def dictRepr (repr : Pointer → Render Bool) (items : List (Pointer × Pointer)) : Render Bool :=
  container (CString.literal "\x7b") (CString.literal "\x7d") items.length fun truncatedLen =>
    containerLoop (dictItem repr) truncatedLen 0 0
      (items.take (shownItems items.length maxDictElems))

/-! ## Everything else -/

/-- `obj_repr`. -/
def objRepr (type : PyType) (ptr : Pointer) : Render Bool :=
  printf (CString.literal "<" ++ type.tpName ++ CString.literal " 0x" ++ CString.hex ptr.toNat ++
    CString.literal ">")

def subDictRepr (repr : Pointer → Render Bool) (type : PyType) (ptr : Pointer)
    (items : List (Pointer × Pointer)) : Render Bool := do
  if ← objRepr type ptr then dictRepr repr items else return false

def writeFunctionName (name : Option CString) : Render Bool :=
  write (name.getD (CString.literal "unknown"))

def writeTypeName (type : PyType) : Render Bool :=
  write (if type.heapType then type.htName else type.tpName)

/-- What `function_repr` and `type_repr` share; a name that does not fit becomes `?`. -/
def namedRepr (opening : CString) (writeName : Render Bool) : Render Bool := do
  if (← availSize) < 9 then return false else
    let _ ← write opening
    let prevPos ← writeOffset
    if ← writeName then
      let _ ← write (CString.literal ">")
      return true
    else
      rewind prevPos
      let _ ← write (CString.literal "?>")
      return true

def functionRepr (name : CString) : Render Bool :=
  namedRepr (CString.literal "<func ") (writeFunctionName (some name))

def typeRepr (type : PyType) : Render Bool :=
  namedRepr (CString.literal "<type ") (writeTypeName type)

/-- `if klass != NULL and PyType_Check(klass)`, in `method_repr`. -/
def methodClass (klass : Option PyType) : Render Bool :=
  match klass with
  | none => return true
  | some type => do
      if ← write (CString.literal " cls ") then writeTypeName type else return false

/-- `if self != NULL`, in `method_repr`. -/
def methodSelf (self : Pointer) : Render Bool :=
  if self ≠ 0 then printf (CString.literal " obj 0x" ++ CString.hex self.toNat) else return true

/-- The inside of a method's text; the result is `success`. -/
def methodFields (func : Option CString) (self : Pointer) (klass : Option PyType) :
    Render Bool := do
  if ← writeFunctionName func then
    if ← methodClass klass then
      if ← methodSelf self then write (CString.literal ">") else return false
    else return false
  else return false

def methodRepr (func : Option CString) (self : Pointer) (klass : Option PyType) :
    Render Bool := do
  if (← availSize) < 11 then return false else
    let _ ← write (CString.literal "<meth ")
    let prevPos ← writeOffset
    if ← methodFields func self klass then return true
    else
      rewind prevPos
      let _ ← write (CString.literal "?>")
      return true

/-! ## `fast_repr` -/

variable (py : CPython) (heap : Heap)

/-- The body of `fast_repr`; `repr` is what it calls for the parts of a container. -/
def fastReprBody (repr : Pointer → Render Bool) (ptr : Pointer) : Render Bool :=
  if ptr = 0 then write (CString.literal "<null>") else
    match heap ptr with
    | .int value => intRepr value
    | .long value => longRepr py value
    | .float bits => floatRepr py bits
    | .string bytes => strOrUnicodeRepr py.stringRepr bytes
    | .unicode units => strOrUnicodeRepr py.unicodeRepr units
    | .dict exact type items =>
        if exact then dictRepr repr items else subDictRepr repr type ptr items
    | .list items => listOrTupleRepr repr true items
    | .tuple items => listOrTupleRepr repr false items
    | .pyNone => write (CString.literal "None")
    | .pyTrue => write (CString.literal "True")
    | .pyFalse => write (CString.literal "False")
    | .function name => functionRepr name
    | .method func self klass => methodRepr func self klass
    | .type type => typeRepr type
    | .other type => objRepr type ptr

/-- `fast_repr`, to a depth of less than `fuel` nested calls. -/
def fastRepr : ℕ → Pointer → Render Bool
  | 0, _ => fun _ => none
  | fuel + 1, ptr => fastReprBody py heap (fastRepr fuel) ptr

end InfiTracing.Serialize
