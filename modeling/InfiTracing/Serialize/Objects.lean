import InfiTracing.TraceMessage.Format

/-!
# Python objects

What the serializers of `ctracing_log_serialize.pyx` read: a graph of Python objects in which
an object refers to others by their addresses, so that a container may well contain itself.

The texts that CPython's own functions make are a parameter (`CPython`).
-/

namespace InfiTracing

open Framework

/-- The conversion of a wider integer to a C `int`. -/
def toInt (n : ℤ) : ℤ := n.bmod (2 ^ 32)

/-! ## Objects -/

namespace Serialize

/-- The address of an object; 0 is `NULL`. -/
abbrev Pointer := UInt64

/-- What is read of a type: its names, and whether the type lives on the heap. -/
structure PyType where
  heapType : Bool
  htName : CString
  tpName : CString

/-- A Python object, as far as `fast_repr` tells them apart. -/
inductive PyObject where
  | int (value : Int64)
  | long (value : ℤ)
  | float (bits : UInt64)
  | string (bytes : List UInt8)
  | unicode (units : List UInt32)
  | dict (exact : Bool) (type : PyType) (items : List (Pointer × Pointer))
  | list (items : List Pointer)
  | tuple (items : List Pointer)
  | pyNone
  | pyTrue
  | pyFalse
  /-- `func_name` -/
  | function (name : CString)
  /-- `im_func`'s name if there is one, `im_self`, and `im_class` if it is a type -/
  | method (func : Option CString) (self : Pointer) (klass : Option PyType)
  | type (type : PyType)
  /-- anything else, an instance of `type` -/
  | other (type : PyType)

/-- The objects at their addresses. -/
abbrev Heap := Pointer → PyObject

/-- The texts CPython makes. -/
structure CPython where
  /-- `PyString_Repr(.., 0)` -/
  stringRepr : List UInt8 → CString
  /-- `PyObject_Repr` of a `unicode` -/
  unicodeRepr : List UInt32 → CString
  /-- `_PyLong_Format(.., 10, 0, 0)` -/
  longFormat : ℤ → CString
  /-- `_PyFloat_FormatAdvanced(.., "g", 1)` -/
  floatFormat : UInt64 → CString

end Serialize

end InfiTracing
