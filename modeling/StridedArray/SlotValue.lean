import StridedArray.Bytes
import StridedArray.Double
import StridedArray.Outcome

/-!
# Slot values

The **value of a slot** is a truth value or a bit pattern of a format or
range. Every conversion between kinds goes through doubles: `toDouble`
reads a value as a double and `ofDouble` makes a value of a given kind
from one. A value converted to its own kind stays as it is.

Between doubles and `float32` numbers are rounded and widened by the
machine, between `float32` and the two short formats by a library. Two
things are assumed of the library: a short number is widened to the same
number, and a number of `float32` is rounded to the nearest short one, of
two that are equally near to the one with the even pattern. That is what
`FloatKind.decode` and `FloatKind.encode` do for every format. Which
pattern stands for what is not a number is left open by this, and here it
is always `FloatFormat.quietNaN`.

In storage a value takes the bytes of its pattern, the lowest byte first.
-/

namespace StridedArray

/-- **The value of one slot.** -/
inductive SlotValue where
  /-- A truth value. -/
  | bool (value : Bool)
  /-- A floating-point number, given by its bit pattern. -/
  | float (kind : FloatKind) (bits : BitVec kind.width)
  /-- An integer, given by its bit pattern, in two's complement if the range is signed. -/
  | int (kind : IntKind) (bits : BitVec kind.width)
deriving DecidableEq, Repr

/-- The integer that a bit pattern of the range stands for. -/
def IntKind.decode (k : IntKind) (bits : BitVec k.width) : Int :=
  if k.isSigned then bits.toInt else bits.toNat

/-- The bit pattern of an integer of the range. -/
def IntKind.encode (k : IntKind) (i : Int) : BitVec k.width :=
  BitVec.ofInt k.width i

namespace SlotValue

/-- The kind of the value. -/
def kind : SlotValue → SlotKind
  | bool _ => .bool
  | float k _ => .float k
  | int k _ => .int k

/-- The element type with one slot of that kind. -/
def elementType (v : SlotValue) : ElementType :=
  v.kind.elementType

/-! ## Conversion -/

/-- **The value as a double.** Integers too long for a double are rounded. Numbers of the two short
formats are assumed to be widened as they are. -/
def toDouble : SlotValue → Double
  | bool b => if b then .one else .zero
  | float .float64 bits => ⟨bits⟩
  | float k bits => .ofValue (k.decode bits)
  | int k bits => .ofInt (k.decode bits)

/-- **The value of a kind for a double.** The two short formats are reached by way of `float32`,
with a rounding on each step, where the second one is assumed to be to nearest even like the first.
Integers are truncated and brought into their range. -/
def ofDouble (k : SlotKind) (x : Double) : SlotValue :=
  match k with
  | .bool => bool x.isTrue
  | .float .float64 => float .float64 x.bits
  | .float .float32 => float .float32 (FloatKind.encode .float32 x.value)
  | .float k => float k (k.encode (FloatKind.decode .float32 (FloatKind.encode .float32 x.value)))
  | .int k => int k (k.encode (k.ofDouble x))

/-- **The value converted to a kind.** -/
def convert (v : SlotValue) (k : SlotKind) : SlotValue :=
  if v.kind = k then v else ofDouble k v.toDouble

/-- **Whether the value counts as true**: it is not zero. -/
def isTrue : SlotValue → Bool
  | bool b => b
  | v => v.toDouble.isTrue

/-- **Whether two values are equal.** Values of different kinds are not, and floating-point numbers
are compared as numbers. -/
def equals : SlotValue → SlotValue → Bool
  | bool a, bool b => a == b
  | float j a, float k b =>
    j = k && (float j a).toDouble.equals (float k b).toDouble
  | int j a, int k b => j = k && a.toNat == b.toNat
  | _, _ => false

/-! ## Bytes -/

/-- The pattern of the value as a number. -/
def pattern : SlotValue → Nat
  | bool b => b.toNat
  | float _ bits => bits.toNat
  | int _ bits => bits.toNat

/-- The value of a kind with the given pattern. Any pattern but zero is true. -/
def ofPattern : SlotKind → Nat → SlotValue
  | .bool, n => bool (n ≠ 0)
  | .float k, n => float k (BitVec.ofNat k.width n)
  | .int k, n => int k (BitVec.ofNat k.width n)

/-- **The bytes of the value.** -/
def encode (v : SlotValue) : List UInt8 :=
  LittleEndian.encode v.kind.bytes v.pattern

/-- **The value of a kind at the front of some bytes**, of which there have to be enough. -/
def decode (k : SlotKind) (bytes : List UInt8) : Outcome SlotValue :=
  if bytes.length < k.bytes then trap .subscript
  else .ok (ofPattern k (LittleEndian.decode (bytes.take k.bytes)))

/-- **The bytes with the value written over the first of them**, of which there have to be
enough. -/
def writeTo (v : SlotValue) (bytes : List UInt8) : Outcome (List UInt8) :=
  if bytes.length < v.kind.bytes then trap .subscript
  else .ok (v.encode ++ bytes.drop v.kind.bytes)

@[simp] theorem kind_ofPattern (k : SlotKind) (n : Nat) : (ofPattern k n).kind = k := by
  cases k <;> rfl

@[simp] theorem kind_ofDouble (k : SlotKind) (x : Double) : (ofDouble k x).kind = k := by
  rcases k with _ | k | k <;> first | rfl | cases k <;> rfl

@[simp] theorem length_encode (v : SlotValue) : v.encode.length = v.kind.bytes := by
  simp [encode]

end SlotValue

end StridedArray
