/-!
# Element types

The types of the items that an array holds. An item is stored as one or
more **slots**, and every slot of an item has the same **slot kind**: a
truth value, one of four binary floating-point formats, or one of five
integer ranges. The two complex types are the only ones that span two
slots, the real part and then the imaginary part.

`promote` is the type in which two types meet in arithmetic.
-/

namespace StridedArray

/-- The floating-point formats of a slot. -/
inductive FloatKind where
  /-- Eight exponent bits and seven fraction bits. -/
  | bfloat16
  /-- Five exponent bits and ten fraction bits. -/
  | float16
  /-- Eight exponent bits and 23 fraction bits. -/
  | float32
  /-- Eleven exponent bits and 52 fraction bits. -/
  | float64
deriving DecidableEq, Repr

/-- The integer ranges of a slot. -/
inductive IntKind where
  | uint8
  | uint32
  | int8
  | int32
  | int64
deriving DecidableEq, Repr

/-- **What a single slot holds.** -/
inductive SlotKind where
  /-- A truth value. -/
  | bool
  /-- A floating-point number of the given format. -/
  | float (format : FloatKind)
  /-- An integer of the given range. -/
  | int (range : IntKind)
deriving DecidableEq, Repr

/-- **The type of the items of an array.** -/
inductive ElementType where
  | bfloat16
  | float16
  | float32
  | float64
  | bool
  | uint8
  | uint32
  | int8
  | int32
  | int64
  /-- Two slots of format `float32`. -/
  | complex64
  /-- Two slots of format `float64`. -/
  | complex128
deriving DecidableEq, Repr

namespace ElementType

/-- Every element type, in order of declaration. -/
def all : List ElementType :=
  [bfloat16, float16, float32, float64, bool, uint8, uint32, int8, int32, int64, complex64,
    complex128]

/-- The short name, used in messages that say which type is not supported. -/
def shortName : ElementType → String
  | bfloat16 => "bf16"
  | float16 => "f16"
  | float32 => "f32"
  | float64 => "f64"
  | bool => "bool"
  | uint8 => "u8"
  | uint32 => "u32"
  | int8 => "i8"
  | int32 => "i32"
  | int64 => "i64"
  | complex64 => "c64"
  | complex128 => "c128"

/-- The tag, used where a type stands for itself as a value: in the text form and in messages
that compare two types. -/
def tag : ElementType → String
  | bfloat16 => "BF16"
  | float16 => "F16"
  | float32 => "F32"
  | float64 => "F64"
  | bool => "BOOL"
  | uint8 => "U8"
  | uint32 => "U32"
  | int8 => "I8"
  | int32 => "I32"
  | int64 => "I64"
  | complex64 => "C64"
  | complex128 => "C128"

/-- The type whose tag is `s`. -/
def ofTag? (s : String) : Option ElementType :=
  all.find? (·.tag == s)

/-- The type whose short name is `s`. -/
def ofShortName? (s : String) : Option ElementType :=
  all.find? (·.shortName == s)

/-- The kind of every slot of an item. -/
def slotKind : ElementType → SlotKind
  | bfloat16 => .float .bfloat16
  | float16 => .float .float16
  | float32 | complex64 => .float .float32
  | float64 | complex128 => .float .float64
  | bool => .bool
  | uint8 => .int .uint8
  | uint32 => .int .uint32
  | int8 => .int .int8
  | int32 => .int .int32
  | int64 => .int .int64

/-- Whether an item is a complex number. -/
def isComplex : ElementType → Bool
  | complex64 | complex128 => true
  | _ => false

/-- The number of slots of one item. -/
def itemSlots (t : ElementType) : Nat :=
  if t.isComplex then 2 else 1

end ElementType

/-- The number of bits of a number in the format. -/
def FloatKind.width : FloatKind → Nat
  | bfloat16 | float16 => 16
  | float32 => 32
  | float64 => 64

/-- The number of bits of a number in the range. -/
def IntKind.width : IntKind → Nat
  | uint8 | int8 => 8
  | uint32 | int32 => 32
  | int64 => 64

/-- Whether the range reaches below zero. -/
def IntKind.isSigned : IntKind → Bool
  | uint8 | uint32 => false
  | int8 | int32 | int64 => true

/-- The least integer of the range. -/
def IntKind.least : IntKind → Int
  | uint8 | uint32 => 0
  | int8 => -0x80
  | int32 => -0x80000000
  | int64 => -0x8000000000000000

/-- The greatest integer of the range. -/
def IntKind.greatest : IntKind → Int
  | uint8 => 0xFF
  | uint32 => 0xFFFFFFFF
  | int8 => 0x7F
  | int32 => 0x7FFFFFFF
  | int64 => 0x7FFFFFFFFFFFFFFF

namespace SlotKind

/-- The number of bytes of a slot. -/
def bytes : SlotKind → Nat
  | bool => 1
  | float f => f.width / 8
  | int k => k.width / 8

/-- The element type with one slot of this kind. -/
def elementType : SlotKind → ElementType
  | bool => .bool
  | float .bfloat16 => .bfloat16
  | float .float16 => .float16
  | float .float32 => .float32
  | float .float64 => .float64
  | int .uint8 => .uint8
  | int .uint32 => .uint32
  | int .int8 => .int8
  | int .int32 => .int32
  | int .int64 => .int64

/-- The element type of a slot kind has that slot kind. -/
@[simp] theorem slotKind_elementType (k : SlotKind) : k.elementType.slotKind = k := by
  rcases k with _ | f | i <;> first | rfl | cases f <;> rfl | cases i <;> rfl

/-- A slot takes at least one byte. -/
theorem bytes_pos (k : SlotKind) : 0 < k.bytes := by
  rcases k with _ | f | i <;> first | decide | cases f <;> decide | cases i <;> decide

end SlotKind

namespace ElementType

/-- The number of bytes of one slot. -/
def slotBytes (t : ElementType) : Nat :=
  t.slotKind.bytes

/-- Truth values take part in arithmetic as numbers of type `uint8`. -/
def numeric : ElementType → ElementType
  | bool => uint8
  | t => t

/-- The type in which two different numeric types meet: the first of the list below that is one
of the two decides, and with it, for `complex64` and the two short float formats, the other one.
Two unsigned types of different width meet in a signed type. -/
def meet : ElementType → ElementType → ElementType
  | _, complex128 | complex128, _ => complex128
  | complex64, float64 | float64, complex64 => complex128
  | _, complex64 | complex64, _ => complex64
  | _, float64 | float64, _ => float64
  | _, float32 | float32, _ => float32
  | bfloat16, float16 | float16, bfloat16 => float32
  | _, float16 | float16, _ => float16
  | _, bfloat16 | bfloat16, _ => bfloat16
  | _, int64 | int64, _ => int64
  | _, int32 | int32, _ => int32
  | _, int8 | int8, _ => int8
  | _, uint32 | uint32, _ => int64
  | _, uint8 | uint8, _ => int32
  | t, bool => t

/-- **The type of the result of arithmetic** on items of the two types: a type meets itself in
itself, truth values having become numbers first. -/
def promote (s t : ElementType) : ElementType :=
  if s.numeric = t.numeric then s.numeric else meet s.numeric t.numeric

end ElementType

end StridedArray
