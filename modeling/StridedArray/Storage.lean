import StridedArray.SlotValue
import StridedArray.Word

/-!
# Storages

A **storage** is a sequence of slots of one kind, kept as bytes. Slots
are read and written by index. The index is checked first, and a value to
be written has to be of the kind of the slots. Nothing else can go wrong
with a slot, and a write that is refused leaves the storage as it is.
-/

namespace StridedArray

/-- **A sequence of slots.** -/
structure Storage where
  /-- The type of the items that the slots belong to. -/
  type : ElementType
  /-- The bytes of the slots, one slot after the other. -/
  bytes : List UInt8
deriving DecidableEq, Repr

namespace Storage

/-- The storage without slots. -/
def empty : Storage where
  type := .float64
  bytes := []

instance : Inhabited Storage :=
  ⟨empty⟩

/-- **The number of slots.** -/
def len (s : Storage) : Nat :=
  s.bytes.length / s.type.slotBytes

/-- Whether there are no slots. -/
def isEmpty (s : Storage) : Bool :=
  s.len = 0

/-- **A storage of zeros.** It is refused if the number of bytes is out of range, and traps if that
many bytes cannot be addressed. -/
def zeros (type : ElementType) (size : Nat) : Outcome Storage :=
  let bytes := size * type.slotBytes
  if ¬Word.IsUnsigned bytes then refuse (.invalidArgument .storageSize)
  else if Word.addressLimit ≤ bytes then trap .allocation
  else .ok { type, bytes := List.replicate bytes 0 }

/-- Refuses an index without a slot. -/
def checkSlot (s : Storage) (index : Nat) : Outcome Unit :=
  if s.len ≤ index then refuse (.outOfBounds index s.len) else .ok ()

/-- **The value of a slot.** -/
def get (s : Storage) (index : Nat) : Outcome SlotValue := do
  s.checkSlot index
  SlotValue.decode s.type.slotKind
    ((s.bytes.drop (index * s.type.slotBytes)).take s.type.slotBytes)

/-- The storage with the bytes of one slot replaced. -/
def replace (s : Storage) (index : Nat) (bytes : List UInt8) : Storage :=
  { s with
    bytes := s.bytes.take (index * s.type.slotBytes) ++ bytes
      ++ s.bytes.drop ((index + 1) * s.type.slotBytes) }

/-- **The storage with a slot written.** -/
def set (s : Storage) (index : Nat) (v : SlotValue) : Outcome Storage := do
  s.checkSlot index
  if v.kind ≠ s.type.slotKind then
    refuse (.typeMismatch s.type.slotKind.elementType v.elementType)
  else
    return s.replace index v.encode

/-- **The value of a slot as a double.** -/
def readDouble (s : Storage) (index : Nat) : Outcome Double := do
  let v ← s.get index
  return v.toDouble

/-- **The storage with a slot written from a double.** -/
def writeDouble (s : Storage) (index : Nat) (x : Double) : Outcome Storage :=
  s.set index (.ofDouble s.type.slotKind x)

/-- The slots from an index on written from doubles. -/
def writeAllFrom (s : Storage) (index : Nat) : List Double → Outcome Storage
  | [] => .ok s
  | x :: rest => do
    let s ← s.writeDouble index x
    s.writeAllFrom (index + 1) rest

/-- **The storage with the given values**, one slot for each. -/
def ofValues (type : ElementType) (values : List Double) : Outcome Storage := do
  let s ← zeros type values.length
  s.writeAllFrom 0 values

/-- The values of all slots in order. -/
def toList (s : Storage) : Outcome (List SlotValue) :=
  (List.range s.len).mapM s.get

end Storage

end StridedArray
