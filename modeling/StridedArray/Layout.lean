import StridedArray.Shape

/-!
# Layouts

A **layout** says where the items of an array lie in its storage. The
item at position `p` starts at slot `offset + Σ p_d * stride_d` and takes
`itemSlots` slots from there on. Offset and strides count slots, and
strides may be zero or negative.

`Layout.address` is that sum as an exact integer. `Layout.slotAt` is the
same in machine words, after a check of the position. `Layout.ofStrides`
refuses a layout that reaches below the first slot; how far a layout
reaches up is `Layout.slotsNeeded`, to be compared with a storage.
-/

namespace StridedArray

/-- **Where the items of an array lie in its storage.** -/
structure Layout where
  /-- The extents of the axes. -/
  shape : Shape
  /-- For each axis the distance in slots between neighbours. -/
  strides : List Int
  /-- The slot at which the item at the origin starts. -/
  offset : Nat
  /-- The number of slots of an item. -/
  itemSlots : Nat
deriving DecidableEq, Repr

namespace Layout

/-! ## Row-major strides -/

/-- The distance in slots between neighbours on an axis in row-major order, given the slots of an
item and the extents of the faster axes, multiplied up from the fastest. -/
def pitch (inner : Int) : Shape → Outcome Int
  | [] => .ok inner
  | n :: faster => do
    let step ← pitch inner faster
    Word.signed (step * Word.toSigned n)

/-- The strides of a row-major layout without gaps, the innermost one being `inner`. -/
def packedStrides (inner : Int) : Shape → Outcome (List Int)
  | [] => .ok []
  | _ :: faster => do
    let rest ← packedStrides inner faster
    let step ← pitch inner faster
    return step :: rest

/-- **The row-major strides** of a shape. An item without slots counts as one with one slot. -/
def rowMajorStrides (shape : Shape) (itemSlots : Nat) : Outcome (List Int) :=
  packedStrides (Word.toSigned (max itemSlots 1)) shape

/-- **The row-major layout** of a shape, starting at slot 0. -/
def ofShape (shape : Shape) (itemSlots : Nat) : Outcome Layout := do
  let strides ← rowMajorStrides shape itemSlots
  return { shape, strides, offset := 0, itemSlots := max itemSlots 1 }

/-! ## Layouts from strides -/

/-- The lowest slot reached from `slot` on by going along the axes of negative stride to their
ends. -/
def lowest : Shape → List Int → Int → Outcome Int
  | n :: shape, s :: strides, slot => do
    let steps ← Word.signed (Word.toSigned n - 1)
    let reach ← Word.signed (s * steps)
    let slot ← Word.signed (slot + min reach 0)
    lowest shape strides slot
  | _, _, slot => .ok slot

/-- **A layout with given strides.** It is refused if there is not one stride per axis, if an item
has no slot, or if the layout is not empty and reaches below the first slot. -/
def ofStrides (shape : Shape) (strides : List Int) (offset itemSlots : Nat) : Outcome Layout := do
  if shape.length ≠ strides.length then
    refuse (.invalidShape (.strideCount shape strides))
  else if itemSlots = 0 then
    refuse (.invalidArgument .emptyItem)
  else if shape.all (0 < ·) then
    let low ← lowest shape strides (Word.toSigned offset)
    if low < 0 then
      refuse (.invalidShape (.belowStorage strides offset low))
    else
      return { shape, strides, offset, itemSlots }
  else
    return { shape, strides, offset, itemSlots }

/-! ## Measures -/

/-- The number of axes. -/
def rank (l : Layout) : Nat :=
  l.shape.length

/-- The number of items. -/
def size (l : Layout) : Outcome Nat :=
  l.shape.size

/-- The extent of an axis, if there is such an axis. -/
def extent? (l : Layout) (axis : Nat) : Option Nat :=
  l.shape[axis]?

/-- **Whether the strides are row-major without gaps.** The offset does not matter. -/
def isContiguous (l : Layout) : Outcome Bool := do
  let strides ← rowMajorStrides l.shape l.itemSlots
  return l.strides = strides

/-- The sum of the products of coordinates and strides. -/
def displacement : List Nat → List Int → Int
  | c :: p, s :: strides => c * s + displacement p strides
  | _, _ => 0

/-- **The exact slot at which the item at a position starts.** -/
def address (l : Layout) (p : List Nat) : Int :=
  l.offset + displacement p l.strides

/-- The slot reached from `slot` on by going to the position, axis by axis. A coordinate that is not
below its extent is refused. -/
def locate : List Nat → Shape → List Int → Int → Outcome Int
  | c :: p, n :: shape, s :: strides, slot =>
    if n ≤ c then refuse (.outOfBounds c n)
    else do
      let step ← Word.signed (Word.toSigned c * s)
      let slot ← Word.signed (slot + step)
      locate p shape strides slot
  | _, _, _, slot => .ok slot

/-- **The slot at which the item at a position starts.** -/
def slotAt (l : Layout) (p : List Nat) : Outcome Nat := do
  if p.length ≠ l.rank then
    refuse (.invalidArgument (.positionRank p l.rank))
  else
    let slot ← locate p l.shape l.strides (Word.toSigned l.offset)
    return Word.toUnsigned slot

/-- The highest slot reached from `slot` on by going along the axes of positive stride to their
ends. -/
def highest : Shape → List Int → Int → Outcome Int
  | n :: shape, s :: strides, slot =>
    if 0 < s then do
      let steps ← Word.signed (Word.toSigned n - 1)
      let reach ← Word.signed (steps * s)
      let slot ← Word.signed (slot + reach)
      highest shape strides slot
    else highest shape strides slot
  | _, _, slot => .ok slot

/-- **The number of slots that a storage needs for the layout.** An empty layout needs the slots
below its offset. -/
def slotsNeeded (l : Layout) : Outcome Nat := do
  let size ← l.size
  if size = 0 then
    return l.offset
  else
    let last ← highest l.shape l.strides (Word.toSigned l.offset)
    Word.unsigned (Word.toUnsigned last + l.itemSlots)

@[simp] theorem displacement_nil_left (strides : List Int) : displacement [] strides = 0 := rfl

@[simp] theorem displacement_nil_right (p : List Nat) : displacement p [] = 0 := by
  cases p <;> rfl

@[simp] theorem displacement_cons (c : Nat) (p : List Nat) (s : Int) (strides : List Int) :
    displacement (c :: p) (s :: strides) = c * s + displacement p strides := rfl

end Layout

end StridedArray
