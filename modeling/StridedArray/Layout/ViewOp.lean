import StridedArray.Layout

/-!
# View operations

A view shows the items of an array through another layout of the same
storage. There are four ways to get one: `reshape` counts the items of a
contiguous layout anew, `transpose` exchanges two axes, `narrow` keeps a
range of one axis, and `flip` runs through one axis backwards.

Each operation checks its arguments and then assigns two fields of the
layout one after the other. When it is refused nothing has been assigned.
When it traps the fields assigned so far stay: `start` is the operation
up to its first assignment, `finish` the rest of it, and `residue` the
layout left behind in any case.
-/

namespace StridedArray

/-- **An operation that makes a view of a layout.** -/
inductive ViewOp where
  /-- Counts the items anew in the given shape. -/
  | reshape (shape : Shape)
  /-- Exchanges two axes. -/
  | transpose (first second : Nat)
  /-- Keeps `length` coordinates of an axis from `start` on. -/
  | narrow (axis start length : Nat)
  /-- Runs through an axis backwards. -/
  | flip (axis : Nat)
deriving DecidableEq, Repr

/-- A list with two entries exchanged. Both of them have to be there. -/
def exchange {α : Type} (xs : List α) (i j : Nat) : Outcome (List α) := do
  let x ← subscript xs[i]?
  let y ← subscript xs[j]?
  return (xs.set i y).set j x

namespace Layout

/-- The extent of an axis, which has to exist. -/
def extent (l : Layout) (axis : Nat) : Outcome Nat :=
  match l.extent? axis with
  | some n => .ok n
  | none => refuse (.invalidArgument (.noSuchAxis axis l.rank))

/-- The layout with its origin moved by `steps` along an axis. -/
def moveOrigin (l : Layout) (axis : Nat) (steps : Int) : Outcome Layout := do
  let stride ← subscript l.strides[axis]?
  let move ← Word.signed (steps * stride)
  let offset ← Word.signed (Word.toSigned l.offset + move)
  return { l with offset := Word.toUnsigned offset }

/-! ### Reshape -/

/-- Takes over the new shape if the layout is contiguous and the shape has as many positions. -/
def reshapeShape (l : Layout) (shape : Shape) : Outcome Layout := do
  let old ← l.size
  let new ← shape.size
  if old ≠ new then
    refuse (.invalidShape (.sizeChange old new))
  else if ← l.isContiguous then
    return { l with shape }
  else
    refuse (.invalidShape (.notContiguous l.strides))

/-- Gives the layout the row-major strides of its shape. -/
def packStrides (l : Layout) : Outcome Layout := do
  let strides ← rowMajorStrides l.shape l.itemSlots
  return { l with strides }

/-- **The items of a contiguous layout counted anew** in a shape with as many positions. -/
def reshape (l : Layout) (shape : Shape) : Outcome Layout := do
  let l ← l.reshapeShape shape
  l.packStrides

/-! ### Transpose -/

/-- Exchanges the extents of two axes, which have to exist. -/
def exchangeExtents (l : Layout) (i j : Nat) : Outcome Layout := do
  if l.rank ≤ i ∨ l.rank ≤ j then
    refuse (.invalidArgument (.noSuchAxes i j l.rank))
  else
    let shape ← exchange l.shape i j
    return { l with shape }

/-- Exchanges the strides of two axes. -/
def exchangeStrides (l : Layout) (i j : Nat) : Outcome Layout := do
  let strides ← exchange l.strides i j
  return { l with strides }

/-- **Two axes exchanged.** -/
def transpose (l : Layout) (i j : Nat) : Outcome Layout := do
  let l ← l.exchangeExtents i j
  l.exchangeStrides i j

/-! ### Narrow -/

/-- Moves the origin to the start of a range of an axis, which has to lie within the axis. -/
def moveToRange (l : Layout) (axis start length : Nat) : Outcome Layout := do
  let n ← l.extent axis
  let stop ← Word.unsigned (start + length)
  if n < stop then
    refuse (.outOfBounds stop n)
  else
    l.moveOrigin axis (Word.toSigned start)

/-- Gives an axis another extent. -/
def setExtent (l : Layout) (axis length : Nat) : Layout :=
  { l with shape := l.shape.set axis length }

/-- **A range of an axis kept**: the coordinates from `start` on, `length` of them. -/
def narrow (l : Layout) (axis start length : Nat) : Outcome Layout := do
  let l ← l.moveToRange axis start length
  return l.setExtent axis length

/-! ### Flip -/

/-- Moves the origin to the end of an axis, which has to exist. An empty axis has no end. -/
def moveToEnd (l : Layout) (axis : Nat) : Outcome Layout := do
  let n ← l.extent axis
  if 0 < n then
    let steps ← Word.signed (Word.toSigned n - 1)
    l.moveOrigin axis steps
  else
    return l

/-- Negates the stride of an axis. -/
def negateStride (l : Layout) (axis : Nat) : Outcome Layout := do
  let stride ← subscript l.strides[axis]?
  let negated ← Word.signed (-stride)
  return { l with strides := l.strides.set axis negated }

/-- **An axis run through backwards.** -/
def flip (l : Layout) (axis : Nat) : Outcome Layout := do
  let l ← l.moveToEnd axis
  l.negateStride axis

end Layout

namespace ViewOp

/-- The operation up to its first assignment. -/
def start : ViewOp → Layout → Outcome Layout
  | reshape shape, l => l.reshapeShape shape
  | transpose i j, l => l.exchangeExtents i j
  | narrow axis start length, l => l.moveToRange axis start length
  | flip axis, l => l.moveToEnd axis

/-- The operation from its first assignment on. -/
def finish : ViewOp → Layout → Outcome Layout
  | reshape _, l => l.packStrides
  | transpose i j, l => l.exchangeStrides i j
  | narrow axis _ length, l => .ok (l.setExtent axis length)
  | flip axis, l => l.negateStride axis

/-- **The view** that the operation makes. -/
def apply (op : ViewOp) (l : Layout) : Outcome Layout := do
  let l ← op.start l
  op.finish l

/-- **The layout left behind** by the operation, whether it succeeds or not. -/
def residue (op : ViewOp) (l : Layout) : Layout :=
  match op.start l with
  | .error _ => l
  | .ok started =>
    match op.finish started with
    | .error _ => started
    | .ok done => done

@[simp] theorem apply_reshape (shape : Shape) (l : Layout) :
    (reshape shape).apply l = l.reshape shape := rfl

@[simp] theorem apply_transpose (i j : Nat) (l : Layout) :
    (transpose i j).apply l = l.transpose i j := rfl

@[simp] theorem apply_narrow (axis start length : Nat) (l : Layout) :
    (narrow axis start length).apply l = l.narrow axis start length := rfl

@[simp] theorem apply_flip (axis : Nat) (l : Layout) : (flip axis).apply l = l.flip axis := rfl

/-- The operations applied one after the other, up to the first that fails. -/
def applyAll (ops : List ViewOp) (l : Layout) : Outcome Layout :=
  ops.foldlM (fun l op => op.apply l) l

end ViewOp

end StridedArray
