import StridedArray.Layout
import StridedArray.Shape.Broadcast

/-!
# Routes

A **route** is what a traversal of a broadcast shape needs to know about
one operand. On every axis it has a stride, which is zero where the
operand is repeated, and a **rewind**, the stride times the extent: what
a full sweep of the axis adds up to and what has to be taken back before
the sweep starts over. A route also names a slot index **past the end**
of everything it visits, which stands for the operand once the traversal
is over.
-/

namespace StridedArray

/-- **How a traversal moves through one operand.** -/
structure Route where
  /-- The operand's extents, padded to the rank of the broadcast shape. -/
  extents : Shape
  /-- The stride of each axis, zero where the operand is repeated. -/
  strides : List Int
  /-- What a full sweep of each axis adds up to. -/
  rewinds : List Int
  /-- The slot of the first item. -/
  start : Nat
  /-- The slot index shown after the end. -/
  pastEnd : Nat
  /-- The number of slots of an item. -/
  itemSlots : Nat
deriving DecidableEq, Repr

namespace Route

/-- **Strides and rewinds axis by axis**, given the operand's padded extents and strides and the
extents of the broadcast shape. An extent that is neither 1 nor that of the broadcast shape is
refused. A singleton axis that is repeated has stride 0. -/
def sweep (axis : Nat) : Shape → List Int → Shape → Outcome (List Int × List Int)
  | n :: extents, native, target :: shape =>
    if n ≠ target ∧ n ≠ 1 then refuse (.extentConflict axis n target)
    else do
      let stride ← if n = 1 ∧ 1 < target then .ok 0 else subscript native.head?
      let rewind ← Word.signed (stride * Word.toSigned target)
      let (strides, rewinds) ← sweep (axis + 1) extents native.tail shape
      return (stride :: strides, rewind :: rewinds)
  | _, _, _ => .ok ([], [])

/-- The greatest of a list of rewinds, 0 for the empty list. -/
def greatest : List Int → Int
  | [] => 0
  | r :: rest => rest.foldl max r

/-- What going along every axis of positive stride to its end adds up to. -/
def span : List Int → Shape → Int → Outcome Int
  | s :: strides, n :: shape, total => do
    let steps ← Word.signed (Word.toSigned n - 1)
    let reach ← Word.signed (s * steps)
    let total ← Word.signed (total + max reach 0)
    span strides shape total
  | _, _, total => .ok total

/-- **The slot index past the end.** On rank 0 it is one item past the start. Otherwise it is the
start plus the greatest rewind, or one item past the furthest slot that positive strides reach,
whichever is greater. -/
def pastEndOf (start itemSlots : Nat) (strides rewinds : List Int) (shape : Shape) :
    Outcome Nat :=
  if shape = [] then Word.unsigned (start + itemSlots)
  else do
    let start := Word.toSigned start
    let reach ← span strides shape 0
    let swept ← Word.signed (start + greatest rewinds)
    let furthest ← Word.signed (start + reach)
    let past ← Word.signed (furthest + Word.toSigned itemSlots)
    return Word.toUnsigned (max swept past)

/-- **The route of an operand** given by its parts through a broadcast shape. An operand of higher
rank is refused. -/
def through (shape : Shape) (strides : List Int) (offset itemSlots : Nat) (target : Shape) :
    Outcome Route :=
  if target.length < shape.length then
    refuse (.negativePadding ((target.length : Int) - shape.length))
  else do
    let padding := target.length - shape.length
    let extents := padLeft padding 1 shape
    let (strides, rewinds) ← sweep 0 extents (padLeft padding 0 strides) target
    let pastEnd ← pastEndOf offset itemSlots strides rewinds target
    return { extents, strides, rewinds, start := offset, pastEnd, itemSlots }

/-- **The route of a layout** through a broadcast shape. -/
def ofLayout (l : Layout) (target : Shape) : Outcome Route :=
  through l.shape l.strides l.offset l.itemSlots target

/-- **The exact slot of the item at a position** of the broadcast shape. -/
def address (r : Route) (p : List Nat) : Int :=
  r.start + Layout.displacement p r.strides

end Route

/-- **A broadcast shape with the routes of its operands**, in order. -/
structure Plan where
  /-- The broadcast shape. -/
  shape : Shape
  /-- One route per operand. -/
  routes : List Route
deriving DecidableEq, Repr

namespace Plan

/-- **The plan of a list of operands.** -/
def ofLayouts (layouts : List Layout) : Outcome Plan := do
  let shape ← Shape.broadcast (layouts.map (·.shape))
  let routes ← layouts.mapM (Route.ofLayout · shape)
  return { shape, routes }

/-- The number of axes. -/
def rank (plan : Plan) : Nat :=
  plan.shape.length

/-- **The number of positions of a traversal**, 1 on rank 0. -/
def size (plan : Plan) : Outcome Nat :=
  plan.shape.size

/-- The route of the operand with the given number, counted from 0. -/
def route? (plan : Plan) (operand : Nat) : Option Route :=
  plan.routes[operand]?

end Plan

end StridedArray
