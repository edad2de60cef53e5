import StridedArray.Odometer
import StridedArray.View

/-!
# The contents of an array

The items of an array in row-major order. A traversal against an array of
rank 0 visits exactly the items of the array.
-/

namespace StridedArray

namespace Odometer

/-- What a visit gives at each position still ahead, put together in order, with at most `fuel`
steps. -/
def collectWithin {α : Type} (visit : SlotIndices → Outcome (List α)) :
    (fuel : Nat) → Odometer → Outcome (List α)
  | 0, _ => .ok []
  | fuel + 1, o => do
    let (o, moved) ← o.step
    if moved then
      let here ← visit o.slots
      let rest ← collectWithin visit fuel o
      return here ++ rest
    else
      return []

/-- **What a visit gives at each position still ahead**, put together in order. A traversal takes
one step per position and one to its end. -/
def collect {α : Type} (visit : SlotIndices → Outcome (List α)) (o : Odometer) :
    Outcome (List α) :=
  collectWithin visit (o.len + 1) o

end Odometer

namespace View

/-- The traversal of the items of an array. -/
def items (x : View) : Outcome Odometer := do
  let single ← Layout.ofShape [] 1
  Odometer.ofLayouts x.layout single .none

/-- Traps if a list of doubles of the given length cannot be addressed. -/
def checkRoom (length : Nat) : Outcome Unit :=
  if Word.addressLimit ≤ 8 * length then trap .allocation else .ok ()

/-- The values of consecutive slots from `slot` on. -/
def slotRun (x : View) (slot count : Nat) (w : Workspace) : Outcome (List Double) :=
  (List.range count).mapM fun k => do
    let slot ← Word.unsigned (slot + k)
    x.readDouble slot w

/-- **The values of all items in row-major order**, of a complex item the real part. -/
def toList (x : View) (w : Workspace) : Outcome (List Double) := do
  let size ← x.size
  checkRoom size
  let o ← x.items
  o.collect fun slots => do
    let value ← x.readDouble slots.first w
    return [value]

/-- **The values of all slots of all items in row-major order.** -/
def toSlotList (x : View) (w : Workspace) : Outcome (List Double) := do
  let itemSlots := x.layout.itemSlots
  let size ← x.size
  let length ← Word.unsigned (size * itemSlots)
  checkRoom length
  let o ← x.items
  o.collect fun slots => x.slotRun slots.first itemSlots w

end View

end StridedArray
