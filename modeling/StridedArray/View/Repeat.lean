import StridedArray.Odometer
import StridedArray.View.Create

/-!
# Repeating an array

An array is repeated to a larger shape in one of two ways. `repeatTo`
copies the items to a new array. `stretch` gives a view whose strides are
zero along the repeated axes, so that equal items share their slots.
-/

namespace StridedArray.View

/-- Copies consecutive slots of one storage to those of another. -/
def copyRun (x result : View) (source goal : Nat) : (done left : Nat) → Action Unit
  | _, 0 => return ()
  | done, left + 1 => do
    let slot ← Word.unsigned (goal + done)
    let origin ← Word.unsigned (source + done)
    let v ← Action.reading (x.readSlot origin)
    result.writeSlot slot v
    copyRun x result source goal (done + 1) left

/-- Copies the first operand to the second at every position still ahead, with at most `fuel`
steps. -/
def copyWithin (x result : View) (itemSlots : Nat) : (fuel : Nat) → Odometer → Action Unit
  | 0, _ => return ()
  | fuel + 1, o => do
    let (o, moved) ← o.step
    if moved then
      let slots := o.slots
      copyRun x result slots.first slots.second 0 itemSlots
      copyWithin x result itemSlots fuel o
    else
      return ()

/-- The shape of the array repeated to a target, which has to be the broadcast of both shapes
already. A target of lower rank gets singleton axes, the target of rank 0 excepted. -/
def repeatedShape (x : View) (target : Shape) : Outcome Shape := do
  let size ← x.size
  let refusal : ArrayError := .invalidShape (.notBroadcastable x.shape target)
  match Shape.alignTo x.shape size target with
  | none => refuse refusal
  | some (_, goal) =>
    if goal = [] ∨ (Shape.broadcast [x.shape, goal]).yields goal then return goal
    else refuse refusal

/-- **A copy of the array repeated to a shape.** -/
def repeatTo (x : View) (target : Shape) : Action View := do
  let goal ← x.repeatedShape target
  let w ← get
  let result ← zerosOfType goal (x.elementType w)
  let itemSlots := x.layout.itemSlots
  if goal = [] then
    copyRun x result x.layout.offset 0 0 itemSlots
  else
    let o ← Odometer.ofLayouts x.layout result.layout .none
    copyWithin x result itemSlots (o.len + 1) o
  return result

/-- A copy of the array repeated to the shape of another. -/
def repeatLike (x y : View) : Action View :=
  x.repeatTo y.shape

/-- A copy of the array repeated along new axes in front of its own. -/
def repeatLeft (x : View) (batch : Shape) : Action View :=
  x.repeatTo (batch ++ x.shape)

/-- **A view of the array repeated to a shape.** -/
def stretch (x : View) (target : Shape) : Outcome View := do
  let route ← Route.ofLayout x.layout target
  let layout ← Layout.ofStrides target route.strides x.layout.offset x.layout.itemSlots
  return { x with layout }

end StridedArray.View
