import StridedArray.Odometer
import StridedArray.View

/-!
# Traversals with values

A **traversal** moves an odometer over two operands and reads their
values. A value once read is kept, with the slot it was read from, and
read again only when the slot index has moved. So an operand repeated
along the fastest axes is read once for a whole sweep of them. What the
slot holds may have changed in the meantime; the kept value does not.

A read may fail. The odometer has moved then, but the kept value still
belongs to the slot it was read from. `restart` forgets the slots, so that
both values are read afresh, but not the values themselves.

`Cursor` is the traversal with the reading of slots left open: what it
reads from is a parameter. Every step says which slots it has tried to
read. `Traversal` reads from the views of a workspace and stores to an
output.
-/

namespace StridedArray

/-- **The last value read from an operand.** -/
structure Kept where
  /-- The value, zero before the first read. -/
  value : Double
  /-- The slot that the value was read from. -/
  slot : Option Nat
deriving DecidableEq, Repr

namespace Kept

/-- Nothing has been read. -/
def nothing : Kept where
  value := .zero
  slot := none

/-- The value without its slot. -/
def forget (k : Kept) : Kept :=
  { k with slot := none }

/-- The slot to be read before the value of a slot is at hand, if any. -/
def pending (k : Kept) (slot : Nat) : Option Nat :=
  if k.slot = some slot then none else some slot

/-- **The value of a slot at hand.** -/
def refresh (k : Kept) (read : Nat → Outcome Double) (slot : Nat) : Outcome Kept :=
  if k.slot = some slot then .ok k
  else do
    let value ← read slot
    return { value, slot := some slot }

end Kept

/-- **An odometer with the values of its operands.** -/
structure Cursor where
  /-- The odometer. -/
  odometer : Odometer
  /-- The value of the first operand. -/
  first : Kept
  /-- The value of the second operand. -/
  second : Kept
deriving DecidableEq, Repr

/-- **What a step of a cursor comes to.** -/
structure Cursor.Step where
  /-- The cursor after the step, also after a failed one. -/
  cursor : Cursor
  /-- Whether there is a position to be at, unless the step failed. -/
  outcome : Outcome Bool
  /-- The slot of the first operand that was read or could not be read. -/
  firstRead : Option Nat
  /-- The slot of the second operand that was read or could not be read. -/
  secondRead : Option Nat

namespace Cursor

/-- The cursor of an odometer, with nothing read. -/
def ofOdometer (odometer : Odometer) : Cursor where
  odometer
  first := .nothing
  second := .nothing

/-- **The values at the position** of the odometer, the first operand being read first. -/
def load (c : Cursor) (readFirst readSecond : Nat → Outcome Double) : Step :=
  let i := c.odometer.first.slot
  let j := c.odometer.second.slot
  match c.first.refresh readFirst i with
  | .error e =>
    { cursor := c, outcome := .error e, firstRead := c.first.pending i, secondRead := none }
  | .ok first =>
    let c' := { c with first }
    match c.second.refresh readSecond j with
    | .error e =>
      { cursor := c', outcome := .error e
        firstRead := c.first.pending i, secondRead := c.second.pending j }
    | .ok second =>
      { cursor := { c' with second }, outcome := .ok true
        firstRead := c.first.pending i, secondRead := c.second.pending j }

/-- **One step**, after which the values at the new position are at hand. -/
def step (c : Cursor) (readFirst readSecond : Nat → Outcome Double) : Step :=
  match c.odometer.step with
  | .error e => { cursor := c, outcome := .error e, firstRead := none, secondRead := none }
  | .ok (odometer, moved) =>
    let c := { c with odometer }
    if moved then c.load readFirst readSecond
    else { cursor := c, outcome := .ok false, firstRead := none, secondRead := none }

/-- **The cursor before the first position again.** -/
def restart (c : Cursor) : Cursor where
  odometer := c.odometer.restart
  first := c.first.forget
  second := c.second.forget

end Cursor

namespace Target

/-- **Where an output goes**: an output that is the first operand, or else the second, follows
it. -/
def ofView (a b : View) : Option View → Target
  | Option.none => none
  | some out => if out = a then first else if out = b then second else own out.layout

end Target

/-- **A traversal of two views and an output.** -/
structure Traversal where
  /-- Position and values. -/
  cursor : Cursor
  /-- The first operand. -/
  first : View
  /-- The second operand. -/
  second : View
  /-- The output. -/
  output : Option View
deriving DecidableEq, Repr

namespace Traversal

/-- **The traversal of two views** and perhaps an output, which may be one of them. -/
def ofViews (a b : View) (output : Option View) : Outcome Traversal := do
  let odometer ← Odometer.ofLayouts a.layout b.layout (.ofView a b output)
  return { cursor := .ofOdometer odometer, first := a, second := b, output }

/-- **What a step comes to** in a workspace. -/
def step (t : Traversal) (w : Workspace) : Cursor.Step :=
  t.cursor.step (t.first.readDouble · w) (t.second.readDouble · w)

/-- The traversal after a step, also after a failed one. -/
def after (t : Traversal) (taken : Cursor.Step) : Traversal :=
  { t with cursor := taken.cursor }

/-- The traversal before the first position again. -/
def restart (t : Traversal) : Traversal :=
  { t with cursor := t.cursor.restart }

/-- **Stores to the output** at the current slot index of the output. -/
def store (t : Traversal) (value : Double) : Action Unit :=
  match t.output, t.cursor.odometer.slots.output with
  | some out, some slot => out.writeDouble slot value
  | _, _ => Action.ofOutcome (refuse (.invalidArgument .noOutput))

/-- The value of the first operand. -/
def firstValue (t : Traversal) : Double :=
  t.cursor.first.value

/-- The value of the second operand. -/
def secondValue (t : Traversal) : Double :=
  t.cursor.second.value

/-- Steps to the end and stores the result of an operation at every position, with at most `fuel`
steps. -/
def fillWithin (op : Double → Double → Double) : (fuel : Nat) → Traversal → Action Unit
  | 0, _ => return ()
  | fuel + 1, t => do
    let taken := t.step (← get)
    let t := t.after taken
    if ← taken.outcome then
      t.store (op t.firstValue t.secondValue)
      fillWithin op fuel t
    else
      return ()

/-- **Stores the result of an operation at every position** still ahead. A traversal takes one step
per position and one to its end. -/
def fill (op : Double → Double → Double) (t : Traversal) : Action Unit :=
  fillWithin op (t.cursor.odometer.len + 1) t

end Traversal

end StridedArray
