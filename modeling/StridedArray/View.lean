import StridedArray.Layout.ViewOp
import StridedArray.Workspace

/-!
# Views

A **view** is an array as its user knows it: a storage of the workspace
seen through a layout. Copying a view does not copy the storage. The view
operations give another view of the same storage.

Two views are the **same** array if they have the same storage and equal
layouts, which is equality of views.
-/

namespace StridedArray

/-- **A storage seen through a layout.** -/
structure View where
  /-- The number of the storage. -/
  storage : Nat
  /-- Where the items lie. -/
  layout : Layout
deriving DecidableEq, Repr

namespace View

/-- Whether two views are of the same storage. -/
def sameStorage (x y : View) : Bool :=
  x.storage = y.storage

/-- The element type. -/
def elementType (x : View) (w : Workspace) : ElementType :=
  w.elementType x.storage

/-- The extents. -/
def shape (x : View) : Shape :=
  x.layout.shape

/-- The number of items. -/
def size (x : View) : Outcome Nat :=
  x.layout.size

/-- **The value of a slot** of the storage. -/
def readSlot (x : View) (index : Nat) (w : Workspace) : Outcome SlotValue :=
  w.readSlot x.storage index

/-- **The value of a slot** of the storage as a double. -/
def readDouble (x : View) (index : Nat) (w : Workspace) : Outcome Double :=
  w.readDouble x.storage index

/-- Writes a slot of the storage. -/
def writeSlot (x : View) (index : Nat) (v : SlotValue) : Action Unit :=
  .changing (·.writeSlot x.storage index v)

/-- Writes a slot of the storage from a double. -/
def writeDouble (x : View) (index : Nat) (value : Double) : Action Unit :=
  .changing (·.writeDouble x.storage index value)

/-- **The value of the item at a position**, for a complex item its real part. -/
def itemAt (x : View) (p : List Nat) (w : Workspace) : Outcome Double := do
  let slot ← x.layout.slotAt p
  x.readDouble slot w

/-- **Writes the item at a position**, of a complex item the real part. -/
def setItemAt (x : View) (p : List Nat) (value : Double) : Action Unit := do
  let slot ← x.layout.slotAt p
  x.writeDouble slot value

/-- Locks the storage. -/
def lock (x : View) : Action Unit :=
  .changing (·.lock x.storage)

/-- **Another view of the same storage.** -/
def apply (op : ViewOp) (x : View) : Outcome View := do
  let layout ← op.apply x.layout
  return { x with layout }

/-- The description of a layout in words. -/
def describeLayout (l : Layout) : String :=
  "Layout \x7b shape: " ++ renderNats l.shape ++ ", strides: " ++ renderInts l.strides
    ++ ", offset: " ++ Nat.repr l.offset ++ ", elements_per_item: " ++ Nat.repr l.itemSlots
    ++ " \x7d"

/-- **The description of an array in words**: its element type and its layout. -/
def describe (x : View) (w : Workspace) : String :=
  "Array \x7b dtype: " ++ (x.elementType w).tag ++ ", layout: " ++ describeLayout x.layout
    ++ " \x7d"

end View

end StridedArray
