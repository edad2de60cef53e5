import StridedArray.View

/-!
# New arrays

A new array has a storage of its own and starts with a row-major layout
of its shape, unless it is made from a storage and a layout. In that case
the two have to agree on the slots of an item, and the storage has to
reach as far as the layout does. Nothing is asked of a layout without
items.
-/

namespace StridedArray.View

/-- Refuses a layout that does not fit a storage. -/
def checkFit (s : Storage) (l : Layout) : Outcome Unit := do
  let itemSlots := s.type.itemSlots
  if l.itemSlots ≠ itemSlots then
    refuse (.invalidArgument (.itemSlots l.itemSlots s.type itemSlots))
  else
    let size ← l.size
    if 0 < size then
      let required ← l.slotsNeeded
      if s.len < required then refuse (.outOfBounds (required - 1) s.len) else return ()
    else
      return ()

/-- **An array of a storage and a layout.** -/
def ofStorage (s : Storage) (l : Layout) : Action View := do
  checkFit s l
  let id ← Action.addStorage s
  return { storage := id, layout := l }

/-- **A row-major array of slot values.** A complex type takes two values per item. -/
def ofValuesOfType (values : List Double) (shape : Shape) (type : ElementType) : Action View := do
  let l ← Layout.ofShape shape type.itemSlots
  let size ← l.size
  let needed ← Word.unsigned (size * type.itemSlots)
  if values.length ≠ needed then
    refuse (.invalidShape (.valueCount values.length shape type needed))
  else
    let s ← Storage.ofValues type values
    ofStorage s l

/-- **A row-major array of zeros.** -/
def zerosOfType (shape : Shape) (type : ElementType) : Action View := do
  let l ← Layout.ofShape shape type.itemSlots
  let size ← l.size
  let slots ← Word.unsigned (size * type.itemSlots)
  let s ← Storage.zeros type slots
  ofStorage s l

/-- A row-major array of the default type. -/
def ofValues (values : List Double) (shape : Shape) : Action View := do
  let w ← get
  ofValuesOfType values shape w.defaultType

/-- A row-major array of zeros of the default type. -/
def zeros (shape : Shape) : Action View := do
  let w ← get
  zerosOfType shape w.defaultType

/-- **The array of rank 0** that holds a value. -/
def scalar (value : Double) : Action View :=
  ofValues [value] []

end StridedArray.View
