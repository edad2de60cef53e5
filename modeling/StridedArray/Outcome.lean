import StridedArray.ElementType

/-!
# Errors and traps

An operation can fail in two ways. It is **refused** when its arguments
make no sense together: the caller learns the cause as an `ArrayError`
and nothing else has happened. It **traps** when the machine arithmetic
behind it leaves its range, when a list is read past its end, or when
more memory is asked for than can be addressed: a `Trap` ends the
program that runs into it, and says nothing about the arguments.

`Outcome` is the result of an operation that may do either.
-/

namespace StridedArray

/-- Prints a list of numbers as it stands in messages: in brackets, with a comma and a blank
between two entries. -/
def renderList {α : Type} (render : α → String) (xs : List α) : String :=
  "[" ++ String.intercalate ", " (xs.map render) ++ "]"

/-- A list of extents or positions as it stands in messages. -/
def renderNats (xs : List Nat) : String :=
  renderList (fun n => Nat.repr n) xs

/-- A list of strides as it stands in messages. -/
def renderInts (xs : List Int) : String :=
  renderList (fun i => Int.repr i) xs

/-- **Why a shape is not acceptable.** -/
inductive ShapeFault where
  /-- There is not one stride per axis. -/
  | strideCount (shape : List Nat) (strides : List Int)
  /-- Negative strides reach a slot before the first one. -/
  | belowStorage (strides : List Int) (offset : Nat) (lowest : Int)
  /-- A reshape would change the number of items. -/
  | sizeChange (old new : Nat)
  /-- A reshape needs strides in row-major order without gaps. -/
  | notContiguous (strides : List Int)
  /-- The number of values differs from the number of slots of the shape. -/
  | valueCount (given : Nat) (shape : List Nat) (type : ElementType) (needed : Nat)
  /-- The shape does not broadcast to the target. -/
  | notBroadcastable (shape target : List Nat)
  /-- A cause given in words. -/
  | described (reason : String)
deriving DecidableEq, Repr

/-- **Why an argument is not acceptable.** -/
inductive ArgumentFault where
  /-- An item has no slot. -/
  | emptyItem
  /-- A position has another number of coordinates than there are axes. -/
  | positionRank (position : List Nat) (rank : Nat)
  /-- One of two axes to be exchanged does not exist. -/
  | noSuchAxes (first second rank : Nat)
  /-- An axis does not exist. -/
  | noSuchAxis (axis rank : Nat)
  /-- The number of bytes of a storage is out of range. -/
  | storageSize
  /-- Layout and storage disagree on the number of slots of an item. -/
  | itemSlots (layout : Nat) (type : ElementType) (needed : Nat)
  /-- A traversal without an output cannot store. -/
  | noOutput
  /-- A cause given in words. -/
  | described (reason : String)
deriving DecidableEq, Repr

/-- **Why an operation is refused.** -/
inductive ArrayError where
  /-- Two operands have different extents, neither of them 1, on an axis of the broadcast shape. -/
  | extentConflict (axis first later : Nat)
  /-- A given output does not have the broadcast shape. -/
  | outputShape (expected got : List Nat)
  /-- Padding by a negative number of axes. -/
  | negativePadding (padding : Int)
  /-- A shape is not acceptable. -/
  | invalidShape (fault : ShapeFault)
  /-- A slot of one type was given where another type is stored. -/
  | typeMismatch (expected got : ElementType)
  /-- Arithmetic is not defined on the type. -/
  | unsupportedType (type : ElementType)
  /-- A position or slot index lies outside its range. -/
  | outOfBounds (index size : Nat)
  /-- An argument is not acceptable. -/
  | invalidArgument (fault : ArgumentFault)
  /-- The storage is locked. -/
  | locked
deriving DecidableEq, Repr

/-- The wording of a fault of a shape. -/
def ShapeFault.message : ShapeFault → String
  | strideCount shape strides =>
    "shape " ++ renderNats shape ++ " and strides " ++ renderInts strides ++ " differ in rank"
  | belowStorage strides offset lowest =>
    "strides " ++ renderInts strides ++ " from offset " ++ Nat.repr offset ++ " reach slot "
      ++ Int.repr lowest ++ " below the start of storage"
  | sizeChange old new =>
    "Cannot reshape layout of size " ++ Nat.repr old ++ " to size " ++ Nat.repr new
  | notContiguous strides =>
    "Cannot reshape non-contiguous layout with strides " ++ renderInts strides
  | valueCount given shape type needed =>
    Nat.repr given ++ " values cannot fill shape " ++ renderNats shape ++ " of "
      ++ type.shortName ++ " (" ++ Nat.repr needed ++ " slots needed)"
  | notBroadcastable shape target =>
    "Cannot broadcast shape " ++ renderNats shape ++ " to " ++ renderNats target
  | described reason => reason

/-- The wording of a fault of an argument. -/
def ArgumentFault.message : ArgumentFault → String
  | emptyItem => "elements per item must be at least 1"
  | positionRank position rank =>
    "position " ++ renderNats position ++ " does not match rank " ++ Nat.repr rank
  | noSuchAxes first second rank =>
    "cannot transpose dimensions " ++ Nat.repr first ++ " and " ++ Nat.repr second
      ++ " of a rank " ++ Nat.repr rank ++ " layout"
  | noSuchAxis axis rank =>
    "dimension " ++ Nat.repr axis ++ " out of range for rank " ++ Nat.repr rank
  | storageSize => "Overflow in allocation"
  | itemSlots layout type needed =>
    "layout uses " ++ Nat.repr layout ++ " slots per item but " ++ type.shortName ++ " needs "
      ++ Nat.repr needed
  | noOutput => "broadcast iterator has no output operand"
  | described reason => reason

/-- **The wording of an error.** -/
def ArrayError.message : ArrayError → String
  | extentConflict axis first later =>
    "Shape mismatch at dimension " ++ Nat.repr axis ++ ": extents " ++ Nat.repr first ++ " and "
      ++ Nat.repr later ++ " are neither equal nor 1"
  | outputShape expected got =>
    "Output shape mismatch: expected broadcast shape " ++ renderNats expected ++ ", got "
      ++ renderNats got
  | negativePadding padding =>
    "Invalid padding: padding must be zero or greater, got " ++ Int.repr padding
  | invalidShape fault => "Invalid shape: " ++ fault.message
  | typeMismatch expected got =>
    "DType mismatch: expected " ++ expected.tag ++ ", got " ++ got.tag
  | unsupportedType type => "Unsupported data type: " ++ type.shortName
  | outOfBounds index size =>
    "Index out of bounds: index " ++ Nat.repr index ++ " is out of bounds for storage with "
      ++ Nat.repr size ++ " slots"
  | invalidArgument fault => "Invalid argument: " ++ fault.message
  | locked => "Buffer is locked"

/-- **What ends a program.** -/
inductive Trap where
  /-- A number left the range of its machine type. -/
  | overflow
  /-- A list was read past its end. -/
  | subscript
  /-- More memory was asked for than can be addressed. -/
  | allocation
deriving DecidableEq, Repr

/-- **How an operation fails.** -/
inductive Fault where
  /-- The operation does not accept its arguments. -/
  | refused (error : ArrayError)
  /-- The operation cannot go on. -/
  | trapped (trap : Trap)
deriving DecidableEq, Repr

/-- **The result of an operation** that may be refused and may trap. -/
abbrev Outcome (α : Type) : Type :=
  Except Fault α

/-- The result of an operation that is refused. -/
def refuse {α : Type} (e : ArrayError) : Outcome α :=
  .error (.refused e)

/-- The result of an operation that traps. -/
def trap {α : Type} (t : Trap) : Outcome α :=
  .error (.trapped t)

/-- Reading an entry that a list does not have traps. -/
def subscript {α : Type} : Option α → Outcome α
  | some x => .ok x
  | none => trap .subscript

namespace Outcome

/-- Whether the operation has a result. -/
def isOk {α : Type} : Outcome α → Bool
  | .ok _ => true
  | .error _ => false

/-- Whether the operation has the given result. -/
def yields {α : Type} [DecidableEq α] (x : Outcome α) (a : α) : Bool :=
  match x with
  | .ok b => b = a
  | .error _ => false

/-- Whether the operation trapped. -/
def isTrap {α : Type} : Outcome α → Bool
  | .error (.trapped _) => true
  | _ => false

end Outcome

/-- **Two operations in a row have a result** if the first has one and the second, given that, has
one. -/
theorem Outcome.bind_eq_ok {α β : Type} {x : Outcome α} {f : α → Outcome β} {b : β} :
    (x >>= f) = .ok b ↔ ∃ a, x = .ok a ∧ f a = .ok b := by
  cases x with
  | error e => exact ⟨nofun, nofun⟩
  | ok a => exact ⟨fun h => ⟨a, rfl, h⟩, fun ⟨_, rfl, h⟩ => h⟩

@[simp] theorem refuse_ne_ok {α : Type} (e : ArrayError) (x : α) : refuse e ≠ .ok x :=
  nofun

@[simp] theorem trap_ne_ok {α : Type} (t : Trap) (x : α) : trap t ≠ .ok x :=
  nofun

end StridedArray
