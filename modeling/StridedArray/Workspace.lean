import StridedArray.Storage

/-!
# Workspaces

A **workspace** holds the storages in use and the element type that new
arrays get when none is asked for. A storage is known by its number.
Storages are shared: whoever knows the number sees every write.

A storage is **locked** once a writer has failed in the middle of a
write. From then on every access to its slots is refused, whichever the
index. Its element type and its number of slots can still be asked for.

An `Action` is an operation on a workspace. When it fails, whatever it
has written before stays written.
-/

namespace StridedArray

/-- **A storage in use.** -/
structure Cell where
  /-- The storage. -/
  storage : Storage
  /-- Whether access to the slots is refused. -/
  locked : Bool
deriving DecidableEq, Repr, Inhabited

/-- **The storages in use** and the default element type. -/
structure Workspace where
  /-- The storages, by number. -/
  cells : List Cell
  /-- The type of new arrays for which none is asked for. -/
  defaultType : ElementType
deriving DecidableEq, Repr

namespace Workspace

/-- The workspace at the start: without storages, and with doubles as the default. -/
def initial : Workspace where
  cells := []
  defaultType := .float64

/-- The storage with a number. A number not in use stands for a storage without slots. -/
def cell (w : Workspace) (id : Nat) : Cell :=
  w.cells.getD id default

/-- The element type of a storage, locked or not. -/
def elementType (w : Workspace) (id : Nat) : ElementType :=
  (w.cell id).storage.type

/-- The number of slots of a storage, locked or not. -/
def slotCount (w : Workspace) (id : Nat) : Nat :=
  (w.cell id).storage.len

/-- The slots of a storage, which must not be locked. -/
def unlocked (w : Workspace) (id : Nat) : Outcome Storage :=
  let cell := w.cell id
  if cell.locked then refuse .locked else .ok cell.storage

/-- **The value of a slot.** -/
def readSlot (w : Workspace) (id index : Nat) : Outcome SlotValue := do
  let s ← w.unlocked id
  s.get index

/-- **The value of a slot as a double.** -/
def readDouble (w : Workspace) (id index : Nat) : Outcome Double := do
  let s ← w.unlocked id
  s.readDouble index

/-- The workspace with the slots of a storage replaced. -/
def put (w : Workspace) (id : Nat) (s : Storage) : Workspace :=
  { w with cells := w.cells.modify id fun cell => { cell with storage := s } }

/-- **The workspace with a slot written.** -/
def writeSlot (w : Workspace) (id index : Nat) (v : SlotValue) : Outcome Workspace := do
  let s ← w.unlocked id
  let s ← s.set index v
  return w.put id s

/-- **The workspace with a slot written from a double.** -/
def writeDouble (w : Workspace) (id index : Nat) (x : Double) : Outcome Workspace := do
  let s ← w.unlocked id
  let s ← s.writeDouble index x
  return w.put id s

/-- **The workspace with a storage locked**, as a writer leaves it that fails in the middle of a
write. Locking is an access like any other, so a locked storage is refused. -/
def lock (w : Workspace) (id : Nat) : Outcome Workspace := do
  let _ ← w.unlocked id
  return { w with cells := w.cells.modify id fun cell => { cell with locked := true } }

/-- The workspace with one more storage, whose number is the number of storages before. -/
def add (w : Workspace) (s : Storage) : Workspace :=
  { w with cells := w.cells ++ [{ storage := s, locked := false }] }

end Workspace

/-- **An operation on a workspace.** -/
abbrev Action (α : Type) : Type :=
  EStateM Fault Workspace α

namespace Action

/-- An operation that does not look at the workspace. -/
def ofOutcome {α : Type} (x : Outcome α) : Action α := fun w =>
  match x with
  | .ok a => .ok a w
  | .error e => .error e w

instance : MonadLift Outcome Action :=
  ⟨ofOutcome⟩

/-- An operation that looks at the workspace and leaves it as it is. -/
def reading {α : Type} (f : Workspace → Outcome α) : Action α := fun w =>
  ofOutcome (f w) w

/-- An operation that changes the workspace, or leaves it as it is if it fails. -/
def changing (f : Workspace → Outcome Workspace) : Action Unit := fun w =>
  match f w with
  | .ok w' => .ok () w'
  | .error e => .error e w

/-- Takes a storage into use and gives its number. -/
def addStorage (s : Storage) : Action Nat := fun w =>
  .ok w.cells.length (w.add s)

end Action

end StridedArray
