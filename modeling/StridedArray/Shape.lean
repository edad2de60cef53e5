import StridedArray.Word

/-!
# Shapes

A **shape** is the list of the extents of the axes of an array, the
slowest axis first. Its **positions** are the lists of coordinates below
these extents. They are counted in row-major order, the last coordinate
running fastest: `unravel` is the position of a given rank in that
order, `ravel` the rank of a position.

Two numbers of positions are told apart. `Shape.count` is the product of
the extents. `Shape.size` is the same product in machine words, taken
from the left, so that an intermediate product out of range traps even
if a later extent is zero.
-/

namespace StridedArray

/-- The extents of the axes, slowest axis first. -/
abbrev Shape : Type :=
  List Nat

namespace Shape

/-- **The number of positions** of the shape. -/
def count : Shape → Nat
  | [] => 1
  | n :: s => n * count s

/-- **The number of positions as a machine word**, multiplied up from the left. -/
def size (s : Shape) : Outcome Nat :=
  s.foldlM (fun product extent => Word.unsigned (product * extent)) 1

/-- A list of coordinates is a position of the shape: one coordinate per axis, each below the
extent of its axis. -/
def Contains : Shape → List Nat → Prop
  | [], [] => True
  | n :: s, c :: p => c < n ∧ Contains s p
  | _, _ => False

/-- Whether a list of coordinates is a position can be decided coordinate by coordinate. -/
instance decidableContains : (s : Shape) → (p : List Nat) → Decidable (s.Contains p)
  | [], [] => inferInstanceAs (Decidable True)
  | n :: s, c :: p =>
    have := decidableContains s p
    inferInstanceAs (Decidable (c < n ∧ Contains s p))
  | [], _ :: _ => inferInstanceAs (Decidable False)
  | _ :: _, [] => inferInstanceAs (Decidable False)

/-- **The position of rank `k`** in row-major order. A rank past the last position wraps on the
slowest axis. -/
def unravel : Shape → Nat → List Nat
  | [], _ => []
  | n :: s, k => (k / count s) % n :: unravel s (k % count s)

/-- **The rank of a position** in row-major order. -/
def ravel : Shape → List Nat → Nat
  | _ :: s, c :: p => c * count s + ravel s p
  | _, _ => 0

/-- All positions in row-major order. -/
def positions (s : Shape) : List (List Nat) :=
  (List.range s.count).map s.unravel

@[simp] theorem count_nil : count [] = 1 := rfl

@[simp] theorem count_cons (n : Nat) (s : Shape) : count (n :: s) = n * count s := rfl

@[simp] theorem length_positions (s : Shape) : s.positions.length = s.count := by
  simp [positions]

@[simp] theorem length_unravel (s : Shape) (k : Nat) : (s.unravel k).length = s.length := by
  induction s generalizing k with
  | nil => rfl
  | cons n s ih => simp [unravel, ih]

end Shape

/-- A list with entries put in front of it. -/
def padLeft {α : Type} (padding : Nat) (fill : α) (xs : List α) : List α :=
  List.replicate padding fill ++ xs

@[simp] theorem length_padLeft {α : Type} (padding : Nat) (fill : α) (xs : List α) :
    (padLeft padding fill xs).length = padding + xs.length := by
  simp [padLeft]

/-- **Padding by a signed number of entries.** A negative number is refused, and one whose list
would not fit into the address space, at eight bytes an entry, traps. -/
def padLeftBy {α : Type} (padding : Int) (fill : α) (xs : List α) : Outcome (List α) :=
  if padding < 0 then refuse (.negativePadding padding)
  else if Word.addressLimit ≤ 8 * padding.toNat then trap .allocation
  else .ok (padLeft padding.toNat fill xs)

namespace Shape

/-- **A shape with singleton axes put in front.** -/
def pad (s : Shape) (padding : Int) : Outcome Shape :=
  padLeftBy padding 1 s

/-- The shape padded with singleton axes to at least the given rank. -/
def padTo (s : Shape) (rank : Nat) : Shape :=
  padLeft (rank - s.length) 1 s

end Shape

/-- **Strides with zeros put in front**, for the axes that padding adds to a shape. -/
def padStrides (strides : List Int) (padding : Int) : Outcome (List Int) :=
  padLeftBy padding 0 strides

end StridedArray
