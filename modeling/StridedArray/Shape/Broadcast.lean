import StridedArray.Shape

/-!
# Broadcasting shapes

Shapes are aligned at their last axes: the shorter ones get singleton
axes in front. On every axis the extents other than 1 have to agree.
Their common value is the extent of the broadcast shape there, which is
1 where no operand has another extent. An extent of 0 is an extent like
any other, so it wins over 1 and is in conflict with 2.

A conflict is reported at the first axis that has one, with the first
extent other than 1 on that axis and the first one that differs from it.
-/

namespace StridedArray.Shape

/-- **The common extent of one axis**, given the extent found so far and the extents of the
operands still to be looked at. -/
def commonExtent (axis : Nat) : Option Nat → List Nat → Outcome Nat
  | found, [] => .ok (found.getD 1)
  | none, n :: rest =>
    if n = 1 then commonExtent axis none rest else commonExtent axis (some n) rest
  | some m, n :: rest =>
    if n = 1 ∨ n = m then commonExtent axis (some m) rest else refuse (.extentConflict axis m n)

/-- The largest number of axes of the shapes. -/
def maxRank (shapes : List Shape) : Nat :=
  shapes.foldr (fun s rank => max s.length rank) 0

/-- The extents of the shapes on one axis, a missing one being 1. -/
def column (shapes : List Shape) (axis : Nat) : List Nat :=
  shapes.map fun s => s.getD axis 1

/-- **The broadcast shape**, with every operand's shape padded to its rank. -/
def broadcastAll (shapes : List Shape) : Outcome (Shape × List Shape) := do
  let rank := maxRank shapes
  let padded := shapes.map (·.padTo rank)
  let shape ← (List.range rank).mapM fun axis => commonExtent axis none (column padded axis)
  return (shape, padded)

/-- **The broadcast shape** of the operands. -/
def broadcast (shapes : List Shape) : Outcome Shape := do
  let (shape, _) ← broadcastAll shapes
  return shape

/-- Whether two shapes broadcast together. -/
def broadcastable (s t : Shape) : Bool :=
  (broadcast [s, t]).isOk

/-- **Whether an array of shape `s` with `size` items can be repeated to the shape `target`**: the
two shapes padded to a common rank if so. The rank-0 target takes one item of any shape and adds
no axes. For any other target two extents have to be equal on each axis or one of them 1. -/
def alignTo (s : Shape) (size : Nat) (target : Shape) : Option (Shape × Shape) :=
  if target = [] then
    if size = 1 then some (s, []) else none
  else
    let padded := s.padTo target.length
    let goal := target.padTo s.length
    if (List.zip padded goal).all fun (m, n) => m = n || m = 1 || n = 1 then some (padded, goal)
    else none

/-- **The position read under broadcasting**: the coordinates of the axes that padding has added are
dropped, and a singleton axis is read at 0. -/
def sourceOf (s : Shape) (p : List Nat) : List Nat :=
  List.zipWith (fun extent coordinate => if extent = 1 then 0 else coordinate) s
    (p.drop (p.length - s.length))

end StridedArray.Shape
