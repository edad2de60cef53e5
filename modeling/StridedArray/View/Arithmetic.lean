import StridedArray.Traversal
import StridedArray.View.Create

/-!
# Arithmetic on arrays

An operation on two doubles is carried over to arrays item by item, under
broadcasting. The result goes to a new array of the type in which the
types of the operands meet, to a given array, or to the first operand.
Items are read as doubles and the results converted to the type of the
output. Complex items take no part in arithmetic.

The output is written while the operands are still being read, in
row-major order. If it shares slots with an operand, what has been
written is what later positions read.
-/

namespace StridedArray

/-- **An operation on two numbers.** -/
inductive BinaryOp where
  | add
  | sub
  | mul
  | div
  | maximum
  | minimum
deriving DecidableEq, Repr

/-- The operation on doubles. -/
def BinaryOp.eval : BinaryOp → Double → Double → Double
  | add => Double.add
  | sub => Double.sub
  | mul => Double.mul
  | div => Double.div
  | maximum => Double.maximum
  | minimum => Double.minimum

namespace View

/-- The type of the result of arithmetic on items of two types. A complex type is refused, that of
the first operand first. -/
def resultType (s t : ElementType) : Outcome ElementType :=
  if s.isComplex then refuse (.unsupportedType s)
  else if t.isComplex then refuse (.unsupportedType t)
  else .ok (s.promote t)

/-- **Stores the results of an operation on the items of two arrays in a third**, which has to have
the broadcast shape and may be one of the two. -/
def fillFrom (out x y : View) (op : Double → Double → Double) : Action Unit := do
  let w ← get
  let type := out.elementType w
  if type.isComplex then
    refuse (.unsupportedType type)
  else
    let t ← Traversal.ofViews x y (some out)
    t.fill op

/-- **The results of an operation as a new array.** -/
def binary (op : BinaryOp) (x y : View) : Action View := do
  let w ← get
  let type ← resultType (x.elementType w) (y.elementType w)
  let shape ← Shape.broadcast [x.shape, y.shape]
  let result ← zerosOfType shape type
  result.fillFrom x y op.eval
  return result

/-- **The results of an operation stored in a given array.** -/
def binaryInto (op : BinaryOp) (x y out : View) : Action Unit := do
  let w ← get
  let _ ← resultType (x.elementType w) (y.elementType w)
  out.fillFrom x y op.eval

/-- **The results of an operation stored in its first operand.** -/
def binaryInPlace (op : BinaryOp) (x y : View) : Action Unit :=
  binaryInto op x y x

end View

end StridedArray
