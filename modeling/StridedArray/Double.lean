import StridedArray.FloatFormat

/-!
# Doubles

Values go in and out of arrays as numbers of the `float64` format. A
**double** is a bit pattern of that format, so that two doubles that
compare as different from themselves or as equal to each other are still
told apart.
-/

namespace StridedArray

/-- **A number of the `float64` format**, given by its bit pattern. -/
structure Double where
  /-- The bit pattern. -/
  bits : BitVec 64
deriving DecidableEq, Repr

namespace Double

/-- What the pattern stands for. -/
def value (x : Double) : FloatValue :=
  FloatKind.decode .float64 x.bits

/-- The double nearest to a number. -/
def ofValue (v : FloatValue) : Double :=
  ⟨FloatKind.encode .float64 v⟩

/-- The double nearest to an integer. -/
def ofInt (i : Int) : Double :=
  ofValue (.finite (i < 0) i.natAbs 0)

/-- Plus zero. -/
def zero : Double :=
  ⟨0⟩

/-- One. -/
def one : Double :=
  ofInt 1

instance : Inhabited Double :=
  ⟨zero⟩

/-! ## Comparison -/

/-- Whether the pattern stands for no number. -/
def isNaN (x : Double) : Bool :=
  x.value = .nan

/-- The pattern read as sign and magnitude. In this order doubles other than NaN are sorted as
numbers, with one key for the two zeros. -/
def key (x : Double) : Int :=
  if x.bits.msb then 0x8000000000000000 - (x.bits.toNat : Int) else x.bits.toNat

/-- Whether two doubles are equal as numbers. NaN is not equal to itself, and the two zeros are
equal. -/
def equals (x y : Double) : Bool :=
  !x.isNaN && !y.isNaN && x.key = y.key

/-- Whether a double is less than another as a number. NaN is not less than any double, nor any
double less than it. -/
def less (x y : Double) : Bool :=
  !x.isNaN && !y.isNaN && x.key < y.key

/-- Whether a double counts as true: it is not zero. NaN counts as true. -/
def isTrue (x : Double) : Bool :=
  !x.equals zero

/-- The double forced into a closed interval. NaN stays. -/
def clamp (x low high : Double) : Double :=
  if x.less low then low else if high.less x then high else x

/-- The greater of two doubles. If one of them is NaN it is the other. -/
def maximum (x y : Double) : Double :=
  if x.isNaN then y else if y.isNaN then x else if x.less y then y else x

/-- The lesser of two doubles. If one of them is NaN it is the other. -/
def minimum (x y : Double) : Double :=
  if x.isNaN then y else if y.isNaN then x else if y.less x then y else x

/-! ## Arithmetic -/

/-- The double as a machine float. -/
def toFloat (x : Double) : Float :=
  Float.ofBits (.ofBitVec x.bits)

/-- The machine float as a double. -/
def ofFloat (x : Float) : Double :=
  ⟨x.toBits.toBitVec⟩

/-- The sum, rounded to nearest. -/
def add (x y : Double) : Double :=
  ofFloat (x.toFloat + y.toFloat)

/-- The difference, rounded to nearest. -/
def sub (x y : Double) : Double :=
  ofFloat (x.toFloat - y.toFloat)

/-- The product, rounded to nearest. -/
def mul (x y : Double) : Double :=
  ofFloat (x.toFloat * y.toFloat)

/-- The quotient, rounded to nearest. -/
def div (x y : Double) : Double :=
  ofFloat (x.toFloat / y.toFloat)

end Double

/-! ## Integers -/

/-- The integer part of `significand * 2 ^ exponent`. -/
def truncateMagnitude (significand : Nat) (exponent : Int) : Nat :=
  if 0 ≤ exponent then significand <<< exponent.toNat else significand >>> (-exponent).toNat

/-- **A value truncated toward zero** and brought into the closed interval from `low` to `high`,
where the infinities go to the ends and NaN goes to 0. -/
def FloatValue.truncateWithin (low high : Int) : FloatValue → Int
  | nan => 0
  | infinite negative => if negative then low else high
  | finite negative significand exponent =>
    let magnitude : Int := truncateMagnitude significand exponent
    max low (min high (if negative then -magnitude else magnitude))

/-- **The integer of a range for a double.** The double is first forced between the doubles nearest
to the ends of the range. The upper end of the widest range lies between doubles, so what then
remains is truncated into the range itself. -/
def IntKind.ofDouble (k : IntKind) (x : Double) : Int :=
  (x.clamp (.ofInt k.least) (.ofInt k.greatest)).value.truncateWithin k.least k.greatest

end StridedArray
