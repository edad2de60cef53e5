import StridedArray.ElementType

/-!
# Binary floating-point formats

A **format** is given by the number of exponent bits and of fraction
bits. A bit pattern consists of a sign bit, the exponent field and the
fraction field, from the highest bit to the lowest.

`decode` is the number that a pattern stands for: not a number, an
infinity, or plus or minus a natural number times a power of two.
`encode` is the pattern of the number of the format that is nearest to a
given one; of two that are equally near, the one with the even pattern.
A number beyond the greatest one of the format by half a step or more
becomes infinite.

The finite patterns without sign are the multiples of the least positive
number up to the first full exponent, and after that every power of two
doubles the step. So a step of `2 ^ (leastExponent + k)` and `units` of
it have the pattern `k * 2 ^ fractionBits + units`, whether `units` is
below `2 ^ fractionBits`, which happens for `k = 0` only, or has come up
to `2 ^ (fractionBits + 1)` by rounding.
-/

namespace StridedArray

/-- **A binary floating-point format.** -/
structure FloatFormat where
  /-- The number of bits of the exponent field. -/
  exponentBits : Nat
  /-- The number of bits of the fraction field. -/
  fractionBits : Nat
deriving DecidableEq, Repr

/-- **What a bit pattern stands for.** -/
inductive FloatValue where
  /-- Not a number. -/
  | nan
  /-- Minus infinity, if `negative`, or plus infinity. -/
  | infinite (negative : Bool)
  /-- The number `significand * 2 ^ exponent`, negated if `negative`. Zero has a sign as well. -/
  | finite (negative : Bool) (significand : Nat) (exponent : Int)
deriving DecidableEq, Repr

/-- **A quotient rounded to the nearest natural number**, a half to the even one. -/
def roundQuotient (n d : Nat) : Nat :=
  let q := n / d
  let r := n % d
  if d < 2 * r ∨ d = 2 * r ∧ q % 2 = 1 then q + 1 else q

/-- **The number `n * 2 ^ k` rounded to the nearest natural number**, a half to the even one. -/
def roundScaled (n : Nat) (k : Int) : Nat :=
  if 0 ≤ k then n <<< k.toNat else roundQuotient n (1 <<< (-k).toNat)

namespace FloatFormat

/-- The exponent of the least positive number of the format. -/
def leastExponent (f : FloatFormat) : Int :=
  2 - ((1 <<< (f.exponentBits - 1) : Nat) : Int) - f.fractionBits

/-- The pattern of plus infinity. -/
def infinity (f : FloatFormat) : Nat :=
  ((1 <<< f.exponentBits) - 1) <<< f.fractionBits

/-- The pattern with the sign bit alone. -/
def signBit (f : FloatFormat) (negative : Bool) : Nat :=
  if negative then 1 <<< (f.exponentBits + f.fractionBits) else 0

/-- The pattern that stands for results that are not a number. -/
def quietNaN (f : FloatFormat) : Nat :=
  f.infinity + (1 <<< (f.fractionBits - 1))

/-- **What a pattern stands for.** -/
def decode (f : FloatFormat) (bits : Nat) : FloatValue :=
  let fraction := bits % (1 <<< f.fractionBits)
  let exponent := (bits >>> f.fractionBits) % (1 <<< f.exponentBits)
  let negative := (bits >>> (f.exponentBits + f.fractionBits)) % 2 = 1
  if exponent = (1 <<< f.exponentBits) - 1 then
    if fraction = 0 then .infinite negative else .nan
  else if exponent = 0 then
    .finite negative fraction f.leastExponent
  else
    .finite negative ((1 <<< f.fractionBits) + fraction) (f.leastExponent + (exponent - 1))

/-- The exponent of the step of the format at the number `significand * 2 ^ exponent`: the
significand has `fractionBits + 1` digits, or as many as the least exponent leaves. -/
def stepExponent (f : FloatFormat) (significand : Nat) (exponent : Int) : Int :=
  max (exponent + Nat.log2 significand - f.fractionBits) f.leastExponent

/-- **The pattern without sign nearest to the number** `significand * 2 ^ exponent`. -/
def encodeMagnitude (f : FloatFormat) (significand : Nat) (exponent : Int) : Nat :=
  if significand = 0 then 0
  else
    let step := f.stepExponent significand exponent
    let units := roundScaled significand (exponent - step)
    min (((step - f.leastExponent).toNat <<< f.fractionBits) + units) f.infinity

/-- **The pattern nearest to a number.** -/
def encode (f : FloatFormat) : FloatValue → Nat
  | .nan => f.quietNaN
  | .infinite negative => f.signBit negative + f.infinity
  | .finite negative significand exponent =>
    f.signBit negative + f.encodeMagnitude significand exponent

end FloatFormat

/-- The format of a floating-point slot. -/
def FloatKind.format : FloatKind → FloatFormat
  | bfloat16 => ⟨8, 7⟩
  | float16 => ⟨5, 10⟩
  | float32 => ⟨8, 23⟩
  | float64 => ⟨11, 52⟩

/-- Sign, exponent and fraction fill the slot. -/
theorem FloatKind.width_eq (k : FloatKind) :
    k.width = 1 + k.format.exponentBits + k.format.fractionBits := by
  cases k <;> rfl

/-- What a pattern of a floating-point slot stands for. -/
def FloatKind.decode (k : FloatKind) (bits : BitVec k.width) : FloatValue :=
  k.format.decode bits.toNat

/-- The pattern of a floating-point slot nearest to a number. -/
def FloatKind.encode (k : FloatKind) (x : FloatValue) : BitVec k.width :=
  BitVec.ofNat k.width (k.format.encode x)

end StridedArray
