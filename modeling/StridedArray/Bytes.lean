/-!
# Little-endian numbers

A natural number as a given number of bytes, the lowest byte first.
Digits beyond these bytes are dropped, so reading back what was written
gives the number modulo a power of 256.
-/

namespace StridedArray.LittleEndian

/-- **The lowest `count` bytes of a number**, the lowest first. -/
def encode : (count : Nat) → Nat → List UInt8
  | 0, _ => []
  | count + 1, n => UInt8.ofNat n :: encode count (n / 256)

/-- **The number with the given bytes**, the lowest first. -/
def decode : List UInt8 → Nat
  | [] => 0
  | b :: rest => b.toNat + 256 * decode rest

@[simp] theorem length_encode (count n : Nat) : (encode count n).length = count := by
  induction count generalizing n with
  | zero => rfl
  | succ count ih => simp [encode, ih]

/-- **Reading back what was written.** -/
theorem decode_encode (count n : Nat) : decode (encode count n) = n % (1 <<< (8 * count)) := by
  induction count generalizing n with
  | zero => exact (Nat.mod_one n).symm
  | succ count ih =>
    have low : (UInt8.ofNat n).toNat = n % 256 := UInt8.toNat_ofNat'
    have width : 1 <<< (8 * (count + 1)) = 256 * 1 <<< (8 * count) := by
      rw [Nat.one_shiftLeft, Nat.one_shiftLeft, Nat.mul_add, Nat.pow_add, Nat.mul_comm]
    rw [encode, decode, ih, low, width, Nat.mod_mul]

end StridedArray.LittleEndian
