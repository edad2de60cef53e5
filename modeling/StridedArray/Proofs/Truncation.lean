import Mathlib.Data.Rat.Floor
import StridedArray.Proofs.Refines
import StridedArray.SlotValue

/-!
# Doubles in integer slots

A double becomes the integer next to it on the side of zero, and the end of
the range if that one lies beyond. The program first forces the double
between the ends of the range as doubles, of which the greatest 64-bit
integer is none, and truncates what is left. In effect this is truncating
first and forcing the integer into the range
(`IntKind.ofDouble_eq_truncateWithin`): truncation keeps the order
(`FloatValue.truncateWithin_mono`), and both ends are taken to themselves.

The order is that of the numbers, with the infinities at its ends
(`FloatValue.AtMost`). Doubles are compared by their patterns, which count
the numbers (`Double.atMost_of_key_le`).
-/

namespace StridedArray

/-! ## Truncation -/

/-- **A number truncated toward zero.** -/
def truncate (q : ℚ) : ℤ :=
  if 0 ≤ q then ⌊q⌋ else ⌈q⌉

theorem truncate_intCast (i : ℤ) : truncate i = i := by
  unfold truncate
  split <;> simp

/-- Truncation does not depend on the sign. -/
theorem truncate_negateIf (negative : Bool) {q : ℚ} (hq : 0 ≤ q) :
    truncate (negateIf negative q) = if negative then -⌊q⌋ else ⌊q⌋ := by
  cases negative with
  | false => exact if_pos hq
  | true =>
    rw [negateIf_true, truncate, if_pos rfl]
    split
    · next hneg =>
      obtain rfl : q = 0 := by linarith
      simp
    · exact Int.ceil_neg

/-- **Truncation keeps the order.** -/
theorem truncate_mono {q r : ℚ} (h : q ≤ r) : truncate q ≤ truncate r := by
  unfold truncate
  split
  · next hq =>
    rw [if_pos (hq.trans h)]
    exact Int.floor_mono h
  · next hq =>
    split
    · next hr =>
      have hneg : ⌈q⌉ ≤ 0 := Int.ceil_le.mpr (by push_cast; linarith)
      exact hneg.trans (Int.floor_nonneg.mpr hr)
    · exact Int.ceil_mono h

/-- Shifting out the digits after the point truncates. -/
theorem truncateMagnitude_eq (significand : Nat) (exponent : ℤ) :
    (truncateMagnitude significand exponent : ℤ) = ⌊(significand * 2 ^ exponent : ℚ)⌋ := by
  unfold truncateMagnitude
  split
  · next h => rw [mul_zpow_eq_shiftLeft _ h, Int.floor_natCast]
  · next h =>
    rw [mul_zpow_eq_div _ h, Nat.shiftRight_eq_div_pow, Rat.floor_natCast_div_natCast,
      Int.natCast_ediv]

namespace FloatValue

variable {v w : FloatValue} {q : ℚ} {low high : ℤ}

/-- **A finite value is truncated into the range.** -/
theorem truncateWithin_of_number (h : v.number? = some q) :
    v.truncateWithin low high = max low (min high (truncate q)) := by
  cases v with
  | nan | infinite => cases h
  | finite negative significand exponent =>
    obtain rfl := Option.some.inj h
    rw [truncateWithin, truncate_negateIf negative (by positivity), ← truncateMagnitude_eq]

/-- **The value is at most the other one**, as a number between the two infinities. -/
inductive AtMost : FloatValue → FloatValue → Prop
  /-- Minus infinity is at most every value that is a number. -/
  | least {w : FloatValue} (hw : w ≠ nan) : AtMost (infinite true) w
  /-- Every value that is a number is at most plus infinity. -/
  | greatest {v : FloatValue} (hv : v ≠ nan) : AtMost v (infinite false)
  /-- Finite values are compared as numbers. -/
  | number {v w : FloatValue} {q r : ℚ} (hv : v.number? = some q) (hw : w.number? = some r)
    (h : q ≤ r) : AtMost v w

/-- A truncated value lies in the range, unless it is not a number. -/
theorem truncateWithin_mem (hrange : low ≤ high) (hv : v ≠ nan) :
    low ≤ v.truncateWithin low high ∧ v.truncateWithin low high ≤ high := by
  cases v with
  | nan => exact absurd rfl hv
  | infinite negative => cases negative <;> simp [truncateWithin, hrange]
  | finite negative significand exponent =>
    exact ⟨le_max_left _ _, max_le hrange (min_le_left _ _)⟩

/-- **Truncation into a range keeps the order of values.** -/
theorem truncateWithin_mono (hrange : low ≤ high) (h : v.AtMost w) :
    v.truncateWithin low high ≤ w.truncateWithin low high := by
  cases h with
  | least hw => exact (truncateWithin_mem hrange hw).1
  | greatest hv => exact (truncateWithin_mem hrange hv).2
  | number hv hw h =>
    rw [truncateWithin_of_number hv, truncateWithin_of_number hw]
    exact max_le_max_left _ (min_le_min_left _ (truncate_mono h))

end FloatValue

/-! ## The order of doubles -/

namespace Double

open FloatValue FloatKind

variable {x y : Double}

theorem less_iff : x.less y ↔ x.value ≠ .nan ∧ y.value ≠ .nan ∧ x.key < y.key := by
  simp [less, isNaN, and_assoc]

/-- **The key of a double is its pattern** with its sign. -/
theorem key_pattern (negative : Bool) {n : Nat} (hn : n < 2 ^ 63) :
    key ⟨FloatKind.float64.pattern negative n⟩ = if negative then -(n : ℤ) else n := by
  have hbits : (FloatKind.float64.pattern negative n).toNat = negative.toNat * 2 ^ 63 + n := by
    rw [toNat_pattern negative hn, FloatFormat.signBit_eq]
    rfl
  have hmsb : BitVec.msb (FloatKind.float64.pattern negative n) = negative := by
    rw [BitVec.msb_eq_decide, hbits]
    cases negative with
    | false => simpa [FloatKind.width] using hn
    | true => simp [FloatKind.width]
  show (if BitVec.msb (FloatKind.float64.pattern negative n) then
    0x8000000000000000 - ((FloatKind.float64.pattern negative n).toNat : ℤ)
    else (FloatKind.float64.pattern negative n).toNat) = _
  rw [hmsb, hbits]
  cases negative with
  | false => simp
  | true => simp

/-- Patterns with sign are in the order of their numbers. -/
theorem negateIf_magnitude_le {f : FloatFormat} {a b : Bool} {n m : Nat}
    (h : (if a then -(n : ℤ) else n) ≤ if b then -(m : ℤ) else m) :
    negateIf a (f.magnitude n) ≤ negateIf b (f.magnitude m) := by
  have hmono := f.magnitude_strictMono.monotone
  have hn := f.magnitude_nonneg n
  have hm := f.magnitude_nonneg m
  cases a <;> cases b
  case false.false => exact hmono (by simpa using h)
  case false.true =>
    obtain ⟨rfl, rfl⟩ : n = 0 ∧ m = 0 := by simp at h; omega
    simp [f.magnitude_zero]
  case true.false => exact (neg_nonpos.mpr hn).trans hm
  case true.true => exact neg_le_neg (hmono (by simpa using h))

/-- A double that is a number has at most the pattern of infinity. -/
theorem exists_pattern_le (hx : x.value ≠ .nan) :
    ∃ negative, ∃ n ≤ FloatKind.float64.format.infinity,
      x = ⟨FloatKind.float64.pattern negative n⟩ := by
  obtain ⟨negative, n, hn, hbits⟩ := exists_eq_pattern (k := .float64) x.bits
  refine ⟨negative, n, ?_, congrArg Double.mk hbits⟩
  by_contra hgt
  rw [value, hbits, decode_pattern negative hn, if_neg (by omega), if_neg (by omega)] at hx
  exact hx rfl

/-- **Doubles with keys in order are in order.** -/
theorem atMost_of_key_le (hx : x.value ≠ .nan) (hy : y.value ≠ .nan) (h : x.key ≤ y.key) :
    x.value.AtMost y.value := by
  have hinfinity := FloatKind.float64.format.infinity_lt
  have hvalue : ∀ negative,
      (⟨FloatKind.float64.pattern negative FloatKind.float64.format.infinity⟩ : Double).value
        = .infinite negative := fun negative => by
    rw [value, decode_pattern negative hinfinity, if_neg (Nat.lt_irrefl _), if_pos rfl]
  obtain ⟨a, n, hn, rfl⟩ := exists_pattern_le hx
  obtain ⟨b, m, hm, rfl⟩ := exists_pattern_le hy
  rw [key_pattern a (hn.trans_lt hinfinity), key_pattern b (hm.trans_lt hinfinity)] at h
  rcases hn.eq_or_lt with rfl | hn
  · rw [hvalue]
    cases a with
    | true => exact .least hy
    | false =>
      -- only plus infinity is not below plus infinity
      obtain ⟨rfl, rfl⟩ : b = false ∧ m = FloatKind.float64.format.infinity := by
        have hpos : 0 < FloatKind.float64.format.infinity := by decide
        cases b <;> simp at h ⊢ <;> omega
      rw [hvalue]
      exact .greatest nofun
  · rcases hm.eq_or_lt with rfl | hm
    · rw [hvalue]
      cases b with
      | false => exact .greatest hx
      | true => cases a <;> simp at h <;> omega
    · exact .number (number?_pattern a hn) (number?_pattern b hm) (negateIf_magnitude_le h)

end Double

/-! ## Integer slots -/

namespace IntKind

variable {k : IntKind} {i : ℤ} {x y : Double}

theorem least_le_greatest (k : IntKind) : k.least ≤ k.greatest := by
  cases k <;> decide

/-- The integer of a pattern lies in the range. -/
theorem decode_mem (k : IntKind) (bits : BitVec k.width) :
    k.least ≤ k.decode bits ∧ k.decode bits ≤ k.greatest := by
  cases k with
  | uint8 | uint32 =>
    have hlt := bits.isLt
    simp only [decode, isSigned, least, greatest, width, Bool.false_eq_true, if_false] at hlt ⊢
    omega
  | int8 | int32 | int64 =>
    have hle := BitVec.le_toInt bits
    have hlt := BitVec.toInt_lt (x := bits)
    simp only [decode, isSigned, least, greatest, width, if_true] at hle hlt ⊢
    omega

/-- A pattern is found back from its integer. -/
theorem encode_decode (k : IntKind) (bits : BitVec k.width) : k.encode (k.decode bits) = bits := by
  cases k with
  | uint8 | uint32 => simp [encode, decode, isSigned]
  | int8 | int32 | int64 => exact BitVec.ofInt_toInt

/-- An integer of the range is found back from its pattern. -/
theorem decode_encode (hleast : k.least ≤ i) (hgreatest : i ≤ k.greatest) :
    k.decode (k.encode i) = i := by
  cases k with
  | uint8 | uint32 =>
    obtain ⟨n, rfl⟩ := Int.eq_ofNat_of_zero_le hleast
    simp only [greatest] at hgreatest
    rw [encode, BitVec.ofInt_natCast]
    exact congrArg Nat.cast (Nat.mod_eq_of_lt (by rw [width]; omega))
  | int8 | int32 | int64 =>
    simp only [least, greatest] at hleast hgreatest
    refine BitVec.toInt_ofInt_eq_self (by decide) ?_ ?_ <;> simp only [width] <;> omega

/-- The lower end, rounded to a double, still is that end. -/
theorem truncateWithin_ofInt_least (k : IntKind) :
    (Double.ofInt k.least).value.truncateWithin k.least k.greatest = k.least := by
  cases k <;> decide +kernel

/-- The upper end, rounded to a double, may lie beyond it, but is brought back. -/
theorem truncateWithin_ofInt_greatest (k : IntKind) :
    (Double.ofInt k.greatest).value.truncateWithin k.least k.greatest = k.greatest := by
  cases k <;> decide +kernel

/-- **The integer for a double is the double truncated into the range.** -/
theorem ofDouble_eq_truncateWithin (k : IntKind) (x : Double) :
    k.ofDouble x = x.value.truncateWithin k.least k.greatest := by
  have hrange := k.least_le_greatest
  rw [ofDouble, Double.clamp]
  split
  · next hless =>
    obtain ⟨hx, hlow, hkey⟩ := Double.less_iff.mp hless
    have hle := FloatValue.truncateWithin_mono hrange (Double.atMost_of_key_le hx hlow hkey.le)
    rw [truncateWithin_ofInt_least] at hle ⊢
    exact le_antisymm (FloatValue.truncateWithin_mem hrange hx).1 hle
  · split
    · next hless =>
      obtain ⟨hhigh, hx, hkey⟩ := Double.less_iff.mp hless
      have hle := FloatValue.truncateWithin_mono hrange (Double.atMost_of_key_le hhigh hx hkey.le)
      rw [truncateWithin_ofInt_greatest] at hle ⊢
      exact le_antisymm hle (FloatValue.truncateWithin_mem hrange hx).2
    · rfl

/-- The pattern for a double stands for the integer for it. -/
theorem decode_encode_ofDouble (k : IntKind) (x : Double) :
    k.decode (k.encode (k.ofDouble x)) = x.value.truncateWithin k.least k.greatest := by
  rw [ofDouble_eq_truncateWithin]
  by_cases hnan : x.value = .nan
  · rw [hnan]
    cases k <;> decide
  · obtain ⟨hlow, hhigh⟩ := FloatValue.truncateWithin_mem k.least_le_greatest hnan
    exact decode_encode hlow hhigh

end IntKind

/-- **What a double is converted to in an integer slot**: the number truncated toward zero and
forced into the range, the infinities going to its ends and what is no number to 0. So the order is
kept, and an integer of the range that a double stands for is kept as well. -/
theorem SlotValue.ofDouble_saturates (k : IntKind) (x : Double) :
    ∃ bits, ofDouble (.int k) x = .int k bits
      ∧ (∀ q, x.value.number? = some q →
        k.decode bits = max k.least (min k.greatest (truncate q)))
      ∧ (x.value = .infinite true → k.decode bits = k.least)
      ∧ (x.value = .infinite false → k.decode bits = k.greatest)
      ∧ (x.value = .nan → k.decode bits = 0)
      ∧ (∀ y bits', ofDouble (.int k) y = .int k bits' → x.value.AtMost y.value →
        k.decode bits ≤ k.decode bits')
      ∧ ∀ i : ℤ, k.least ≤ i → i ≤ k.greatest → x.value.number? = some (i : ℚ) →
        k.decode bits = i := by
  have hdecode := k.decode_encode_ofDouble x
  refine ⟨_, rfl, fun q hq => ?_, fun h => ?_, fun h => ?_, fun h => ?_, fun y bits' h hle => ?_,
    fun i hlow hhigh hi => ?_⟩
  · rw [hdecode, FloatValue.truncateWithin_of_number hq]
  · rw [hdecode, h]
    rfl
  · rw [hdecode, h]
    rfl
  · rw [hdecode, h]
    rfl
  · obtain rfl := eq_of_heq (SlotValue.int.inj h).2
    rw [hdecode, IntKind.decode_encode_ofDouble]
    exact FloatValue.truncateWithin_mono k.least_le_greatest hle
  · rw [hdecode, FloatValue.truncateWithin_of_number hi, truncate_intCast, min_eq_right hhigh,
      max_eq_right hlow]

/-- The double beyond the upper end of the widest range is brought back to that end. -/
example : SlotValue.ofDouble (.int .int64) ⟨0x43E0000000000000⟩
    = .int .int64 (0x7FFFFFFFFFFFFFFF : BitVec 64) := by
  decide +kernel

end StridedArray
