import Mathlib.Data.Int.ModEq
import StridedArray.Word

/-!
# Words as residues

Two integers are the same word when they differ by a multiple of `2 ^ 64`.
A conversion between the two kinds of word keeps the residue, and so do
sums and products, whether or not anything is out of range on the way. A
residue has one signed word: `wrap` is the one of an integer, and an
integer that is a signed word is its own.
-/

namespace StridedArray.Word

/-- **The signed word of an integer**: the one with the same residue. -/
def wrap (i : Int) : Int :=
  i.bmod 0x10000000000000000

/-- Reading an unsigned word as a signed one is taking its residue. -/
theorem toSigned_eq_wrap (n : Nat) : toSigned n = wrap n := rfl

theorem wrap_modEq (i : Int) : wrap i ≡ i [ZMOD 0x10000000000000000] :=
  Int.bmod_emod

theorem isSigned_wrap (i : Int) : IsSigned (wrap i) := by
  unfold IsSigned wrap
  rw [Int.bmod_def]
  split <;> omega

/-- **A residue has one signed word.** -/
theorem eq_of_modEq {i j : Int} (hi : IsSigned i) (hj : IsSigned j)
    (h : i ≡ j [ZMOD 0x10000000000000000]) : i = j := by
  unfold IsSigned at hi hj
  unfold Int.ModEq at h
  omega

/-- A signed word with the residue of an integer is the word of that integer. -/
theorem eq_wrap {i j : Int} (hi : IsSigned i) (h : i ≡ j [ZMOD 0x10000000000000000]) :
    i = wrap j :=
  eq_of_modEq hi (isSigned_wrap j) (h.trans (wrap_modEq j).symm)

/-- A result in range. -/
theorem signed_of_mem {i : Int} (hlow : -0x8000000000000000 ≤ i)
    (hhigh : i < 0x8000000000000000) : signed i = .ok i :=
  signed_eq_ok.mpr ⟨⟨hlow, hhigh⟩, rfl⟩

/-- A signed word is its own. -/
theorem wrap_of_mem {i : Int} (hlow : -0x8000000000000000 ≤ i)
    (hhigh : i < 0x8000000000000000) : wrap i = i :=
  (eq_wrap ⟨hlow, hhigh⟩ (Int.ModEq.refl i)).symm

theorem toSigned_modEq (n : Nat) : toSigned n ≡ n [ZMOD 0x10000000000000000] :=
  wrap_modEq n

/-- Integers with the same residue have the same unsigned word. -/
theorem toUnsigned_congr {i j : Int} (h : i ≡ j [ZMOD 0x10000000000000000]) :
    toUnsigned i = toUnsigned j :=
  congrArg Int.toNat h

@[simp] theorem toUnsigned_wrap (i : Int) : toUnsigned (wrap i) = toUnsigned i :=
  toUnsigned_congr (wrap_modEq i)

theorem toUnsigned_modEq (i : Int) : (toUnsigned i : Int) ≡ i [ZMOD 0x10000000000000000] := by
  unfold toUnsigned Int.ModEq
  omega

theorem isUnsigned_toUnsigned (i : Int) : IsUnsigned (toUnsigned i) := by
  unfold IsUnsigned toUnsigned
  omega

end StridedArray.Word
