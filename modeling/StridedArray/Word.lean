import StridedArray.Outcome

/-!
# Machine words

Extents, offsets and slot indices are unsigned 64-bit words, strides are
signed ones. The library computes with `Nat` and `Int` and checks every
intermediate result: `unsigned` and `signed` are the identity on the
range of the word and trap outside of it. A conversion between the two
kinds of word is never checked: it keeps the bits, so that a number from
the upper half of the unsigned range becomes negative and back.
-/

namespace StridedArray.Word

/-- The number of bytes from which on a list is too long for memory. -/
def addressLimit : Nat :=
  0x8000000000000000

/-- Whether a number is an unsigned word. -/
def IsUnsigned (n : Nat) : Prop :=
  n < 0x10000000000000000

/-- Whether a number is a signed word. -/
def IsSigned (i : Int) : Prop :=
  -0x8000000000000000 ≤ i ∧ i < 0x8000000000000000

instance (n : Nat) : Decidable (IsUnsigned n) :=
  inferInstanceAs (Decidable (_ < _))

instance (i : Int) : Decidable (IsSigned i) :=
  inferInstanceAs (Decidable (_ ∧ _))

/-- **The result of an unsigned operation**, which traps outside of the range. -/
def unsigned (n : Nat) : Outcome Nat :=
  if IsUnsigned n then .ok n else trap .overflow

/-- **The result of a signed operation**, which traps outside of the range. -/
def signed (i : Int) : Outcome Int :=
  if IsSigned i then .ok i else trap .overflow

/-- The signed word with the bits of an unsigned one. -/
def toSigned (n : Nat) : Int :=
  (n : Int).bmod 0x10000000000000000

/-- The unsigned word with the bits of a signed one. -/
def toUnsigned (i : Int) : Nat :=
  (i % 0x10000000000000000).toNat

theorem unsigned_eq_ok {n m : Nat} : unsigned n = .ok m ↔ IsUnsigned n ∧ m = n := by
  unfold unsigned
  split <;> simp_all [trap, eq_comm]

theorem signed_eq_ok {i j : Int} : signed i = .ok j ↔ IsSigned i ∧ j = i := by
  unfold signed
  split <;> simp_all [trap, eq_comm]

/-- The lower half of the unsigned range keeps its value. -/
theorem toSigned_of_lt {n : Nat} (h : n < 0x8000000000000000) : toSigned n = n := by
  unfold toSigned
  rw [Int.bmod_def]
  split <;> omega

/-- A signed word that is not negative keeps its value. -/
theorem toUnsigned_of_nonneg {i : Int} (h₀ : 0 ≤ i) (h : i < 0x10000000000000000) :
    toUnsigned i = i.toNat := by
  unfold toUnsigned
  rw [Int.emod_eq_of_lt h₀ (by omega)]

/-- There and back an unsigned word keeps its value. -/
theorem toUnsigned_toSigned {n : Nat} (h : IsUnsigned n) : toUnsigned (toSigned n) = n := by
  unfold IsUnsigned at h
  unfold toUnsigned toSigned
  rw [Int.bmod_def]
  split <;> omega

/-- A converted word is in range. -/
theorem isSigned_toSigned (n : Nat) : IsSigned (toSigned n) := by
  unfold IsSigned toSigned
  rw [Int.bmod_def]
  split <;> omega

end StridedArray.Word
