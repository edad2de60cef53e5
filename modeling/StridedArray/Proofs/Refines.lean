import StridedArray.Double
import StridedArray.Proofs.Rounding

/-!
# Formats that refine others

A format with a longer fraction and no shorter exponent has every number of
the other one, and the middle of any two neighbours
(`FloatFormat.Refines.exists_magnitude`, `FloatFormat.Refines.exists_middle`).
`float64` refines `float32` and the two short formats, and `float32` refines
these.

Values are compared as numbers with a sign (`FloatValue.Same`), whatever
significand and exponent they are written with. Encoding does not tell such
values apart (`FloatKind.encode_congr`), it finds the pattern back that a
value was decoded from (`FloatKind.encode_decode`), and so it keeps every
value that the format has (`FloatKind.decode_encode`).
-/

namespace StridedArray

namespace FloatFormat

variable {f g : FloatFormat} {n m u : Nat}

/-- **Every number of steps that the significand can hold is one of the format.** -/
theorem exists_magnitude_eq (f : FloatFormat) (hu : u ≤ 2 ^ (f.fractionBits + 1)) (k : Nat) :
    ∃ n, f.magnitude n = u * f.step k := by
  -- an unfilled significand is doubled and the step halved, until the step is the least one
  induction k generalizing u with
  | zero => exact ⟨_, magnitude_of_fills ⟨hu, .inl rfl⟩⟩
  | succ k ih =>
    by_cases hfull : 2 ^ f.fractionBits ≤ u
    · exact ⟨_, magnitude_of_fills ⟨hu, .inr hfull⟩⟩
    · obtain ⟨n, hn⟩ := ih (u := 2 * u) (by rw [Nat.pow_succ]; omega)
      refine ⟨n, hn.trans ?_⟩
      rw [step_succ]
      push_cast
      ring

/-- **A format refines another**: its fraction is longer and its exponent no shorter. -/
structure Refines (g f : FloatFormat) : Prop where
  /-- The fraction is longer. -/
  fraction : f.fractionBits < g.fractionBits
  /-- The exponent is no shorter. -/
  exponent : f.exponentBits ≤ g.exponentBits
  /-- There is an exponent. -/
  exponent_pos : 0 < f.exponentBits

namespace Refines

variable (h : g.Refines f)

include h

/-- Half of a step is a step of the refined format. -/
theorem exists_half_step (k : Nat) : ∃ j, f.step k = 2 * g.step j := by
  have hpow : 2 ^ (f.exponentBits - 1) ≤ 2 ^ (g.exponentBits - 1) :=
    Nat.pow_le_pow_right Nat.two_pos (Nat.sub_le_sub_right h.exponent 1)
  have hleast : g.leastExponent + 1 ≤ f.leastExponent := by
    have := h.fraction
    rw [leastExponent, leastExponent, Nat.one_shiftLeft, Nat.one_shiftLeft]
    omega
  obtain ⟨j, hj⟩ := Int.eq_ofNat_of_zero_le
    (show 0 ≤ f.leastExponent + k - (g.leastExponent + 1) by omega)
  refine ⟨j, ?_⟩
  rw [step, step, mul_comm, ← zpow_add_one₀ two_ne_zero]
  congr 1
  omega

/-- **The middle of two neighbours is a number of the refined format.** -/
theorem exists_middle (n : Nat) :
    ∃ m, 2 * g.magnitude m = f.magnitude n + f.magnitude (n + 1) := by
  obtain ⟨j, hj⟩ := h.exists_half_step (f.stepIndex n)
  have hunits := f.units_lt n
  have hroom : 2 * f.units n + 1 ≤ 2 ^ (g.fractionBits + 1) := by
    have := Nat.pow_le_pow_right Nat.two_pos (Nat.succ_le_succ h.fraction)
    rw [Nat.pow_succ] at this
    omega
  obtain ⟨m, hm⟩ := g.exists_magnitude_eq hroom j
  refine ⟨m, ?_⟩
  rw [magnitude_succ, hm, magnitude, hj]
  push_cast
  ring

/-- **The refined format has every number of the other one.** -/
theorem exists_magnitude (n : Nat) : ∃ m, g.magnitude m = f.magnitude n := by
  obtain ⟨j, hj⟩ := h.exists_half_step (f.stepIndex n)
  have hunits := f.units_lt n
  have hroom : 2 * f.units n ≤ 2 ^ (g.fractionBits + 1) := by
    have := Nat.pow_le_pow_right Nat.two_pos (Nat.succ_le_succ h.fraction)
    rw [Nat.pow_succ] at this
    omega
  obtain ⟨m, hm⟩ := g.exists_magnitude_eq hroom j
  refine ⟨m, ?_⟩
  rw [hm, magnitude, hj]
  push_cast
  ring

/-- A number below the infinity of a format is below that of the refined one. -/
theorem lt_infinity (hlt : g.magnitude m < f.magnitude f.infinity) : m < g.infinity := by
  have hpow : (2 : ℚ) ^ 2 ^ (f.exponentBits - 1) ≤ 2 ^ 2 ^ (g.exponentBits - 1) :=
    pow_le_pow_right₀ one_le_two
      (Nat.pow_le_pow_right Nat.two_pos (Nat.sub_le_sub_right h.exponent 1))
  rw [magnitude_infinity h.exponent_pos] at hlt
  rw [← g.magnitude_strictMono.lt_iff_lt, magnitude_infinity (h.exponent_pos.trans_le h.exponent)]
  exact hlt.trans_le hpow

end Refines

end FloatFormat

/-! ## Values as numbers with a sign -/

namespace FloatValue

/-- **Two values are the same**: both are no number, the same infinity, or the same number with the
same sign. -/
inductive Same : FloatValue → FloatValue → Prop
  /-- Both are no number. -/
  | nan : Same nan nan
  /-- Both are the same infinity. -/
  | infinite (negative : Bool) : Same (infinite negative) (infinite negative)
  /-- Both are the same number with the same sign. -/
  | finite (negative : Bool) {s t : Nat} {d e : ℤ} (h : (s * 2 ^ d : ℚ) = t * 2 ^ e) :
    Same (finite negative s d) (finite negative t e)

variable {v w : FloatValue}

theorem Same.refl (v : FloatValue) : v.Same v := by
  cases v with
  | nan => exact .nan
  | infinite negative => exact .infinite negative
  | finite negative s e => exact .finite negative rfl

theorem Same.trans {u : FloatValue} (h : v.Same w) (h' : w.Same u) : v.Same u := by
  cases h with
  | nan => exact h'
  | infinite negative => exact h'
  | finite negative h =>
    cases h' with
    | finite negative h' => exact .finite negative (h.trans h')

end FloatValue

namespace FloatKind

open FloatValue

variable {k j : FloatKind} {v w : FloatValue}

theorem fractionBits_pos (k : FloatKind) : 0 < k.format.fractionBits := by
  cases k <;> decide

/-- **Encoding does not tell values apart that are the same.** -/
theorem encode_congr (h : v.Same w) : k.encode v = k.encode w := by
  cases h with
  | nan => rfl
  | infinite negative => rfl
  | @finite negative s t d e h =>
    obtain ⟨n, hn, hencode⟩ := FloatFormat.exists_roundsTo k.fractionBits_pos s d
    obtain ⟨m, hm, hencode'⟩ := FloatFormat.exists_roundsTo k.fractionBits_pos t e
    rw [h] at hn
    obtain rfl := hn.unique hm
    rw [encode, encode, FloatFormat.encode, FloatFormat.encode, hencode, hencode']

theorem encode_finite (negative : Bool) (s : Nat) (e : ℤ) :
    k.encode (.finite negative s e) = k.pattern negative (k.format.encodeMagnitude s e) := rfl

/-- **A slot is found back from what it stands for**, unless it is no number. -/
theorem encode_decode {bits : BitVec k.width} (h : k.decode bits ≠ .nan) :
    k.encode (k.decode bits) = bits := by
  obtain ⟨negative, n, hn, rfl⟩ := exists_eq_pattern bits
  rw [decode_pattern negative hn] at h ⊢
  split
  · next hfinite =>
    rw [encode_finite, FloatFormat.encodeMagnitude_eq k.fractionBits_pos hfinite]
    rfl
  · next hge =>
    rw [if_neg hge] at h
    split
    · next heq => rw [heq]; rfl
    · next hne => exact absurd (if_neg hne) h

/-- **The format has the value**: a slot stands for it. -/
def Has (k : FloatKind) (v : FloatValue) : Prop :=
  ∃ bits : BitVec k.width, (k.decode bits).Same v

/-- The pattern for what is no number stands for it. -/
theorem decode_encode_nan (k : FloatKind) : k.decode (k.encode .nan) = .nan := by
  cases k <;> decide +kernel

/-- **A value that the format has is kept by encoding it.** -/
theorem decode_encode (h : k.Has v) : (k.decode (k.encode v)).Same v := by
  obtain ⟨bits, hbits⟩ := h
  rw [← encode_congr hbits]
  by_cases hnan : k.decode bits = .nan
  · rw [hnan, decode_encode_nan, ← hnan]
    exact hbits
  · rw [encode_decode hnan]
    exact hbits

/-- **A value of a format is one of every format that refines it.** -/
theorem Has.mono (h : k.Has v) (href : j.format.Refines k.format) : j.Has v := by
  obtain ⟨bits, hbits⟩ := h
  obtain ⟨negative, n, hn, rfl⟩ := exists_eq_pattern bits
  rw [decode_pattern negative hn] at hbits
  split at hbits
  · next hfinite =>
    obtain ⟨m, hm⟩ := href.exists_magnitude n
    have hlt : m < j.format.infinity := href.lt_infinity
      (hm.trans_lt (k.format.magnitude_strictMono hfinite))
    refine ⟨j.pattern negative m, Same.trans ?_ hbits⟩
    rw [decode_pattern negative (hlt.trans j.format.infinity_lt), if_pos hlt]
    exact .finite negative hm
  · split at hbits
    · refine ⟨j.pattern negative j.format.infinity, ?_⟩
      rwa [decode_pattern negative j.format.infinity_lt, if_neg (Nat.lt_irrefl _), if_pos rfl]
    · refine ⟨j.encode .nan, ?_⟩
      rwa [decode_encode_nan]

end FloatKind

end StridedArray
