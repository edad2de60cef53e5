import Mathlib.Algebra.Order.Field.Power
import Mathlib.Data.Rat.Cast.Order
import Mathlib.Tactic.Linarith
import Mathlib.Tactic.Ring
import StridedArray.FloatFormat

/-!
# The numbers of a format

The patterns of a format without sign count its numbers from zero on:
`FloatFormat.magnitude` is the number of a pattern, and every pattern
stands for a greater number than the one before
(`FloatFormat.magnitude_strictMono`). The numbers go on beyond the last
exponent, where the pattern of infinity stands for the number that would
come next.

A pattern is a number of **units** of a **step**. The first two exponents
share the least step, and each further one doubles it. Counted in the step
of one exponent, the least number of the next exponent is still in range
(`FloatFormat.Fills`), so that rounding up to it needs no case of its own.
-/

namespace StridedArray

/-- Scaling by a power that is not negative shifts to the left. -/
theorem mul_zpow_eq_shiftLeft (n : Nat) {k : ℤ} (h : 0 ≤ k) :
    (n * 2 ^ k : ℚ) = (n <<< k.toNat : Nat) := by
  rw [Nat.shiftLeft_eq, Nat.cast_mul, Nat.cast_pow, Nat.cast_ofNat, ← zpow_natCast,
    Int.toNat_of_nonneg h]

/-- Scaling by a negative power divides. -/
theorem mul_zpow_eq_div (n : Nat) {k : ℤ} (h : ¬0 ≤ k) :
    (n * 2 ^ k : ℚ) = n / (2 ^ (-k).toNat : Nat) := by
  rw [Nat.cast_pow, Nat.cast_ofNat, ← zpow_natCast, Int.toNat_of_nonneg (by omega), zpow_neg,
    div_inv_eq_mul]

/-- The number, negated if `negative`. -/
def negateIf (negative : Bool) (q : ℚ) : ℚ :=
  if negative then -q else q

@[simp] theorem negateIf_false (q : ℚ) : negateIf false q = q := rfl

@[simp] theorem negateIf_true (q : ℚ) : negateIf true q = -q := rfl

@[simp] theorem abs_negateIf (negative : Bool) (q : ℚ) : |negateIf negative q| = |q| := by
  cases negative with
  | false => rfl
  | true => exact abs_neg q

/-- **The number that a value stands for**, if it is finite. -/
def FloatValue.number? : FloatValue → Option ℚ
  | finite negative significand exponent => some (negateIf negative (significand * 2 ^ exponent))
  | nan | infinite _ => none

namespace FloatFormat

variable {f : FloatFormat} {n k u : Nat}

/-- How many times the least step was doubled for a pattern without sign. -/
def stepIndex (f : FloatFormat) (n : Nat) : Nat :=
  n / 2 ^ f.fractionBits - 1

/-- How many steps the number of a pattern without sign has. -/
def units (f : FloatFormat) (n : Nat) : Nat :=
  n - f.stepIndex n * 2 ^ f.fractionBits

/-- The least step, doubled `k` times. -/
def step (f : FloatFormat) (k : Nat) : ℚ :=
  2 ^ (f.leastExponent + k)

/-- **The number of a pattern without sign.** -/
def magnitude (f : FloatFormat) (n : Nat) : ℚ :=
  f.units n * f.step (f.stepIndex n)

/-- **A number of steps that fill the significand**, unless the step is the least one. It may be one
more than the significand can hold. -/
def Fills (f : FloatFormat) (k u : Nat) : Prop :=
  u ≤ 2 ^ (f.fractionBits + 1) ∧ (k = 0 ∨ 2 ^ f.fractionBits ≤ u)

theorem step_pos (f : FloatFormat) (k : Nat) : 0 < f.step k :=
  zpow_pos (by norm_num) _

/-- The step doubles. -/
theorem step_succ (f : FloatFormat) (k : Nat) : f.step (k + 1) = 2 * f.step k := by
  rw [step, step, Nat.cast_succ, ← add_assoc, zpow_add_one₀ (by norm_num), mul_comm]

/-- A pattern is made up of its steps. -/
theorem eq_add_units (f : FloatFormat) (n : Nat) :
    n = f.stepIndex n * 2 ^ f.fractionBits + f.units n := by
  have hle : f.stepIndex n * 2 ^ f.fractionBits ≤ n :=
    (Nat.mul_le_mul_right _ (Nat.sub_le _ _)).trans (Nat.div_mul_le_self _ _)
  rw [units]
  omega

theorem units_lt (f : FloatFormat) (n : Nat) : f.units n < 2 ^ (f.fractionBits + 1) := by
  have hdiv := Nat.div_add_mod n (2 ^ f.fractionBits)
  have hmod := Nat.mod_lt n (Nat.two_pow_pos f.fractionBits)
  have heq := f.eq_add_units n
  rw [stepIndex, Nat.sub_mul, Nat.mul_comm _ (2 ^ f.fractionBits)] at heq
  rw [Nat.pow_succ]
  omega

/-- The steps of a pattern fill the significand. -/
theorem fills_units (f : FloatFormat) (n : Nat) : f.Fills (f.stepIndex n) (f.units n) := by
  refine ⟨(f.units_lt n).le, ?_⟩
  rcases Nat.eq_zero_or_pos (f.stepIndex n) with hzero | hpos
  · exact .inl hzero
  · right
    have hle : (f.stepIndex n + 1) * 2 ^ f.fractionBits ≤ n := by
      rw [stepIndex] at hpos ⊢
      rw [show n / 2 ^ f.fractionBits - 1 + 1 = n / 2 ^ f.fractionBits by omega]
      exact Nat.div_mul_le_self _ _
    have heq := f.eq_add_units n
    rw [Nat.succ_mul] at hle
    omega

/-- **The number of a pattern that is put together of steps.** -/
theorem magnitude_of_fills (h : f.Fills k u) :
    f.magnitude (k * 2 ^ f.fractionBits + u) = u * f.step k := by
  obtain ⟨hle, hfull⟩ := h
  have hpos : 0 < 2 ^ f.fractionBits := Nat.two_pow_pos _
  have hdiv : (k * 2 ^ f.fractionBits + u) / 2 ^ f.fractionBits
      = k + u / 2 ^ f.fractionBits := by
    rw [Nat.add_comm, Nat.add_mul_div_right _ _ hpos, Nat.add_comm]
  rw [Nat.pow_succ] at hle
  have hcases : u < 2 ^ f.fractionBits ∨ u = 2 ^ f.fractionBits * 2
      ∨ (2 ^ f.fractionBits ≤ u ∧ u < 2 ^ f.fractionBits * 2) := by omega
  obtain hlow | rfl | ⟨hge, hlt⟩ := hcases
  · -- only the least step leaves the significand unfilled
    obtain rfl : k = 0 := hfull.resolve_right (Nat.not_le_of_lt hlow)
    have hindex : f.stepIndex (0 * 2 ^ f.fractionBits + u) = 0 := by
      rw [stepIndex, hdiv, Nat.div_eq_of_lt hlow]
    rw [magnitude, units, hindex]
    simp
  · have hindex : f.stepIndex (k * 2 ^ f.fractionBits + 2 ^ f.fractionBits * 2) = k + 1 := by
      rw [stepIndex, hdiv, Nat.mul_div_cancel_left _ hpos]
      omega
    have hunits : f.units (k * 2 ^ f.fractionBits + 2 ^ f.fractionBits * 2)
        = 2 ^ f.fractionBits := by
      rw [units, hindex, Nat.succ_mul]
      omega
    rw [magnitude, hunits, hindex, step_succ]
    push_cast
    ring
  · have hindex : f.stepIndex (k * 2 ^ f.fractionBits + u) = k := by
      rw [stepIndex, hdiv, Nat.div_eq_of_lt_le (show 1 * 2 ^ f.fractionBits ≤ u by omega)
        (by omega)]
      omega
    have hunits : f.units (k * 2 ^ f.fractionBits + u) = u := by
      rw [units, hindex]
      omega
    rw [magnitude, hunits, hindex]

/-- **From one pattern to the next it is one step.** -/
theorem magnitude_succ (f : FloatFormat) (n : Nat) :
    f.magnitude (n + 1) = f.magnitude n + f.step (f.stepIndex n) := by
  have hnext : f.Fills (f.stepIndex n) (f.units n + 1) :=
    ⟨f.units_lt n, (f.fills_units n).2.imp_right fun h => h.trans (Nat.le_succ _)⟩
  have heq : n + 1 = f.stepIndex n * 2 ^ f.fractionBits + (f.units n + 1) := by
    rw [← Nat.add_assoc, ← f.eq_add_units]
  rw [heq, magnitude_of_fills hnext, magnitude]
  push_cast
  ring

/-- **Greater patterns stand for greater numbers.** -/
theorem magnitude_strictMono (f : FloatFormat) : StrictMono f.magnitude :=
  strictMono_nat_of_lt_succ fun n => by
    rw [magnitude_succ]
    exact lt_add_of_pos_right _ (f.step_pos _)

/-- A step of a greater exponent is not less. -/
theorem step_mono (f : FloatFormat) : Monotone f.step := fun _ _ h =>
  zpow_le_zpow_right₀ (by norm_num) (by omega)

/-- A pattern put together of steps has at least their index. -/
theorem le_stepIndex (hfull : k = 0 ∨ 2 ^ f.fractionBits ≤ u) :
    k ≤ f.stepIndex (k * 2 ^ f.fractionBits + u) := by
  rcases hfull with rfl | hle
  · exact Nat.zero_le _
  · have hdiv : k + 1 ≤ (k * 2 ^ f.fractionBits + u) / 2 ^ f.fractionBits := by
      rw [Nat.le_div_iff_mul_le (Nat.two_pow_pos _), Nat.succ_mul]
      exact Nat.add_le_add_left hle _
    rw [stepIndex]
    omega

/-- The next pattern is at least a step on that is not greater than its own. -/
theorem magnitude_add_step_le (hfull : k = 0 ∨ 2 ^ f.fractionBits ≤ u) :
    f.magnitude (k * 2 ^ f.fractionBits + u) + f.step k
      ≤ f.magnitude (k * 2 ^ f.fractionBits + u + 1) := by
  rw [magnitude_succ]
  exact add_le_add_right (f.step_mono (le_stepIndex hfull)) _

theorem magnitude_zero (f : FloatFormat) : f.magnitude 0 = 0 := by
  simp [magnitude, units]

theorem magnitude_nonneg (f : FloatFormat) (n : Nat) : 0 ≤ f.magnitude n :=
  f.magnitude_zero ▸ f.magnitude_strictMono.monotone (Nat.zero_le n)

/-! ## Patterns with sign -/

theorem infinity_eq (f : FloatFormat) :
    f.infinity = (2 ^ f.exponentBits - 1) * 2 ^ f.fractionBits := by
  rw [infinity, Nat.shiftLeft_eq, Nat.one_shiftLeft]

/-- Infinity is a pattern without sign. -/
theorem infinity_lt (f : FloatFormat) : f.infinity < 2 ^ (f.exponentBits + f.fractionBits) := by
  rw [infinity_eq, Nat.pow_add]
  exact Nat.mul_lt_mul_of_pos_right (Nat.sub_lt (Nat.two_pow_pos _) Nat.one_pos)
    (Nat.two_pow_pos _)

/-- **The pattern of infinity** stands for the number after the greatest one of the format. -/
theorem magnitude_infinity (h : 0 < f.exponentBits) :
    f.magnitude f.infinity = 2 ^ 2 ^ (f.exponentBits - 1) := by
  have htwo : 2 ^ f.exponentBits = 2 * 2 ^ (f.exponentBits - 1) := by
    rw [← Nat.pow_succ', Nat.succ_eq_add_one, Nat.sub_add_cancel h]
  have hpos : 0 < 2 ^ (f.exponentBits - 1) := Nat.two_pow_pos _
  have hfills : f.Fills (2 ^ f.exponentBits - 2) (2 ^ f.fractionBits) :=
    ⟨Nat.pow_le_pow_right (by omega) (Nat.le_succ _), .inr (Nat.le_refl _)⟩
  have heq : f.infinity = (2 ^ f.exponentBits - 2) * 2 ^ f.fractionBits + 2 ^ f.fractionBits := by
    rw [infinity_eq, ← Nat.succ_mul]
    congr 1
    omega
  rw [heq, magnitude_of_fills hfills, step, leastExponent, Nat.one_shiftLeft, Nat.cast_pow,
    Nat.cast_ofNat, ← zpow_natCast, ← zpow_add₀ (by norm_num), ← zpow_natCast]
  congr 1
  push_cast [Nat.cast_sub (show 2 ≤ 2 ^ f.exponentBits by omega)]
  have hcast : (2 : ℤ) ^ f.exponentBits = 2 * 2 ^ (f.exponentBits - 1) := by exact_mod_cast htwo
  rw [hcast]
  ring

theorem signBit_eq (f : FloatFormat) (negative : Bool) :
    f.signBit negative = negative.toNat * 2 ^ (f.exponentBits + f.fractionBits) := by
  cases negative <;> simp [signBit, Nat.one_shiftLeft]

/-- The sign is not the lowest bit. -/
theorem signBit_mod_two (h : 0 < f.fractionBits) (negative : Bool) :
    f.signBit negative % 2 = 0 := by
  obtain ⟨b, hb⟩ := Nat.exists_eq_succ_of_ne_zero (Nat.ne_of_gt h)
  rw [signBit_eq, hb, Nat.add_succ, Nat.pow_succ, ← Nat.mul_assoc, Nat.mul_mod_left]

/-- **The fields of a pattern with its sign.** -/
theorem fields_signBit_add (negative : Bool) (hn : n < 2 ^ (f.exponentBits + f.fractionBits)) :
    (f.signBit negative + n) % 2 ^ f.fractionBits = n % 2 ^ f.fractionBits
      ∧ (f.signBit negative + n) / 2 ^ f.fractionBits % 2 ^ f.exponentBits = n / 2 ^ f.fractionBits
      ∧ (f.signBit negative + n) / 2 ^ (f.exponentBits + f.fractionBits) = negative.toNat := by
  have hexponent : n / 2 ^ f.fractionBits < 2 ^ f.exponentBits :=
    Nat.div_lt_of_lt_mul (by rwa [← Nat.pow_add, Nat.add_comm])
  rw [signBit_eq]
  refine ⟨?_, ?_, ?_⟩
  · rw [Nat.pow_add, ← Nat.mul_assoc, Nat.mul_add_mod_self_right]
  · rw [Nat.pow_add, ← Nat.mul_assoc, Nat.add_comm, Nat.add_mul_div_right _ _ (Nat.two_pow_pos _),
      Nat.add_mul_mod_self_right, Nat.mod_eq_of_lt hexponent]
  · rw [Nat.add_comm, Nat.add_mul_div_right _ _ (Nat.two_pow_pos _), Nat.div_eq_of_lt hn,
      Nat.zero_add]

/-- **What a pattern with its sign stands for.** -/
theorem decode_signBit_add (negative : Bool) (hn : n < 2 ^ (f.exponentBits + f.fractionBits)) :
    f.decode (f.signBit negative + n)
      = if n < f.infinity then .finite negative (f.units n) (f.leastExponent + f.stepIndex n)
        else if n = f.infinity then .infinite negative else .nan := by
  obtain ⟨hfraction, hexponent, hsign⟩ := fields_signBit_add negative hn
  have hnegative : decide (negative.toNat % 2 = 1) = negative := by cases negative <;> rfl
  have hfield := Nat.div_add_mod' n (2 ^ f.fractionBits)
  simp only [decode, Nat.one_shiftLeft, Nat.shiftRight_eq_div_pow, hfraction, hexponent, hsign,
    hnegative]
  by_cases hlast : n / 2 ^ f.fractionBits = 2 ^ f.exponentBits - 1
  · rw [hlast, ← f.infinity_eq] at hfield
    have hge : ¬n < f.infinity := by omega
    rw [if_pos hlast, if_neg hge]
    refine if_congr ?_ rfl rfl
    omega
  · have hlt : n < f.infinity := by
      have hle : n / 2 ^ f.fractionBits < 2 ^ f.exponentBits := by
        rw [← hexponent]
        exact Nat.mod_lt _ (Nat.two_pow_pos _)
      rw [f.infinity_eq]
      exact Nat.lt_mul_of_div_lt (by omega) (Nat.two_pow_pos _)
    rw [if_neg hlast, if_pos hlt, units, stepIndex]
    by_cases hleast : n / 2 ^ f.fractionBits = 0
    · rw [if_pos hleast, hleast]
      rw [hleast] at hfield
      simp only [Nat.zero_sub, Nat.cast_zero, add_zero]
      congr 1
      omega
    · rw [if_neg hleast, Nat.cast_pred (Nat.pos_of_ne_zero hleast)]
      congr 1
      rw [Nat.sub_mul]
      have hge := Nat.le_mul_of_pos_left (2 ^ f.fractionBits) (Nat.pos_of_ne_zero hleast)
      omega

end FloatFormat

/-! ## Slots -/

namespace FloatKind

variable {k : FloatKind} {n : Nat} {v : ℚ}

/-- The number that a slot stands for, if it is finite. -/
def number? (k : FloatKind) (bits : BitVec k.width) : Option ℚ :=
  (k.decode bits).number?

/-- The slot with the given sign and pattern without sign. -/
def pattern (k : FloatKind) (negative : Bool) (n : Nat) : BitVec k.width :=
  BitVec.ofNat k.width (k.format.signBit negative + n)

theorem two_pow_width (k : FloatKind) :
    2 ^ k.width = 2 * 2 ^ (k.format.exponentBits + k.format.fractionBits) := by
  rw [k.width_eq, Nat.add_assoc, Nat.pow_add]

/-- Sign and pattern without sign fill the slot. -/
theorem toNat_pattern (negative : Bool)
    (hn : n < 2 ^ (k.format.exponentBits + k.format.fractionBits)) :
    (k.pattern negative n).toNat = k.format.signBit negative + n := by
  rw [pattern, BitVec.toNat_ofNat]
  refine Nat.mod_eq_of_lt ?_
  have hsign : negative.toNat ≤ 1 := Bool.toNat_le negative
  have hle := Nat.mul_le_mul_right (2 ^ (k.format.exponentBits + k.format.fractionBits)) hsign
  rw [two_pow_width, FloatFormat.signBit_eq]
  omega

/-- **Every slot has a sign and a pattern without sign.** -/
theorem exists_eq_pattern (bits : BitVec k.width) : ∃ negative n,
    n < 2 ^ (k.format.exponentBits + k.format.fractionBits) ∧ bits = k.pattern negative n := by
  have hlt : bits.toNat < 2 * 2 ^ (k.format.exponentBits + k.format.fractionBits) :=
    k.two_pow_width ▸ bits.isLt
  have hmod := Nat.mod_lt bits.toNat
    (Nat.two_pow_pos (k.format.exponentBits + k.format.fractionBits))
  have hsign : bits.toNat / 2 ^ (k.format.exponentBits + k.format.fractionBits) < 2 :=
    Nat.div_lt_of_lt_mul (by rwa [Nat.mul_comm] at hlt)
  have hbit : ∀ q < 2, ∃ negative : Bool, negative.toNat = q := by decide
  obtain ⟨negative, hnegative⟩ := hbit _ hsign
  refine ⟨negative, _, hmod, BitVec.eq_of_toNat_eq ?_⟩
  rw [toNat_pattern _ hmod, FloatFormat.signBit_eq, hnegative, Nat.div_add_mod']

/-- **What a slot stands for**, by its sign and pattern. -/
theorem decode_pattern (negative : Bool)
    (hn : n < 2 ^ (k.format.exponentBits + k.format.fractionBits)) :
    k.decode (k.pattern negative n)
      = if n < k.format.infinity then
          .finite negative (k.format.units n) (k.format.leastExponent + k.format.stepIndex n)
        else if n = k.format.infinity then .infinite negative else .nan := by
  rw [decode, toNat_pattern _ hn, FloatFormat.decode_signBit_add _ hn]

/-- A pattern below that of infinity stands for its number. -/
theorem number?_pattern (negative : Bool) (hn : n < k.format.infinity) :
    k.number? (k.pattern negative n) = some (negateIf negative (k.format.magnitude n)) := by
  rw [number?, decode_pattern _ (hn.trans k.format.infinity_lt), if_pos hn]
  rfl

/-- **A finite slot is a sign and a pattern below that of infinity.** -/
theorem number?_eq_some {bits : BitVec k.width} :
    k.number? bits = some v ↔ ∃ negative n, n < k.format.infinity ∧ bits = k.pattern negative n
      ∧ v = negateIf negative (k.format.magnitude n) := by
  constructor
  · intro h
    obtain ⟨negative, n, hn, rfl⟩ := exists_eq_pattern bits
    have hfinite : n < k.format.infinity := by
      by_contra hge
      rw [number?, decode_pattern _ hn, if_neg hge] at h
      split at h <;> cases h
    rw [number?_pattern _ hfinite] at h
    exact ⟨negative, n, hfinite, rfl, (Option.some.inj h).symm⟩
  · rintro ⟨negative, n, hn, rfl, rfl⟩
    exact number?_pattern _ hn

end FloatKind

end StridedArray
