import StridedArray.Proofs.Magnitude

/-!
# Rounding to nearest

A pattern without sign is nearest to the numbers between the middles of its
number and its neighbours' (`FloatFormat.Nearest`), and such a number is
rounded to it unless it is the middle itself and the pattern is odd
(`FloatFormat.RoundsTo`). No number is rounded to two patterns, and greater
numbers are rounded to greater patterns (`RoundsTo.le`). The number of a
pattern is rounded to that pattern, so that rounding loses nothing that the
format has.

`FloatFormat.encodeMagnitude` rounds, and stops at infinity
(`FloatFormat.exists_roundsTo`).
-/

namespace StridedArray

/-- The lesser of two numbers is nearer to what does not lie above their middle. -/
theorem abs_sub_le_iff_of_lt {a b q : ℚ} (h : a < b) : |a - q| ≤ |b - q| ↔ 2 * q ≤ a + b := by
  rw [← sq_le_sq]
  constructor <;> intro hle <;> nlinarith

/-- The greater of two numbers is nearer to what does not lie below their middle. -/
theorem abs_sub_le_iff_of_gt {a b q : ℚ} (h : a < b) : |b - q| ≤ |a - q| ↔ a + b ≤ 2 * q := by
  rw [← sq_le_sq]
  constructor <;> intro hle <;> nlinarith

/-! ## Rounding to a whole number -/

/-- **The number is rounded to the whole number**, which is nearest, and even if there is another
one. -/
structure RoundsToNat (x : ℚ) (u : Nat) : Prop where
  /-- It is at most half too great. -/
  above : 2 * x ≤ 2 * u + 1
  /-- It is at most half too small. -/
  below : 2 * (u : ℚ) ≤ 2 * x + 1
  /-- A half is not rounded down to an odd number. -/
  even_above : 2 * x = 2 * u + 1 → u % 2 = 0
  /-- Nor is it rounded up to one. -/
  even_below : 2 * (u : ℚ) = 2 * x + 1 → u % 2 = 0

/-- A whole number is rounded to itself. -/
theorem roundsToNat_natCast (u : Nat) : RoundsToNat u u := by
  refine ⟨?_, ?_, fun h => ?_, fun h => ?_⟩ <;> linarith

/-- **A quotient is rounded to nearest.** -/
theorem roundsToNat_roundQuotient (n : Nat) {d : Nat} (hd : 0 < d) :
    RoundsToNat (n / d) (roundQuotient n d) := by
  have hdiv := Nat.div_add_mod' n d
  have hmod := Nat.mod_lt n hd
  have hsucc : (n / d + 1) * d = n / d * d + d := Nat.succ_mul _ _
  have hnat : 2 * n ≤ 2 * (roundQuotient n d * d) + d ∧ 2 * (roundQuotient n d * d) ≤ 2 * n + d
      ∧ (2 * n = 2 * (roundQuotient n d * d) + d → roundQuotient n d % 2 = 0)
      ∧ (2 * (roundQuotient n d * d) = 2 * n + d → roundQuotient n d % 2 = 0) := by
    unfold roundQuotient
    dsimp only
    split <;> omega
  obtain ⟨habove, hbelow, heven, heven'⟩ := hnat
  have hd' : (0 : ℚ) < d := Nat.cast_pos.mpr hd
  -- both sides are compared after multiplication by the divisor
  have hscale : (n / d * d : ℚ) = n := div_mul_cancel₀ _ hd'.ne'
  generalize roundQuotient n d = u at habove hbelow heven heven' ⊢
  generalize (n / d : ℚ) = x at hscale ⊢
  refine ⟨le_of_mul_le_mul_right ?_ hd', le_of_mul_le_mul_right ?_ hd', fun h => heven ?_,
    fun h => heven' ?_⟩
  · have : (2 * n : ℚ) ≤ 2 * (u * d) + d := by exact_mod_cast habove
    linarith
  · have : (2 * (u * d) : ℚ) ≤ 2 * n + d := by exact_mod_cast hbelow
    linarith
  · have : (2 * n : ℚ) = 2 * (u * d) + d := by
      rw [← hscale, ← mul_assoc, h]
      ring
    exact_mod_cast this
  · have : (2 * (u * d) : ℚ) = 2 * n + d := by
      rw [← hscale, ← mul_assoc, h]
      ring
    exact_mod_cast this

/-- **A scaled number is rounded to nearest.** -/
theorem roundsToNat_roundScaled (n : Nat) (k : ℤ) :
    RoundsToNat (n * 2 ^ k) (roundScaled n k) := by
  unfold roundScaled
  split
  · next hk =>
    rw [mul_zpow_eq_shiftLeft n hk]
    exact roundsToNat_natCast _
  · next hk =>
    rw [mul_zpow_eq_div n hk, Nat.one_shiftLeft]
    exact roundsToNat_roundQuotient _ (Nat.two_pow_pos _)

namespace FloatFormat

variable {f : FloatFormat} {n m : Nat} {q r : ℚ}

/-! ## The numbers that are rounded to a pattern -/

/-- **The pattern is nearest to the number**: the number lies between the middles of the pattern and
its neighbours. -/
structure Nearest (f : FloatFormat) (q : ℚ) (n : Nat) : Prop where
  /-- It does not lie below the middle of the pattern and the one before. -/
  below : ∀ m, n = m + 1 → f.magnitude m + f.magnitude n ≤ 2 * q
  /-- It does not lie above the middle of the pattern and the next one. -/
  above : 2 * q ≤ f.magnitude n + f.magnitude (n + 1)

/-- **The number is rounded to the pattern**, which is nearest, and even if there is another one. -/
structure RoundsTo (f : FloatFormat) (q : ℚ) (n : Nat) : Prop extends f.Nearest q n where
  /-- The middle of an odd pattern and the one before is not rounded to it. -/
  even_below : ∀ m, n = m + 1 → f.magnitude m + f.magnitude n = 2 * q → n % 2 = 0
  /-- Nor is the middle of an odd pattern and the next one. -/
  even_above : 2 * q = f.magnitude n + f.magnitude (n + 1) → n % 2 = 0

/-- **A pattern is nearest exactly if no other one is nearer.** -/
theorem nearest_iff : f.Nearest q n ↔ ∀ m, |f.magnitude n - q| ≤ |f.magnitude m - q| := by
  have hmono := f.magnitude_strictMono
  constructor
  · intro h m
    rcases Nat.lt_trichotomy m n with hlt | rfl | hgt
    · -- a lesser pattern is at most the one before
      obtain ⟨p, rfl⟩ := Nat.exists_eq_succ_of_ne_zero (Nat.ne_zero_of_lt hlt)
      have hle := hmono.monotone (Nat.le_of_lt_succ hlt)
      have hmiddle := h.below p rfl
      rw [abs_sub_le_iff_of_gt (hmono hlt)]
      linarith
    · exact le_refl _
    · have hle := hmono.monotone (Nat.succ_le_of_lt hgt)
      have hmiddle := h.above
      rw [abs_sub_le_iff_of_lt (hmono hgt)]
      linarith
  · intro h
    refine ⟨?_, ?_⟩
    · rintro m rfl
      exact (abs_sub_le_iff_of_gt (hmono (Nat.lt_succ_self m))).mp (h m)
    · exact (abs_sub_le_iff_of_lt (hmono (Nat.lt_succ_self n))).mp (h (n + 1))

/-- Of two patterns at the same distance the one that is rounded to is even. -/
theorem RoundsTo.even_of_tie (h : f.RoundsTo q n) (hne : m ≠ n)
    (htie : |f.magnitude n - q| = |f.magnitude m - q|) : n % 2 = 0 := by
  have hmono := f.magnitude_strictMono
  rcases Nat.lt_or_gt_of_ne hne with hlt | hgt
  · obtain ⟨p, rfl⟩ := Nat.exists_eq_succ_of_ne_zero (Nat.ne_zero_of_lt hlt)
    have hle := hmono.monotone (Nat.le_of_lt_succ hlt)
    have hmiddle := (abs_sub_le_iff_of_lt (hmono hlt)).mp htie.ge
    exact h.even_below p rfl (le_antisymm (h.below p rfl) (by linarith))
  · have hle := hmono.monotone (Nat.succ_le_of_lt hgt)
    have hmiddle := (abs_sub_le_iff_of_gt (hmono hgt)).mp htie.ge
    exact h.even_above (le_antisymm h.above (by linarith))

/-- **Greater numbers are rounded to greater patterns.** -/
theorem RoundsTo.le (hn : f.RoundsTo q n) (hm : f.RoundsTo r m) (h : q ≤ r) : n ≤ m := by
  by_contra hlt
  obtain ⟨p, rfl⟩ := Nat.exists_eq_succ_of_ne_zero (Nat.ne_zero_of_lt (Nat.lt_of_not_le hlt))
  have hmp : m ≤ p := by omega
  have hmono := f.magnitude_strictMono.monotone
  have hbelow := hn.below p rfl
  have habove := hm.above
  have hle := hmono hmp
  have hle' : f.magnitude (m + 1) ≤ f.magnitude (p + 1) := hmono (Nat.succ_le_succ hmp)
  -- both numbers are the middle of two neighbours, of which one is odd
  have heq : m = p := by
    refine f.magnitude_strictMono.injective ?_
    linarith
  subst heq
  have heven := hn.even_below m rfl (by linarith)
  have heven' := hm.even_above (by linarith)
  omega

/-- A number is rounded to one pattern only. -/
theorem RoundsTo.unique (hn : f.RoundsTo q n) (hm : f.RoundsTo q m) : n = m :=
  Nat.le_antisymm (hn.le hm le_rfl) (hm.le hn le_rfl)

/-- **The number of a pattern is rounded to it.** -/
theorem roundsTo_magnitude (f : FloatFormat) (n : Nat) : f.RoundsTo (f.magnitude n) n := by
  have habove := f.magnitude_strictMono (Nat.lt_succ_self n)
  have hbelow : ∀ m, n = m + 1 → f.magnitude m < f.magnitude n := by
    rintro m rfl
    exact f.magnitude_strictMono (Nat.lt_succ_self m)
  refine ⟨⟨fun m hm => ?_, ?_⟩, fun m hm heq => ?_, fun heq => ?_⟩
  · linarith [hbelow m hm]
  · linarith
  · linarith [hbelow m hm]
  · linarith

/-! ## Encoding -/

section Steps

variable {k u : Nat} {x : ℚ}

/-- A number that fills the significand still does so when rounded. -/
theorem fills_of_roundsToNat (h : RoundsToNat x u) (hlt : x < 2 ^ (f.fractionBits + 1))
    (hfull : k = 0 ∨ 2 ^ f.fractionBits ≤ x) : f.Fills k u := by
  refine ⟨?_, hfull.imp_right fun hle => ?_⟩
  · have : 2 * u < 2 * 2 ^ (f.fractionBits + 1) + 1 := by
      exact_mod_cast (show (2 * u : ℚ) < 2 * 2 ^ (f.fractionBits + 1) + 1 by linarith [h.below])
    omega
  · have : 2 * 2 ^ f.fractionBits ≤ 2 * u + 1 := by
      exact_mod_cast (show (2 * 2 ^ f.fractionBits : ℚ) ≤ 2 * u + 1 by linarith [h.above])
    omega

/-- The pattern before is at least a step back, unless this one is the least of its exponent. -/
theorem magnitude_before (hfills : f.Fills k u) (hm : k * 2 ^ f.fractionBits + u = m + 1) :
    f.magnitude m + f.step k ≤ u * f.step k ∨ k ≠ 0 ∧ u = 2 ^ f.fractionBits := by
  by_cases hroom : k = 0 ∨ 2 ^ f.fractionBits < u
  · left
    obtain ⟨v, rfl⟩ : ∃ v, u = v + 1 := by
      refine Nat.exists_eq_succ_of_ne_zero fun hzero => ?_
      rcases hroom with rfl | hroom
      · rw [hzero, Nat.zero_mul] at hm
        omega
      · exact Nat.not_lt_zero _ (hzero ▸ hroom)
    obtain rfl : m = k * 2 ^ f.fractionBits + v := by omega
    rw [← magnitude_of_fills hfills]
    exact magnitude_add_step_le (hroom.imp_right Nat.le_of_lt_succ)
  · obtain ⟨hk, hle⟩ := not_or.mp hroom
    exact .inr ⟨hk, le_antisymm (not_lt.mp hle) (hfills.2.resolve_left hk)⟩

/-- **A number of steps rounded to a whole one is rounded to a pattern**, if it fills the
significand or the step is the least one. -/
theorem roundsTo_of_roundsToNat (hf : 0 < f.fractionBits) (h : RoundsToNat x u)
    (hlt : x < 2 ^ (f.fractionBits + 1)) (hfull : k = 0 ∨ 2 ^ f.fractionBits ≤ x) :
    f.RoundsTo (x * f.step k) (k * 2 ^ f.fractionBits + u) := by
  have hfills := fills_of_roundsToNat h hlt hfull
  have hstep := f.step_pos k
  have hparity : (k * 2 ^ f.fractionBits + u) % 2 = u % 2 := by
    obtain ⟨b, hb⟩ := Nat.exists_eq_succ_of_ne_zero (Nat.ne_of_gt hf)
    rw [hb, Nat.pow_succ, ← Nat.mul_assoc, Nat.mul_add_mod_self_right]
  have hnext := magnitude_add_step_le hfills.2
  have hmagnitude := magnitude_of_fills hfills
  -- rounding down does not leave an exponent
  have hbefore : ∀ m, k * 2 ^ f.fractionBits + u = m + 1 → f.magnitude m < u * f.step k
      ∧ (f.magnitude m + f.step k ≤ u * f.step k ∨ u * f.step k ≤ x * f.step k) := by
    intro m hm
    refine ⟨hmagnitude ▸ f.magnitude_strictMono (by omega), ?_⟩
    refine (magnitude_before hfills hm).imp_right fun ⟨hk, heq⟩ => ?_
    rw [heq]
    exact mul_le_mul_of_nonneg_right (by exact_mod_cast hfull.resolve_left hk) hstep.le
  have habove : 2 * (x * f.step k) ≤ 2 * (u * f.step k) + f.step k := by nlinarith [h.above]
  have hbelow : 2 * (u * f.step k) ≤ 2 * (x * f.step k) + f.step k := by nlinarith [h.below]
  refine ⟨⟨fun m hm => ?_, ?_⟩, fun m hm heq => ?_, fun heq => ?_⟩
  · obtain ⟨hlt, hcases⟩ := hbefore m hm
    rw [hmagnitude]
    rcases hcases with hback | hge <;> linarith
  · rw [hmagnitude] at hnext ⊢
    linarith
  · obtain ⟨hlt, hcases⟩ := hbefore m hm
    rw [hmagnitude] at heq
    rw [hparity]
    refine h.even_below (mul_right_cancel₀ hstep.ne' ?_)
    rcases hcases with hback | hge <;> linarith
  · rw [hmagnitude] at heq hnext
    rw [hparity]
    refine h.even_above (mul_right_cancel₀ hstep.ne' ?_)
    linarith

end Steps

/-- Counted in its step, a number has at most as many digits as the significand holds. -/
theorem scaled_lt (f : FloatFormat) (significand : Nat) (exponent : ℤ) :
    (significand * 2 ^ (exponent - f.stepExponent significand exponent) : ℚ)
      < 2 ^ (f.fractionBits + 1) := by
  have hlog : (significand : ℚ) < 2 ^ (significand.log2 + 1) := by
    exact_mod_cast Nat.lt_log2_self
  have hstep : exponent + significand.log2 - f.fractionBits ≤ f.stepExponent significand exponent :=
    le_max_left _ _
  calc (significand * 2 ^ (exponent - f.stepExponent significand exponent) : ℚ)
      < 2 ^ (significand.log2 + 1) * 2 ^ (exponent - f.stepExponent significand exponent) :=
        mul_lt_mul_of_pos_right hlog (zpow_pos two_pos _)
    _ = 2 ^ ((significand.log2 + 1 : Nat) + (exponent - f.stepExponent significand exponent)) := by
        rw [zpow_add₀ two_ne_zero, zpow_natCast]
    _ ≤ 2 ^ ((f.fractionBits + 1 : Nat) : ℤ) := zpow_le_zpow_right₀ one_le_two (by omega)
    _ = 2 ^ (f.fractionBits + 1) := zpow_natCast _ _

/-- And it has as many, unless its step is the least one. -/
theorem le_scaled {significand : Nat} {exponent : ℤ} (hpos : significand ≠ 0)
    (hstep : f.leastExponent < f.stepExponent significand exponent) :
    2 ^ f.fractionBits
      ≤ (significand * 2 ^ (exponent - f.stepExponent significand exponent) : ℚ) := by
  have hlog : (2 : ℚ) ^ significand.log2 ≤ significand := by
    exact_mod_cast Nat.log2_self_le hpos
  have heq : f.stepExponent significand exponent
      = exponent + significand.log2 - f.fractionBits :=
    (max_choice _ _).resolve_right hstep.ne'
  calc (2 : ℚ) ^ f.fractionBits
      = 2 ^ (significand.log2 + (exponent - f.stepExponent significand exponent)) := by
        rw [heq, ← zpow_natCast]
        congr 1
        omega
    _ = 2 ^ significand.log2 * 2 ^ (exponent - f.stepExponent significand exponent) := by
        rw [zpow_add₀ two_ne_zero, zpow_natCast]
    _ ≤ significand * 2 ^ (exponent - f.stepExponent significand exponent) :=
        mul_le_mul_of_nonneg_right hlog (zpow_pos two_pos _).le

/-- **A number is encoded as the pattern that it is rounded to**, or as infinity if that one is
less. -/
theorem exists_roundsTo (hf : 0 < f.fractionBits) (significand : Nat) (exponent : ℤ) :
    ∃ n, f.RoundsTo (significand * 2 ^ exponent) n
      ∧ f.encodeMagnitude significand exponent = min n f.infinity := by
  rcases Nat.eq_zero_or_pos significand with rfl | hpos
  · refine ⟨0, ?_, by simp [encodeMagnitude]⟩
    have hzero := f.roundsTo_magnitude 0
    rw [magnitude_zero] at hzero
    simpa using hzero
  · have hstep : f.leastExponent ≤ f.stepExponent significand exponent := le_max_right _ _
    obtain ⟨k, hk⟩ := Int.eq_ofNat_of_zero_le (Int.sub_nonneg.mpr hstep)
    have hround :=
      roundsToNat_roundScaled significand (exponent - f.stepExponent significand exponent)
    have hscale : (significand * 2 ^ exponent : ℚ)
        = significand * 2 ^ (exponent - f.stepExponent significand exponent) * f.step k := by
      rw [step, ← hk, mul_assoc, ← zpow_add₀ two_ne_zero]
      congr 2
      omega
    refine ⟨k * 2 ^ f.fractionBits
      + roundScaled significand (exponent - f.stepExponent significand exponent), ?_, ?_⟩
    · rw [hscale]
      refine roundsTo_of_roundsToNat hf hround (f.scaled_lt _ _) ?_
      exact or_iff_not_imp_left.mpr fun hk' => le_scaled hpos.ne' (by omega)
    · unfold encodeMagnitude
      rw [if_neg hpos.ne']
      dsimp only
      rw [hk, Nat.shiftLeft_eq]
      rfl

/-- **A number up to one of the format is encoded as the pattern that it is rounded to.** -/
theorem roundsTo_encodeMagnitude (hf : 0 < f.fractionBits) {significand : Nat} {exponent : ℤ}
    (hn : n < f.infinity) (hle : significand * 2 ^ exponent ≤ f.magnitude n) :
    f.RoundsTo (significand * 2 ^ exponent) (f.encodeMagnitude significand exponent)
      ∧ f.encodeMagnitude significand exponent < f.infinity := by
  obtain ⟨t, ht, hencode⟩ := exists_roundsTo hf significand exponent
  have hlt : t < f.infinity := (ht.le (f.roundsTo_magnitude n) hle).trans_lt hn
  rw [hencode, min_eq_left hlt.le]
  exact ⟨ht, hlt⟩

/-- **A number of the format is encoded as its own pattern.** -/
theorem encodeMagnitude_eq (hf : 0 < f.fractionBits) {significand : Nat} {exponent : ℤ}
    (hn : n < f.infinity) (h : significand * 2 ^ exponent = f.magnitude n) :
    f.encodeMagnitude significand exponent = n := by
  have hround := (roundsTo_encodeMagnitude hf hn h.le).1
  rw [h] at hround
  exact hround.unique (f.roundsTo_magnitude n)

end FloatFormat

end StridedArray
