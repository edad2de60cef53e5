import StridedArray.Proofs.Refines
import StridedArray.SlotValue

/-!
# Doubles in float slots

A double within the range of a format is converted by rounding: at once to
`float32`, and from there in a second step to the short formats. Each step
finds a nearest number, the even one of two (`FloatKind.roundsTo_encode`).
Two steps need not: if the first one ends in the middle of two neighbours
of the short format, the second one no longer sees on which side of it the
double was (`SlotValue.ofDouble_farther`). But this is the only way to miss
a nearest number (`FloatFormat.nearest_of_two_steps`), and so the result is
nearest unless the middle was hit and the neighbour across is nearer
(`SlotValue.ofDouble_nearest_iff`).
-/

namespace StridedArray

/-! ## Two steps -/

/-- **Rounding in two steps finds a nearest number**, unless the first step ends in the middle
between the result and a nearer number. -/
theorem FloatFormat.nearest_of_two_steps {f g : FloatFormat} {n t p : Nat} {q : ℚ}
    (hrefines : g.Refines f) (hp : p < f.infinity) (hq : q ≤ f.magnitude p)
    (ht : g.RoundsTo q t) (hn : f.RoundsTo (g.magnitude t) n) (hfinite : n < f.infinity)
    (hacross : ∀ m < f.infinity, f.magnitude n + f.magnitude m = 2 * g.magnitude t →
      |f.magnitude n - q| ≤ |f.magnitude m - q|) : f.Nearest q n := by
  have hmono := f.magnitude_strictMono
  refine ⟨?_, ?_⟩
  · rintro m rfl
    by_contra hbelow
    -- the first step keeps the middle with the number before, and so it is where that step ends
    obtain ⟨c, hc⟩ := hrefines.exists_middle m
    have hkept := g.magnitude_strictMono.monotone (ht.le (g.roundsTo_magnitude c) (by linarith))
    have hsecond := hn.below m rfl
    have hle := hacross m ((Nat.lt_succ_self m).trans hfinite) (by linarith)
    rw [abs_sub_le_iff_of_gt (hmono (Nat.lt_succ_self m))] at hle
    exact hbelow hle
  · by_contra habove
    obtain ⟨c, hc⟩ := hrefines.exists_middle n
    have hkept := g.magnitude_strictMono.monotone ((g.roundsTo_magnitude c).le ht (by linarith))
    have hsecond := hn.above
    have hlt : n + 1 ≤ p := by
      refine Nat.succ_le_of_lt (hmono.lt_iff_lt.mp ?_)
      have := hmono (Nat.lt_succ_self n)
      linarith
    have hle := hacross (n + 1) (hlt.trans_lt hp) (by linarith)
    rw [abs_sub_le_iff_of_lt (hmono (Nat.lt_succ_self n))] at hle
    exact habove hle

/-! ## Numbers of a format -/

/-- The sign of two numbers does not change their distance. -/
theorem abs_negateIf_sub (negative : Bool) (a b : ℚ) :
    |negateIf negative a - negateIf negative b| = |a - b| := by
  cases negative with
  | false => rfl
  | true => rw [negateIf_true, negateIf_true, neg_sub_neg, abs_sub_comm]

/-- Different signs only take two numbers further apart. -/
theorem abs_sub_le_negateIf {a b : ℚ} (ha : 0 ≤ a) (hb : 0 ≤ b) (m n : Bool) :
    |a - b| ≤ |negateIf m a - negateIf n b| := by
  have h := abs_abs_sub_abs_le (negateIf m a) (negateIf n b)
  rwa [abs_negateIf, abs_negateIf, abs_of_nonneg ha, abs_of_nonneg hb] at h

/-- Opposite signs are as near as equal ones only if one of the numbers is zero. -/
theorem eq_zero_of_tie {a b : ℚ} {m n : Bool} (hsign : m ≠ n)
    (h : |negateIf m a - negateIf n b| = |a - b|) : a = 0 ∨ b = 0 := by
  have hsum : |a + b| = |a - b| := by
    rw [← h]
    cases m <;> cases n
    · exact absurd rfl hsign
    · rw [negateIf_false, negateIf_true, sub_neg_eq_add]
    · rw [negateIf_false, negateIf_true, ← neg_add', abs_neg]
    · exact absurd rfl hsign
  rcases abs_eq_abs.mp hsum with heq | heq
  · right
    linarith
  · left
    linarith

namespace FloatKind

variable {k : FloatKind} {v w : ℚ} {bits : BitVec k.width}

/-- **The number is one of the format.** -/
def Represents (k : FloatKind) (v : ℚ) : Prop :=
  ∃ bits : BitVec k.width, k.number? bits = some v

/-- **The number lies in the finite range of the format**, between two of its numbers. -/
def Spans (k : FloatKind) (v : ℚ) : Prop :=
  ∃ low high, k.Represents low ∧ k.Represents high ∧ low ≤ v ∧ v ≤ high

/-- **The slot holds a number of the format that is nearest**: no other one is closer. -/
def Nearest (k : FloatKind) (v : ℚ) (bits : BitVec k.width) : Prop :=
  ∃ w, k.number? bits = some w ∧ ∀ u, k.Represents u → |w - v| ≤ |u - v|

/-- **The slot holds the number that is rounded to**: a nearest one, with an even pattern if another
one is as near. -/
structure RoundsTo (k : FloatKind) (v : ℚ) (bits : BitVec k.width) : Prop where
  /-- No number of the format is closer. -/
  nearest : k.Nearest v bits
  /-- The pattern is even if another one is as close. -/
  even : ∀ u w, k.Represents u → k.number? bits = some w → u ≠ w → |u - v| = |w - v| →
    bits.toNat % 2 = 0

theorem represents_iff : k.Represents v ↔
    ∃ negative n, n < k.format.infinity ∧ v = negateIf negative (k.format.magnitude n) := by
  constructor
  · rintro ⟨bits, hbits⟩
    obtain ⟨negative, n, hn, -, hv⟩ := number?_eq_some.mp hbits
    exact ⟨negative, n, hn, hv⟩
  · rintro ⟨negative, n, hn, rfl⟩
    exact ⟨_, number?_pattern negative hn⟩

/-- A number in the finite range is at most as great as one of the format. -/
theorem Spans.exists_le {negative : Bool} {q : ℚ} (h : k.Spans (negateIf negative q)) :
    ∃ n < k.format.infinity, q ≤ k.format.magnitude n := by
  obtain ⟨low, high, hlow, hhigh, hle, hge⟩ := h
  obtain ⟨b, n, hn, rfl⟩ := represents_iff.mp hlow
  obtain ⟨c, m, hm, rfl⟩ := represents_iff.mp hhigh
  have hbound : ∀ d p, |negateIf d (k.format.magnitude p)| = k.format.magnitude p := fun d p => by
    rw [abs_negateIf, abs_of_nonneg (k.format.magnitude_nonneg p)]
  cases negative with
  | false => exact ⟨m, hm, hge.trans ((le_abs_self _).trans_eq (hbound c m))⟩
  | true =>
    have hneg := (neg_abs_le _).trans hle
    rw [hbound, negateIf_true] at hneg
    exact ⟨n, hn, neg_le_neg_iff.mp hneg⟩

section Pattern

variable {n : Nat} {q : ℚ}

/-- **A nearest pattern is a nearest slot**, with the sign of the number. -/
theorem nearest_pattern (negative : Bool) (hn : n < k.format.infinity) (hq : 0 ≤ q)
    (h : k.format.Nearest q n) : k.Nearest (negateIf negative q) (k.pattern negative n) := by
  refine ⟨_, number?_pattern negative hn, fun u hu => ?_⟩
  obtain ⟨b, m, -, rfl⟩ := represents_iff.mp hu
  rw [abs_negateIf_sub]
  exact (FloatFormat.nearest_iff.mp h m).trans
    (abs_sub_le_negateIf (k.format.magnitude_nonneg m) hq b negative)

/-- **The pattern that is rounded to is the slot that is rounded to**, with the sign of the
number. -/
theorem roundsTo_pattern (negative : Bool) (hn : n < k.format.infinity) (hq : 0 ≤ q)
    (h : k.format.RoundsTo q n) : k.RoundsTo (negateIf negative q) (k.pattern negative n) := by
  refine ⟨nearest_pattern negative hn hq h.toNearest, fun u w hu hw hne htie => ?_⟩
  obtain ⟨b, m, -, rfl⟩ := represents_iff.mp hu
  obtain rfl := Option.some.inj ((number?_pattern negative hn).symm.trans hw)
  rw [abs_negateIf_sub] at htie
  have hleast := FloatFormat.nearest_iff.mp h.toNearest
  have heven : n % 2 = 0 := by
    by_cases hmn : m = n
    · -- opposite numbers are equally near to zero only, which is rounded to zero
      rw [hmn] at hne htie
      have hzero : k.format.magnitude n = 0 := by
        refine (eq_zero_of_tie (fun hb => hne (by rw [hb])) htie).elim id fun hq₀ => ?_
        have hle := hleast 0
        rw [hq₀, k.format.magnitude_zero, sub_zero, sub_zero, abs_zero] at hle
        exact abs_eq_zero.mp (le_antisymm hle (abs_nonneg _))
      rw [hzero] at hne
      cases b <;> cases negative <;> exact absurd (by simp) hne
    · refine h.even_of_tie hmn (le_antisymm (hleast m) ?_)
      rw [← htie]
      exact abs_sub_le_negateIf (k.format.magnitude_nonneg m) hq b negative
  rw [toNat_pattern negative (hn.trans k.format.infinity_lt), Nat.add_mod, heven,
    FloatFormat.signBit_mod_two k.fractionBits_pos]

end Pattern

/-- **Encoding rounds**, if the number lies in the finite range of the format. -/
theorem roundsTo_encode {x : FloatValue} (hv : x.number? = some v) (hspan : k.Spans v) :
    k.RoundsTo v (k.encode x) := by
  cases x with
  | nan | infinite => cases hv
  | finite negative s e =>
    obtain rfl := Option.some.inj hv
    obtain ⟨n, hn, hle⟩ := hspan.exists_le
    obtain ⟨hround, hlt⟩ := FloatFormat.roundsTo_encodeMagnitude k.fractionBits_pos hn hle
    exact roundsTo_pattern negative hlt (by positivity) hround

end FloatKind

/-! ## Conversion -/

namespace FloatKind

variable {j k : FloatKind} {negative : Bool} {significand p : Nat} {exponent : ℤ}

/-- **The two steps of a conversion by way of another format**, by the patterns that they end in. -/
theorem exists_two_steps (href : j.format.Refines k.format) (negative : Bool)
    (hp : p < k.format.infinity) (hle : significand * 2 ^ exponent ≤ k.format.magnitude p) :
    ∃ t n, t < j.format.infinity ∧ n < k.format.infinity
      ∧ j.encode (.finite negative significand exponent) = j.pattern negative t
      ∧ k.encode (j.decode (j.pattern negative t)) = k.pattern negative n
      ∧ j.format.RoundsTo (significand * 2 ^ exponent) t
      ∧ k.format.RoundsTo (j.format.magnitude t) n := by
  obtain ⟨c, hc⟩ := href.exists_magnitude p
  have hlt : c < j.format.infinity :=
    href.lt_infinity (hc.trans_lt (k.format.magnitude_strictMono hp))
  obtain ⟨hfirst, ht⟩ :=
    FloatFormat.roundsTo_encodeMagnitude j.fractionBits_pos hlt (hle.trans_eq hc.symm)
  -- the first step stays below the number of the narrower format
  have hstays := j.format.magnitude_strictMono.monotone
    (hfirst.le (j.format.roundsTo_magnitude c) (hle.trans_eq hc.symm))
  obtain ⟨hsecond, hn⟩ :=
    FloatFormat.roundsTo_encodeMagnitude k.fractionBits_pos hp (hstays.trans_eq hc)
  refine ⟨_, _, ht, hn, rfl, ?_, hfirst, hsecond⟩
  rw [decode_pattern negative (ht.trans j.format.infinity_lt), if_pos ht]
  rfl

/-- A number of the format is rounded to itself. -/
theorem roundsTo_self {bits : BitVec k.width} {w : ℚ} (hw : k.number? bits = some w) :
    k.RoundsTo w bits := by
  refine ⟨⟨w, hw, fun u _ => ?_⟩, fun u w' _ hw' hne htie => ?_⟩
  · rw [sub_self, abs_zero]
    exact abs_nonneg _
  · obtain rfl := Option.some.inj (hw.symm.trans hw')
    rw [sub_self, abs_zero, abs_eq_zero, sub_eq_zero] at htie
    exact absurd htie hne

/-- A nearest number is at least as near as any other. -/
theorem Nearest.le {bits : BitVec k.width} {v w u : ℚ} (h : k.Nearest v bits)
    (hw : k.number? bits = some w) (hu : k.Represents u) : |w - v| ≤ |u - v| := by
  obtain ⟨w', hw', hleast⟩ := h
  obtain rfl := Option.some.inj (hw.symm.trans hw')
  exact hleast u hu

/-- Only a number of the format itself is nearest to it. -/
theorem Nearest.eq {bits : BitVec k.width} {v : ℚ} (h : k.Nearest v bits) (hv : k.Represents v) :
    k.number? bits = some v := by
  obtain ⟨w, hw, hleast⟩ := h
  have hle := hleast v hv
  rw [sub_self, abs_zero] at hle
  rw [hw, sub_eq_zero.mp (abs_eq_zero.mp (le_antisymm hle (abs_nonneg _)))]

end FloatKind

namespace SlotValue

open FloatFormat FloatKind

variable {k : FloatKind} {x : Double} {v : ℚ}

/-- A short format is reached by way of `float32`. -/
theorem ofDouble_of_short (hk : k ≠ .float64) (hk' : k ≠ .float32) (x : Double) :
    ofDouble (.float k) x
      = .float k (k.encode (FloatKind.float32.decode (FloatKind.float32.encode x.value))) := by
  cases k with
  | bfloat16 | float16 => rfl
  | float32 => exact absurd rfl hk'
  | float64 => exact absurd rfl hk

/-- `float32` refines the two formats that are reached by way of it. -/
theorem refines_of_short (hk : k ≠ .float64) (hk' : k ≠ .float32) :
    FloatKind.float32.format.Refines k.format := by
  cases k with
  | bfloat16 | float16 => exact ⟨by decide, by decide, by decide⟩
  | float32 => exact absurd rfl hk'
  | float64 => exact absurd rfl hk

/-- **What a double in the range of a format is converted to.** In one step, for `float32`, it is a
nearest number. For a short format a nearest `float32` comes first, and its nearest number in the
format is the result, each time the even one of two. The result is then nearest to the double itself
unless that `float32` is the middle between the result and a number nearer to the double. -/
theorem ofDouble_nearest_iff (hk : k ≠ .float64) (hv : x.value.number? = some v)
    (hspan : k.Spans v) :
    ∃ bits w single s, ofDouble (.float k) x = .float k bits ∧ k.number? bits = some w
      ∧ ofDouble (.float .float32) x = .float .float32 single
      ∧ FloatKind.float32.number? single = some s
      ∧ FloatKind.float32.RoundsTo v single ∧ k.RoundsTo s bits
      ∧ (k = .float32 → k.Nearest v bits)
      ∧ (k.Nearest v bits ↔ ∀ u, k.Represents u → w + u = 2 * s → |w - v| ≤ |u - v|) := by
  by_cases hk' : k = .float32
  · subst hk'
    have hround := roundsTo_encode hv hspan
    obtain ⟨w, hw, -⟩ := hround.nearest
    exact ⟨_, w, _, w, rfl, hw, rfl, hw, hround, roundsTo_self hw, fun _ => hround.nearest,
      fun h u hu _ => h.le hw hu, fun _ => hround.nearest⟩
  · rw [ofDouble_of_short hk hk']
    cases hx : x.value with
    | nan | infinite => rw [hx] at hv; cases hv
    | finite negative significand exponent =>
      rw [hx] at hv
      obtain rfl := Option.some.inj hv
      have hnonneg : (0 : ℚ) ≤ significand * 2 ^ exponent := by positivity
      obtain ⟨p, hp, hle⟩ := hspan.exists_le
      have href := refines_of_short hk hk'
      obtain ⟨t, n, ht, hn, hfirst, hsecond, hround, hround'⟩ :=
        exists_two_steps href negative hp hle
      have hw := number?_pattern negative hn
      rw [hfirst, hsecond]
      refine ⟨_, _, _, _, rfl, hw, by rw [ofDouble, hx, hfirst], number?_pattern negative ht,
        roundsTo_pattern negative ht hnonneg hround,
        roundsTo_pattern negative hn (magnitude_nonneg _ _) hround', fun h => absurd h hk',
        fun h u hu _ => h.le hw hu, fun hacross => ?_⟩
      refine nearest_pattern negative hn hnonneg
        (nearest_of_two_steps href hp hle hround hround' hn fun m hm hmiddle => ?_)
      have h := hacross _ ⟨_, number?_pattern negative hm⟩ ?_
      · rwa [abs_negateIf_sub, abs_negateIf_sub] at h
      · cases negative <;> simp <;> linarith

/-- A tenth, which is no number of `float16`, is converted to the one below, and that one is
nearest: the `float32` on the way lies nearer to it than to any other. -/
theorem ofDouble_nearest_tenth : ∃ v,
    (⟨0x3FB999999999999A⟩ : Double).value.number? = some v ∧ FloatKind.float16.Spans v
      ∧ ofDouble (.float .float16) ⟨0x3FB999999999999A⟩ = .float .float16 (0x2E66 : BitVec 16)
      ∧ FloatKind.float16.Nearest v (0x2E66 : BitVec 16) := by
  have hv : (⟨0x3FB999999999999A⟩ : Double).value.number? = some (0x1999999999999A / 2 ^ 56) := by
    decide +kernel
  have hzero : FloatKind.float16.Represents 0 := ⟨(0 : BitVec 16), by decide +kernel⟩
  have hone : FloatKind.float16.Represents 1 := ⟨(0x3C00 : BitVec 16), by decide +kernel⟩
  have hspan : FloatKind.float16.Spans (0x1999999999999A / 2 ^ 56) :=
    ⟨0, 1, hzero, hone, by norm_num, by norm_num⟩
  have hresult : ofDouble (.float .float16) ⟨0x3FB999999999999A⟩
      = .float .float16 (0x2E66 : BitVec 16) := by decide +kernel
  have hsingle : ofDouble (.float .float32) ⟨0x3FB999999999999A⟩
      = .float .float32 (0x3DCCCCCD : BitVec 32) := by decide +kernel
  refine ⟨_, hv, hspan, hresult, ?_⟩
  obtain ⟨bits, w, single, s, hbits, hw, hsingle', hs, -, -, -, hnearest⟩ :=
    ofDouble_nearest_iff (by decide) hv hspan
  obtain rfl : (0x2E66 : BitVec 16) = bits :=
    eq_of_heq (SlotValue.float.inj (hresult.symm.trans hbits)).2
  obtain rfl : (0x3DCCCCCD : BitVec 32) = single :=
    eq_of_heq (SlotValue.float.inj (hsingle.symm.trans hsingle')).2
  obtain rfl : (819 / 2 ^ 13 : ℚ) = w :=
    Option.some.inj ((show FloatKind.number? .float16 (0x2E66 : BitVec 16) = _ by
      decide +kernel).symm.trans hw)
  obtain rfl : (0xCCCCCD / 2 ^ 27 : ℚ) = s :=
    Option.some.inj ((show FloatKind.number? .float32 (0x3DCCCCCD : BitVec 32) = _ by
      decide +kernel).symm.trans hs)
  refine hnearest.mpr fun u _ hu => ?_
  obtain rfl : u = 2 * (0xCCCCCD / 2 ^ 27) - 819 / 2 ^ 13 := by linarith
  norm_num [abs_le, le_abs]

/-- **Two steps may miss a nearest number.** The first double above the middle of 1 and the next
number of `float16` is rounded to this middle, and from there to 1, which has an even pattern. But
the next number is nearer. -/
theorem ofDouble_farther :
    (⟨0x3FF0020000000001⟩ : Double).value.number? = some (1 + 1 / 2 ^ 11 + 1 / 2 ^ 52)
      ∧ FloatKind.float16.Spans (1 + 1 / 2 ^ 11 + 1 / 2 ^ 52)
      ∧ ofDouble (.float .float16) ⟨0x3FF0020000000001⟩ = .float .float16 (0x3C00 : BitVec 16)
      ∧ ¬FloatKind.float16.Nearest (1 + 1 / 2 ^ 11 + 1 / 2 ^ 52) (0x3C00 : BitVec 16) := by
  have hone : FloatKind.number? .float16 (0x3C00 : BitVec 16) = some 1 := by decide +kernel
  have hnext : FloatKind.float16.Represents (1 + 1 / 2 ^ 10) :=
    ⟨(0x3C01 : BitVec 16), by decide +kernel⟩
  refine ⟨by decide +kernel, ⟨1, _, ⟨_, hone⟩, hnext, by norm_num, by norm_num⟩, by decide +kernel,
    fun h => ?_⟩
  have hle := h.le hone hnext
  norm_num [abs_le, le_abs] at hle

end SlotValue

end StridedArray
