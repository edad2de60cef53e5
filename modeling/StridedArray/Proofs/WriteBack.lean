import StridedArray.Proofs.Nearest
import StridedArray.Proofs.Reachable
import StridedArray.Proofs.Truncation

/-!
# Writing back what was read

Slots are read and written as doubles. Doubles have every number of the
other formats, and every integer of up to 53 digits. So a slot that is read
and then written with the double is left as it was, down to its bits, unless
it holds a longer integer: of these, doubles have only some
(`SlotValue.Survives`). The greatest integer of 64 bits is none of them, but
it is found back all the same: the double next to it lies beyond the end of
the range.

The bytes of a slot are those of a value in every storage that was made
(`Storage.Made.encoded`). So a value that survives leaves the storage as a
whole as it was, and only such a value does (`Storage.writeBack_eq_iff`).
-/

namespace StridedArray

/-! ## Integers as doubles -/

namespace FloatFormat

variable {f : FloatFormat} {n u : Nat}

/-- **A natural number that the significand can hold is one of the format.** -/
theorem exists_magnitude_natCast (hleast : f.leastExponent ≤ 0)
    (hu : u ≤ 2 ^ (f.fractionBits + 1)) : ∃ n, f.magnitude n = u := by
  obtain ⟨k, hk⟩ := Int.eq_ofNat_of_zero_le (neg_nonneg.mpr hleast)
  obtain ⟨n, hn⟩ := f.exists_magnitude_eq hu k
  refine ⟨n, hn.trans ?_⟩
  rw [step, show f.leastExponent + (k : ℤ) = 0 by omega, zpow_zero, mul_one]

/-- **A number beyond the significand is a natural number**: its step is. -/
theorem exists_natCast_of_le (h : 2 ^ (f.fractionBits + 1) ≤ f.magnitude n) :
    ∃ m : Nat, f.magnitude n = m := by
  have hunits : (f.units n : ℚ) < 2 ^ (f.fractionBits + 1) := by exact_mod_cast f.units_lt n
  have hexponent : 0 ≤ f.leastExponent + f.stepIndex n := by
    by_contra hneg
    have hstep : f.step (f.stepIndex n) ≤ 1 := zpow_le_one_of_nonpos₀ one_le_two (by omega)
    have hle := mul_le_mul_of_nonneg_left hstep (Nat.cast_nonneg (α := ℚ) (f.units n))
    rw [magnitude] at h
    linarith
  exact ⟨_, mul_zpow_eq_shiftLeft _ hexponent⟩

end FloatFormat

namespace FloatKind

variable {i : ℤ}

/-- The sign of an integer and its absolute value. -/
theorem negateIf_natAbs (i : ℤ) : negateIf (i < 0) (i.natAbs : ℚ) = i := by
  rcases lt_or_ge i 0 with hneg | hpos
  · rw [decide_eq_true hneg, negateIf_true, Nat.cast_natAbs, abs_of_neg hneg]
    push_cast
    ring
  · rw [decide_eq_false hpos.not_gt, negateIf_false, Nat.cast_natAbs, abs_of_nonneg hpos]

/-- **Integers of up to 53 digits are doubles.** -/
theorem represents_intCast (h : i.natAbs ≤ 2 ^ 53) : FloatKind.float64.Represents i := by
  obtain ⟨n, hn⟩ := FloatFormat.exists_magnitude_natCast (f := FloatKind.float64.format)
    (by decide) h
  refine represents_iff.mpr ⟨decide (i < 0), n, ?_, by rw [hn, negateIf_natAbs]⟩
  rw [← FloatKind.float64.format.magnitude_strictMono.lt_iff_lt, hn,
    FloatFormat.magnitude_infinity (by decide)]
  calc (i.natAbs : ℚ) ≤ 2 ^ 53 := by exact_mod_cast h
    _ < 2 ^ 2 ^ 10 := pow_lt_pow_right₀ one_lt_two (by norm_num)

/-- The ends of the widest range bound the doubles of all integers. -/
theorem spans_intCast (h : i.natAbs ≤ 2 ^ 63) : FloatKind.float64.Spans i := by
  refine ⟨-2 ^ 63, 2 ^ 63, ⟨(0xC3E0000000000000 : BitVec 64), by decide +kernel⟩,
    ⟨(0x43E0000000000000 : BitVec 64), by decide +kernel⟩, ?_, ?_⟩
  · have hle : -2 ^ 63 ≤ i := by omega
    exact_mod_cast hle
  · have hle : i ≤ 2 ^ 63 := by omega
    exact_mod_cast hle

/-- On the way to zero, a long integer passes one of 53 digits. -/
theorem exists_represents_between (h : 2 ^ 53 ≤ i.natAbs) :
    ∃ u : ℤ, FloatKind.float64.Represents u ∧ |(u - i : ℚ)| = |(i : ℚ)| - 2 ^ 53 := by
  rcases le_total 0 i with hpos | hneg
  · have hle : (2 : ℚ) ^ 53 ≤ i := by exact_mod_cast (by omega : (2 : ℤ) ^ 53 ≤ i)
    refine ⟨2 ^ 53, represents_intCast (by decide), ?_⟩
    rw [Int.cast_pow, Int.cast_ofNat, abs_sub_comm, abs_of_nonneg (sub_nonneg.mpr hle),
      abs_of_nonneg (by linarith)]
  · have hle : (i : ℚ) ≤ -2 ^ 53 := by exact_mod_cast (by omega : i ≤ -2 ^ 53)
    refine ⟨-2 ^ 53, represents_intCast (by decide), ?_⟩
    rw [Int.cast_neg, Int.cast_pow, Int.cast_ofNat, abs_of_nonneg (sub_nonneg.mpr hle),
      abs_of_nonpos (by linarith)]
    ring

/-- **The double nearest to an integer is an integer.** -/
theorem exists_int_of_nearest {bits : BitVec FloatKind.float64.width}
    (h : FloatKind.float64.Nearest i bits) :
    ∃ j : ℤ, FloatKind.float64.number? bits = some (j : ℚ) := by
  by_cases hshort : FloatKind.float64.Represents i
  · exact ⟨i, h.eq hshort⟩
  · -- the double is no shorter than 53 digits, and so its step is an integer
    have hlong : 2 ^ 53 ≤ i.natAbs := by
      by_contra hlt
      exact hshort (represents_intCast (Nat.le_of_not_le hlt))
    obtain ⟨u, hu, hdistance⟩ := exists_represents_between hlong
    obtain ⟨w, hw, hleast⟩ := h
    obtain ⟨negative, n, -, -, rfl⟩ := number?_eq_some.mp hw
    have hbeyond : 2 ^ 53 ≤ FloatKind.float64.format.magnitude n := by
      have hle := hleast u hu
      have htriangle := abs_sub_abs_le_abs_sub (i : ℚ)
        (negateIf negative (FloatKind.float64.format.magnitude n))
      rw [abs_negateIf, abs_of_nonneg (FloatFormat.magnitude_nonneg _ n), abs_sub_comm] at htriangle
      linarith
    obtain ⟨m, hm⟩ := FloatFormat.exists_natCast_of_le hbeyond
    rw [hw, hm]
    cases negative with
    | false => exact ⟨m, rfl⟩
    | true => exact ⟨-m, by rw [negateIf_true, Int.cast_neg, Int.cast_natCast]⟩

end FloatKind

namespace Double

open FloatKind

variable {i : ℤ}

/-- **An integer becomes an integer as a double**, and the same one if there is such a double. -/
theorem exists_int_ofInt (h : i.natAbs ≤ 2 ^ 63) :
    ∃ j : ℤ, (ofInt i).value.number? = some (j : ℚ)
      ∧ (j = i ↔ FloatKind.float64.Represents i) := by
  have hround : FloatKind.float64.RoundsTo i (ofInt i).bits :=
    roundsTo_encode (x := .finite (i < 0) i.natAbs 0)
      (by rw [FloatValue.number?, zpow_zero, mul_one, negateIf_natAbs]) (spans_intCast h)
  obtain ⟨j, hj⟩ := exists_int_of_nearest hround.nearest
  refine ⟨j, hj, fun hsame => ⟨_, hsame ▸ hj⟩, fun hrepresents => ?_⟩
  exact_mod_cast Option.some.inj (hj.symm.trans (hround.nearest.eq hrepresents))

end Double

namespace IntKind

variable {k : IntKind} {i : ℤ}

theorem natAbs_le (hlow : k.least ≤ i) (hhigh : i ≤ k.greatest) : i.natAbs ≤ 2 ^ 63 := by
  cases k <;> simp only [least, greatest] at hlow hhigh <;> omega

/-- The lower end of a range is a double. -/
theorem represents_least (k : IntKind) : FloatKind.float64.Represents k.least := by
  cases k with
  | uint8 | uint32 | int8 | int32 => exact FloatKind.represents_intCast (by decide)
  | int64 => exact ⟨(0xC3E0000000000000 : BitVec 64), by decide +kernel⟩

/-- **An integer of the range is found back from its double** if it is one, or the greatest of the
range. -/
theorem truncateWithin_ofInt_eq_iff (hlow : k.least ≤ i) (hhigh : i ≤ k.greatest) :
    (Double.ofInt i).value.truncateWithin k.least k.greatest = i
      ↔ FloatKind.float64.Represents i ∨ i = k.greatest := by
  obtain ⟨j, hj, hsame⟩ := Double.exists_int_ofInt (natAbs_le hlow hhigh)
  constructor
  · intro hback
    rw [FloatValue.truncateWithin_of_number hj, truncate_intCast] at hback
    by_cases hleast : i = k.least
    · exact .inl (hleast ▸ k.represents_least)
    · rcases eq_or_ne i k.greatest with hgreatest | hgreatest
      · exact .inr hgreatest
      · -- strictly inside of the range nothing is cut off
        exact .inl (hsame.mp (by omega))
  · rintro (hrepresents | rfl)
    · rw [FloatValue.truncateWithin_of_number hj, truncate_intCast, hsame.mpr hrepresents,
        min_eq_right hhigh, max_eq_right hlow]
    · exact k.truncateWithin_ofInt_greatest

end IntKind

/-! ## Values that survive -/

namespace SlotValue

variable {v : SlotValue}

/-- **The value is not a number.** -/
def IsNaN : SlotValue → Prop
  | float k bits => k.decode bits = .nan
  | bool _ | int _ _ => False

/-- **The value survives as a double.** Of the integers of 64 bits, those do that are doubles, and
the greatest one. -/
def Survives : SlotValue → Prop
  | int .int64 bits => FloatKind.float64.Represents (IntKind.int64.decode bits)
      ∨ IntKind.int64.decode bits = IntKind.int64.greatest
  | _ => True

/-- `float64` refines every other format. -/
theorem refines_of_ne {k : FloatKind} (hk : k ≠ .float64) :
    FloatKind.float64.format.Refines k.format := by
  cases k with
  | bfloat16 | float16 | float32 => exact ⟨by decide, by decide, by decide⟩
  | float64 => exact absurd rfl hk

theorem toDouble_float {k : FloatKind} (hk : k ≠ .float64) (bits : BitVec k.width) :
    toDouble (.float k bits) = .ofValue (k.decode bits) := by
  cases k with
  | bfloat16 | float16 | float32 => rfl
  | float64 => exact absurd rfl hk

/-- **A float is found back from its double**, unless it is not a number. -/
theorem ofDouble_toDouble_float {k : FloatKind} {bits : BitVec k.width}
    (h : k.decode bits ≠ .nan) :
    ofDouble (.float k) (toDouble (.float k bits)) = .float k bits := by
  by_cases hk : k = .float64
  · subst hk
    rfl
  have hhas : k.Has (k.decode bits) := ⟨bits, .refl _⟩
  have hdouble : (Double.ofValue (k.decode bits)).value.Same (k.decode bits) :=
    FloatKind.decode_encode (hhas.mono (refines_of_ne hk))
  rw [toDouble_float hk]
  by_cases hk' : k = .float32
  · subst hk'
    rw [ofDouble, FloatKind.encode_congr hdouble, FloatKind.encode_decode h]
  · have hsingle := FloatKind.decode_encode (hhas.mono (refines_of_short hk hk'))
    rw [ofDouble_of_short hk hk', FloatKind.encode_congr hdouble, FloatKind.encode_congr hsingle,
      FloatKind.encode_decode h]

/-- **An integer is found back from its double** if it is one, or the greatest of its range. -/
theorem ofDouble_toDouble_int (k : IntKind) (bits : BitVec k.width) :
    ofDouble (.int k) (toDouble (.int k bits)) = .int k bits
      ↔ FloatKind.float64.Represents (k.decode bits) ∨ k.decode bits = k.greatest := by
  obtain ⟨hlow, hhigh⟩ := k.decode_mem bits
  rw [← IntKind.truncateWithin_ofInt_eq_iff hlow hhigh, ← IntKind.decode_encode_ofDouble]
  constructor
  · intro hback
    exact congrArg k.decode (eq_of_heq (SlotValue.int.inj hback).2)
  · intro hback
    have hbits := congrArg k.encode hback
    rw [k.encode_decode, k.encode_decode] at hbits
    exact congrArg (SlotValue.int k) hbits

/-- **A value that is a number is found back from its double** if and only if it survives. -/
theorem ofDouble_toDouble (h : ¬v.IsNaN) : ofDouble v.kind v.toDouble = v ↔ v.Survives := by
  cases v with
  | bool b => cases b <;> simp only [Survives, iff_true] <;> decide +kernel
  | float k bits => exact iff_of_true (ofDouble_toDouble_float h) trivial
  | int k bits =>
    refine (ofDouble_toDouble_int k bits).trans ?_
    cases k with
    | int64 => exact Iff.rfl
    | uint8 | uint32 | int8 | int32 =>
      obtain ⟨hlow, hhigh⟩ := IntKind.decode_mem _ bits
      simp only [IntKind.least, IntKind.greatest] at hlow hhigh
      exact iff_of_true (.inl (FloatKind.represents_intCast (by omega))) trivial

end SlotValue

/-! ## Storages -/

/-- Zero takes bytes that are zero. -/
theorem LittleEndian.encode_zero (count : Nat) : encode count 0 = List.replicate count 0 := by
  induction count with
  | zero => rfl
  | succ count ih =>
    rw [encode, Nat.zero_div, ih]
    rfl

/-- Bytes that are zero are those of a value. -/
theorem SlotValue.encode_ofPattern_zero (k : SlotKind) :
    (ofPattern k 0).encode = List.replicate k.bytes 0 := by
  have hpattern : (ofPattern k 0).pattern = 0 := by
    cases k with
    | bool => rfl
    | float f => exact BitVec.toNat_ofNat 0 f.width
    | int r => exact BitVec.toNat_ofNat 0 r.width
  rw [encode, hpattern, kind_ofPattern, LittleEndian.encode_zero]

namespace Storage

variable {s s' : Storage} {type : ElementType} {size i : Nat} {v : SlotValue}

/-- **Every slot holds the bytes of a value.** Other bytes than 0 and 1 are no truth value, though
they can be read as one. -/
def Encoded (s : Storage) : Prop :=
  ∀ i < s.len, ∃ v : SlotValue, v.kind = s.type.slotKind
    ∧ (s.bytes.drop (i * s.type.slotBytes)).take s.type.slotBytes = v.encode

theorem encoded_of_zeros (h : zeros type size = .ok s) : s.Encoded := by
  obtain ⟨-, rfl⟩ := zeros_eq_ok.mp h
  intro i hi
  have hbytes : (i + 1) * type.slotBytes ≤ size * type.slotBytes :=
    (succ_mul_slotBytes_le hi).trans_eq List.length_replicate
  rw [Nat.succ_mul] at hbytes
  have hroom : min type.slotBytes (size * type.slotBytes - i * type.slotBytes)
      = type.slotBytes := by omega
  refine ⟨.ofPattern type.slotKind 0, SlotValue.kind_ofPattern _ _, ?_⟩
  rw [SlotValue.encode_ofPattern_zero, List.drop_replicate, List.take_replicate, hroom]
  rfl

/-- A slot that is written holds the bytes of the value, and the others what they held before. -/
theorem Encoded.set (hs : s.Encoded) (h : s.set i v = .ok s') : s'.Encoded := by
  obtain ⟨hi, hv, rfl⟩ := set_eq_ok.mp h
  intro j hj
  rw [len_replace hi hv] at hj
  have hnew : v.encode.length = s.type.slotBytes := by
    rw [SlotValue.length_encode, hv]
    rfl
  have hslot := slot_replaced hnew (succ_mul_slotBytes_le hi) (succ_mul_slotBytes_le hj)
  rw [type_replace, replace, hslot]
  split
  · exact ⟨v, hv, rfl⟩
  · exact hs j hj

theorem Encoded.writeAllFrom {values : List Double} (hs : s.Encoded)
    (h : s.writeAllFrom i values = .ok s') : s'.Encoded := by
  induction values generalizing s i with
  | nil =>
    obtain rfl := Except.ok.inj h
    exact hs
  | cons x values ih =>
    obtain ⟨s₁, hwrite, hrest⟩ := Outcome.bind_eq_ok.mp h
    exact ih (hs.set hwrite) hrest

/-- **In a storage that was made, every slot holds the bytes of a value.** -/
theorem Made.encoded (h : s.Made) : s.Encoded := by
  induction h with
  | zeros h => exact encoded_of_zeros h
  | ofValues h =>
    obtain ⟨zeroed, hzeros, hrest⟩ := Outcome.bind_eq_ok.mp h
    exact (encoded_of_zeros hzeros).writeAllFrom hrest
  | set hs h ih => exact ih.set h

/-- **Writing the value that a slot holds changes nothing.** -/
theorem Encoded.replace_get (hs : s.Encoded) (hi : i < s.len) :
    ∃ v, s.get i = .ok v ∧ v.kind = s.type.slotKind ∧ s.replace i v.encode = s := by
  obtain ⟨v, hkind, hslot⟩ := hs i hi
  refine ⟨v, ?_, hkind, ?_⟩
  · rw [get, checkSlot_of_lt hi, hslot, ← hkind]
    exact SlotValue.decode_encode v
  · have hbytes : s.bytes.take (i * s.type.slotBytes) ++ v.encode
        ++ s.bytes.drop ((i + 1) * s.type.slotBytes) = s.bytes := by
      rw [← hslot, List.append_assoc, Nat.succ_mul, ← List.drop_drop, List.take_append_drop,
        List.take_append_drop]
    rw [replace, hbytes]

/-- **Writing back what was read.** A slot that is there is read as a double and takes this double,
and no other slot changes. Unless the slot holds no number, the storage as a whole is what it was if
and only if the value survives as a double, which is when converting it to a double and back gives
the value. -/
theorem writeBack_eq_iff (hs : s.Made) (hi : i < s.len) :
    ∃ v x s', s.get i = .ok v ∧ s.readDouble i = .ok x ∧ s.writeDouble i x = .ok s'
      ∧ (∀ j < s.len, j ≠ i → s'.get j = s.get j)
      ∧ (¬v.IsNaN → (s' = s ↔ v.Survives))
      ∧ ∀ u : SlotValue, ¬u.IsNaN → (.ofDouble u.kind u.toDouble = u ↔ u.Survives) := by
  obtain ⟨v, hget, hkind, hself⟩ := hs.encoded.replace_get hi
  have hnew := SlotValue.kind_ofDouble s.type.slotKind v.toDouble
  refine ⟨v, v.toDouble, _, hget, by rw [readDouble, hget]; rfl, set_of_lt hi hnew,
    fun j hj hne => by rw [get_replace hi hnew hj, if_neg hne], fun hnan => ?_,
    fun u => SlotValue.ofDouble_toDouble⟩
  rw [← SlotValue.ofDouble_toDouble hnan, hkind]
  constructor
  · intro hsame
    have hslot := get_replace hi hnew hi
    rw [if_pos rfl, hsame, hget] at hslot
    exact (Except.ok.inj hslot).symm
  · intro hback
    rw [hback, hself]

/-- The greatest integer of 64 bits is read as the double above it, and still written back. -/
theorem writeBack_greatest :
    let s : Storage := ⟨.int64, List.replicate 7 0xFF ++ [0x7F]⟩
    let v : SlotValue := .int .int64 (0x7FFFFFFFFFFFFFFF : BitVec 64)
    s.Made ∧ 0 < s.len ∧ s.get 0 = .ok v ∧ s.readDouble 0 = .ok ⟨0x43E0000000000000⟩
      ∧ s.writeDouble 0 ⟨0x43E0000000000000⟩ = .ok s := by
  intro s v
  have hget : s.get 0 = .ok v := by decide +kernel
  have hread : s.readDouble 0 = .ok ⟨0x43E0000000000000⟩ := by decide +kernel
  have hzeros : zeros .int64 1 = .ok ⟨.int64, List.replicate 8 0⟩ := by decide +kernel
  have hset : set ⟨.int64, List.replicate 8 0⟩ 0 v = .ok s := by decide +kernel
  have hmade : s.Made := .set (.zeros hzeros) hset
  have hlen : 0 < s.len := by decide +kernel
  obtain ⟨v', x, s', hv, hx, hwrite, -, hback, -⟩ := writeBack_eq_iff hmade hlen
  obtain rfl : v = v' := Except.ok.inj (hget.symm.trans hv)
  obtain rfl := Except.ok.inj (hread.symm.trans hx)
  obtain rfl : s' = s := (hback id).mpr (.inr (by decide +kernel))
  exact ⟨hmade, hlen, hget, hread, hwrite⟩

/-- **A long integer may not be found back.** The one after `2 ^ 53` is no double. It is read as
`2 ^ 53`, and that is what the slot then holds. -/
theorem writeBack_loses :
    let s : Storage := ⟨.int64, [1, 0, 0, 0, 0, 0, 0x20, 0]⟩
    let s' : Storage := ⟨.int64, [0, 0, 0, 0, 0, 0, 0x20, 0]⟩
    let v : SlotValue := .int .int64 (0x20000000000001 : BitVec 64)
    s.Made ∧ s.get 0 = .ok v ∧ ¬v.IsNaN
      ∧ s.readDouble 0 = .ok ⟨0x4340000000000000⟩
      ∧ s.writeDouble 0 ⟨0x4340000000000000⟩ = .ok s' ∧ s' ≠ s := by
  intro s s' v
  have hzeros : zeros .int64 1 = .ok ⟨.int64, List.replicate 8 0⟩ := by decide +kernel
  have hset : set ⟨.int64, List.replicate 8 0⟩ 0 v = .ok s := by decide +kernel
  have hmade : s.Made := .set (.zeros hzeros) hset
  exact ⟨hmade, by decide +kernel, id, by decide +kernel, by decide +kernel, by decide +kernel⟩

end Storage

end StridedArray
