import StridedArray.Proofs.Reach

/-!
# Row-major layouts

The row-major strides of a shape with signed extents are exact
(`Layout.displacement_packedStrides`): the item of rank `k` lies `k` items
above the first one. The converse concern is that of a shape whose extents
are out of range. Its strides may have wrapped around, but then some item
does not lie in memory (`Layout.signed_of_packed`).
-/

namespace StridedArray

namespace Shape

/-- The extents of the faster axes are signed as well. -/
theorem signed_cons {n : Nat} {s : Shape} :
    Signed (n :: s) ↔ n < 0x8000000000000000 ∧ s.Signed :=
  List.forall_mem_cons

/-- The last position has the greatest rank. -/
theorem ravel_le {s : Shape} {p : List Nat} (hp : s.Contains p) : s.ravel p ≤ s.count - 1 :=
  Nat.le_sub_one_of_lt (ravel_lt hp)

/-- An axis is single if a faster one has an extent out of range, as the number of positions would be
out of range otherwise. -/
theorem eq_zero_of_not_signed {n c : Nat} {s : Shape} {p : List Nat} (hs : ¬s.Signed)
    (hcount : Word.IsUnsigned (count (n :: s))) (hp : Contains (n :: s) (c :: p)) : c = 0 := by
  have hpos := count_pos_of_contains hp.2
  have hlarge : 0x8000000000000000 ≤ count s :=
    Nat.le_of_not_lt fun hlt => hs (signed_of_count hpos hlt)
  have hmul : n * 0x8000000000000000 ≤ n * count s := Nat.mul_le_mul_left n hlarge
  have hc := hp.1
  rw [count_cons, Word.IsUnsigned] at hcount
  omega

end Shape

namespace Layout

/-- The pitch of an axis is as many items as the faster axes have positions. -/
theorem pitch_eq_ok {inner step : Int} {s : Shape} (hs : s.Signed)
    (h : pitch inner s = .ok step) : step = inner * s.count := by
  induction s generalizing step with
  | nil =>
    obtain rfl := Except.ok.inj h
    exact (Int.mul_one inner).symm
  | cons n s ih =>
    obtain ⟨hn, hs⟩ := Shape.signed_cons.mp hs
    obtain ⟨faster, hfaster, h⟩ := Outcome.bind_eq_ok.mp h
    obtain ⟨-, rfl⟩ := Word.signed_eq_ok.mp h
    rw [ih hs hfaster, Word.toSigned_of_lt hn, Shape.count_cons, Int.natCast_mul, Int.mul_assoc,
      Int.mul_comm (n : Int)]

/-- The stride of the slowest axis, and the strides of the others. -/
theorem packedStrides_cons_eq_ok {inner : Int} {n : Nat} {s : Shape} {strides : List Int} :
    packedStrides inner (n :: s) = .ok strides
      ↔ ∃ step rest, pitch inner s = .ok step ∧ packedStrides inner s = .ok rest
        ∧ strides = step :: rest := by
  constructor
  · intro h
    obtain ⟨rest, hrest, h⟩ := Outcome.bind_eq_ok.mp h
    obtain ⟨step, hstep, h⟩ := Outcome.bind_eq_ok.mp h
    exact ⟨step, rest, hstep, hrest, (Except.ok.inj h).symm⟩
  · rintro ⟨step, rest, hstep, hrest, rfl⟩
    rw [packedStrides, hrest, hstep]
    rfl

/-- There is one row-major stride per axis. -/
theorem length_packedStrides {inner : Int} {s : Shape} {strides : List Int}
    (h : packedStrides inner s = .ok strides) : strides.length = s.length := by
  induction s generalizing strides with
  | nil =>
    obtain rfl := Except.ok.inj h
    rfl
  | cons n s ih =>
    obtain ⟨step, rest, -, hrest, rfl⟩ := packedStrides_cons_eq_ok.mp h
    rw [List.length_cons, List.length_cons, ih hrest]

/-- **Items follow each other in the order of their ranks**, if the extents are signed words or the
number of positions is an unsigned one. In the second case an extent may be out of range, and then
the strides of the slower axes have wrapped around. But those axes are single. -/
theorem displacement_packed {inner : Int} {s : Shape} {strides : List Int} {p : List Nat}
    (hs : s.Signed ∨ Word.IsUnsigned s.count) (h : packedStrides inner s = .ok strides)
    (hp : s.Contains p) : displacement p strides = inner * s.ravel p := by
  induction s generalizing strides p with
  | nil =>
    cases p with
    | nil => exact (Int.mul_zero inner).symm
    | cons c p => exact hp.elim
  | cons n s ih =>
    cases p with
    | nil => exact hp.elim
    | cons c p =>
      obtain ⟨step, rest, hstep, hrest, rfl⟩ := packedStrides_cons_eq_ok.mp h
      have hn : 0 < n := Nat.zero_lt_of_lt hp.1
      have hfaster : Shape.Signed s ∨ Word.IsUnsigned (Shape.count s) := hs.imp
        (fun hs => (Shape.signed_cons.mp hs).2)
        (fun hcount => Nat.lt_of_le_of_lt (Nat.le_mul_of_pos_left _ hn) hcount)
      have hmove : (c : Int) * step = inner * (c * Shape.count s : Nat) := by
        by_cases hsigned : Shape.Signed s
        · rw [pitch_eq_ok hsigned hstep, Int.natCast_mul, Int.mul_left_comm]
        · have hsingle := Shape.eq_zero_of_not_signed hsigned
            (hs.resolve_left fun hs => hsigned (Shape.signed_cons.mp hs).2) hp
          simp [hsingle]
      rw [displacement_cons, ih hfaster hrest hp.2, hmove, Shape.ravel, Int.natCast_add,
        Int.mul_add]

/-- **In a row-major layout items follow each other in the order of their ranks.** -/
theorem displacement_packedStrides {inner : Int} {s : Shape} {strides : List Int} {p : List Nat}
    (hs : s.Signed) (h : packedStrides inner s = .ok strides) (hp : s.Contains p) :
    displacement p strides = inner * s.ravel p :=
  displacement_packed (.inl hs) h hp

/-- The last item of a row-major layout is the highest one. -/
theorem greatestShift_packedStrides {inner : Int} {s : Shape} {strides : List Int}
    (hinner : 0 ≤ inner) (hs : s.Signed) (hpos : 0 < s.count)
    (h : packedStrides inner s = .ok strides) :
    greatestShift s strides = inner * ((s.count - 1 : Nat) : Int) := by
  obtain ⟨p, hp, hshift⟩ := exists_displacement_eq_greatestShift strides hpos
  have hlast := Shape.contains_unravel (show s.count - 1 < s.count by omega)
  have hupper := (displacement_mem_shift strides hlast).2
  rw [displacement_packedStrides hs h hlast, Shape.ravel_unravel (by omega)] at hupper
  have hlower : inner * (s.ravel p : Int) ≤ inner * ((s.count - 1 : Nat) : Int) :=
    Int.mul_le_mul_of_nonneg_left (Int.ofNat_le.mpr (Shape.ravel_le hp)) hinner
  rw [← hshift, displacement_packedStrides hs h hp] at hupper ⊢
  exact Int.le_antisymm hlower hupper

/-- **Where every item of row-major strides lies in memory** the extents are signed, so that the
strides have not wrapped around. -/
theorem signed_of_packed {inner slot : Int} {s : Shape} {strides : List Int}
    (hinner : 0 < inner) (hpos : 0 < s.count) (h : packedStrides inner s = .ok strides)
    (hmemory : InMemory s strides slot) : s.Signed := by
  induction s generalizing strides slot with
  | nil => exact nofun
  | cons n s ih =>
    have hlength := length_packedStrides h
    obtain ⟨step, rest, hstep, hrest, rfl⟩ := packedStrides_cons_eq_ok.mp h
    have hn : 0 < n := Nat.pos_of_mul_pos_right hpos
    have hfaster : 0 < Shape.count s := Nat.pos_of_mul_pos_left hpos
    have hs := ih hfaster hrest (hmemory.tail hn)
    obtain ⟨haxis, -⟩ := List.forall₂_cons.mp (steadyAxes_of_inMemory hlength hpos hmemory)
    have hmoves : step ≠ 0 := by
      rw [pitch_eq_ok hs hstep]
      exact Int.mul_ne_zero (by omega) (by omega)
    exact Shape.signed_cons.mpr ⟨haxis.resolve_right hmoves, hs⟩

/-- There are not more items in memory than it has slots. -/
theorem count_lt_of_packed {inner slot : Int} {s : Shape} {strides : List Int}
    (hinner : 0 < inner) (hpos : 0 < s.count) (h : packedStrides inner s = .ok strides)
    (hmemory : InMemory s strides slot) : s.count < 0x8000000000000000 := by
  have hs := signed_of_packed hinner hpos h hmemory
  have hlast := Shape.contains_unravel (show s.count - 1 < s.count by omega)
  have hfirst := hmemory _ (Shape.contains_origin hpos)
  have hhigh := hmemory _ hlast
  rw [displacement_origin] at hfirst
  rw [displacement_packedStrides hs h hlast, Shape.ravel_unravel (by omega)] at hhigh
  have : 1 * ((s.count - 1 : Nat) : Int) ≤ inner * ((s.count - 1 : Nat) : Int) :=
    Int.mul_le_mul_of_nonneg_right (by omega) (by omega)
  omega

/-! ## The row-major layout of a shape -/

/-- The row-major layout of a shape has that shape, and at least one slot per item. -/
theorem shape_of_ofShape {shape : Shape} {itemSlots : Nat} {l : Layout}
    (h : ofShape shape itemSlots = .ok l) :
    l.shape = shape ∧ l.itemSlots = max itemSlots 1 := by
  obtain ⟨strides, -, h⟩ := Outcome.bind_eq_ok.mp h
  obtain rfl := Except.ok.inj h
  exact ⟨rfl, rfl⟩

/-- The slots of an item as a word. -/
theorem rowMajorStrides_eq {itemSlots : Nat} (h₀ : 0 < itemSlots)
    (h : itemSlots < 0x8000000000000000) (shape : Shape) :
    rowMajorStrides shape itemSlots = packedStrides itemSlots shape := by
  rw [rowMajorStrides, Nat.max_eq_left h₀, Word.toSigned_of_lt h]

/-- **The row-major layout of a shape**, as far as it has no say. -/
theorem ofShape_eq_ok {shape : Shape} {itemSlots : Nat} {l : Layout} (h₀ : 0 < itemSlots)
    (h : itemSlots < 0x8000000000000000) :
    ofShape shape itemSlots = .ok l ↔ ∃ strides, packedStrides itemSlots shape = .ok strides
      ∧ l = { shape, strides, offset := 0, itemSlots } := by
  unfold ofShape
  rw [rowMajorStrides_eq h₀ h, Nat.max_eq_left h₀]
  constructor
  · intro hl
    obtain ⟨strides, hstrides, hl⟩ := Outcome.bind_eq_ok.mp hl
    exact ⟨strides, hstrides, (Except.ok.inj hl).symm⟩
  · rintro ⟨strides, hstrides, rfl⟩
    rw [hstrides]
    rfl

/-- A layout is contiguous if its strides are the row-major ones. -/
theorem isContiguous_eq_ok {l : Layout} (h₀ : 0 < l.itemSlots)
    (h : l.itemSlots < 0x8000000000000000) :
    l.isContiguous = .ok true ↔ packedStrides l.itemSlots l.shape = .ok l.strides := by
  unfold isContiguous
  rw [rowMajorStrides_eq h₀ h]
  constructor
  · intro hl
    obtain ⟨strides, hstrides, hl⟩ := Outcome.bind_eq_ok.mp hl
    rw [hstrides, of_decide_eq_true (Except.ok.inj hl)]
  · intro hl
    rw [hl]
    exact congrArg Except.ok (decide_eq_true rfl)

/-- **The item of rank `k` in a contiguous layout** lies `k` items above the first one. -/
theorem address_packed {l : Layout} {p : List Nat} (hs : l.shape.Signed)
    (h : packedStrides l.itemSlots l.shape = .ok l.strides) (hp : l.shape.Contains p) :
    l.address p = l.offset + l.itemSlots * l.shape.ravel p := by
  rw [address, displacement_packedStrides hs h hp]

end Layout

end StridedArray
