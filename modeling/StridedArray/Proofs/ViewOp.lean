import StridedArray.Layout.ViewOp
import StridedArray.Proofs.Axis
import StridedArray.Proofs.RowMajor

/-!
# View operations show items of the layout

A layout `v` **views** a layout `l` through a map of positions if the item
of `v` at a position starts at the slot where the item of `l` at the
mapped position does. It **selects** from `l` if no item comes twice.

Every view operation that succeeds selects from its layout
(`ViewOp.selects_of_apply`), as long as the conversions between signed and
unsigned words are exact. That is so if every extent is signed, and also
if every item lies in memory (`ViewOp.exact_of_inMemory`).
-/

namespace StridedArray

namespace Layout

/-! ## Layouts that show items of another -/

/-- **A layout on which exact and machine arithmetic can agree**: one stride per axis, a number of
slots per item that is a positive signed word, and unless it is empty a signed offset and no item
below the first slot. -/
structure Grounded (l : Layout) : Prop where
  /-- There is one stride per axis. -/
  length_strides : l.strides.length = l.shape.length
  /-- An item has a slot. -/
  itemSlots_pos : 0 < l.itemSlots
  /-- The number of slots of an item is a signed word. -/
  itemSlots_lt : l.itemSlots < 0x8000000000000000
  /-- Unless the layout is empty its offset is a signed word. -/
  offset_lt : 0 < l.shape.count → l.offset < 0x8000000000000000
  /-- No item lies below the first slot. -/
  nonneg : ∀ p, l.shape.Contains p → 0 ≤ l.address p

/-- **The items of `v` are items of `l`**: that at `p` is the one at `f p`. -/
structure Views (v l : Layout) (f : List Nat → List Nat) : Prop where
  /-- There is one stride per axis. -/
  length_strides : v.strides.length = v.shape.length
  /-- Items have as many slots. -/
  itemSlots_eq : v.itemSlots = l.itemSlots
  /-- Unless the view is empty its offset is a signed word. -/
  offset_lt : 0 < v.shape.count → v.offset < 0x8000000000000000
  /-- The map goes to positions. -/
  contains : ∀ p, v.shape.Contains p → l.shape.Contains (f p)
  /-- The item at a position is the one at the mapped position. -/
  address_eq : ∀ p, v.shape.Contains p → v.address p = l.address (f p)

/-- **The items of `v` are items of `l`**, none of them coming twice. -/
structure Selects (v l : Layout) (f : List Nat → List Nat) : Prop extends Views v l f where
  /-- No item comes twice. -/
  injective : ∀ p q, v.shape.Contains p → v.shape.Contains q → f p = f q → p = q

theorem Grounded.selects {l : Layout} (h : l.Grounded) : l.Selects l id where
  length_strides := h.length_strides
  itemSlots_eq := rfl
  offset_lt := h.offset_lt
  contains _ hp := hp
  address_eq _ _ := rfl
  injective _ _ _ _ hpq := hpq

theorem Views.trans {u v l : Layout} {f g : List Nat → List Nat} (hu : u.Views v f)
    (hv : v.Views l g) : u.Views l (g ∘ f) where
  length_strides := hu.length_strides
  itemSlots_eq := hu.itemSlots_eq.trans hv.itemSlots_eq
  offset_lt := hu.offset_lt
  contains p hp := hv.contains _ (hu.contains p hp)
  address_eq p hp := (hu.address_eq p hp).trans (hv.address_eq _ (hu.contains p hp))

theorem Selects.trans {u v l : Layout} {f g : List Nat → List Nat} (hu : u.Selects v f)
    (hv : v.Selects l g) : u.Selects l (g ∘ f) where
  toViews := hu.toViews.trans hv.toViews
  injective p q hp hq h :=
    hu.injective p q hp hq (hv.injective _ _ (hu.contains p hp) (hu.contains q hq) h)

/-- **A view of a grounded layout is grounded.** -/
theorem Views.grounded {v l : Layout} {f : List Nat → List Nat} (h : v.Views l f)
    (hl : l.Grounded) : v.Grounded where
  length_strides := h.length_strides
  itemSlots_pos := h.itemSlots_eq ▸ hl.itemSlots_pos
  itemSlots_lt := h.itemSlots_eq ▸ hl.itemSlots_lt
  offset_lt := h.offset_lt
  nonneg p hp := h.address_eq p hp ▸ hl.nonneg _ (h.contains p hp)

/-- An empty layout selects from any other. -/
theorem selects_of_empty {v l : Layout} (hlength : v.strides.length = v.shape.length)
    (hitemSlots : v.itemSlots = l.itemSlots) (hempty : ¬0 < v.shape.count) : v.Selects l id where
  length_strides := hlength
  itemSlots_eq := hitemSlots
  offset_lt h := absurd h hempty
  contains _ hp := absurd (Shape.count_pos_of_contains hp) hempty
  address_eq _ hp := absurd (Shape.count_pos_of_contains hp) hempty
  injective _ _ hp := absurd (Shape.count_pos_of_contains hp) hempty

/-! ## What the operations do -/

/-- A move of the origin that succeeds. -/
theorem moveOrigin_eq_ok {l v : Layout} {axis : Nat} {steps : Int} :
    l.moveOrigin axis steps = .ok v ↔ ∃ stride, l.strides[axis]? = some stride
      ∧ Word.IsSigned (steps * stride)
      ∧ Word.IsSigned (Word.toSigned l.offset + steps * stride)
      ∧ v = { l with offset := Word.toUnsigned (Word.toSigned l.offset + steps * stride) } := by
  unfold moveOrigin
  constructor
  · intro h
    obtain ⟨stride, hstride, h⟩ := Outcome.bind_eq_ok.mp h
    obtain ⟨move, hmove, h⟩ := Outcome.bind_eq_ok.mp h
    obtain ⟨hmoveSigned, rfl⟩ := Word.signed_eq_ok.mp hmove
    obtain ⟨offset, hoffset, h⟩ := Outcome.bind_eq_ok.mp h
    obtain ⟨hoffsetSigned, hoffset⟩ := Word.signed_eq_ok.mp hoffset
    refine ⟨stride, Outcome.subscript_eq_ok.mp hstride, hmoveSigned, hoffsetSigned, ?_⟩
    rw [← hoffset]
    exact (Except.ok.inj h).symm
  · rintro ⟨stride, hstride, hmove, hoffset, rfl⟩
    refine Outcome.bind_eq_ok.mpr ⟨stride, Outcome.subscript_eq_ok.mpr hstride, ?_⟩
    refine Outcome.bind_eq_ok.mpr ⟨_, Word.signed_eq_ok.mpr ⟨hmove, rfl⟩, ?_⟩
    exact Outcome.bind_eq_ok.mpr ⟨_, Word.signed_eq_ok.mpr ⟨hoffset, rfl⟩, rfl⟩

/-- An extent that there is. -/
theorem extent_eq_ok {l : Layout} {axis n : Nat} :
    l.extent axis = .ok n ↔ l.shape[axis]? = some n := by
  unfold extent extent?
  cases l.shape[axis]? with
  | none => exact ⟨nofun, nofun⟩
  | some m => exact ⟨fun h => congrArg some (Except.ok.inj h),
      fun h => congrArg Except.ok (Option.some.inj h)⟩

/-- **A reshape that succeeds.** -/
theorem reshape_eq_ok {l v : Layout} {shape : Shape} :
    l.reshape shape = .ok v ↔ ∃ n strides, l.shape.size = .ok n ∧ shape.size = .ok n
      ∧ l.isContiguous = .ok true ∧ rowMajorStrides shape l.itemSlots = .ok strides
      ∧ v = { l with shape, strides } := by
  constructor
  · intro h
    obtain ⟨reshaped, hreshaped, h⟩ := Outcome.bind_eq_ok.mp h
    obtain ⟨old, hold, hreshaped⟩ := Outcome.bind_eq_ok.mp hreshaped
    obtain ⟨new, hnew, hreshaped⟩ := Outcome.bind_eq_ok.mp hreshaped
    by_cases hsize : old ≠ new
    · rw [if_pos hsize] at hreshaped
      exact absurd hreshaped (refuse_ne_ok _ _)
    · rw [if_neg hsize] at hreshaped
      obtain ⟨contiguous, hcontiguous, hreshaped⟩ := Outcome.bind_eq_ok.mp hreshaped
      cases contiguous with
      | false => exact absurd hreshaped (refuse_ne_ok _ _)
      | true =>
        obtain rfl := Except.ok.inj hreshaped
        obtain ⟨strides, hstrides, h⟩ := Outcome.bind_eq_ok.mp h
        exact ⟨old, strides, hold, (not_not.mp hsize) ▸ hnew, hcontiguous, hstrides,
          (Except.ok.inj h).symm⟩
  · rintro ⟨n, strides, hold, hnew, hcontiguous, hstrides, rfl⟩
    have hreshaped : l.reshapeShape shape = .ok { l with shape } := by
      unfold reshapeShape size
      rw [hold, hnew, hcontiguous]
      exact if_neg (not_not_intro rfl)
    refine Outcome.bind_eq_ok.mpr ⟨_, hreshaped, ?_⟩
    exact Outcome.bind_eq_ok.mpr ⟨strides, hstrides, rfl⟩

/-- An exchange that succeeds. -/
theorem exchange_eq_ok {α : Type} (d : α) {xs ys : List α} {i j : Nat} :
    exchange xs i j = .ok ys ↔ i < xs.length ∧ j < xs.length ∧ ys = exchanged d i j xs := by
  constructor
  · intro h
    obtain ⟨x, hx, h⟩ := Outcome.bind_eq_ok.mp h
    obtain ⟨y, hy, h⟩ := Outcome.bind_eq_ok.mp h
    obtain ⟨hi, hxd⟩ := getD_of_getElem?_eq_some (d := d) (Outcome.subscript_eq_ok.mp hx)
    obtain ⟨hj, hyd⟩ := getD_of_getElem?_eq_some (d := d) (Outcome.subscript_eq_ok.mp hy)
    refine ⟨hi, hj, ?_⟩
    rw [exchanged, hxd, hyd]
    exact (Except.ok.inj h).symm
  · rintro ⟨hi, hj, rfl⟩
    unfold exchange exchanged
    rw [List.getElem?_eq_getElem hi, List.getElem?_eq_getElem hj, List.getD_eq_getElem _ _ hi,
      List.getD_eq_getElem _ _ hj]
    rfl

/-- **A transposition that succeeds.** -/
theorem transpose_eq_ok {l v : Layout} {i j : Nat} (hl : l.strides.length = l.shape.length) :
    l.transpose i j = .ok v ↔ i < l.shape.length ∧ j < l.shape.length
      ∧ v = { l with shape := exchanged 0 i j l.shape, strides := exchanged 0 i j l.strides } := by
  unfold transpose exchangeExtents
  by_cases hrank : l.rank ≤ i ∨ l.rank ≤ j
  · rw [if_pos hrank]
    refine ⟨fun h => absurd h (refuse_ne_ok _ _), fun ⟨hi, hj, _⟩ => ?_⟩
    unfold rank at hrank
    omega
  · rw [if_neg hrank]
    constructor
    · intro h
      obtain ⟨exchanged, hexchanged, h⟩ := Outcome.bind_eq_ok.mp h
      obtain ⟨shape, hshape, hexchanged⟩ := Outcome.bind_eq_ok.mp hexchanged
      obtain rfl := Except.ok.inj hexchanged
      obtain ⟨strides, hstrides, h⟩ := Outcome.bind_eq_ok.mp h
      obtain ⟨hi, hj, rfl⟩ := (exchange_eq_ok 0).mp hshape
      obtain ⟨-, -, rfl⟩ := (exchange_eq_ok 0).mp hstrides
      exact ⟨hi, hj, (Except.ok.inj h).symm⟩
    · rintro ⟨hi, hj, rfl⟩
      have hshape := (exchange_eq_ok 0).mpr ⟨hi, hj, rfl⟩
      have hstrides := (exchange_eq_ok (0 : Int)).mpr ⟨hl ▸ hi, hl ▸ hj, rfl⟩
      refine Outcome.bind_eq_ok.mpr ⟨_, Outcome.bind_eq_ok.mpr ⟨_, hshape, rfl⟩, ?_⟩
      exact Outcome.bind_eq_ok.mpr ⟨_, hstrides, rfl⟩

/-- **A range that is kept.** -/
theorem narrow_eq_ok {l v : Layout} {axis start length : Nat} :
    l.narrow axis start length = .ok v ↔ ∃ n moved, l.shape[axis]? = some n
      ∧ Word.IsUnsigned (start + length) ∧ start + length ≤ n
      ∧ l.moveOrigin axis (Word.toSigned start) = .ok moved
      ∧ v = moved.setExtent axis length := by
  constructor
  · intro h
    obtain ⟨moved, hmoved, h⟩ := Outcome.bind_eq_ok.mp h
    obtain ⟨n, hn, hmoved⟩ := Outcome.bind_eq_ok.mp hmoved
    obtain ⟨stop, hstop, hmoved⟩ := Outcome.bind_eq_ok.mp hmoved
    obtain ⟨hunsigned, rfl⟩ := Word.unsigned_eq_ok.mp hstop
    by_cases hrange : n < start + length
    · rw [if_pos hrange] at hmoved
      exact absurd hmoved (refuse_ne_ok _ _)
    · rw [if_neg hrange] at hmoved
      exact ⟨n, moved, extent_eq_ok.mp hn, hunsigned, Nat.le_of_not_lt hrange, hmoved,
        (Except.ok.inj h).symm⟩
  · rintro ⟨n, moved, hn, hunsigned, hrange, hmoved, rfl⟩
    have hstart : l.moveToRange axis start length = .ok moved := by
      unfold moveToRange
      refine Outcome.bind_eq_ok.mpr ⟨n, extent_eq_ok.mpr hn, ?_⟩
      refine Outcome.bind_eq_ok.mpr ⟨_, Word.unsigned_eq_ok.mpr ⟨hunsigned, rfl⟩, ?_⟩
      rw [if_neg (Nat.not_lt_of_le hrange)]
      exact hmoved
    exact Outcome.bind_eq_ok.mpr ⟨moved, hstart, rfl⟩

/-- **An axis that is run through backwards.** -/
theorem flip_eq_ok {l v : Layout} {axis : Nat} :
    l.flip axis = .ok v ↔ ∃ n moved, l.shape[axis]? = some n
      ∧ (if 0 < n then Word.IsSigned (Word.toSigned n - 1)
            ∧ l.moveOrigin axis (Word.toSigned n - 1) = .ok moved
          else moved = l)
      ∧ moved.negateStride axis = .ok v := by
  constructor
  · intro h
    obtain ⟨moved, hmoved, h⟩ := Outcome.bind_eq_ok.mp h
    obtain ⟨n, hn, hmoved⟩ := Outcome.bind_eq_ok.mp hmoved
    refine ⟨n, moved, extent_eq_ok.mp hn, ?_, h⟩
    by_cases hempty : 0 < n
    · rw [if_pos hempty] at hmoved ⊢
      obtain ⟨steps, hsteps, hmoved⟩ := Outcome.bind_eq_ok.mp hmoved
      obtain ⟨hsigned, hsteps⟩ := Word.signed_eq_ok.mp hsteps
      exact ⟨hsigned, hsteps ▸ hmoved⟩
    · rw [if_neg hempty] at hmoved ⊢
      exact (Except.ok.inj hmoved).symm
  · rintro ⟨n, moved, hn, hmoved, hv⟩
    refine Outcome.bind_eq_ok.mpr ⟨moved, ?_, hv⟩
    refine Outcome.bind_eq_ok.mpr ⟨n, extent_eq_ok.mpr hn, ?_⟩
    by_cases hempty : 0 < n
    · rw [if_pos hempty] at hmoved ⊢
      exact Outcome.bind_eq_ok.mpr ⟨_, Word.signed_eq_ok.mpr ⟨hmoved.1, rfl⟩, hmoved.2⟩
    · rw [if_neg hempty] at hmoved ⊢
      rw [hmoved]
      rfl

/-- A stride that is negated. -/
theorem negateStride_eq_ok {l v : Layout} {axis : Nat} :
    l.negateStride axis = .ok v ↔ ∃ stride, l.strides[axis]? = some stride
      ∧ Word.IsSigned (-stride) ∧ v = { l with strides := l.strides.set axis (-stride) } := by
  unfold negateStride
  constructor
  · intro h
    obtain ⟨stride, hstride, h⟩ := Outcome.bind_eq_ok.mp h
    obtain ⟨negated, hnegated, h⟩ := Outcome.bind_eq_ok.mp h
    obtain ⟨hsigned, rfl⟩ := Word.signed_eq_ok.mp hnegated
    exact ⟨stride, Outcome.subscript_eq_ok.mp hstride, hsigned, (Except.ok.inj h).symm⟩
  · rintro ⟨stride, hstride, hsigned, rfl⟩
    refine Outcome.bind_eq_ok.mpr ⟨stride, Outcome.subscript_eq_ok.mpr hstride, ?_⟩
    exact Outcome.bind_eq_ok.mpr ⟨_, Word.signed_eq_ok.mpr ⟨hsigned, rfl⟩, rfl⟩

/-! ## A change of one axis -/

/-- An axis of a layout that is steady. -/
theorem SteadyAxes.axis {shape : Shape} {strides : List Int} {axis n : Nat} {stride : Int}
    (h : SteadyAxes shape strides) (hn : shape[axis]? = some n)
    (hstride : strides[axis]? = some stride) : n < 0x8000000000000000 ∨ stride = 0 := by
  obtain ⟨hlt, rfl⟩ := List.getElem?_eq_some_iff.mp hn
  obtain ⟨hlt', rfl⟩ := List.getElem?_eq_some_iff.mp hstride
  exact (List.forall₂_iff_get.mp h).2 axis hlt hlt'

/-- **A layout that differs on one axis selects** if what it gains in offset and stride is what the
mapped coordinate gains. -/
theorem selects_of_axis {v l : Layout} {axis n m : Nat} {stride s : Int} {g : Nat → Nat}
    (hl : l.strides.length = l.shape.length) (hn : l.shape[axis]? = some n)
    (hstride : l.strides[axis]? = some stride) (hshape : v.shape = l.shape.set axis m)
    (hstrides : v.strides = l.strides.set axis s) (hitemSlots : v.itemSlots = l.itemSlots)
    (hoffset : v.offset < 0x8000000000000000) (hg : ∀ c < m, g c < n)
    (hinjective : ∀ c < m, ∀ d < m, g c = g d → c = d)
    (haddress : ∀ c < m, (v.offset : Int) + c * s = l.offset + g c * stride) :
    v.Selects l fun p => p.set axis (g (p.getD axis 0)) := by
  obtain ⟨haxis, hnd⟩ := getD_of_getElem?_eq_some (d := 0) hn
  obtain ⟨haxis', hstrided⟩ := getD_of_getElem?_eq_some (d := 0) hstride
  -- off the axis a position of the view is one of the layout
  have hposition : ∀ p, v.shape.Contains p → p.length = l.shape.length ∧ p.getD axis 0 < m
      ∧ ∀ k < l.shape.length, k ≠ axis → p.getD k 0 < l.shape.getD k 0 := by
    intro p hp
    rw [hshape, Shape.contains_iff_getD, List.length_set] at hp
    refine ⟨hp.1, ?_, fun k hk hne => ?_⟩
    · have := hp.2 axis haxis
      rwa [getD_set haxis, if_pos rfl] at this
    · have := hp.2 k hk
      rwa [getD_set haxis, if_neg hne] at this
  refine
    { length_strides := by rw [hstrides, hshape, List.length_set, List.length_set, hl]
      itemSlots_eq := hitemSlots
      offset_lt := fun _ => hoffset
      contains := fun p hp => ?_
      address_eq := fun p hp => ?_
      injective := fun p q hp hq h => ?_ }
  · obtain ⟨hlength, hc, hrest⟩ := hposition p hp
    refine Shape.contains_iff_getD.mpr ⟨(List.length_set ..).trans hlength, fun k hk => ?_⟩
    rw [getD_set (hlength ▸ haxis)]
    by_cases hk' : k = axis
    · rw [if_pos hk', hk', hnd]
      exact hg _ hc
    · rw [if_neg hk']
      exact hrest k hk hk'
  · obtain ⟨hlength, hc, -⟩ := hposition p hp
    have hpaxis : axis < p.length := hlength ▸ haxis
    have hgain := haddress _ hc
    rw [address, address, hstrides, displacement_set_right _ hpaxis haxis',
      displacement_set_left _ hpaxis haxis', hstrided, Int.mul_sub, Int.sub_mul]
    omega
  · obtain ⟨hlength, hc, -⟩ := hposition p hp
    obtain ⟨hlength', hd, -⟩ := hposition q hq
    refine Shape.eq_of_getD hp hq fun k _ => ?_
    have hk := congrArg (fun r : List Nat => r.getD k 0) h
    simp only [getD_set (hlength ▸ haxis : axis < p.length),
      getD_set (hlength' ▸ haxis : axis < q.length)] at hk
    by_cases hk' : k = axis
    · rw [if_pos hk', if_pos hk'] at hk
      rw [hk']
      exact hinjective _ hc _ hd hk
    · rwa [if_neg hk', if_neg hk'] at hk

/-- **The offset after a move of the origin** along an axis of a grounded layout is the slot of the
item there. -/
theorem offset_moveOrigin {l v : Layout} {axis k n : Nat} {steps stride : Int} (hl : l.Grounded)
    (hpos : 0 < l.shape.count) (hn : l.shape[axis]? = some n)
    (hstride : l.strides[axis]? = some stride) (hk : k < n) (hsteps : steps * stride = k * stride)
    (h : l.moveOrigin axis steps = .ok v) :
    (v.offset : Int) = l.offset + k * stride ∧ v.offset < 0x8000000000000000 := by
  obtain ⟨stride', hstride', -, hsigned, rfl⟩ := moveOrigin_eq_ok.mp h
  obtain rfl := Option.some.inj (hstride.symm.trans hstride')
  obtain ⟨haxis, hnd⟩ := getD_of_getElem?_eq_some (d := 0) hn
  obtain ⟨haxis', hstrided⟩ := getD_of_getElem?_eq_some (d := 0) hstride
  have horigin := Shape.contains_origin hpos
  have hlength : l.shape.origin.length = l.shape.length := horigin.length_eq
  have hzero : l.shape.origin.getD axis 0 = 0 := by
    rw [Shape.origin, List.getD_eq_getElem _ _ (by simpa using haxis), List.getElem_replicate]
  -- the item at coordinate `k` of the axis is one of the layout
  have hitem : l.shape.Contains (l.shape.origin.set axis k) := by
    refine Shape.contains_iff_getD.mpr ⟨(List.length_set ..).trans hlength, fun j hj => ?_⟩
    rw [getD_set (hlength ▸ haxis)]
    by_cases hj' : j = axis
    · rw [if_pos hj', hj', hnd]
      exact hk
    · rw [if_neg hj']
      exact (Shape.contains_iff_getD.mp horigin).2 j hj
  have hnonneg := hl.nonneg _ hitem
  rw [address, displacement_set_left _ (hlength ▸ haxis) haxis', displacement_origin, hzero,
    hstrided, Int.natCast_zero, Int.sub_zero, Int.zero_add] at hnonneg
  have hword : Word.toSigned l.offset = l.offset := Word.toSigned_of_lt (hl.offset_lt hpos)
  rw [hword, hsteps] at hsigned ⊢
  obtain ⟨-, hrange⟩ := hsigned
  have hunsigned : (l.offset : Int) + k * stride < 0x10000000000000000 :=
    Int.lt_trans hrange (by decide)
  simp only [Word.toUnsigned_of_nonneg hnonneg hunsigned]
  exact ⟨Int.toNat_of_nonneg hnonneg, (Int.toNat_lt hnonneg).mpr hrange⟩

/-! ## Each operation selects -/

/-- **Keeping a range** selects the items of the range. -/
theorem selects_of_narrow {l v : Layout} {axis start length : Nat} (hl : l.Grounded)
    (haxes : 0 < l.shape.count → SteadyAxes l.shape l.strides)
    (h : l.narrow axis start length = .ok v) : ∃ f, v.Selects l f := by
  obtain ⟨n, moved, hn, -, hrange, hmoved, rfl⟩ := narrow_eq_ok.mp h
  obtain ⟨stride, hstride, -, -, hv⟩ := moveOrigin_eq_ok.mp hmoved
  have hshape : (moved.setExtent axis length).shape = l.shape.set axis length := by
    rw [hv]
    rfl
  have hstrides : (moved.setExtent axis length).strides = l.strides := by
    rw [hv]
    rfl
  have hitemSlots : (moved.setExtent axis length).itemSlots = l.itemSlots := by
    rw [hv]
    rfl
  by_cases hpos : 0 < (moved.setExtent axis length).shape.count
  · obtain ⟨haxis, hnd⟩ := getD_of_getElem?_eq_some (d := 0) hn
    have hextents := Shape.count_pos_iff_getD.mp hpos
    rw [hshape, List.length_set] at hextents
    have hfirst := hextents axis haxis
    rw [getD_set haxis, if_pos rfl] at hfirst
    -- a range that is not empty is a range of an axis that is not empty
    have hl₀ : 0 < l.shape.count := by
      refine Shape.count_pos_iff_getD.mpr fun k hk => ?_
      by_cases hk' : k = axis
      · rw [hk', hnd]
        omega
      · have := hextents k hk
        rwa [getD_set haxis, if_neg hk'] at this
    have hsteps : Word.toSigned start * stride = start * stride := by
      rcases (haxes hl₀).axis hn hstride with hlt | rfl
      · rw [Word.toSigned_of_lt (by omega)]
      · rw [Int.mul_zero, Int.mul_zero]
    obtain ⟨hoffset, hlt⟩ :=
      offset_moveOrigin hl hl₀ hn hstride (show start < n by omega) hsteps hmoved
    refine ⟨_, selects_of_axis (m := length) (s := stride) (g := (· + start)) hl.length_strides hn
      hstride hshape ?_ hitemSlots hlt (fun c hc => by omega)
      (fun c _ d _ hcd => Nat.add_right_cancel hcd) fun c _ => ?_⟩
    · obtain ⟨hlt', rfl⟩ := List.getElem?_eq_some_iff.mp hstride
      rw [hstrides, List.set_getElem_self]
    · show (moved.offset : Int) + c * stride = l.offset + ((c + start : Nat) : Int) * stride
      rw [hoffset, Int.natCast_add, Int.add_mul]
      omega
  · refine ⟨id, selects_of_empty ?_ hitemSlots hpos⟩
    rw [hstrides, hshape, List.length_set, hl.length_strides]

/-- **Running through an axis backwards** selects every item. -/
theorem selects_of_flip {l v : Layout} {axis : Nat} (hl : l.Grounded)
    (haxes : 0 < l.shape.count → SteadyAxes l.shape l.strides) (h : l.flip axis = .ok v) :
    ∃ f, v.Selects l f := by
  obtain ⟨n, moved, hn, hmoved, hv⟩ := flip_eq_ok.mp h
  obtain ⟨stride, hstride, -, rfl⟩ := negateStride_eq_ok.mp hv
  -- only the offset has moved, and on an empty axis not even that
  have hrest : moved.shape = l.shape ∧ moved.strides = l.strides
      ∧ moved.itemSlots = l.itemSlots := by
    by_cases hempty : 0 < n
    · rw [if_pos hempty] at hmoved
      obtain ⟨_, -, -, -, hmoved⟩ := moveOrigin_eq_ok.mp hmoved.2
      rw [hmoved]
      exact ⟨rfl, rfl, rfl⟩
    · rw [if_neg hempty] at hmoved
      rw [hmoved]
      exact ⟨rfl, rfl, rfl⟩
  obtain ⟨hshape, hstrides, hitemSlots⟩ := hrest
  rw [hstrides] at hstride
  by_cases hpos : 0 < l.shape.count
  · obtain ⟨haxis, hnd⟩ := getD_of_getElem?_eq_some (d := 0) hn
    have hn₀ : 0 < n := hnd ▸ Shape.count_pos_iff_getD.mp hpos axis haxis
    rw [if_pos hn₀] at hmoved
    have hsteps : (Word.toSigned n - 1) * stride = ((n - 1 : Nat) : Int) * stride := by
      rcases (haxes hpos).axis hn hstride with hlt | rfl
      · rw [Word.toSigned_of_lt hlt, Int.natCast_sub hn₀, Int.natCast_one]
      · rw [Int.mul_zero, Int.mul_zero]
    obtain ⟨hoffset, hlt⟩ :=
      offset_moveOrigin hl hpos hn hstride (show n - 1 < n by omega) hsteps hmoved.2
    refine ⟨_, selects_of_axis (m := n) (s := -stride) (g := (n - 1 - ·)) hl.length_strides hn
      hstride ?_ (by rw [hstrides]) hitemSlots hlt (fun c hc => by omega)
      (fun c hc d hd hcd => by omega) fun c hc => ?_⟩
    · obtain ⟨_, rfl⟩ := List.getElem?_eq_some_iff.mp hn
      rw [List.set_getElem_self]
      exact hshape
    · show (moved.offset : Int) + c * -stride = l.offset + ((n - 1 - c : Nat) : Int) * stride
      have hleft : ((n - 1 - c : Nat) : Int) = ((n - 1 : Nat) : Int) - c :=
        Int.natCast_sub (by omega)
      rw [hoffset, hleft, Int.sub_mul, Int.mul_neg]
      omega
  · refine ⟨id, selects_of_empty ?_ hitemSlots (hshape ▸ hpos)⟩
    rw [List.length_set, hstrides, hshape, hl.length_strides]

/-- **Exchanging two axes** selects every item, with its coordinates exchanged. -/
theorem selects_of_transpose {l v : Layout} {i j : Nat} (hl : l.Grounded)
    (h : l.transpose i j = .ok v) : v.Selects l (exchanged 0 i j) := by
  obtain ⟨hi, hj, rfl⟩ := (transpose_eq_ok hl.length_strides).mp h
  -- a position of the view is one of the layout with its coordinates exchanged
  have hposition : ∀ p, Shape.Contains (exchanged 0 i j l.shape) p →
      p.length = l.shape.length ∧ l.shape.Contains (exchanged 0 i j p) := by
    intro p hp
    obtain ⟨hlength, hcoords⟩ := Shape.contains_iff_getD.mp hp
    rw [length_exchanged] at hlength hcoords
    refine ⟨hlength, Shape.contains_iff_getD.mpr
      ⟨(length_exchanged ..).trans hlength, fun k hk => ?_⟩⟩
    have := hcoords _ (exchangedIndex_lt hi hj hk)
    rw [getD_exchanged hi hj, exchangedIndex_exchangedIndex] at this
    rwa [getD_exchanged (hlength ▸ hi) (hlength ▸ hj)]
  have hfirst : 0 < Shape.count (exchanged 0 i j l.shape) → 0 < l.shape.count := fun hpos =>
    Shape.count_pos_of_contains (hposition _ (Shape.contains_origin hpos)).2
  refine
    { length_strides := by simp only [length_exchanged, hl.length_strides]
      itemSlots_eq := rfl
      offset_lt := fun hpos => hl.offset_lt (hfirst hpos)
      contains := fun p hp => (hposition p hp).2
      address_eq := fun p hp => ?_
      injective := fun p q hp hq hpq => ?_ }
  · obtain ⟨hlength, -⟩ := hposition p hp
    rw [address, address, displacement_exchanged (hlength.trans hl.length_strides.symm)
      (hlength ▸ hi) (hlength ▸ hj)]
  · obtain ⟨hlength, -⟩ := hposition p hp
    obtain ⟨hlength', -⟩ := hposition q hq
    refine Shape.eq_of_getD hp hq fun k _ => ?_
    have hk := congrArg (fun r : List Nat => r.getD (exchangedIndex i j k) 0) hpq
    simp only [getD_exchanged (hlength ▸ hi : i < p.length) (hlength ▸ hj : j < p.length),
      getD_exchanged (hlength' ▸ hi : i < q.length) (hlength' ▸ hj : j < q.length),
      exchangedIndex_exchangedIndex] at hk
    exact hk

/-- **Counting the items anew** selects every item, by its rank. -/
theorem selects_of_reshape {l v : Layout} {shape : Shape} (hl : l.Grounded)
    (hsigned : 0 < l.shape.count → l.shape.Signed ∧ shape.Signed)
    (h : l.reshape shape = .ok v) : v.Selects l fun p => l.shape.unravel (shape.ravel p) := by
  obtain ⟨n, strides, hold, hnew, hcontiguous, hstrides, rfl⟩ := reshape_eq_ok.mp h
  have hcount : shape.count = l.shape.count :=
    (Shape.count_of_size hnew).symm.trans (Shape.count_of_size hold)
  rw [rowMajorStrides_eq hl.itemSlots_pos hl.itemSlots_lt] at hstrides
  have hpacked := (isContiguous_eq_ok hl.itemSlots_pos hl.itemSlots_lt).mp hcontiguous
  have hrank : ∀ p, shape.Contains p → shape.ravel p < l.shape.count := fun p hp =>
    hcount ▸ Shape.ravel_lt hp
  refine
    { length_strides := length_packedStrides hstrides
      itemSlots_eq := rfl
      offset_lt := fun hpos => hl.offset_lt (hcount ▸ hpos)
      contains := fun p hp => Shape.contains_unravel (hrank p hp)
      address_eq := fun p hp => ?_
      injective := fun p q hp hq hpq => ?_ }
  · have hpos : 0 < l.shape.count := hcount ▸ Shape.count_pos_of_contains hp
    obtain ⟨hsignedOld, hsignedNew⟩ := hsigned hpos
    -- the rank of an item is its place in the storage, before and after
    have hnewAddress := address_packed
      (l := { l with shape := shape, strides := strides }) hsignedNew hstrides hp
    rw [hnewAddress, address_packed hsignedOld hpacked (Shape.contains_unravel (hrank p hp)),
      Shape.ravel_unravel (hrank p hp)]
  · refine Shape.ravel_injective hp hq ?_
    rw [← Shape.ravel_unravel (hrank p hp), hpq, Shape.ravel_unravel (hrank q hq)]

end Layout

namespace ViewOp

/-- **The words that an operation converts keep their values.** -/
def Exact (op : ViewOp) (l : Layout) : Prop :=
  match op with
  | reshape shape => l.shape.Signed ∧ shape.Signed
  | _ => Layout.SteadyAxes l.shape l.strides

/-- **A view operation selects from its layout.** -/
theorem selects_of_apply {op : ViewOp} {l v : Layout} (hl : l.Grounded)
    (hexact : 0 < l.shape.count → op.Exact l) (h : op.apply l = .ok v) : ∃ f, v.Selects l f := by
  cases op with
  | reshape shape => exact ⟨_, Layout.selects_of_reshape hl hexact h⟩
  | transpose i j => exact ⟨_, Layout.selects_of_transpose hl h⟩
  | narrow axis start length => exact Layout.selects_of_narrow hl hexact h
  | flip axis => exact Layout.selects_of_flip hl hexact h

/-- Between signed extents every operation is exact. -/
theorem exact_of_signed {op : ViewOp} {l v : Layout} (hl : l.Grounded) (hold : l.shape.Signed)
    (hnew : v.shape.Signed) (h : op.apply l = .ok v) : op.Exact l := by
  cases op with
  | reshape shape =>
    obtain ⟨_, _, -, -, -, -, rfl⟩ := Layout.reshape_eq_ok.mp h
    exact ⟨hold, hnew⟩
  | _ => exact Layout.steadyAxes_of_signed hold hl.length_strides

/-- **Where every item lies in memory** every operation is exact. -/
theorem exact_of_inMemory {op : ViewOp} {l v : Layout} (hl : l.Grounded)
    (hpos : 0 < l.shape.count) (hmemory : Layout.InMemory l.shape l.strides l.offset)
    (h : op.apply l = .ok v) : op.Exact l := by
  cases op with
  | reshape shape =>
    obtain ⟨n, strides, hold, hnew, hcontiguous, -, rfl⟩ := Layout.reshape_eq_ok.mp h
    have hcount : shape.count = l.shape.count :=
      (Shape.count_of_size hnew).symm.trans (Shape.count_of_size hold)
    have hpacked :=
      (Layout.isContiguous_eq_ok hl.itemSlots_pos hl.itemSlots_lt).mp hcontiguous
    have hinner : (0 : Int) < l.itemSlots := Int.natCast_pos.mpr hl.itemSlots_pos
    have hlt := Layout.count_lt_of_packed hinner hpos hpacked hmemory
    exact ⟨Shape.signed_of_count hpos hlt,
      Shape.signed_of_count (hcount ▸ hpos) (hcount ▸ hlt)⟩
  | _ => exact Layout.steadyAxes_of_inMemory hl.length_strides hpos hmemory

end ViewOp

end StridedArray
