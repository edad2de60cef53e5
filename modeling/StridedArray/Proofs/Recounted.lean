import StridedArray.Proofs.Cursor
import StridedArray.Proofs.Listed
import StridedArray.Proofs.Residue

/-!
# Items counted anew

A contiguous layout can be seen through any shape with as many positions.
The items are the same, in the same row-major order: the item of rank `k`
starts `k` items above the first one, before and after
(`Layout.address_unravel`). The strides of the two shapes have nothing to
do with each other, and neither have the positions of a rank. What they
have in common is the rank.

Extents are not assumed to be in the signed range here. It is enough that
the number of positions can be multiplied up, as it is before a reshape.
-/

namespace StridedArray

namespace Layout

variable {l v : Layout} {shape : Shape}

/-- **Layouts as they are made**, from strides or from a shape and then by view operations, whatever
their extents are. -/
inductive Made : Layout → Prop
  /-- From strides. -/
  | ofStrides {shape : Shape} {strides : List Int} {offset itemSlots : Nat} {l : Layout}
    (h : Layout.ofStrides shape strides offset itemSlots = .ok l) : Made l
  /-- From a shape. -/
  | ofShape {shape : Shape} {itemSlots : Nat} {l : Layout}
    (h : Layout.ofShape shape itemSlots = .ok l) : Made l
  /-- By a view operation. -/
  | apply {l v : Layout} (op : ViewOp) (hl : Made l) (h : op.apply l = .ok v) : Made v

/-- **An item has a slot** in every layout that is made. -/
theorem Made.itemSlots_pos (h : l.Made) : 0 < l.itemSlots := by
  induction h with
  | ofStrides h =>
    obtain ⟨-, hitem, -, rfl⟩ := ofStrides_eq_ok.mp h
    exact Nat.pos_of_ne_zero hitem
  | ofShape h =>
    rw [(shape_of_ofShape h).2]
    exact Nat.le_max_right _ 1
  | apply op _ h ih => exact ViewOp.itemSlots_of_apply h ▸ ih

/-! ## How a reshape ends -/

/-- **A reshape compares the numbers of positions**, then asks whether the layout is contiguous, and
then packs the items, unless arithmetic traps. -/
theorem reshape_endsAs (l : Layout) (shape : Shape) :
    (l.reshape shape).EndsAs (
      if l.shape.count ≠ shape.count then
        refuse (.invalidShape (.sizeChange l.shape.count shape.count))
      else do
        if ← l.isContiguous then ({ l with shape } : Layout).packStrides
        else refuse (.invalidShape (.notContiguous l.strides))) := by
  unfold reshape reshapeShape
  rw [bind_assoc]
  refine (Shape.accepted_size _).bind_endsAs fun old hold => ?_
  rw [bind_assoc]
  refine (Shape.accepted_size _).bind_endsAs fun new hnew => ?_
  obtain rfl : old = l.shape.count := Shape.count_of_size hold
  obtain rfl := Shape.count_of_size hnew
  split
  · exact .inr rfl
  · rw [bind_assoc]
    refine .inr (congrArg _ (funext fun contiguous => ?_))
    cases contiguous <;> rfl

/-- **A reshape that succeeds** if nothing traps. -/
theorem exists_reshape (hcount : l.shape.count = shape.count) (hl : l.isContiguous = .ok true)
    (ht : ∀ t, l.reshape shape ≠ trap t) : ∃ v, l.reshape shape = .ok v := by
  have hends := (reshape_endsAs l shape).eq ht
  rw [if_neg (not_not_intro hcount), hl] at hends
  have haccepted : (({ l with shape } : Layout).packStrides).Accepted :=
    (accepted_packedStrides _ _).bind fun _ _ => Outcome.refusedOnly_pure _
  rw [hends] at ht ⊢
  exact haccepted.exists_ok ht

/-- **A reshape that is refused** if nothing traps. -/
theorem reshape_refused (hl : l.isContiguous = .ok false ∨ l.shape.count ≠ shape.count)
    (ht : ∀ t, l.reshape shape ≠ trap t) :
    l.reshape shape = refuse (.invalidShape (if l.shape.count = shape.count
      then .notContiguous l.strides else .sizeChange l.shape.count shape.count)) := by
  refine ((reshape_endsAs l shape).eq ht).trans ?_
  by_cases hcount : l.shape.count = shape.count
  · rw [if_neg (not_not_intro hcount), if_pos hcount, hl.resolve_right (not_not_intro hcount)]
    rfl
  · rw [if_pos hcount, if_neg hcount]

/-! ## What a reshape makes -/

/-- **The item of rank `k` starts `k` items above the first one** in row-major strides. -/
theorem address_unravel {k : Nat} (hcount : Word.IsUnsigned l.shape.count)
    (hl : packedStrides l.itemSlots l.shape = .ok l.strides) (hk : k < l.shape.count) :
    l.address (l.shape.unravel k) = (l.offset + k * l.itemSlots : Nat) := by
  rw [address, displacement_packed (.inr hcount) hl (Shape.contains_unravel hk),
    Shape.ravel_unravel hk, Int.mul_comm, ← Int.natCast_mul, ← Int.natCast_add]

/-- An item starts at its exact slot, as a word. -/
theorem startsAt {p : List Nat} (hp : l.shape.Contains p) :
    l.StartsAt p (Word.toUnsigned (l.address p)) :=
  ⟨hp, rfl, slotAt_of_contains hp⟩

/-- **The same items counted in another shape.** -/
structure Recounted (v l : Layout) : Prop where
  /-- There are as many items. -/
  count_eq : v.shape.count = l.shape.count
  /-- The first item is the same. -/
  offset_eq : v.offset = l.offset
  /-- An item has as many slots. -/
  itemSlots_eq : v.itemSlots = l.itemSlots
  /-- The layout is contiguous. -/
  isContiguous : v.isContiguous = .ok true
  /-- Counting the items in the old shape again gives the old layout. -/
  restored : v.reshape l.shape = .ok l
  /-- The items lie one after the other in the order of their ranks, before and after. -/
  address_eq : ∀ k < l.shape.count,
    l.address (l.shape.unravel k) = (l.offset + k * l.itemSlots : Nat)
      ∧ v.address (v.shape.unravel k) = (l.offset + k * l.itemSlots : Nat)
  /-- Addressing them gives that slot, before and after. -/
  startsAt : ∀ k < l.shape.count,
    l.StartsAt (l.shape.unravel k) (Word.toUnsigned (l.offset + k * l.itemSlots : Nat))
      ∧ v.StartsAt (v.shape.unravel k) (Word.toUnsigned (l.offset + k * l.itemSlots : Nat))

/-- **A reshape counts the same items** in another shape. -/
theorem recounted_of_reshape (hpos : 0 < l.itemSlots) (hitem : l.itemSlots < 0x8000000000000000)
    (h : l.reshape shape = .ok v) : v.shape = shape ∧ v.Recounted l := by
  obtain ⟨n, strides, hold, hnew, hcontiguous, hstrides, rfl⟩ := reshape_eq_ok.mp h
  have hunsigned := Shape.isUnsigned_of_size hnew
  have hcount : shape.count = l.shape.count :=
    (Shape.count_of_size hnew).symm.trans (Shape.count_of_size hold)
  have hpackedOld := (isContiguous_eq_ok hpos hitem).mp hcontiguous
  have hpackedNew := hstrides
  rw [rowMajorStrides_eq hpos hitem] at hpackedNew
  have hcontiguousNew : ({ l with shape, strides } : Layout).isContiguous = .ok true :=
    (isContiguous_eq_ok (l := { l with shape, strides }) hpos hitem).mpr hpackedNew
  have hback : rowMajorStrides l.shape l.itemSlots = .ok l.strides := by
    rw [rowMajorStrides_eq hpos hitem, hpackedOld]
  have haddress : ∀ k < l.shape.count,
      l.address (l.shape.unravel k) = (l.offset + k * l.itemSlots : Nat)
        ∧ ({ l with shape, strides } : Layout).address (shape.unravel k)
          = (l.offset + k * l.itemSlots : Nat) := fun k hk =>
    ⟨address_unravel (Shape.count_of_size hold ▸ hunsigned) hpackedOld hk,
      address_unravel (l := { l with shape, strides }) (Shape.count_of_size hnew ▸ hunsigned)
        hpackedNew (hcount ▸ hk)⟩
  refine ⟨rfl,
    { count_eq := hcount
      offset_eq := rfl
      itemSlots_eq := rfl
      isContiguous := hcontiguousNew
      restored := reshape_eq_ok.mpr ⟨n, l.strides, hnew, hold, hcontiguousNew, hback, rfl⟩
      address_eq := haddress
      startsAt := fun k hk => ?_ }⟩
  obtain ⟨hlow, hhigh⟩ := haddress k hk
  constructor
  · rw [← hlow]
    exact startsAt (Shape.contains_unravel hk)
  · rw [← hhigh]
    exact startsAt (l := { l with shape, strides })
      (Shape.contains_unravel (s := shape) (hcount ▸ hk))

/-- The slots of the items, put in the order of their ranks, are the same before and after. -/
theorem Recounted.map_positions (h : v.Recounted l) :
    v.shape.positions.map v.address = l.shape.positions.map l.address := by
  unfold Shape.positions
  rw [List.map_map, List.map_map, h.count_eq]
  refine List.map_congr_left fun k hk => ?_
  obtain ⟨hl, hv⟩ := h.address_eq k (List.mem_range.mp hk)
  exact hv.trans hl.symm

end Layout

namespace View

variable {x y : View} {w : Workspace} {l v : Layout} {shape : Shape}

/-- **Counting the items anew does not change the list of slots.** -/
theorem toSlotList_of_recounted (h : y.layout.Recounted x.layout) (hy : y.storage = x.storage)
    (hx : ∀ t, x.toSlotList w ≠ trap t) (hy' : ∀ t, y.toSlotList w ≠ trap t) :
    y.toSlotList w = x.toSlotList w := by
  have hruns : ∀ z : View, (z.shape.positions.mapM fun p =>
      z.slotRun (Word.toUnsigned (z.layout.address p)) z.layout.itemSlots w)
        = (z.layout.shape.positions.map z.layout.address).mapM fun address =>
          z.slotRun (Word.toUnsigned address) z.layout.itemSlots w := fun z => by
    rw [List.mapM_map]
    rfl
  rw [(toSlotList_endsAs y w).eq hy', (toSlotList_endsAs x w).eq hx, hruns, hruns,
    h.map_positions, h.itemSlots_eq]
  have hread : ∀ slot count, y.slotRun slot count w = x.slotRun slot count w := fun _ _ => by
    unfold slotRun readDouble
    rw [hy]
  simp only [hread]

end View

/-- **Counting the items of a contiguous layout anew** changes nothing but the shape. Whatever layout
has been made, and as far as nothing traps: if it is contiguous, a shape with as many positions gives
a contiguous layout of the same items in the same order, from which the old one comes back. If it is
not, or the shape has another number of positions, it is refused and nothing is changed. And an array
lists the same slots before and after. -/
theorem Layout.Made.recounted {l : Layout} {shape : Shape} (hl : l.Made)
    (hitem : l.itemSlots < 0x8000000000000000) (ht : ∀ t, l.reshape shape ≠ trap t) :
    (l.isContiguous = .ok true → l.shape.count = shape.count →
      ∃ v, l.reshape shape = .ok v ∧ v.shape = shape ∧ v.Recounted l)
    ∧ (l.isContiguous = .ok false ∨ l.shape.count ≠ shape.count →
      l.reshape shape = refuse (.invalidShape (if l.shape.count = shape.count
          then .notContiguous l.strides else .sizeChange l.shape.count shape.count))
        ∧ (ViewOp.reshape shape).residue l = l)
    ∧ ∀ (x y : View) (w : Workspace), x.layout = l → x.apply (.reshape shape) = .ok y →
      (∀ t, x.toSlotList w ≠ trap t) → (∀ t, y.toSlotList w ≠ trap t) →
      y.toSlotList w = x.toSlotList w := by
  refine ⟨fun hcontiguous hcount => ?_, fun hrefused => ?_, fun x y w hx hy htx hty => ?_⟩
  · obtain ⟨v, hv⟩ := exists_reshape hcount hcontiguous ht
    exact ⟨v, hv, recounted_of_reshape hl.itemSlots_pos hitem hv⟩
  · have hreshape := reshape_refused hrefused ht
    exact ⟨hreshape, ViewOp.residue_of_refused hreshape⟩
  · subst hx
    obtain ⟨v, hv, hy⟩ := Outcome.bind_eq_ok.mp hy
    obtain rfl := Except.ok.inj hy
    exact View.toSlotList_of_recounted
      (recounted_of_reshape hl.itemSlots_pos hitem hv).2 rfl htx hty

/-- Two of three rows of pairs of slots, counted as four rows of one. Three rows of one are
refused. -/
theorem Layout.Made.recounted_narrowed : ∃ l v : Layout, l.Made
    ∧ l = ⟨[2, 1, 2], [4, 4, 2], 4, 2⟩ ∧ v = ⟨[4, 1], [2, 2], 4, 2⟩ ∧ v.Recounted l
    ∧ l.reshape [3, 1] = refuse (.invalidShape (.sizeChange 4 3)) := by
  let l : Layout := ⟨[2, 1, 2], [4, 4, 2], 4, 2⟩
  have hshape : Layout.ofShape [3, 1, 2] 2 = .ok ⟨[3, 1, 2], [4, 4, 2], 0, 2⟩ := rfl
  have hmade : l.Made := .apply (.narrow 0 1 2) (.ofShape hshape) rfl
  have hreshape : l.reshape [4, 1] = .ok ⟨[4, 1], [2, 2], 4, 2⟩ := by decide +kernel
  have hrefused : ∃ e, l.reshape [3, 1] = refuse e := ⟨_, rfl⟩
  have hfits : ∀ t, l.reshape [4, 1] ≠ trap t := by
    rw [hreshape]
    exact fun t => (trap_ne_ok t _).symm
  have hdiffers : ∀ t, l.reshape [3, 1] ≠ trap t := by
    obtain ⟨e, he⟩ := hrefused
    rw [he]
    exact Outcome.refuse_ne_trap e
  have hcontiguous : l.isContiguous = .ok true := by decide +kernel
  obtain ⟨v, hv, -, hrecounted⟩ := (Made.recounted hmade (by decide) hfits).1 hcontiguous rfl
  obtain rfl := Except.ok.inj (hreshape.symm.trans hv)
  obtain ⟨hsize, -⟩ := (Made.recounted hmade (by decide) hdiffers).2.1 (.inr (by decide))
  exact ⟨l, _, hmade, rfl, rfl, hrecounted, hsize⟩

end StridedArray
