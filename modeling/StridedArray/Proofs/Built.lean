import StridedArray.Proofs.ViewOp

/-!
# Layouts as they are built

A layout comes from strides or from a shape, and then from view
operations. `Layout.Built` says so, with every extent on the way in the
signed range. Such a layout is grounded (`Layout.Built.grounded`), and the
slots that it asks for are the ones up to its highest item
(`Layout.slotsNeeded_eq_ok`). Computing any of this is never refused. Only
strides that are given may be, and not if they fit the shape and stay above
the first slot (`Layout.accepted_ofStrides`).
-/

namespace StridedArray

/-- An unsigned word that stays the same as a signed one. -/
theorem Word.lt_of_toSigned_nonneg {n : Nat} (hn : IsUnsigned n) (h : 0 ≤ toSigned n) :
    n < 0x8000000000000000 := by
  unfold IsUnsigned at hn
  unfold toSigned at h
  rw [Int.bmod_def] at h
  split at h <;> omega

/-! ## What cannot be refused -/

/-- The number of positions is never refused. -/
theorem Shape.accepted_size (s : Shape) : s.size.Accepted := by
  have general : ∀ (s : Shape) (m : Nat),
      (s.foldlM (fun product extent => Word.unsigned (product * extent)) m).Accepted := by
    intro s
    induction s with
    | nil => exact fun m => Outcome.refusedOnly_ok m
    | cons n s ih =>
      intro m
      rw [List.foldlM_cons]
      exact (Outcome.refusedOnly_unsigned _).bind fun product _ => ih product
  exact general s 1

namespace Layout

/-- The lowest slot is never refused. -/
theorem accepted_lowest (shape : Shape) (strides : List Int) (slot : Int) :
    (lowest shape strides slot).Accepted := by
  induction shape generalizing strides slot with
  | nil => exact Outcome.refusedOnly_ok _
  | cons n shape ih =>
    cases strides with
    | nil => exact Outcome.refusedOnly_ok _
    | cons s strides =>
      refine (Outcome.refusedOnly_signed _).bind fun _ _ => ?_
      refine (Outcome.refusedOnly_signed _).bind fun _ _ => ?_
      exact (Outcome.refusedOnly_signed _).bind fun _ _ => ih _ _

/-- The highest slot is never refused. -/
theorem accepted_highest (shape : Shape) (strides : List Int) (slot : Int) :
    (highest shape strides slot).Accepted := by
  induction shape generalizing strides slot with
  | nil => exact Outcome.refusedOnly_ok _
  | cons n shape ih =>
    cases strides with
    | nil => exact Outcome.refusedOnly_ok _
    | cons s strides =>
      rw [highest]
      refine .ite (fun _ => ?_) (fun _ => ih _ _)
      refine (Outcome.refusedOnly_signed _).bind fun _ _ => ?_
      refine (Outcome.refusedOnly_signed _).bind fun _ _ => ?_
      exact (Outcome.refusedOnly_signed _).bind fun _ _ => ih _ _

/-- The slots that a layout needs are never refused. -/
theorem accepted_slotsNeeded (l : Layout) : l.slotsNeeded.Accepted := by
  refine (Shape.accepted_size _).bind fun size _ => ?_
  refine .ite (fun _ => Outcome.refusedOnly_pure _) (fun _ => ?_)
  exact (accepted_highest _ _ _).bind fun _ _ => Outcome.refusedOnly_unsigned _

/-- The stride of an axis is never refused. -/
theorem accepted_pitch (inner : Int) (s : Shape) : (pitch inner s).Accepted := by
  induction s with
  | nil => exact Outcome.refusedOnly_ok _
  | cons n s ih => exact ih.bind fun _ _ => Outcome.refusedOnly_signed _

/-- Row-major strides are never refused. -/
theorem accepted_packedStrides (inner : Int) (s : Shape) : (packedStrides inner s).Accepted := by
  induction s with
  | nil => exact Outcome.refusedOnly_ok _
  | cons n s ih =>
    exact ih.bind fun _ _ =>
      (accepted_pitch inner s).bind fun _ _ => Outcome.refusedOnly_pure _

/-- A row-major layout is never refused. -/
theorem accepted_ofShape (shape : Shape) (itemSlots : Nat) :
    (ofShape shape itemSlots).Accepted :=
  (accepted_packedStrides _ _).bind fun _ _ => Outcome.refusedOnly_pure _

end Layout

/-! ## Layouts as they are made -/

namespace Layout

/-- **A layout from strides**: it has a stride per axis and slots per item, and unless it is empty
its lowest slot is not below the first one. -/
theorem ofStrides_eq_ok {shape : Shape} {strides : List Int} {offset itemSlots : Nat}
    {l : Layout} :
    ofStrides shape strides offset itemSlots = .ok l ↔ shape.length = strides.length
      ∧ itemSlots ≠ 0
      ∧ (0 < shape.count → ∃ low, lowest shape strides (Word.toSigned offset) = .ok low ∧ 0 ≤ low)
      ∧ l = { shape, strides, offset, itemSlots } := by
  unfold ofStrides
  by_cases hlength : shape.length ≠ strides.length
  · rw [if_pos hlength]
    exact ⟨fun h => absurd h (refuse_ne_ok _ _), fun h => absurd h.1 hlength⟩
  rw [if_neg hlength]
  by_cases hitem : itemSlots = 0
  · rw [if_pos hitem]
    exact ⟨fun h => absurd h (refuse_ne_ok _ _), fun h => absurd hitem h.2.1⟩
  rw [if_neg hitem]
  by_cases hpos : 0 < shape.count
  · rw [if_pos (Shape.count_pos_iff.mp hpos)]
    constructor
    · intro h
      obtain ⟨low, hlow, h⟩ := Outcome.bind_eq_ok.mp h
      by_cases hbelow : low < 0
      · rw [if_pos hbelow] at h
        exact absurd h (refuse_ne_ok _ _)
      · rw [if_neg hbelow] at h
        exact ⟨not_not.mp hlength, hitem, fun _ => ⟨low, hlow, Int.not_lt.mp hbelow⟩,
          (Except.ok.inj h).symm⟩
    · rintro ⟨-, -, hlow, rfl⟩
      obtain ⟨low, hlow, hnonneg⟩ := hlow hpos
      refine Outcome.bind_eq_ok.mpr ⟨low, hlow, ?_⟩
      rw [if_neg (Int.not_lt.mpr hnonneg)]
      rfl
  · rw [if_neg (fun h => hpos (Shape.count_pos_iff.mpr h))]
    exact ⟨fun h => ⟨not_not.mp hlength, hitem, fun h => absurd h hpos,
      (Except.ok.inj h).symm⟩, fun h => by rw [h.2.2.2]; rfl⟩

/-- **A layout from strides is accepted** if there is a stride per axis and no slot below the first
one, unless arithmetic traps. -/
theorem accepted_ofStrides {shape : Shape} {strides : List Int} {offset itemSlots : Nat}
    (hlength : shape.length = strides.length) (hitem : itemSlots ≠ 0)
    (hlow : 0 < shape.count → ∀ low,
      lowest shape strides (Word.toSigned offset) = .ok low → 0 ≤ low) :
    (ofStrides shape strides offset itemSlots).Accepted := by
  unfold ofStrides
  rw [if_neg (not_not_intro hlength), if_neg hitem]
  refine .ite (fun hpos => ?_) (fun _ => Outcome.refusedOnly_pure _)
  refine (accepted_lowest _ _ _).bind fun low hok => ?_
  rw [if_neg (Int.not_lt.mpr (hlow (Shape.count_pos_iff.mpr hpos) low hok))]
  exact Outcome.refusedOnly_pure _

/-- **A layout from strides is grounded** if its axes are steady. -/
theorem grounded_of_ofStrides {shape : Shape} {strides : List Int} {offset itemSlots : Nat}
    {l : Layout} (hshape : 0 < shape.count → SteadyAxes shape strides)
    (hoffset : Word.IsUnsigned offset) (hitem : itemSlots < 0x8000000000000000)
    (h : ofStrides shape strides offset itemSlots = .ok l) : l.Grounded := by
  obtain ⟨hlength, hpos, hlow, rfl⟩ := ofStrides_eq_ok.mp h
  -- an empty layout is not checked
  have hlowest : 0 < shape.count → 0 ≤ Word.toSigned offset + leastShift shape strides := by
    intro hcount
    obtain ⟨low, hlow, hnonneg⟩ := hlow hcount
    rwa [lowest_eq_ok (hshape hcount) hlow] at hnonneg
  have hlt : 0 < shape.count → offset < 0x8000000000000000 := by
    intro hcount
    have := hlowest hcount
    have := leastShift_nonpos shape strides
    exact Word.lt_of_toSigned_nonneg hoffset (by omega)
  refine ⟨hlength.symm, Nat.pos_of_ne_zero hpos, hitem, hlt, fun p (hp : shape.Contains p) => ?_⟩
  have hcount := Shape.count_pos_of_contains hp
  have hbound := hlowest hcount
  have hshift := (displacement_mem_shift strides hp).1
  rw [Word.toSigned_of_lt (hlt hcount)] at hbound
  show 0 ≤ (offset : Int) + displacement p strides
  omega

/-- **The row-major layout of a shape is grounded** if its extents are signed. -/
theorem grounded_of_ofShape {shape : Shape} {itemSlots : Nat} {l : Layout}
    (hshape : 0 < shape.count → shape.Signed) (h₀ : 0 < itemSlots)
    (hitem : itemSlots < 0x8000000000000000) (h : ofShape shape itemSlots = .ok l) :
    l.Grounded := by
  obtain ⟨strides, hstrides, rfl⟩ := (ofShape_eq_ok h₀ hitem).mp h
  have hzero : 0 < 0x8000000000000000 := by decide
  refine ⟨length_packedStrides hstrides, h₀, hitem, fun _ => hzero, fun p hp => ?_⟩
  rw [address_packed (hshape (Shape.count_pos_of_contains hp)) hstrides hp]
  have : (0 : Int) ≤ itemSlots * shape.ravel p :=
    Int.mul_nonneg (Int.natCast_nonneg _) (Int.natCast_nonneg _)
  show 0 ≤ ((0 : Nat) : Int) + itemSlots * shape.ravel p
  omega

/-- **Layouts built from strides or a shape by view operations**, with signed extents throughout. -/
inductive Built : Layout → Prop
  /-- From strides. -/
  | ofStrides {shape : Shape} {strides : List Int} {offset itemSlots : Nat} {l : Layout}
    (hshape : shape.Signed) (hoffset : Word.IsUnsigned offset)
    (h : Layout.ofStrides shape strides offset itemSlots = .ok l) : Built l
  /-- From a shape. -/
  | ofShape {shape : Shape} {itemSlots : Nat} {l : Layout} (hshape : shape.Signed)
    (h : Layout.ofShape shape itemSlots = .ok l) : Built l
  /-- By a view operation. -/
  | apply {l v : Layout} (op : ViewOp) (hl : Built l) (hshape : v.shape.Signed)
    (h : op.apply l = .ok v) : Built v

/-- The extents of a built layout are signed. -/
theorem Built.signed {l : Layout} (h : l.Built) : l.shape.Signed := by
  cases h with
  | ofStrides hshape _ h =>
    obtain ⟨-, -, -, rfl⟩ := ofStrides_eq_ok.mp h
    exact hshape
  | ofShape hshape h =>
    exact (shape_of_ofShape h).1 ▸ hshape
  | apply op hl hshape h => exact hshape

end Layout

/-- A view operation keeps the number of slots of an item. -/
theorem ViewOp.itemSlots_of_apply {op : ViewOp} {l v : Layout} (h : op.apply l = .ok v) :
    v.itemSlots = l.itemSlots := by
  cases op with
  | reshape shape =>
    obtain ⟨_, _, -, -, -, -, rfl⟩ := Layout.reshape_eq_ok.mp h
    rfl
  | transpose i j =>
    obtain ⟨started, hstart, h⟩ := Outcome.bind_eq_ok.mp h
    obtain ⟨strides, -, h⟩ := Outcome.bind_eq_ok.mp h
    obtain rfl := Except.ok.inj h
    have hstart : l.exchangeExtents i j = .ok started := hstart
    unfold Layout.exchangeExtents at hstart
    split at hstart
    · exact absurd hstart (refuse_ne_ok _ _)
    · obtain ⟨shape, -, hstart⟩ := Outcome.bind_eq_ok.mp hstart
      obtain rfl := Except.ok.inj hstart
      rfl
  | narrow axis start length =>
    obtain ⟨_, moved, -, -, -, hmoved, rfl⟩ := Layout.narrow_eq_ok.mp h
    obtain ⟨_, -, -, -, rfl⟩ := Layout.moveOrigin_eq_ok.mp hmoved
    rfl
  | flip axis =>
    obtain ⟨n, moved, -, hmoved, h⟩ := Layout.flip_eq_ok.mp h
    obtain ⟨_, -, -, rfl⟩ := Layout.negateStride_eq_ok.mp h
    split at hmoved
    · obtain ⟨_, -, -, -, rfl⟩ := Layout.moveOrigin_eq_ok.mp hmoved.2
      rfl
    · rw [hmoved]

namespace Layout

/-- **A built layout is grounded**, if the number of slots of an item is a signed word. -/
theorem Built.grounded {l : Layout} (h : l.Built) (hitem : l.itemSlots < 0x8000000000000000) :
    l.Grounded := by
  induction h with
  | @ofStrides shape strides offset itemSlots l hshape hoffset h =>
    obtain ⟨hlength, -, -, hl⟩ := ofStrides_eq_ok.mp h
    rw [hl] at hitem
    exact grounded_of_ofStrides (fun _ => steadyAxes_of_signed hshape hlength.symm) hoffset hitem h
  | @ofShape shape itemSlots l hshape h =>
    obtain ⟨-, hmax⟩ := shape_of_ofShape h
    -- an item without slots counts as one with one slot
    have hsame : Layout.ofShape shape (max itemSlots 1) = .ok l := by
      rw [← h]
      unfold Layout.ofShape rowMajorStrides
      rw [Nat.max_eq_left (Nat.le_max_right itemSlots 1)]
    exact grounded_of_ofShape (fun _ => hshape) (by omega) (hmax ▸ hitem) hsame
  | @apply l v op hl hshape h ih =>
    have hgrounded := ih (ViewOp.itemSlots_of_apply h ▸ hitem)
    obtain ⟨f, hf⟩ := ViewOp.selects_of_apply hgrounded
      (fun _ => ViewOp.exact_of_signed hgrounded hl.signed hshape h) h
    exact hf.toViews.grounded hgrounded

/-! ## The slots that a layout needs -/

/-- The highest slot in machine words is a word. -/
theorem isSigned_highest {shape : Shape} {strides : List Int} {slot high : Int}
    (hslot : Word.IsSigned slot) (h : highest shape strides slot = .ok high) :
    Word.IsSigned high := by
  induction shape generalizing strides slot with
  | nil =>
    obtain rfl := Except.ok.inj h
    exact hslot
  | cons n shape ih =>
    cases strides with
    | nil =>
      obtain rfl := Except.ok.inj h
      exact hslot
    | cons s strides =>
      rw [highest] at h
      split at h
      · obtain ⟨steps, -, h⟩ := Outcome.bind_eq_ok.mp h
        obtain ⟨reach, -, h⟩ := Outcome.bind_eq_ok.mp h
        obtain ⟨next, hnext, h⟩ := Outcome.bind_eq_ok.mp h
        obtain ⟨hsigned, rfl⟩ := Word.signed_eq_ok.mp hnext
        exact ih hsigned h
      · exact ih hslot h

/-- **The slots that a layout needs** reach to the end of its highest item. -/
theorem slotsNeeded_eq_ok {l : Layout} {required : Nat} (hoffset : l.offset < 0x8000000000000000)
    (hpos : 0 < l.shape.count) (haxes : SteadyAxes l.shape l.strides)
    (h : l.slotsNeeded = .ok required) :
    (required : Int) = l.offset + greatestShift l.shape l.strides + l.itemSlots := by
  obtain ⟨size, hsize, h⟩ := Outcome.bind_eq_ok.mp h
  have hcount : size = l.shape.count := Shape.count_of_size hsize
  rw [if_neg (by omega)] at h
  obtain ⟨last, hlast, h⟩ := Outcome.bind_eq_ok.mp h
  obtain ⟨-, rfl⟩ := Word.unsigned_eq_ok.mp h
  have hsigned := isSigned_highest (Word.isSigned_toSigned _) hlast
  have hlast := highest_eq_ok haxes hpos hlast
  have hreach := greatestShift_nonneg l.shape l.strides
  rw [Word.toSigned_of_lt hoffset] at hlast
  have hlt : last < 0x10000000000000000 := Int.lt_trans hsigned.2 (by decide)
  have hnonneg : 0 ≤ last := by omega
  rw [Word.toUnsigned_of_nonneg hnonneg hlt, Int.natCast_add, Int.toNat_of_nonneg hnonneg, hlast]

end Layout

end StridedArray
