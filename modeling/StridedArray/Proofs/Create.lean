import StridedArray.Proofs.Walk

/-!
# New arrays

What an array has that was made of nothing but a shape: a storage of its
own with just as many slots as its items take, in row-major order. That
such an array is in bounds (`View.inBounds_of_zerosOfType`,
`View.inBounds_of_ofValuesOfType`) needs no condition on the extents: a
storage with so many slots exists only if they are in range, or if there
are no items.

An array of zeros is moreover **fresh** (`View.Fresh`): its storage is a new
one, and all that was there before is as it was. Making one is refused only
for the number of its bytes (`View.zerosOfType_achieves`).
-/

namespace StridedArray

namespace Storage

/-- **A storage of zeros**, as far as it can be addressed. -/
theorem zeros_eq_ok {type : ElementType} {size : Nat} {s : Storage} :
    zeros type size = .ok s ↔ size * type.slotBytes < Word.addressLimit
      ∧ s = { type, bytes := List.replicate (size * type.slotBytes) 0 } := by
  unfold zeros
  by_cases hunsigned : ¬Word.IsUnsigned (size * type.slotBytes)
  · simp only [if_pos hunsigned]
    refine ⟨fun h => absurd h (refuse_ne_ok _ _), fun h => absurd ?_ hunsigned⟩
    have hlt : size * type.slotBytes < 0x8000000000000000 := h.1
    unfold Word.IsUnsigned
    omega
  simp only [if_neg hunsigned]
  by_cases hlimit : Word.addressLimit ≤ size * type.slotBytes
  · rw [if_pos hlimit]
    exact ⟨fun h => absurd h (trap_ne_ok _ _), fun h => absurd h.1 (Nat.not_lt_of_le hlimit)⟩
  · rw [if_neg hlimit]
    exact ⟨fun h => ⟨Nat.lt_of_not_le hlimit, (Except.ok.inj h).symm⟩,
      fun h => congrArg Except.ok h.2.symm⟩

/-- **A storage of zeros is refused** only if the number of its bytes is out of range. -/
theorem accepted_zeros {type : ElementType} {size : Nat}
    (h : Word.IsUnsigned (size * type.slotBytes)) : (zeros type size).Accepted := by
  unfold zeros
  rw [if_neg (not_not_intro h)]
  exact .ite (fun _ => Outcome.refusedOnly_trap _) (fun _ => Outcome.refusedOnly_ok _)

/-- A storage of zeros has the slots asked for. -/
theorem len_zeros (type : ElementType) (size : Nat) :
    ({ type, bytes := List.replicate (size * type.slotBytes) 0 } : Storage).len = size := by
  unfold len
  rw [List.length_replicate]
  exact Nat.mul_div_cancel _ (SlotKind.bytes_pos _)

/-- A write keeps type and size of a storage. -/
theorem size_of_set {s s' : Storage} {i : Nat} {v : SlotValue} (h : s.set i v = .ok s') :
    s'.type = s.type ∧ s'.bytes.length = s.bytes.length := by
  obtain ⟨hindex, hkind, rfl⟩ := set_eq_ok.mp h
  exact ⟨rfl, length_replace hindex hkind⟩

/-- Writing many slots keeps type and size of a storage. -/
theorem size_of_writeAllFrom {values : List Double} {s s' : Storage} {i : Nat}
    (h : s.writeAllFrom i values = .ok s') :
    s'.type = s.type ∧ s'.bytes.length = s.bytes.length := by
  induction values generalizing s i with
  | nil =>
    obtain rfl := Except.ok.inj h
    exact ⟨rfl, rfl⟩
  | cons x values ih =>
    obtain ⟨s₁, hwrite, hrest⟩ := Outcome.bind_eq_ok.mp h
    obtain ⟨htype, hsize⟩ := size_of_set hwrite
    obtain ⟨htype', hsize'⟩ := ih hrest
    exact ⟨htype'.trans htype, hsize'.trans hsize⟩

/-- **A storage of values** has the given type and a slot for each value. -/
theorem size_of_ofValues {type : ElementType} {values : List Double} {s : Storage}
    (h : ofValues type values = .ok s) : s.type = type
      ∧ s.bytes.length = values.length * type.slotBytes
      ∧ s.bytes.length < Word.addressLimit := by
  obtain ⟨zeroed, hzeros, hrest⟩ := Outcome.bind_eq_ok.mp h
  obtain ⟨hlimit, rfl⟩ := zeros_eq_ok.mp hzeros
  obtain ⟨htype, hsize⟩ := size_of_writeAllFrom hrest
  rw [hsize, List.length_replicate]
  exact ⟨htype, rfl, hlimit⟩

end Storage

namespace View

variable {x : View} {w w' : Workspace} {shape : Shape} {type : ElementType}

/-- **A row-major array in its own storage** is in bounds. -/
theorem inBounds_of_rowMajor {s : Storage} {l : Layout}
    (hl : Layout.ofShape shape type.itemSlots = .ok l) (hs : s.bytes.length < Word.addressLimit)
    (hcount : shape.count ≤ s.bytes.length) (h : ofStorage s l w = .ok x w') :
    x.InBounds w' := by
  have hsigned : 0 < shape.count → shape.Signed := fun hpos =>
    Shape.signed_of_count hpos (Nat.lt_of_le_of_lt hcount hs)
  obtain ⟨hshape, -⟩ := Layout.shape_of_ofShape hl
  have hgrounded := Layout.grounded_of_ofShape hsigned type.itemSlots_pos type.itemSlots_lt hl
  refine inBounds_of_ofStorage hs hgrounded (fun hpos => ?_) h
  rw [hshape] at hpos
  exact Layout.steadyAxes_of_signed (hshape ▸ hsigned hpos) hgrounded.length_strides

/-- **An array of zeros** is a new storage of zeros in row-major order. -/
theorem zerosOfType_eq_ok :
    zerosOfType shape type w = .ok x w' ↔ ∃ l s, Layout.ofShape shape type.itemSlots = .ok l
      ∧ l.size = .ok shape.count ∧ Word.IsUnsigned (shape.count * type.itemSlots)
      ∧ Storage.zeros type (shape.count * type.itemSlots) = .ok s
      ∧ ofStorage s l w = .ok x w' := by
  constructor
  · intro h
    obtain ⟨l, hl, h⟩ := Action.lift_bind_eq_ok.mp h
    obtain ⟨size, hsize, h⟩ := Action.lift_bind_eq_ok.mp h
    obtain ⟨slots, hslots, h⟩ := Action.lift_bind_eq_ok.mp h
    obtain ⟨hunsigned, rfl⟩ := Word.unsigned_eq_ok.mp hslots
    obtain ⟨s, hzeros, hstore⟩ := Action.lift_bind_eq_ok.mp h
    obtain ⟨hshape, -⟩ := Layout.shape_of_ofShape hl
    have hcount : size = shape.count := hshape ▸ Shape.count_of_size hsize
    subst hcount
    exact ⟨l, s, hl, hsize, hunsigned, hzeros, hstore⟩
  · rintro ⟨l, s, hl, hsize, hunsigned, hzeros, h⟩
    refine Action.lift_bind_eq_ok.mpr ⟨l, hl, ?_⟩
    refine Action.lift_bind_eq_ok.mpr ⟨_, hsize, ?_⟩
    refine Action.lift_bind_eq_ok.mpr ⟨_, Word.unsigned_eq_ok.mpr ⟨hunsigned, rfl⟩, ?_⟩
    exact Action.lift_bind_eq_ok.mpr ⟨s, hzeros, h⟩

/-- **An array of zeros is in bounds.** -/
theorem inBounds_of_zerosOfType (h : zerosOfType shape type w = .ok x w') : x.InBounds w' := by
  obtain ⟨l, s, hl, -, -, hzeros, h⟩ := zerosOfType_eq_ok.mp h
  obtain ⟨hlimit, rfl⟩ := Storage.zeros_eq_ok.mp hzeros
  refine inBounds_of_rowMajor hl (by rwa [List.length_replicate]) ?_ h
  have hbytes : 0 < type.slotBytes := SlotKind.bytes_pos _
  rw [List.length_replicate]
  calc shape.count
      ≤ shape.count * type.itemSlots := Nat.le_mul_of_pos_right _ type.itemSlots_pos
    _ ≤ shape.count * type.itemSlots * type.slotBytes := Nat.le_mul_of_pos_right _ hbytes

/-- **An array of values** is a new storage of the values in row-major order. -/
theorem ofValuesOfType_eq_ok {values : List Double} :
    ofValuesOfType values shape type w = .ok x w' ↔ ∃ l s,
      Layout.ofShape shape type.itemSlots = .ok l ∧ l.size = .ok shape.count
        ∧ Word.IsUnsigned (shape.count * type.itemSlots)
        ∧ values.length = shape.count * type.itemSlots
        ∧ Storage.ofValues type values = .ok s ∧ ofStorage s l w = .ok x w' := by
  constructor
  · intro h
    obtain ⟨l, hl, h⟩ := Action.lift_bind_eq_ok.mp h
    obtain ⟨size, hsize, h⟩ := Action.lift_bind_eq_ok.mp h
    obtain ⟨needed, hneeded, h⟩ := Action.lift_bind_eq_ok.mp h
    obtain ⟨hunsigned, rfl⟩ := Word.unsigned_eq_ok.mp hneeded
    obtain ⟨hshape, -⟩ := Layout.shape_of_ofShape hl
    have hcount : size = shape.count := hshape ▸ Shape.count_of_size hsize
    subst hcount
    by_cases hlength : values.length ≠ shape.count * type.itemSlots
    · rw [if_pos hlength] at h
      obtain ⟨hrefused, -⟩ := Action.ofOutcome_eq_ok.mp h
      exact absurd hrefused (refuse_ne_ok _ _)
    · rw [if_neg hlength] at h
      obtain ⟨s, hvalues, hstore⟩ := Action.lift_bind_eq_ok.mp h
      exact ⟨l, s, hl, hsize, hunsigned, not_not.mp hlength, hvalues, hstore⟩
  · rintro ⟨l, s, hl, hsize, hunsigned, hlength, hvalues, h⟩
    refine Action.lift_bind_eq_ok.mpr ⟨l, hl, ?_⟩
    refine Action.lift_bind_eq_ok.mpr ⟨_, hsize, ?_⟩
    refine Action.lift_bind_eq_ok.mpr ⟨_, Word.unsigned_eq_ok.mpr ⟨hunsigned, rfl⟩, ?_⟩
    rw [if_neg (not_not_intro hlength)]
    exact Action.lift_bind_eq_ok.mpr ⟨s, hvalues, h⟩

/-- **An array of values is in bounds.** -/
theorem inBounds_of_ofValuesOfType {values : List Double}
    (h : ofValuesOfType values shape type w = .ok x w') : x.InBounds w' := by
  obtain ⟨l, s, hl, -, -, hlength, hvalues, h⟩ := ofValuesOfType_eq_ok.mp h
  obtain ⟨-, hsize, hlimit⟩ := Storage.size_of_ofValues hvalues
  refine inBounds_of_rowMajor hl hlimit ?_ h
  have hbytes : 0 < type.slotBytes := SlotKind.bytes_pos _
  rw [hsize, hlength]
  calc shape.count
      ≤ shape.count * type.itemSlots := Nat.le_mul_of_pos_right _ type.itemSlots_pos
    _ ≤ shape.count * type.itemSlots * type.slotBytes := Nat.le_mul_of_pos_right _ hbytes

/-- **The array of rank 0 that holds a value is in bounds.** -/
theorem inBounds_of_scalar {value : Double} (h : scalar value w = .ok x w') : x.InBounds w' := by
  obtain ⟨w₁, w₂, hget, h₁⟩ := Action.bind_eq_ok.mp h
  obtain ⟨rfl, rfl⟩ := EStateM.Result.ok.inj hget
  exact inBounds_of_ofValuesOfType h₁

/-! ## Row-major order -/

/-- **The items of a row-major array follow each other** in the order of their ranks. -/
theorem InBounds.address_rowMajor {p : List Nat} (h : x.InBounds w)
    (hl : Layout.ofShape shape type.itemSlots = .ok x.layout) (hp : shape.Contains p) :
    x.layout.address p = type.itemSlots * shape.ravel p := by
  obtain ⟨strides, hstrides, hlayout⟩ :=
    (Layout.ofShape_eq_ok type.itemSlots_pos type.itemSlots_lt).mp hl
  have hmemory := h.inMemory
  rw [View.shape, hlayout] at hmemory
  rw [hlayout]
  -- extents of an array in bounds are in range, as its storage is
  have hsigned := Layout.signed_of_packed (Int.natCast_pos.mpr type.itemSlots_pos)
    (Shape.count_pos_of_contains hp) hstrides hmemory
  rw [Layout.address_packed hsigned hstrides hp]
  exact Int.zero_add _

/-- The slot of the item with a given rank. -/
theorem InBounds.sourceSlot_rowMajor {k : Nat} (h : x.InBounds w)
    (hl : Layout.ofShape shape type.itemSlots = .ok x.layout) (hk : k < shape.count) :
    x.sourceSlot (shape.unravel k) = type.itemSlots * k := by
  have hp := Shape.contains_unravel hk
  have hshape : x.shape = shape := (Layout.shape_of_ofShape hl).1
  rw [sourceSlot, hshape, Shape.sourceOf_self hp, h.address_rowMajor hl hp,
    Shape.ravel_unravel hk, ← Int.natCast_mul, Int.toNat_natCast]

/-! ## Fresh arrays -/

/-- **An array of zeros in a storage of its own**, all else being as it was. -/
structure Fresh (x : View) (shape : Shape) (type : ElementType) (w w' : Workspace) : Prop where
  /-- The storage has the next number. -/
  storage_eq : x.storage = w.cells.length
  /-- The layout is row-major. -/
  layout : Layout.ofShape shape type.itemSlots = .ok x.layout
  /-- The storage can be addressed. -/
  addressable : shape.count * type.itemSlots * type.slotBytes < Word.addressLimit
  /-- One storage has been added. -/
  workspace_eq : w' = w.add
    { type, bytes := List.replicate (shape.count * type.itemSlots * type.slotBytes) 0 }
  /-- Every item fits. -/
  inBounds : x.InBounds w'

/-- **An array of zeros is fresh.** -/
theorem fresh_of_zerosOfType (h : zerosOfType shape type w = .ok x w') :
    x.Fresh shape type w w' := by
  obtain ⟨l, s, hl, -, -, hzeros, hstore⟩ := zerosOfType_eq_ok.mp h
  obtain ⟨hlimit, rfl⟩ := Storage.zeros_eq_ok.mp hzeros
  obtain ⟨-, rfl, rfl⟩ := ofStorage_eq_ok.mp hstore
  exact ⟨rfl, hl, hlimit, rfl, inBounds_of_zerosOfType h⟩

namespace Fresh

variable (h : x.Fresh shape type w w')

include h

theorem shape_eq : x.shape = shape :=
  (Layout.shape_of_ofShape h.layout).1

theorem cell_eq : w'.cell x.storage
    = ⟨⟨type, List.replicate (shape.count * type.itemSlots * type.slotBytes) 0⟩, false⟩ := by
  rw [h.workspace_eq, h.storage_eq, Workspace.cell_add, if_pos rfl]

theorem elementType_eq : x.elementType w' = type := by
  rw [elementType, Workspace.elementType, h.cell_eq]

theorem unlocked : (w'.cell x.storage).locked = false := by
  rw [h.cell_eq]

/-- The storages from before are as they were. -/
theorem cell_of_lt {id : Nat} (hid : id < w.cells.length) : w'.cell id = w.cell id := by
  rw [h.workspace_eq, Workspace.cell_add, if_neg (Nat.ne_of_lt hid)]

theorem preserves : w.Preserves w' :=
  .of_cell_eq fun _ hid => h.cell_of_lt hid

theorem keeps : w.Extends w' := by
  rw [h.workspace_eq]
  exact Workspace.extends_add w _

/-- The storage has just the slots of the items. -/
theorem slotCount_eq : w'.slotCount x.storage = shape.count * type.itemSlots := by
  rw [Workspace.slotCount, h.cell_eq]
  exact Storage.len_zeros type _

/-- The items lie without gaps. -/
theorem contiguous : x.layout.isContiguous = .ok true := by
  obtain ⟨strides, hstrides, hlayout⟩ :=
    (Layout.ofShape_eq_ok type.itemSlots_pos type.itemSlots_lt).mp h.layout
  rw [hlayout]
  exact (Layout.isContiguous_eq_ok type.itemSlots_pos type.itemSlots_lt).mpr hstrides

/-- **Items follow each other** in the order of their ranks. -/
theorem address_eq {p : List Nat} (hp : shape.Contains p) :
    x.layout.address p = type.itemSlots * shape.ravel p :=
  h.inBounds.address_rowMajor h.layout hp

/-- The slot of the item with a given rank. -/
theorem sourceSlot_unravel {k : Nat} (hk : k < shape.count) :
    x.sourceSlot (shape.unravel k) = type.itemSlots * k :=
  h.inBounds.sourceSlot_rowMajor h.layout hk

/-- **Distinct positions have distinct slots.** -/
theorem address_injective {p q : List Nat} (hp : shape.Contains p) (hq : shape.Contains q)
    (heq : x.layout.address p = x.layout.address q) : p = q := by
  rw [h.address_eq hp, h.address_eq hq] at heq
  have hitem : (type.itemSlots : Int) ≠ 0 := by
    have := type.itemSlots_pos
    omega
  exact Shape.ravel_injective hp hq (Int.ofNat.inj (Int.eq_of_mul_eq_mul_left hitem heq))

end Fresh

/-- **A storage with a slot for every slot of a shape** fits its row-major layout. -/
theorem accepted_checkFit {s : Storage} {l : Layout}
    (hl : Layout.ofShape shape s.type.itemSlots = .ok l) (hs : s.bytes.length < Word.addressLimit)
    (hlen : s.len = shape.count * s.type.itemSlots) : (checkFit s l).Accepted := by
  have hpos := s.type.itemSlots_pos
  have hlt := s.type.itemSlots_lt
  obtain ⟨strides, hstrides, rfl⟩ := (Layout.ofShape_eq_ok hpos hlt).mp hl
  unfold checkFit
  refine .ite (fun h => absurd rfl h) (fun _ => ?_)
  refine (Shape.accepted_size _).bind fun size hsize => ?_
  refine .ite (fun hsize₀ => ?_) (fun _ => Outcome.refusedOnly_pure _)
  refine (Layout.accepted_slotsNeeded _).bind fun required hrequired => ?_
  -- the highest item ends with the last slot
  have hcount : 0 < shape.count := Shape.count_of_size hsize ▸ hsize₀
  have hle : shape.count ≤ shape.count * s.type.itemSlots := Nat.le_mul_of_pos_right _ hpos
  have hsigned : shape.Signed := by
    refine Shape.signed_of_count hcount (Nat.lt_of_le_of_lt hle ?_)
    rw [← hlen]
    exact Nat.lt_of_le_of_lt s.len_le hs
  have hgrounded := Layout.grounded_of_ofShape (fun _ => hsigned) hpos hlt hl
  have hneeded := Layout.slotsNeeded_eq_ok (hgrounded.offset_lt hcount) hcount
    (Layout.steadyAxes_of_signed hsigned hgrounded.length_strides) hrequired
  rw [Layout.greatestShift_packedStrides (Int.natCast_nonneg _) hsigned hcount hstrides,
    Int.natCast_sub hcount, Int.mul_sub, Int.natCast_one, Int.mul_one] at hneeded
  have hall : (s.len : Int) = s.type.itemSlots * shape.count := by
    rw [hlen, Int.natCast_mul, Int.mul_comm]
  refine .ite (fun h => absurd h ?_) (fun _ => Outcome.refusedOnly_pure _)
  have hzero : (({ shape, strides, offset := 0, itemSlots := s.type.itemSlots } : Layout).offset
      : Int) = 0 := rfl
  omega

/-- **An array of zeros is made** unless arithmetic traps, if the number of its bytes is an unsigned
word. -/
theorem zerosOfType_achieves
    (hroom : Word.IsUnsigned (shape.count * type.itemSlots * type.slotBytes)) :
    Action.Achieves w (zerosOfType shape type) fun x w' => x.Fresh shape type w w' := by
  have hmade : Action.Achieves w (zerosOfType shape type) fun _ _ => True := by
    refine .lift_bind (Layout.accepted_ofShape _ _) fun l hl => ?_
    refine .lift_bind (Shape.accepted_size _) fun size hsize => ?_
    refine .lift_bind (Outcome.refusedOnly_unsigned _) fun slots hslots => ?_
    obtain ⟨-, rfl⟩ := Word.unsigned_eq_ok.mp hslots
    have hcount : size = shape.count :=
      (Layout.shape_of_ofShape hl).1 ▸ Shape.count_of_size hsize
    subst hcount
    refine .lift_bind (Storage.accepted_zeros hroom) fun s hs => ?_
    obtain ⟨hlimit, rfl⟩ := Storage.zeros_eq_ok.mp hs
    refine .lift_bind (accepted_checkFit hl (by rwa [List.length_replicate])
      (Storage.len_zeros _ _)) fun _ _ => ?_
    exact .inl ⟨_, _, rfl, trivial⟩
  exact hmade.result.mono fun x w' h => fresh_of_zerosOfType h.1

/-- **Arithmetic with a new array** makes an array of zeros, of the type in which the operands meet
and of the broadcast shape, and stores the results in it. -/
theorem binary_eq_ok {op : BinaryOp} {y z : View} :
    binary op x y w = .ok z w' ↔ ∃ type r w₁,
      resultType (x.elementType w) (y.elementType w) = .ok type
        ∧ Shape.broadcast [x.shape, y.shape] = .ok r ∧ zerosOfType r type w = .ok z w₁
        ∧ fillFrom z x y op.eval w₁ = .ok () w' := by
  constructor
  · intro h
    obtain ⟨_, _, hget, h⟩ := Action.bind_eq_ok.mp h
    obtain ⟨rfl, rfl⟩ := EStateM.Result.ok.inj hget
    obtain ⟨type, htype, h⟩ := Action.lift_bind_eq_ok.mp h
    obtain ⟨r, hr, h⟩ := Action.lift_bind_eq_ok.mp h
    obtain ⟨result, w₁, hzeros, h⟩ := Action.bind_eq_ok.mp h
    obtain ⟨_, w₃, hfill, hpure⟩ := Action.bind_eq_ok.mp h
    obtain ⟨rfl, rfl⟩ := EStateM.Result.ok.inj hpure
    exact ⟨type, r, w₁, htype, hr, hzeros, hfill⟩
  · rintro ⟨type, r, w₁, htype, hr, hzeros, hfill⟩
    refine Action.bind_eq_ok.mpr ⟨w, w, rfl, ?_⟩
    refine Action.lift_bind_eq_ok.mpr ⟨type, htype, ?_⟩
    refine Action.lift_bind_eq_ok.mpr ⟨r, hr, ?_⟩
    refine Action.bind_eq_ok.mpr ⟨z, w₁, hzeros, ?_⟩
    exact Action.bind_eq_ok.mpr ⟨(), w', hfill, rfl⟩

end View

end StridedArray
