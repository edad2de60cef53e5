import StridedArray.Proofs.Packed

/-!
# Arrays of values

A storage of values is written slot by slot over zeros. Afterwards each slot
holds the value written to it, converted to the kind of the slots
(`Storage.get_of_ofValues`): a write leaves the slots before it alone. Nothing
can go wrong on the way if the values themselves fit into memory, as the
slots of no type take more bytes than a double (`Storage.exists_ofValues`).

A row-major array of values exists if and only if there is a value for every
slot (`View.exists_ofValuesOfType`, `View.ofValuesOfType_refused`), and what is
read from its slots are these values (`View.readDouble_of_ofValuesOfType`).
-/

namespace StridedArray

/-- A slot takes at most the bytes of a double. -/
theorem ElementType.slotBytes_le (t : ElementType) : t.slotBytes ≤ 8 := by
  cases t <;> decide

namespace Storage

variable {s : Storage} {i : Nat} {type : ElementType} {values : List Double}

/-- **Values are written to slots that are there**: the slots before them are left alone, and each
of the others holds its value. -/
theorem writeAllFrom_of_le (h : i + values.length ≤ s.len) :
    ∃ s', s.writeAllFrom i values = .ok s' ∧ (∀ j < i, s'.get j = s.get j)
      ∧ ∀ k v, values[k]? = some v → s'.get (i + k) = .ok (.ofDouble s.type.slotKind v) := by
  induction values generalizing s i with
  | nil => exact ⟨s, rfl, fun _ _ => rfl, fun k v hv => absurd hv (by simp)⟩
  | cons x values ih =>
    rw [List.length_cons] at h
    have hi : i < s.len := by omega
    have hkind := SlotValue.kind_ofDouble s.type.slotKind x
    have hwrite : s.writeDouble i x = .ok (s.replace i (SlotValue.ofDouble s.type.slotKind x).encode) :=
      set_of_lt hi hkind
    have hlen := len_replace hi hkind
    obtain ⟨s', hrest, hbefore, hhere⟩ := ih
      (show i + 1 + values.length ≤ (s.replace i (SlotValue.ofDouble s.type.slotKind x).encode).len
        by omega)
    refine ⟨s', Outcome.bind_eq_ok.mpr ⟨_, hwrite, hrest⟩, fun j hj => ?_, fun k v hv => ?_⟩
    · rw [hbefore j (by omega), get_replace hi hkind (by omega), if_neg (Nat.ne_of_lt hj)]
    · cases k with
      | zero =>
        obtain rfl := Option.some.inj hv
        rw [Nat.add_zero, hbefore i (Nat.lt_succ_self i), get_replace hi hkind hi, if_pos rfl]
      | succ k =>
        have hlater := hhere k v hv
        rwa [Nat.add_assoc, Nat.add_comm 1] at hlater

/-- **Values are written over as many zeros.** -/
theorem writeAllFrom_zeros (type : ElementType) (values : List Double) :
    ∃ s, writeAllFrom { type, bytes := List.replicate (values.length * type.slotBytes) 0 } 0 values
        = .ok s
      ∧ ∀ k v, values[k]? = some v → s.get k = .ok (.ofDouble type.slotKind v) := by
  have hroom : 0 + values.length
      ≤ len { type, bytes := List.replicate (values.length * type.slotBytes) 0 } := by
    rw [len_zeros, Nat.zero_add]
  obtain ⟨s, hs, -, hhere⟩ := writeAllFrom_of_le hroom
  refine ⟨s, hs, fun k v hv => ?_⟩
  have hslot := hhere k v hv
  rwa [Nat.zero_add] at hslot

/-- **A storage of values exists** if the values fit into memory. -/
theorem exists_ofValues (type : ElementType) (h : 8 * values.length < Word.addressLimit) :
    ∃ s, ofValues type values = .ok s := by
  have hbytes : values.length * type.slotBytes ≤ 8 * values.length := by
    rw [Nat.mul_comm]
    exact Nat.mul_le_mul_right _ type.slotBytes_le
  obtain ⟨s, hs, -⟩ := writeAllFrom_zeros type values
  exact ⟨s, Outcome.bind_eq_ok.mpr ⟨_, zeros_eq_ok.mpr ⟨Nat.lt_of_le_of_lt hbytes h, rfl⟩, hs⟩⟩

/-- A storage of values has a slot for each value. -/
theorem len_of_ofValues (h : ofValues type values = .ok s) : s.len = values.length := by
  obtain ⟨rfl, hsize, -⟩ := size_of_ofValues h
  rw [len, hsize]
  exact Nat.mul_div_cancel _ (SlotKind.bytes_pos _)

/-- **Every slot holds its value**, converted to the kind of the slots. -/
theorem get_of_ofValues (h : ofValues type values = .ok s) {k : Nat} {v : Double}
    (hv : values[k]? = some v) : s.get k = .ok (.ofDouble type.slotKind v) := by
  obtain ⟨zeroed, hzeros, hs⟩ := Outcome.bind_eq_ok.mp h
  obtain ⟨-, rfl⟩ := zeros_eq_ok.mp hzeros
  obtain ⟨s', hs', hhere⟩ := writeAllFrom_zeros type values
  obtain rfl := Except.ok.inj (hs.symm.trans hs')
  exact hhere k v hv

end Storage

namespace Shape

/-- **The size computations of a shape do not overflow**, with items of so many slots. -/
structure Sized (s : Shape) (itemSlots : Nat) : Prop where
  /-- The number of positions can be multiplied up. -/
  size : ∃ n, s.size = .ok n
  /-- The number of slots is an unsigned word. -/
  slots : Word.IsUnsigned (s.count * itemSlots)
  /-- The row-major strides can be multiplied up. -/
  strides : ∃ l, Layout.ofShape s itemSlots = .ok l

theorem Sized.size_eq {s : Shape} {itemSlots : Nat} (h : s.Sized itemSlots) :
    s.size = .ok s.count := by
  obtain ⟨n, hn⟩ := h.size
  rw [hn, count_of_size hn]

/-- The row-major layout has as many items. -/
theorem Sized.size_ofShape {s : Shape} {itemSlots : Nat} {l : Layout} (h : s.Sized itemSlots)
    (hl : Layout.ofShape s itemSlots = .ok l) : l.size = .ok s.count := by
  rw [Layout.size, (Layout.shape_of_ofShape hl).1, h.size_eq]

/-- The extents of a shape whose items lie in memory are signed words, if it has any items. -/
theorem signed_of_slots {s : Shape} {itemSlots : Nat} (hpos : 0 < s.count) (hitem : 0 < itemSlots)
    (hlt : s.count * itemSlots < 0x8000000000000000) : s.Signed :=
  signed_of_count hpos (Nat.lt_of_le_of_lt (Nat.le_mul_of_pos_right _ hitem) hlt)

end Shape

namespace View

open Layout

variable {x : View} {w w' : Workspace} {shape : Shape} {type : ElementType} {values : List Double}

/-- The row-major layout of a shape of signed extents, whose slots lie in memory, has exact
strides. -/
theorem exactStrides_of_ofShape {l : Layout} (hsigned : shape.Signed)
    (hlt : shape.count * type.itemSlots < 0x8000000000000000)
    (hl : Layout.ofShape shape type.itemSlots = .ok l) :
    ExactStrides l.itemSlots l.shape l.strides := by
  obtain ⟨strides, hstrides, rfl⟩ := (ofShape_eq_ok type.itemSlots_pos type.itemSlots_lt).mp hl
  rw [Nat.mul_comm] at hlt
  refine ⟨Int.natCast_nonneg _, Int.ofNat_lt.mpr type.itemSlots_lt, hsigned, hstrides, ?_⟩
  rw [← Int.natCast_mul]
  exact Int.ofNat_lt.mpr hlt

/-- **A storage with just the slots of a shape** fits its row-major layout. -/
theorem checkFit_rowMajor {s : Storage} {l : Layout} (hsized : shape.Sized s.type.itemSlots)
    (hlt : shape.count * s.type.itemSlots < 0x8000000000000000)
    (hl : Layout.ofShape shape s.type.itemSlots = .ok l)
    (hlen : s.len = shape.count * s.type.itemSlots) : checkFit s l = .ok () := by
  obtain ⟨strides, -, rfl⟩ := (ofShape_eq_ok s.type.itemSlots_pos s.type.itemSlots_lt).mp hl
  refine checkFit_eq_ok.mpr ⟨rfl, _, hsized.size_eq, fun hpos => ?_⟩
  -- only a layout with items has to be reached through
  have hsigned := Shape.signed_of_slots hpos s.type.itemSlots_pos hlt
  have hexact := exactStrides_of_ofShape hsigned hlt hl
  refine ⟨_, slotsNeeded_of_exactStrides hexact rfl hpos hsized.size_eq, ?_⟩
  rw [hlen, Nat.mul_comm]

/-- **An array of values exists** if there is one for every slot. -/
theorem exists_ofValuesOfType (hmemory : 8 * values.length < Word.addressLimit)
    (hsized : shape.Sized type.itemSlots)
    (hlength : values.length = shape.count * type.itemSlots) (w : Workspace) :
    ∃ x w', ofValuesOfType values shape type w = .ok x w' := by
  obtain ⟨l, hl⟩ := hsized.strides
  obtain ⟨s, hs⟩ := Storage.exists_ofValues type hmemory
  obtain ⟨rfl, -⟩ := Storage.size_of_ofValues hs
  have hlt : shape.count * s.type.itemSlots < 0x8000000000000000 := by
    unfold Word.addressLimit at hmemory
    omega
  have hfit := checkFit_rowMajor hsized hlt hl ((Storage.len_of_ofValues hs).trans hlength)
  exact ⟨_, _, ofValuesOfType_eq_ok.mpr ⟨l, s, hl, hsized.size_ofShape hl, hsized.slots, hlength,
    hs, ofStorage_eq_ok.mpr ⟨hfit, rfl, rfl⟩⟩⟩

/-- **Any other number of values is refused**, and the workspace stays as it is. -/
theorem ofValuesOfType_refused (hsized : shape.Sized type.itemSlots)
    (hlength : values.length ≠ shape.count * type.itemSlots) (w : Workspace) :
    ofValuesOfType values shape type w = .error (.refused (.invalidShape
      (.valueCount values.length shape type (shape.count * type.itemSlots)))) w := by
  obtain ⟨l, hl⟩ := hsized.strides
  have hneeded := Word.unsigned_eq_ok.mpr ⟨hsized.slots, rfl⟩
  unfold ofValuesOfType
  rw [hl, Action.lift_ok_bind, hsized.size_ofShape hl, Action.lift_ok_bind, hneeded,
    Action.lift_ok_bind, if_pos hlength]
  rfl

/-- **What is read from a slot of an array of values** is the value, converted to the type and
back. -/
theorem readDouble_of_ofValuesOfType (h : ofValuesOfType values shape type w = .ok x w') {k : Nat}
    {v : Double} (hv : values[k]? = some v) :
    x.readDouble k w' = .ok (SlotValue.ofDouble type.slotKind v).toDouble := by
  obtain ⟨l, s, -, -, -, -, hs, hstore⟩ := ofValuesOfType_eq_ok.mp h
  obtain ⟨-, rfl, rfl⟩ := ofStorage_eq_ok.mp hstore
  have hcell : (w.add s).cell w.cells.length = { storage := s, locked := false } := by
    rw [Workspace.cell_add, if_pos rfl]
  refine Workspace.readDouble_of_content (by rw [hcell]) ?_
  rw [Workspace.content, hcell]
  exact Storage.get_of_ofValues hs hv

end View

end StridedArray
