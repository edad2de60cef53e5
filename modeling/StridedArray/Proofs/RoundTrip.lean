import StridedArray.Proofs.Listed
import StridedArray.Proofs.Values

/-!
# Values read back

An array made of values gives them back: all of them as the values of its
slots, and the first one of each item as its items, in the order in which
they were given, and at a position those that stand at its rank
(`View.values_read_back`). A value is read back as the double nearest to what its slot
holds, which is the value itself only if the type has it. The lists are
made by going through the items. Where there are none, an extent can be
any word, and planning the way through them can trap
(`View.empty_unlisted`).

Going through an array and collecting what a visit gives at each position
puts the visits together in order (`Odometer.collect_eq_ok`). The slots of the
items follow each other without gaps, so that the runs put together are the
whole list (`flatMap_runs`).
-/

namespace StridedArray

/-! ## Collecting -/

/-- **What is collected** is what the visits give, in the order of the positions, if no step and no
visit fails. -/
theorem Odometer.collect_eq_ok {α : Type} {visit : SlotIndices → Outcome (List α)}
    {f : Nat → List α} {o : Odometer} (ho : o.Sound) (hready : o.restart = o)
    (hstep : ∀ k, (o.after k).step = .ok (o.after (k + 1), decide (k + 1 ≤ o.len)))
    (hvisit : ∀ k < o.len, visit (o.after (k + 1)).slots = .ok (f k)) :
    o.collect visit = .ok ((List.range o.len).flatMap f) := by
  have hparts : (List.range o.len).mapM (fun k => visit (o.after (k + 1)).slots)
      = .ok ((List.range o.len).map f) := by
    refine Outcome.mapM_range_eq_ok.mpr ⟨by simp, fun k hk => ?_⟩
    rw [List.getElem_map, List.getElem_range]
    exact hvisit k (by simpa using hk)
  rcases collect_verdict visit ho hready with ⟨k, t, htrap, -⟩ | hcollect
  · rw [hstep k] at htrap
    exact absurd htrap.symm (trap_ne_ok t _)
  · rw [hcollect, hparts, List.flatMap_def]
    rfl

/-- Runs of equal length put together are the list up to the last of them. -/
theorem flatMap_runs {α : Type} (xs : List α) (m n : Nat) :
    (List.range n).flatMap (fun k => (xs.drop (m * k)).take m) = xs.take (m * n) := by
  induction n with
  | zero => rw [Nat.mul_zero, List.take_zero, List.range_zero, List.flatMap_nil]
  | succ n ih =>
    rw [List.range_succ, List.flatMap_append, ih, List.flatMap_singleton, ← List.take_add,
      Nat.mul_succ]

namespace View

open Layout

variable {x : View} {w w' : Workspace} {shape : Shape} {type : ElementType} {values : List Double}

/-- **The values of consecutive slots** are a run of the values of all slots. -/
theorem slotRun_eq_ok {slot count : Nat}
    (hslots : ∀ k v, values[k]? = some v → x.readDouble k w = .ok v)
    (hwords : Word.IsUnsigned values.length) (hroom : slot + count ≤ values.length) :
    x.slotRun slot count w = .ok ((values.drop slot).take count) := by
  have hlength : ((values.drop slot).take count).length = count := by
    rw [List.length_take, List.length_drop]
    omega
  refine Outcome.mapM_range_eq_ok.mpr ⟨hlength, fun k hk => ?_⟩
  have hword : Word.IsUnsigned (slot + k) := by
    unfold Word.IsUnsigned at hwords ⊢
    omega
  refine Outcome.bind_eq_ok.mpr ⟨_, Word.unsigned_eq_ok.mpr ⟨hword, rfl⟩, hslots _ _ ?_⟩
  rw [List.getElem_take, List.getElem_drop]
  exact List.getElem?_eq_getElem _

/-! ## Row-major arrays of values -/

/-- **A row-major array whose slots hold values in order**, and no more slots than these. -/
structure Holds (x : View) (w : Workspace) (shape : Shape) (type : ElementType)
    (values : List Double) : Prop where
  /-- Every item lies in the storage. -/
  inBounds : x.InBounds w
  /-- The shape can be computed with. -/
  sized : shape.Sized type.itemSlots
  /-- The layout is row-major. -/
  layout : Layout.ofShape shape type.itemSlots = .ok x.layout
  /-- The values fit into memory. -/
  memory : 8 * values.length < Word.addressLimit
  /-- There is a value for every slot of the items. -/
  length_eq : values.length = shape.count * type.itemSlots
  /-- There is a slot for every value. -/
  slotCount_eq : w.slotCount x.storage = values.length
  /-- A slot is read as its value. -/
  slots : ∀ k v, values[k]? = some v → x.readDouble k w = .ok v

/-- **A new array of values holds them**, converted to the type and back. -/
theorem holds_of_ofValuesOfType (hmemory : 8 * values.length < Word.addressLimit)
    (hsized : shape.Sized type.itemSlots) (h : ofValuesOfType values shape type w = .ok x w') :
    x.Holds w' shape type (values.map fun v => (SlotValue.ofDouble type.slotKind v).toDouble) := by
  obtain ⟨l, s, hl, -, -, hlength, hs, hstore⟩ := ofValuesOfType_eq_ok.mp h
  obtain ⟨-, hx, hw⟩ := ofStorage_eq_ok.mp hstore
  refine
    { inBounds := inBounds_of_ofValuesOfType h
      sized := hsized
      layout := by rw [hx]; exact hl
      memory := by rwa [List.length_map]
      length_eq := by rw [List.length_map, hlength]
      slotCount_eq := ?_
      slots := fun k v hv => ?_ }
  · rw [hx, hw, Workspace.slotCount, Workspace.cell_add, if_pos rfl, List.length_map]
    exact Storage.len_of_ofValues hs
  · rw [List.getElem?_map] at hv
    obtain ⟨given, hgiven, rfl⟩ := Option.map_eq_some_iff.mp hv
    exact readDouble_of_ofValuesOfType h hgiven

namespace Holds

variable (h : x.Holds w shape type values)

include h

/-- The layout has the shape, its items have the slots of the type, and it starts at slot 0. -/
theorem layout_eq :
    x.shape = shape ∧ x.layout.itemSlots = type.itemSlots ∧ x.layout.offset = 0 := by
  obtain ⟨_, -, hlayout⟩ := (ofShape_eq_ok type.itemSlots_pos type.itemSlots_lt).mp h.layout
  rw [View.shape, hlayout]
  exact ⟨rfl, rfl, rfl⟩

/-- The slots of all items are a signed word. -/
theorem slots_lt : shape.count * type.itemSlots < 0x8000000000000000 := by
  have hmemory := h.memory
  rw [h.length_eq] at hmemory
  unfold Word.addressLimit at hmemory
  omega

/-- The extents are signed words if they are where there are no items. -/
theorem signed (hempty : shape.count = 0 → shape.Signed) : shape.Signed :=
  (Nat.eq_zero_or_pos shape.count).elim hempty
    fun hpos => Shape.signed_of_slots hpos type.itemSlots_pos h.slots_lt

theorem size_eq : x.size = .ok shape.count :=
  h.sized.size_ofShape h.layout

theorem isUnsigned_length : Word.IsUnsigned values.length := by
  have hmemory := h.memory
  unfold Word.addressLimit at hmemory
  unfold Word.IsUnsigned
  omega

/-- The item of a rank has all its slots. -/
theorem item_le {k : Nat} (hk : k < shape.count) :
    type.itemSlots * k + type.itemSlots ≤ values.length := by
  rw [h.length_eq, Nat.mul_comm shape.count, ← Nat.mul_succ]
  exact Nat.mul_le_mul_left _ hk

/-- The item of a rank has a first slot. -/
theorem exists_first {k : Nat} (hk : k < shape.count) :
    ∃ v, values[type.itemSlots * k]? = some v := by
  have hend := h.item_le hk
  have hitem := type.itemSlots_pos
  exact ⟨_, List.getElem?_eq_getElem (by omega)⟩

/-- There is room for as many doubles as there are slots. -/
theorem checkRoom_of_le {n : Nat} (hn : n ≤ values.length) : checkRoom n = .ok () := by
  have hmemory := h.memory
  exact if_neg (by omega)

/-- **Going through the array** visits the items in the order of their slots. -/
theorem collect_items {α : Type} {visit : SlotIndices → Outcome (List α)} {f : Nat → List α}
    (hempty : shape.count = 0 → shape.Signed)
    (hvisit : ∀ k < shape.count, ∀ slots : SlotIndices, slots.first = type.itemSlots * k →
      visit slots = .ok (f k)) :
    ∃ o, x.items = .ok o ∧ o.collect visit = .ok ((List.range shape.count).flatMap f) := by
  obtain ⟨hshape, -, hoffset⟩ := h.layout_eq
  have hexact : ExactStrides x.layout.itemSlots x.shape x.layout.strides :=
    exactStrides_of_ofShape (h.signed hempty) h.slots_lt h.layout
  have hroom : w.slotCount x.storage ≤ 0x2000000000000000 := by
    have hmemory := h.memory
    rw [← h.slotCount_eq] at hmemory
    unfold Word.addressLimit at hmemory
    omega
  obtain ⟨o, ho⟩ := exists_items hexact hoffset (hshape ▸ h.size_eq)
  obtain ⟨htracks, hready, hsame⟩ := items_eq_ok ho
  have hlen : o.len = shape.count := by rw [htracks.len, hsame, hshape]
  refine ⟨o, ho, ?_⟩
  rw [← hlen]
  refine Odometer.collect_eq_ok htracks.sound_of_any hready
    (h.inBounds.step_items hexact hroom ho) fun k hk => ?_
  have hcount : k < shape.count := hlen ▸ hk
  have hslot : (o.after (k + 1)).slots.first = x.sourceSlot (o.shape.unravel k) :=
    h.inBounds.first_slot (b := ⟨0, .single⟩) htracks hk
  rw [hsame, hshape, h.inBounds.sourceSlot_rowMajor h.layout hcount] at hslot
  exact hvisit k hcount _ hslot

/-- **All slots read back** as the values. -/
theorem toSlotList_eq_ok (hempty : shape.count = 0 → shape.Signed) :
    x.toSlotList w = .ok values := by
  obtain ⟨-, hitem, -⟩ := h.layout_eq
  have hvisit : ∀ k < shape.count, ∀ slots : SlotIndices, slots.first = type.itemSlots * k →
      x.slotRun slots.first type.itemSlots w
        = .ok ((values.drop (type.itemSlots * k)).take type.itemSlots) := by
    intro k hk slots hfirst
    rw [hfirst]
    exact slotRun_eq_ok h.slots h.isUnsigned_length (h.item_le hk)
  obtain ⟨o, ho, hcollect⟩ := h.collect_items hempty hvisit
  have hlength : Word.unsigned (shape.count * type.itemSlots) = .ok values.length :=
    Word.unsigned_eq_ok.mpr ⟨h.sized.slots, h.length_eq⟩
  rw [flatMap_runs, Nat.mul_comm, ← h.length_eq, List.take_length] at hcollect
  unfold toSlotList
  rw [hitem]
  exact Outcome.bind_eq_ok.mpr ⟨_, h.size_eq, Outcome.bind_eq_ok.mpr ⟨_, hlength,
    Outcome.bind_eq_ok.mpr ⟨_, h.checkRoom_of_le (Nat.le_refl _),
      Outcome.bind_eq_ok.mpr ⟨o, ho, hcollect⟩⟩⟩⟩

/-- **The items read back** as the values of their first slots. -/
theorem toList_eq_ok (hempty : shape.count = 0 → shape.Signed) :
    ∃ firsts, x.toList w = .ok firsts ∧ firsts.length = shape.count
      ∧ ∀ k < shape.count, firsts[k]? = values[type.itemSlots * k]? := by
  have hvisit : ∀ k < shape.count, ∀ slots : SlotIndices, slots.first = type.itemSlots * k →
      (x.readDouble slots.first w >>= fun value => .ok [value])
        = .ok [values.getD (type.itemSlots * k) .zero] := by
    intro k hk slots hfirst
    obtain ⟨v, hv⟩ := h.exists_first hk
    rw [hfirst, h.slots _ _ hv, List.getD_eq_getElem?_getD, hv]
    rfl
  obtain ⟨o, ho, hcollect⟩ := h.collect_items hempty hvisit
  have hcount : shape.count ≤ values.length := by
    rw [h.length_eq]
    exact Nat.le_mul_of_pos_right _ type.itemSlots_pos
  have hlist : x.toList w = .ok _ := Outcome.bind_eq_ok.mpr ⟨_, h.size_eq,
    Outcome.bind_eq_ok.mpr ⟨_, h.checkRoom_of_le hcount, Outcome.bind_eq_ok.mpr ⟨o, ho, hcollect⟩⟩⟩
  refine ⟨_, hlist, by simp, fun k hk => ?_⟩
  obtain ⟨v, hv⟩ := h.exists_first hk
  rw [← List.map_eq_flatMap, List.getElem?_map, List.getElem?_range hk, Option.map_some,
    List.getD_eq_getElem?_getD, hv]
  rfl

/-- Where there are no items, there are no positions to list and no values. -/
theorem positions_of_empty (hempty : shape.count = 0) : x.shape.positions = [] ∧ values = [] := by
  have hlength := h.length_eq
  rw [hempty, Nat.zero_mul] at hlength
  exact ⟨Shape.positions_eq_nil.mpr (h.layout_eq.1 ▸ hempty), List.length_eq_zero_iff.mp hlength⟩

/-- **The slots are listed as the values**, if the list ends without a trap. -/
theorem toSlotList_endsAs : (x.toSlotList w).EndsAs (.ok values) := by
  by_cases hempty : shape.count = 0
  · obtain ⟨hpositions, rfl⟩ := h.positions_of_empty hempty
    have hlisted := x.toSlotList_endsAs w
    rwa [hpositions] at hlisted
  · exact .inr (h.toSlotList_eq_ok (absurd · hempty))

/-- **The items are listed as the values of their first slots**, if the list ends without a trap. -/
theorem toList_endsAs : ∃ firsts, (x.toList w).EndsAs (.ok firsts) ∧ firsts.length = shape.count
    ∧ ∀ k < shape.count, firsts[k]? = values[type.itemSlots * k]? := by
  by_cases hempty : shape.count = 0
  · have hlisted := x.toList_endsAs w
    rw [(h.positions_of_empty hempty).1] at hlisted
    exact ⟨[], hlisted, hempty.symm, fun k hk => absurd (hempty ▸ hk) (Nat.not_lt_zero k)⟩
  · obtain ⟨firsts, hfirsts, hitems⟩ := h.toList_eq_ok (absurd · hempty)
    exact ⟨firsts, .inr hfirsts, hitems⟩

/-- **An item reads back** as the value at its rank. -/
theorem itemAt_eq_ok {p : List Nat} (hp : shape.Contains p) :
    ∃ v, values[type.itemSlots * shape.ravel p]? = some v ∧ x.itemAt p w = .ok v := by
  obtain ⟨v, hv⟩ := h.exists_first (Shape.ravel_lt hp)
  have hcontains : x.shape.Contains p := by rwa [h.layout_eq.1]
  refine ⟨v, hv, ?_⟩
  rw [h.inBounds.itemAt_eq hcontains, h.inBounds.address_rowMajor h.layout hp, ← Int.natCast_mul,
    Int.toNat_natCast]
  exact h.slots _ _ hv

end Holds

/-- **The array reads back as a list of values**, one for each slot of its items. An array without
items may have an extent that is no signed word, and then going through it can trap before it ends
at once. -/
structure ReadsBack (x : View) (w : Workspace) (shape : Shape) (itemSlots : Nat)
    (values : List Double) : Prop where
  /-- The values of all slots are the list, unless listing them traps. -/
  slots : (x.toSlotList w).EndsAs (.ok values)
  /-- The values of the items are those of their first slots, unless listing them traps. -/
  items : ∃ firsts, (x.toList w).EndsAs (.ok firsts) ∧ firsts.length = shape.count
    ∧ ∀ k < shape.count, firsts[k]? = values[itemSlots * k]?
  /-- Neither list traps if there are items, or if the extents are signed words. -/
  listed : (shape.count = 0 → shape.Signed) →
    ∀ t, x.toSlotList w ≠ trap t ∧ x.toList w ≠ trap t
  /-- The value at a position is that of the first slot of the item of its rank. -/
  item : ∀ p, shape.Contains p →
    ∃ v, values[itemSlots * shape.ravel p]? = some v ∧ x.itemAt p w = .ok v

/-- A row-major array that holds values reads back as these. -/
theorem Holds.readsBack (h : x.Holds w shape type values) :
    x.ReadsBack w shape type.itemSlots values where
  slots := h.toSlotList_endsAs
  items := h.toList_endsAs
  listed hempty t := by
    obtain ⟨firsts, hfirsts, -⟩ := h.toList_eq_ok hempty
    rw [h.toSlotList_eq_ok hempty, hfirsts]
    exact ⟨(trap_ne_ok t _).symm, (trap_ne_ok t _).symm⟩
  item _ hp := h.itemAt_eq_ok hp

/-- **Values read back.** An array of values of a type exists if and only if there is one for every
slot of its shape; any other number of them is refused. It reads back as the values, each converted
to the type and back. -/
theorem values_read_back (hmemory : 8 * values.length < Word.addressLimit)
    (hsized : shape.Sized type.itemSlots) (w : Workspace) :
    ((∃ x w', ofValuesOfType values shape type w = .ok x w')
        ↔ values.length = shape.count * type.itemSlots)
      ∧ (values.length ≠ shape.count * type.itemSlots →
        ofValuesOfType values shape type w = .error (.refused (.invalidShape
          (.valueCount values.length shape type (shape.count * type.itemSlots)))) w)
      ∧ ∀ x w', ofValuesOfType values shape type w = .ok x w' →
        x.ReadsBack w' shape type.itemSlots
          (values.map fun v => (SlotValue.ofDouble type.slotKind v).toDouble) := by
  refine ⟨⟨?_, fun hlength => exists_ofValuesOfType hmemory hsized hlength w⟩,
    fun hlength => ofValuesOfType_refused hsized hlength w,
    fun x w' hx => (holds_of_ofValuesOfType hmemory hsized hx).readsBack⟩
  rintro ⟨x, w', hx⟩
  obtain ⟨_, _, -, -, -, hlength, -⟩ := ofValuesOfType_eq_ok.mp hx
  exact hlength

/-- A column of two complex numbers. The real part of the first is a tenth, which is read back as
the number of the short format next to it, and the imaginary part of the second is an eighth. -/
theorem values_read_back_complex : ∃ x w',
    ofValuesOfType [⟨0x3FB999999999999A⟩, .one, .zero, ⟨0x3FC0000000000000⟩] [2, 1] .complex64
        .initial = .ok x w'
      ∧ x.ReadsBack w' [2, 1] 2 [⟨0x3FB99999A0000000⟩, .one, .zero, ⟨0x3FC0000000000000⟩]
      ∧ x.toSlotList w' = .ok [⟨0x3FB99999A0000000⟩, .one, .zero, ⟨0x3FC0000000000000⟩] := by
  let values : List Double := [⟨0x3FB999999999999A⟩, .one, .zero, ⟨0x3FC0000000000000⟩]
  have hmemory : 8 * values.length < Word.addressLimit := by decide
  have hsized : Shape.Sized [2, 1] ElementType.complex64.itemSlots :=
    ⟨⟨2, rfl⟩, by decide, ⟨_, rfl⟩⟩
  obtain ⟨hexists, -, hback⟩ := values_read_back hmemory hsized .initial
  obtain ⟨x, w', hx⟩ := hexists.mpr rfl
  have hconverted :
      values.map (fun v => (SlotValue.ofDouble ElementType.complex64.slotKind v).toDouble)
        = [⟨0x3FB99999A0000000⟩, .one, .zero, ⟨0x3FC0000000000000⟩] := by decide +kernel
  have hreads := hconverted ▸ hback x w' hx
  exact ⟨x, w', hx, hreads, hreads.slots.eq fun t => (hreads.listed (by decide) t).1⟩

/-- An array without items whose first extent is the least word that is not a signed one. Its shape
can be computed with and the array exists, but going through its items traps. -/
theorem empty_unlisted : Shape.Sized [0x8000000000000000, 0] ElementType.float64.itemSlots
    ∧ ∃ x w', ofValuesOfType [] [0x8000000000000000, 0] .float64 .initial = .ok x w'
      ∧ x.toSlotList w' = trap .overflow ∧ x.toList w' = trap .overflow := by
  let l : Layout := ⟨[0x8000000000000000, 0], [0, 1], 0, 1⟩
  have hsized : Shape.Sized l.shape ElementType.float64.itemSlots :=
    ⟨⟨0, by decide⟩, by decide, ⟨l, by decide⟩⟩
  refine ⟨hsized, ⟨0, l⟩, Workspace.initial.add ⟨.float64, []⟩, ?_⟩
  decide +kernel

end View

end StridedArray
