import StridedArray.Proofs.Built
import StridedArray.Proofs.Workspace
import StridedArray.View.Arithmetic
import StridedArray.View.Contents
import StridedArray.View.Repeat

/-!
# Arrays in bounds

An array is **in bounds** if every slot of every item lies in its storage
(`View.InBounds`). This is checked once, when the array is made from a
storage (`View.inBounds_of_ofStorage`), and never again: a view of an
array in bounds is in bounds (`View.InBounds.apply`,
`View.InBounds.stretch`), and whatever happens to the workspace it stays
so, since no storage ever gets smaller (`View.InBounds.of_extends`).

In bounds machine arithmetic is exact: the slot at which an item starts is
its exact slot (`View.InBounds.slotAt_eq`).
-/

namespace StridedArray

/-- An item has a slot. -/
theorem ElementType.itemSlots_pos (t : ElementType) : 0 < t.itemSlots := by
  cases t <;> decide

/-- The slots of an item are a signed word. -/
theorem ElementType.itemSlots_lt (t : ElementType) : t.itemSlots < 0x8000000000000000 := by
  cases t <;> decide

/-- A storage does not have more slots than bytes. -/
theorem Storage.len_le (s : Storage) : s.len ≤ s.bytes.length :=
  Nat.div_le_self _ _

/-- **A stretched layout views** the items that broadcasting reads. -/
theorem Layout.views_of_stretch {l v : Layout} {t : Shape} {r : Route} (hl : l.Grounded)
    (hr : Route.ofLayout l t = .ok r)
    (hv : Layout.ofStrides t r.strides l.offset l.itemSlots = .ok v) :
    v.Views l l.shape.sourceOf ∧ v.shape = t := by
  have hleads := Route.leads_of_ofLayout hl.length_strides hr
  obtain ⟨hlength, -, -, rfl⟩ := ofStrides_eq_ok.mp hv
  have hcontains : ∀ p, t.Contains p → l.shape.Contains (l.shape.sourceOf p) := fun p hp =>
    Shape.contains_sourceOf hleads.stretches hp
  refine ⟨⟨hlength.symm, rfl, fun hpos => ?_, hcontains, fun p hp => ?_⟩, rfl⟩
  · have horigin := hcontains _ (Shape.contains_origin hpos)
    exact hl.offset_lt (Shape.count_pos_of_contains horigin)
  · rw [← hleads.address_eq hp, Route.address, hleads.start_eq]
    rfl

namespace View

/-- **Every slot of every item lies in the storage.** The storage is one in use that fits into the
address space, and has the type that the layout counts the slots of an item for. -/
structure InBounds (x : View) (w : Workspace) : Prop where
  /-- The storage is in use. -/
  inUse : x.storage < w.cells.length
  /-- The storage fits into the address space. -/
  addressable : (w.cell x.storage).storage.bytes.length < Word.addressLimit
  /-- There is one stride per axis. -/
  length_strides : x.layout.strides.length = x.shape.length
  /-- An item has as many slots as its type takes. -/
  itemSlots_eq : x.layout.itemSlots = (x.elementType w).itemSlots
  /-- No item starts below the first slot. -/
  nonneg : ∀ p, x.shape.Contains p → 0 ≤ x.layout.address p
  /-- No item ends above the last slot. -/
  below : ∀ p, x.shape.Contains p →
    x.layout.address p + x.layout.itemSlots ≤ w.slotCount x.storage

namespace InBounds

variable {x y : View} {w w' : Workspace} {p : List Nat}

theorem slotCount_lt (h : x.InBounds w) : w.slotCount x.storage < 0x8000000000000000 :=
  Nat.lt_of_le_of_lt (Storage.len_le _) h.addressable

/-- Every item lies in memory. -/
theorem inMemory (h : x.InBounds w) :
    Layout.InMemory x.shape x.layout.strides x.layout.offset := by
  intro p hp
  have hnonneg := h.nonneg p hp
  have hbelow := h.below p hp
  have hlt := h.slotCount_lt
  have hitem := (x.elementType w).itemSlots_pos
  rw [← h.itemSlots_eq] at hitem
  rw [Layout.address] at hnonneg hbelow
  omega

/-- **Machine arithmetic is exact on an array in bounds.** -/
theorem grounded (h : x.InBounds w) : x.layout.Grounded where
  length_strides := h.length_strides
  itemSlots_pos := h.itemSlots_eq ▸ (x.elementType w).itemSlots_pos
  itemSlots_lt := h.itemSlots_eq ▸ (x.elementType w).itemSlots_lt
  offset_lt hpos := by
    have := h.inMemory _ (Shape.contains_origin hpos)
    rw [Layout.displacement_origin] at this
    omega
  nonneg := h.nonneg

/-- **The slot at which an item starts is its exact slot.** -/
theorem slotAt_eq (h : x.InBounds w) (hp : x.shape.Contains p) :
    x.layout.slotAt p = .ok (x.layout.address p).toNat :=
  Layout.slotAt_of_inMemory h.length_strides h.inMemory hp

/-- The slots of an item are there. -/
theorem slot_lt (h : x.InBounds w) (hp : x.shape.Contains p) {k : Nat}
    (hk : k < x.layout.itemSlots) : (x.layout.address p).toNat + k < w.slotCount x.storage := by
  have hnonneg := h.nonneg p hp
  have hbelow := h.below p hp
  omega

/-- The first slot of an item is there. -/
theorem slot_lt_of_contains (h : x.InBounds w) (hp : x.shape.Contains p) :
    (x.layout.address p).toNat < w.slotCount x.storage :=
  h.slot_lt hp h.grounded.itemSlots_pos

/-- **An array stays in bounds** whatever happens to the workspace. -/
theorem of_extends (h : x.InBounds w) (hw : w.Extends w') : x.InBounds w' where
  inUse := Nat.lt_of_lt_of_le h.inUse hw.length_le
  addressable := by
    rw [hw.bytes_eq _ h.inUse]
    exact h.addressable
  length_strides := h.length_strides
  itemSlots_eq := by
    rw [h.itemSlots_eq, elementType, elementType, hw.type_eq _ h.inUse]
  nonneg := h.nonneg
  below p hp := by
    rw [hw.slotCount_eq h.inUse]
    exact h.below p hp

/-- **A layout that views an array in bounds is in bounds** on the same storage. -/
theorem views {v : Layout} {f : List Nat → List Nat} (h : x.InBounds w)
    (hv : v.Views x.layout f) : ({ x with layout := v } : View).InBounds w where
  inUse := h.inUse
  addressable := h.addressable
  length_strides := hv.length_strides
  itemSlots_eq := hv.itemSlots_eq.trans h.itemSlots_eq
  nonneg p hp := by
    have := h.nonneg _ (hv.contains p hp)
    rwa [← hv.address_eq p hp] at this
  below p hp := by
    have := h.below _ (hv.contains p hp)
    rwa [← hv.address_eq p hp, ← hv.itemSlots_eq] at this

/-- **A view operation on an array in bounds** selects from its items. -/
theorem selects {op : ViewOp} {v : Layout} (h : x.InBounds w) (hv : op.apply x.layout = .ok v) :
    ∃ f, v.Selects x.layout f :=
  ViewOp.selects_of_apply h.grounded
    (fun hpos => ViewOp.exact_of_inMemory h.grounded hpos h.inMemory hv) hv

/-- **A view operation leads from an array in bounds to one in bounds.** -/
theorem apply {op : ViewOp} (h : x.InBounds w) (hy : x.apply op = .ok y) : y.InBounds w := by
  obtain ⟨v, hv, hy⟩ := Outcome.bind_eq_ok.mp hy
  obtain rfl := Except.ok.inj hy
  obtain ⟨f, hf⟩ := h.selects hv
  exact h.views hf.toViews

/-- **Stretching leads from an array in bounds to one in bounds.** -/
theorem stretch {t : Shape} (h : x.InBounds w) (hy : x.stretch t = .ok y) : y.InBounds w := by
  obtain ⟨r, hr, hy⟩ := Outcome.bind_eq_ok.mp hy
  obtain ⟨v, hv, hy⟩ := Outcome.bind_eq_ok.mp hy
  obtain rfl := Except.ok.inj hy
  exact h.views (Layout.views_of_stretch h.grounded hr hv).1

end InBounds

/-! ## The check of a new array -/

/-- **A layout that fits a storage.** -/
theorem checkFit_eq_ok {s : Storage} {l : Layout} :
    checkFit s l = .ok () ↔ l.itemSlots = s.type.itemSlots
      ∧ ∃ n, l.size = .ok n
        ∧ (0 < n → ∃ required, l.slotsNeeded = .ok required ∧ required ≤ s.len) := by
  unfold checkFit
  by_cases hitem : l.itemSlots ≠ s.type.itemSlots
  · simp only [if_pos hitem]
    exact ⟨fun h => absurd h (refuse_ne_ok _ _), fun h => absurd h.1 hitem⟩
  simp only [if_neg hitem]
  constructor
  · intro h
    obtain ⟨n, hn, h⟩ := Outcome.bind_eq_ok.mp h
    refine ⟨not_not.mp hitem, n, hn, fun hpos => ?_⟩
    rw [if_pos hpos] at h
    obtain ⟨required, hrequired, h⟩ := Outcome.bind_eq_ok.mp h
    by_cases hfit : s.len < required
    · rw [if_pos hfit] at h
      exact absurd h (refuse_ne_ok _ _)
    · exact ⟨required, hrequired, Nat.le_of_not_lt hfit⟩
  · rintro ⟨-, n, hn, hfit⟩
    refine Outcome.bind_eq_ok.mpr ⟨n, hn, ?_⟩
    by_cases hpos : 0 < n
    · rw [if_pos hpos]
      obtain ⟨required, hrequired, hle⟩ := hfit hpos
      refine Outcome.bind_eq_ok.mpr ⟨required, hrequired, ?_⟩
      rw [if_neg (Nat.not_lt_of_le hle)]
      rfl
    · rw [if_neg hpos]
      rfl

/-- **A new array of a storage and a layout** takes the next number. -/
theorem ofStorage_eq_ok {s : Storage} {l : Layout} {x : View} {w w' : Workspace} :
    ofStorage s l w = .ok x w' ↔ checkFit s l = .ok ()
      ∧ x = { storage := w.cells.length, layout := l } ∧ w' = w.add s := by
  constructor
  · intro h
    obtain ⟨u, hcheck, hrest⟩ := Action.lift_bind_eq_ok.mp h
    obtain ⟨id, w₁, hadd, hresult⟩ := Action.bind_eq_ok.mp hrest
    obtain ⟨rfl, rfl⟩ := EStateM.Result.ok.inj hadd
    obtain ⟨rfl, rfl⟩ := EStateM.Result.ok.inj hresult
    exact ⟨hcheck, rfl, rfl⟩
  · rintro ⟨hcheck, rfl, rfl⟩
    refine Action.lift_bind_eq_ok.mpr ⟨(), hcheck, ?_⟩
    exact Action.bind_eq_ok.mpr ⟨_, w.add s, rfl, rfl⟩

/-- **No item of a layout that fits a storage ends above the last slot**, if its axes are steady. -/
theorem address_le_of_checkFit {s : Storage} {l : Layout} {p : List Nat}
    (hoffset : l.offset < 0x8000000000000000) (haxes : Layout.SteadyAxes l.shape l.strides)
    (h : checkFit s l = .ok ()) (hp : l.shape.Contains p) :
    l.address p + l.itemSlots ≤ s.len := by
  obtain ⟨-, n, hn, hfit⟩ := checkFit_eq_ok.mp h
  have hpos := Shape.count_pos_of_contains hp
  obtain ⟨required, hrequired, hle⟩ := hfit (by rw [Shape.count_of_size hn]; exact hpos)
  have hneeded := Layout.slotsNeeded_eq_ok hoffset hpos haxes hrequired
  have hshift := (Layout.displacement_mem_shift l.strides hp).2
  unfold Layout.address
  omega

/-- **A layout that fits a storage makes an array in bounds**, if no item lies below the first
slot. -/
theorem inBounds_of_checkFit {s : Storage} {l : Layout} (w : Workspace)
    (hs : s.bytes.length < Word.addressLimit) (hlength : l.strides.length = l.shape.length)
    (hoffset : 0 < l.shape.count → l.offset < 0x8000000000000000)
    (haxes : 0 < l.shape.count → Layout.SteadyAxes l.shape l.strides)
    (hnonneg : ∀ p, l.shape.Contains p → 0 ≤ l.address p) (h : checkFit s l = .ok ()) :
    ({ storage := w.cells.length, layout := l } : View).InBounds (w.add s) := by
  have hcell : (w.add s).cell w.cells.length = { storage := s, locked := false } := by
    rw [Workspace.cell_add, if_pos rfl]
  refine
    { inUse := ?_
      addressable := by rw [hcell]; exact hs
      length_strides := hlength
      itemSlots_eq := by
        rw [elementType, Workspace.elementType, hcell]
        exact (checkFit_eq_ok.mp h).1
      nonneg := hnonneg
      below := fun p hp => ?_ }
  · show w.cells.length < (w.cells ++ [_]).length
    rw [List.length_append, List.length_singleton]
    omega
  · have hpos := Shape.count_pos_of_contains hp
    rw [Workspace.slotCount, hcell]
    exact address_le_of_checkFit (hoffset hpos) (haxes hpos) h hp

/-- **A new array of a grounded layout is in bounds.** -/
theorem inBounds_of_ofStorage {s : Storage} {l : Layout} {x : View} {w w' : Workspace}
    (hs : s.bytes.length < Word.addressLimit) (hl : l.Grounded)
    (haxes : 0 < l.shape.count → Layout.SteadyAxes l.shape l.strides)
    (h : ofStorage s l w = .ok x w') : x.InBounds w' := by
  obtain ⟨hcheck, rfl, rfl⟩ := ofStorage_eq_ok.mp h
  exact inBounds_of_checkFit w hs hl.length_strides hl.offset_lt haxes hl.nonneg hcheck

end View

end StridedArray
