import StridedArray.Proofs.Headroom
import StridedArray.Proofs.Reachable

/-!
# Arrays carved out of a storage of their own

An array that is made of values, of zeros or of one value gets a storage
of its own in row-major order. There the sweep of every axis stays within
the storage. Transposing exchanges sweeps, narrowing shortens one,
flipping turns one round, and reshaping makes new ones, between items that
lie one after the other. So it stays, whatever view operations follow
(`View.Carved.roomy`): an array **carved** out of its storage leaves room
for the running indices of a traversal.

Two carved arrays whose storages have at most `2 ^ 61` slots can be
traversed together, without a trap (`View.Carved.traversal`). An array of
a storage and a layout that happens to fit need not be one: its singleton
axes may have any strides.
-/

namespace StridedArray

namespace Layout

variable {m n : Nat} {s : Int} {shape : Shape} {strides : List Int}

/-! ## Sweeps under a change of axes -/

/-- The sweep of one axis. -/
theorem SweepsWithin.axis {axis : Nat} (h : SweepsWithin m shape strides)
    (hn : shape[axis]? = some n) (hs : strides[axis]? = some s) : n ≤ m ∧ n * s.natAbs ≤ m := by
  obtain ⟨hlt, rfl⟩ := List.getElem?_eq_some_iff.mp hn
  obtain ⟨hlt', rfl⟩ := List.getElem?_eq_some_iff.mp hs
  exact (List.forall₂_iff_get.mp h).2 axis hlt hlt'

/-- **Another axis that stays within the slots** in the place of one. -/
theorem SweepsWithin.set (h : SweepsWithin m shape strides) (axis : Nat)
    (haxis : n ≤ m ∧ n * s.natAbs ≤ m) :
    SweepsWithin m (shape.set axis n) (strides.set axis s) := by
  induction h generalizing axis with
  | nil => exact .nil
  | cons hfirst hrest ih =>
    cases axis with
    | zero => exact .cons haxis hrest
    | succ axis => exact .cons hfirst (ih axis)

theorem SweepsWithin.transpose {i j : Nat} (h : SweepsWithin m shape strides)
    (hi : i < shape.length) (hj : j < shape.length) :
    SweepsWithin m (exchanged 0 i j shape) (exchanged 0 i j strides) := by
  have haxis : ∀ k < shape.length, shape.getD k 0 ≤ m
      ∧ shape.getD k 0 * (strides.getD k 0).natAbs ≤ m := by
    intro k hk
    have hk' : k < strides.length := h.length_eq ▸ hk
    rw [List.getD_eq_getElem _ _ hk, List.getD_eq_getElem _ _ hk']
    exact h.axis (List.getElem?_eq_getElem hk) (List.getElem?_eq_getElem hk')
  exact (h.set i (haxis j hj)).set j (haxis i hi)

/-- **The axes of a row-major layout stay within its items.** -/
theorem sweepsWithin_packed {inner : Nat} (hinner : 0 < inner) (hs : shape.Signed)
    (hpos : 0 < shape.count) (h : packedStrides inner shape = .ok strides)
    (hm : inner * shape.count ≤ m) : SweepsWithin m shape strides := by
  induction shape generalizing strides with
  | nil =>
    obtain rfl := Except.ok.inj h
    exact .nil
  | cons n shape ih =>
    obtain ⟨-, hs⟩ := Shape.signed_cons.mp hs
    obtain ⟨step, rest, hstep, hrest, rfl⟩ := packedStrides_cons_eq_ok.mp h
    have hn : 0 < n := Nat.pos_of_mul_pos_right hpos
    have hfaster : 0 < Shape.count shape := Nat.pos_of_mul_pos_left hpos
    have hsweep : n * step.natAbs = inner * Shape.count (n :: shape) := by
      rw [pitch_eq_ok hs hstep, Int.natAbs_mul, Int.natAbs_natCast, Int.natAbs_natCast,
        Shape.count_cons, Nat.mul_left_comm]
    have hextent : n ≤ inner * Shape.count (n :: shape) :=
      calc n ≤ n * Shape.count shape := Nat.le_mul_of_pos_right _ hfaster
        _ ≤ inner * (n * Shape.count shape) := Nat.le_mul_of_pos_left _ hinner
    have hless : inner * Shape.count shape ≤ inner * Shape.count (n :: shape) :=
      Nat.mul_le_mul_left _ (Nat.le_mul_of_pos_left _ hn)
    exact .cons ⟨hextent.trans hm, hsweep ▸ hm⟩ (ih hs hfaster hrest (hless.trans hm))

/-- Keeping a range shortens a sweep. -/
theorem SweepsWithin.narrow {l v : Layout} {axis start length : Nat}
    (hl : SweepsWithin m l.shape l.strides) (h : l.narrow axis start length = .ok v) :
    SweepsWithin m v.shape v.strides := by
  obtain ⟨n, moved, hn, -, hrange, hmoved, rfl⟩ := narrow_eq_ok.mp h
  obtain ⟨stride, hstride, -, -, rfl⟩ := moveOrigin_eq_ok.mp hmoved
  obtain ⟨hextent, hsweep⟩ := hl.axis hn hstride
  have hlength : length ≤ n := by omega
  have hshorter : length * stride.natAbs ≤ m :=
    (Nat.mul_le_mul_right _ hlength).trans hsweep
  have hset := hl.set axis ⟨hlength.trans hextent, hshorter⟩
  obtain ⟨_, rfl⟩ := List.getElem?_eq_some_iff.mp hstride
  rwa [List.set_getElem_self] at hset

/-- Running through an axis backwards turns a sweep round. -/
theorem SweepsWithin.flip {l v : Layout} {axis : Nat} (hl : SweepsWithin m l.shape l.strides)
    (h : l.flip axis = .ok v) : SweepsWithin m v.shape v.strides := by
  obtain ⟨n, moved, hn, hmoved, hv⟩ := flip_eq_ok.mp h
  obtain ⟨stride, hstride, -, rfl⟩ := negateStride_eq_ok.mp hv
  have hsame : moved.shape = l.shape ∧ moved.strides = l.strides := by
    by_cases hempty : 0 < n
    · rw [if_pos hempty] at hmoved
      obtain ⟨_, -, -, -, rfl⟩ := moveOrigin_eq_ok.mp hmoved.2
      exact ⟨rfl, rfl⟩
    · rw [if_neg hempty] at hmoved
      rw [hmoved]
      exact ⟨rfl, rfl⟩
  rw [hsame.2] at hstride
  have haxis := hl.axis hn hstride
  rw [← Int.natAbs_neg] at haxis
  have hset := hl.set axis haxis
  obtain ⟨_, rfl⟩ := List.getElem?_eq_some_iff.mp hn
  rw [List.set_getElem_self] at hset
  show SweepsWithin m moved.shape (moved.strides.set axis (-stride))
  rwa [hsame.1, hsame.2]

end Layout

namespace View

open Layout

variable {x y : View} {w w' : Workspace}

/-! ## Arrays in bounds -/

/-- **The axes of a row-major array in bounds** stay within its storage. -/
theorem InBounds.sweepsWithin_packed (h : x.InBounds w) (hpos : 0 < x.shape.count)
    (hpacked : packedStrides x.layout.itemSlots x.shape = .ok x.layout.strides) :
    SweepsWithin (w.slotCount x.storage) x.shape x.layout.strides := by
  have hitem := h.grounded.itemSlots_pos
  have hs : x.shape.Signed :=
    signed_of_packed (Int.natCast_pos.mpr hitem) hpos hpacked h.inMemory
  -- the last item ends within the storage
  have hlt : x.shape.count - 1 < x.shape.count := by omega
  have hlast := Shape.contains_unravel hlt
  have hbelow := h.below _ hlast
  have hrank : x.layout.shape.ravel (x.shape.unravel (x.shape.count - 1)) = x.shape.count - 1 :=
    Shape.ravel_unravel hlt
  rw [address_packed hs hpacked hlast, hrank, Int.natCast_sub hpos, Int.mul_sub, Int.natCast_one,
    Int.mul_one] at hbelow
  refine Layout.sweepsWithin_packed hitem hs hpos hpacked ?_
  have hitems : ((x.layout.itemSlots * x.shape.count : Nat) : Int)
      ≤ (w.slotCount x.storage : Nat) := by
    rw [Int.natCast_mul]
    omega
  exact Int.ofNat_le.mp hitems

/-- **A view operation keeps the axes within the storage.** -/
theorem InBounds.sweepsWithin_apply {op : ViewOp} (hx : x.InBounds w)
    (hsweeps : SweepsWithin (w.slotCount x.storage) x.shape x.layout.strides)
    (h : x.apply op = .ok y) (hpos : 0 < y.shape.count) :
    SweepsWithin (w.slotCount y.storage) y.shape y.layout.strides := by
  have hy := hx.apply h
  obtain ⟨v, hv, hy'⟩ := Outcome.bind_eq_ok.mp h
  obtain rfl := Except.ok.inj hy'
  cases op with
  | reshape shape =>
    obtain ⟨n, strides, -, -, -, hstrides, rfl⟩ := reshape_eq_ok.mp hv
    rw [rowMajorStrides_eq hx.grounded.itemSlots_pos hx.grounded.itemSlots_lt] at hstrides
    exact hy.sweepsWithin_packed hpos hstrides
  | transpose i j =>
    obtain ⟨hi, hj, rfl⟩ := (transpose_eq_ok hx.length_strides).mp hv
    exact hsweeps.transpose hi hj
  | narrow axis start length => exact hsweeps.narrow hv
  | flip axis => exact hsweeps.flip hv

/-- A view of an array has no items if the array has none. -/
theorem InBounds.count_pos_of_apply {op : ViewOp} (hx : x.InBounds w) (h : x.apply op = .ok y)
    (hpos : 0 < y.shape.count) : 0 < x.shape.count := by
  obtain ⟨v, hv, hy⟩ := Outcome.bind_eq_ok.mp h
  obtain rfl := Except.ok.inj hy
  obtain ⟨f, hf⟩ := hx.selects hv
  exact Shape.count_pos_of_contains (hf.contains _ (Shape.contains_origin hpos))

/-! ## Carved arrays -/

/-- **The arrays that have been carved** out of a storage of their own: made of values, of zeros or
of one value, and then seen through view operations. -/
inductive Carved : View → Workspace → Prop
  /-- Made of values. -/
  | ofValues {values : List Double} {shape : Shape} {type : ElementType} {x : View}
    {w w' : Workspace} (h : ofValuesOfType values shape type w = .ok x w') : Carved x w'
  /-- Made of zeros. -/
  | zeros {shape : Shape} {type : ElementType} {x : View} {w w' : Workspace}
    (h : zerosOfType shape type w = .ok x w') : Carved x w'
  /-- Made of one value. -/
  | scalar {value : Double} {x : View} {w w' : Workspace} (h : scalar value w = .ok x w') :
    Carved x w'
  /-- Seen through a view operation. -/
  | apply {x y : View} {w : Workspace} (op : ViewOp) (hx : Carved x w)
    (h : x.apply op = .ok y) : Carved y w
  /-- Left alone while the workspace changes. -/
  | later {x : View} {w w' : Workspace} (hx : Carved x w) (hw : w.Extends w') : Carved x w'

/-- A carved array can be reached. -/
theorem Carved.reachable (h : x.Carved w) : x.Reachable w := by
  induction h with
  | ofValues h => exact .ofValues h
  | zeros h => exact .zeros h
  | scalar h => exact .scalar h
  | apply op _ h ih => exact .apply op ih h
  | later _ hw ih => exact .later ih hw

/-- A new array is row-major. -/
theorem packed_of_ofStorage {s : Storage} {l : Layout} {shape : Shape} {type : ElementType}
    (hl : Layout.ofShape shape type.itemSlots = .ok l) (h : ofStorage s l w = .ok x w') :
    packedStrides x.layout.itemSlots x.shape = .ok x.layout.strides := by
  obtain ⟨-, rfl, -⟩ := ofStorage_eq_ok.mp h
  obtain ⟨strides, hstrides, rfl⟩ := (ofShape_eq_ok type.itemSlots_pos type.itemSlots_lt).mp hl
  exact hstrides

theorem packed_of_ofValuesOfType {values : List Double} {shape : Shape} {type : ElementType}
    (h : ofValuesOfType values shape type w = .ok x w') :
    packedStrides x.layout.itemSlots x.shape = .ok x.layout.strides := by
  obtain ⟨l, s, hl, -, -, -, -, hstore⟩ := ofValuesOfType_eq_ok.mp h
  exact packed_of_ofStorage hl hstore

/-- **The axes of a carved array stay within its storage**, unless it is empty. -/
theorem Carved.sweepsWithin (h : x.Carved w) (hpos : 0 < x.shape.count) :
    SweepsWithin (w.slotCount x.storage) x.shape x.layout.strides := by
  induction h with
  | ofValues h =>
    exact (inBounds_of_ofValuesOfType h).sweepsWithin_packed hpos (packed_of_ofValuesOfType h)
  | zeros h =>
    obtain ⟨l, s, hl, -, -, -, hstore⟩ := zerosOfType_eq_ok.mp h
    exact (inBounds_of_zerosOfType h).sweepsWithin_packed hpos (packed_of_ofStorage hl hstore)
  | scalar h =>
    have hx := inBounds_of_scalar h
    obtain ⟨w₁, w₂, hget, h⟩ := Action.bind_eq_ok.mp h
    exact hx.sweepsWithin_packed hpos (packed_of_ofValuesOfType h)
  | apply op hx h ih =>
    have hbounds := hx.reachable.inBounds
    exact hbounds.sweepsWithin_apply (ih (hbounds.count_pos_of_apply h hpos)) h hpos
  | later hx hw ih =>
    rw [hw.slotCount_eq hx.reachable.inBounds.inUse]
    exact ih hpos

/-- An array in bounds leaves room if the sweeps of its axes stay within its storage. -/
theorem InBounds.roomy {m : Nat} (h : x.InBounds w)
    (hsweeps : SweepsWithin (w.slotCount x.storage) x.shape x.layout.strides)
    (hm : w.slotCount x.storage ≤ m) : x.layout.Roomy m :=
  Roomy.mono ⟨fun p hp => ⟨h.nonneg p hp, h.below p hp⟩, hsweeps⟩ hm

/-- **A carved array leaves room** for the running indices of a traversal. -/
theorem Carved.roomy (h : x.Carved w) (hpos : 0 < x.shape.count) {m : Nat}
    (hm : w.slotCount x.storage ≤ m) : x.layout.Roomy m :=
  h.reachable.inBounds.roomy (h.sweepsWithin hpos) hm

/-- **Carved arrays can be traversed**: if two that are not empty broadcast, and if the output has
the broadcast shape, the traversal exists and every call to it has a result, in any order. No
rewind, no slot past the end and no running index leaves the signed words, also on the way. -/
theorem Carved.traversal {target : Target} {r : Shape} {n : Nat} (hx : x.Carved w)
    (hy : y.Carved w) (hxroom : w.slotCount x.storage ≤ 0x2000000000000000)
    (hyroom : w.slotCount y.storage ≤ 0x2000000000000000) (hxpos : 0 < x.shape.count)
    (hypos : 0 < y.shape.count) (hr : Shape.broadcast [x.shape, y.shape] = .ok r)
    (hn : r.size = .ok n) (hshape : ∀ l ∈ target.layout? x.layout y.layout, l.shape = r)
    (hown : ∀ l, target = .own l → ∃ z : View, z.layout = l ∧ z.Carved w
      ∧ w.slotCount z.storage ≤ 0x2000000000000000) :
    ∃ o, Odometer.ofLayouts x.layout y.layout target = .ok o
      ∧ ∀ calls, ∃ o', o.run calls = .ok o' := by
  have htarget : ∀ l, target = .own l → l.Roomy 0x2000000000000000 := by
    rintro l rfl
    obtain ⟨z, rfl, hz, hzroom⟩ := hown l rfl
    have hzshape : z.shape = r := hshape z.layout rfl
    exact hz.roomy (hzshape ▸ Shape.count_pos_of_broadcast hr
      (List.forall_mem_cons.mpr ⟨hxpos, List.forall_mem_singleton.mpr hypos⟩)) hzroom
  exact Odometer.exists_run (Nat.le_refl _) (by decide) (hx.roomy hxpos hxroom)
    (hy.roomy hypos hyroom) htarget hr hn hshape hxpos hypos

/-- A column of complex numbers run through backwards, and a row of doubles, with an output of bytes:
the running indices of the column overshoot at every carry, and below the storage too. -/
theorem Carved.traversal_complex : ∃ (x y z : View) (w : Workspace),
    x.layout = ⟨[3, 1], [-2, 6], 4, 2⟩ ∧ y.layout = ⟨[1, 4], [4, 1], 0, 1⟩
      ∧ z.layout = ⟨[3, 4], [4, 1], 0, 1⟩ ∧ x.Carved w ∧ y.Carved w ∧ z.Carved w
      ∧ ∃ o, Odometer.ofLayouts x.layout y.layout (.own z.layout) = .ok o
        ∧ ∀ calls, ∃ o', o.run calls = .ok o' := by
  let w₁ := Workspace.initial.add ⟨.complex64, List.replicate 48 0⟩
  let w₂ := w₁.add ⟨.float64, List.replicate 32 0⟩
  let w₃ := w₂.add ⟨.int8, List.replicate 12 0⟩
  let x : View := ⟨0, ⟨[3, 1], [-2, 6], 4, 2⟩⟩
  let y : View := ⟨1, ⟨[1, 4], [4, 1], 0, 1⟩⟩
  let z : View := ⟨2, ⟨[3, 4], [4, 1], 0, 1⟩⟩
  have hmade : zerosOfType [2, 3] .complex64 .initial = .ok ⟨0, ⟨[2, 3], [6, 2], 0, 2⟩⟩ w₁ := rfl
  have hturned : Carved ⟨0, ⟨[3, 2], [2, 6], 0, 2⟩⟩ w₁ := .apply (.transpose 0 1) (.zeros hmade) rfl
  have hflipped : Carved ⟨0, ⟨[3, 2], [-2, 6], 4, 2⟩⟩ w₁ := .apply (.flip 0) hturned rfl
  have hcolumn : x.Carved w₁ := .apply (.narrow 1 0 1) hflipped rfl
  have hrow : zerosOfType [4] .float64 w₁ = .ok ⟨1, ⟨[4], [1], 0, 1⟩⟩ w₂ := rfl
  have hreshaped : y.Carved w₂ := .apply (.reshape [1, 4]) (.zeros hrow) rfl
  have hbytes : zerosOfType [3, 4] .int8 w₂ = .ok z w₃ := rfl
  have hx : x.Carved w₃ := .later hcolumn ((w₁.extends_add _).trans (w₂.extends_add _))
  have hy : y.Carved w₃ := .later hreshaped (w₂.extends_add _)
  have hz : z.Carved w₃ := .zeros hbytes
  have hshape : ∀ l ∈ (Target.own z.layout).layout? x.layout y.layout, l.shape = [3, 4] := by
    intro l hl
    obtain rfl := Option.some.inj hl
    rfl
  have hown : ∀ l, Target.own z.layout = .own l → ∃ z' : View, z'.layout = l ∧ z'.Carved w₃
      ∧ w₃.slotCount z'.storage ≤ 0x2000000000000000 := by
    intro l hl
    exact ⟨z, Target.own.inj hl, hz, by decide +kernel⟩
  exact ⟨x, y, z, w₃, rfl, rfl, rfl, hx, hy, hz, Carved.traversal (n := 12) hx hy
    (by decide +kernel) (by decide +kernel) (by decide) (by decide) rfl rfl hshape hown⟩

end View

end StridedArray
