import StridedArray.Proofs.Carved
import StridedArray.Proofs.Stretched

/-!
# Going through a row-major array

The items of a row-major array can be gone through from the first to the
last, without a trap, if every extent and the number of all slots are signed
words (`Layout.ExactStrides`, `View.exists_items`, `View.InBounds.step_items`).
For an array without items the strides say nothing about where items lie,
and still they are rewound and added up to a slot past the end. That these
words are in range comes from the strides being there: a full sweep of an
axis adds up to the stride of the next slower one
(`Layout.ExactStrides.exists_rewinds`), and the way up to the highest item
does not go beyond the greatest of them
(`Layout.ExactStrides.greatestShift_lt`).
-/

namespace StridedArray

namespace Layout

/-- **Row-major strides that are exact**: the slots of an item, the extents and the number of all
slots are signed words. -/
structure ExactStrides (inner : Int) (shape : Shape) (strides : List Int) : Prop where
  /-- An item has no negative number of slots. -/
  nonneg : 0 ≤ inner
  /-- The slots of an item are a signed word. -/
  inner_lt : inner < 0x8000000000000000
  /-- The extents are signed words. -/
  signed : shape.Signed
  /-- The strides are the row-major ones. -/
  strides_eq : packedStrides inner shape = .ok strides
  /-- The slots of all items are a signed word. -/
  count_lt : inner * shape.count < 0x8000000000000000

/-- A pitch is a signed word. -/
theorem isSigned_of_pitch {inner step : Int} {s : Shape} (hinner : Word.IsSigned inner)
    (h : pitch inner s = .ok step) : Word.IsSigned step := by
  cases s with
  | nil => exact Except.ok.inj h ▸ hinner
  | cons n s =>
    obtain ⟨faster, -, h⟩ := Outcome.bind_eq_ok.mp h
    obtain ⟨hsigned, rfl⟩ := Word.signed_eq_ok.mp h
    exact hsigned

namespace ExactStrides

variable {inner : Int} {n : Nat} {shape : Shape} {strides : List Int}

/-- **The stride of the slowest axis** is as many slots as the faster axes have, whose strides are
exact as well. -/
theorem of_cons (h : ExactStrides inner (n :: shape) strides) :
    ∃ rest, strides = inner * Shape.count shape :: rest ∧ ExactStrides inner shape rest := by
  obtain ⟨step, rest, hstep, hrest, rfl⟩ := packedStrides_cons_eq_ok.mp h.strides_eq
  obtain ⟨-, hs⟩ := Shape.signed_cons.mp h.signed
  have hnonneg := h.nonneg
  have hinner : Word.IsSigned inner := ⟨by omega, h.inner_lt⟩
  obtain ⟨-, hlt⟩ := isSigned_of_pitch hinner hstep
  obtain rfl := pitch_eq_ok hs hstep
  exact ⟨rest, rfl, hnonneg, h.inner_lt, hs, hrest, hlt⟩

theorem count_nonneg (h : ExactStrides inner shape strides) : 0 ≤ inner * (shape.count : Int) :=
  Int.mul_nonneg h.nonneg (Int.natCast_nonneg _)

/-- A full sweep of the slowest axis adds up to the number of all slots. -/
theorem sweep_mem (h : ExactStrides inner (n :: shape) strides) :
    0 ≤ inner * Shape.count shape * n ∧ inner * Shape.count shape * n < 0x8000000000000000 := by
  have hsweep : inner * (Shape.count (n :: shape) : Nat) = inner * Shape.count shape * n := by
    rw [Shape.count_cons, Int.natCast_mul, Int.mul_assoc, Int.mul_comm (n : Int)]
  rw [← hsweep]
  exact ⟨h.count_nonneg, h.count_lt⟩

/-- **The axes can be gone along**, those of extent 0 too. -/
theorem walkable (h : ExactStrides inner shape strides) : Walkable shape strides := by
  induction shape generalizing strides with
  | nil =>
    obtain rfl := Except.ok.inj h.strides_eq
    exact .nil
  | cons n shape ih =>
    obtain ⟨rest, rfl, hrest⟩ := h.of_cons
    obtain ⟨hn, -⟩ := Shape.signed_cons.mp h.signed
    obtain ⟨hnonneg, htotal⟩ := h.sweep_mem
    have hstep := hrest.count_nonneg
    have hlt := hrest.count_lt
    refine .cons ⟨hn, ?_⟩ (ih hrest)
    rw [Int.mul_sub, Int.mul_one]
    exact ⟨by omega, by omega⟩

/-- **Every full sweep can be rewound**: it adds up to the stride of the next slower axis. -/
theorem exists_rewinds (h : ExactStrides inner shape strides) :
    ∃ rewinds, Route.Rewinds strides shape rewinds := by
  induction shape generalizing strides with
  | nil =>
    obtain rfl := Except.ok.inj h.strides_eq
    exact ⟨[], .nil⟩
  | cons n shape ih =>
    obtain ⟨rest, rfl, hrest⟩ := h.of_cons
    obtain ⟨rewinds, hrewinds⟩ := ih hrest
    obtain ⟨hn, -⟩ := Shape.signed_cons.mp h.signed
    obtain ⟨hnonneg, htotal⟩ := h.sweep_mem
    refine ⟨inner * Shape.count shape * n :: rewinds, .cons ?_ hrewinds⟩
    show Word.signed (inner * Shape.count shape * Word.toSigned n) = _
    rw [Word.toSigned_of_lt hn]
    exact Word.signed_of_mem (by omega) htotal

/-- **The highest item ends at a signed word**, as far as strides tell if there are no items. -/
theorem greatestShift_lt (h : ExactStrides inner shape strides) :
    greatestShift shape strides + inner < 0x8000000000000000 := by
  induction shape generalizing strides with
  | nil =>
    obtain rfl := Except.ok.inj h.strides_eq
    show 0 + inner < 0x8000000000000000
    have := h.inner_lt
    omega
  | cons n shape ih =>
    rcases Nat.eq_zero_or_pos (Shape.count (n :: shape)) with hempty | hpos
    · -- the slowest axis has no way to go, or its stride is zero
      obtain ⟨rest, rfl, hrest⟩ := h.of_cons
      have hflat : inner * Shape.count shape * ((n : Int) - 1) ≤ 0 := by
        rcases Nat.mul_eq_zero.mp hempty with rfl | hfaster
        · exact Int.mul_nonpos_of_nonneg_of_nonpos hrest.count_nonneg (by decide)
        · rw [show Shape.count shape = 0 from hfaster, Int.natCast_zero, Int.mul_zero,
            Int.zero_mul]
      rw [greatestShift, Int.max_eq_right hflat, Int.zero_add]
      exact ih hrest
    · rw [greatestShift_packedStrides h.nonneg h.signed hpos h.strides_eq, Int.natCast_sub hpos,
        Int.mul_sub, Int.natCast_one, Int.mul_one, Int.sub_add_cancel]
      exact h.count_lt

end ExactStrides

/-- **A row-major layout needs the slots of its items** and no more. -/
theorem slotsNeeded_of_exactStrides {l : Layout}
    (h : ExactStrides l.itemSlots l.shape l.strides) (hoffset : l.offset = 0)
    (hpos : 0 < l.shape.count) (hsize : l.size = .ok l.shape.count) :
    l.slotsNeeded = .ok (l.itemSlots * l.shape.count) := by
  have hzero : Word.toSigned l.offset = 0 := by
    rw [hoffset]
    rfl
  have hreach := h.greatestShift_lt
  have hinner := h.nonneg
  have htotal := h.count_lt
  obtain ⟨high, hhigh⟩ := exists_highest h.walkable (Int.le_refl 0) hpos (by omega)
  have hlast := highest_eq_ok h.walkable.steadyAxes hpos hhigh
  rw [greatestShift_packedStrides hinner h.signed hpos h.strides_eq, Int.zero_add,
    ← Int.natCast_mul] at hlast
  subst hlast
  -- the last item lies one item below the end
  have hlast : l.itemSlots * (l.shape.count - 1) + l.itemSlots = l.itemSlots * l.shape.count := by
    rw [Nat.mul_sub, Nat.mul_one]
    exact Nat.sub_add_cancel (Nat.le_mul_of_pos_right _ hpos)
  rw [← Int.natCast_mul] at htotal
  have hword : Word.IsUnsigned (l.itemSlots * l.shape.count) := by
    unfold Word.IsUnsigned
    omega
  refine Outcome.bind_eq_ok.mpr ⟨_, hsize, ?_⟩
  rw [if_neg (Nat.ne_of_gt hpos), hzero]
  refine Outcome.bind_eq_ok.mpr ⟨_, hhigh, ?_⟩
  rw [Word.toUnsigned_of_nonneg (Int.natCast_nonneg _) (by omega), Int.toNat_natCast, hlast]
  exact Word.unsigned_eq_ok.mpr ⟨hword, rfl⟩

end Layout

namespace Route

open Layout

variable {l : Layout} {shape : Shape} {strides rewinds : List Int}

/-- Rewinds are signed words, and so is the greatest of them. -/
theorem isSigned_greatest (h : Rewinds strides shape rewinds) :
    Word.IsSigned (greatest rewinds) := by
  have hrewinds : ∀ r ∈ rewinds, -0x8000000000000000 ≤ r ∧ r ≤ 0x7FFFFFFFFFFFFFFF := by
    unfold Rewinds at h
    generalize strides.zip shape = axes at h
    induction h with
    | nil => exact nofun
    | cons haxis _ ih =>
      obtain ⟨⟨hlow, hhigh⟩, rfl⟩ := Word.signed_eq_ok.mp haxis
      exact List.forall_mem_cons.mpr ⟨⟨hlow, by omega⟩, ih⟩
  obtain ⟨hlow, hhigh⟩ := greatest_mem (by decide) (by decide) hrewinds
  exact ⟨hlow, by omega⟩

/-- **A route exists** from slot 0 on if its axes have been swept and can be gone along. -/
theorem exists_ofLayout_of_sweep (hrank : l.shape.length ≤ shape.length)
    (hswept : sweep 0 (padLeft (shape.length - l.shape.length) 1 l.shape)
      (padLeft (shape.length - l.shape.length) 0 l.strides) shape = .ok (strides, rewinds))
    (hrewinds : Rewinds strides shape rewinds) (haxes : Walkable shape strides)
    (hoffset : l.offset = 0)
    (hreach : greatestShift shape strides + l.itemSlots < 0x8000000000000000) :
    ∃ r, ofLayout l shape = .ok r := by
  have hgreatest : Word.IsSigned ((l.offset : Nat) + greatest rewinds) := by
    rw [hoffset, Int.natCast_zero, Int.zero_add]
    exact isSigned_greatest hrewinds
  have hend : (l.offset : Int) + greatestShift shape strides + l.itemSlots
      < 0x8000000000000000 := by omega
  obtain ⟨pastEnd, hpast⟩ := exists_pastEndOf haxes hgreatest hend
  exact ⟨⟨_, strides, rewinds, l.offset, pastEnd, l.itemSlots⟩,
    ofLayout_eq_ok.mpr ⟨hrank, hswept, hpast, rfl, rfl, rfl⟩⟩

/-- **The route of a row-major layout** through its own shape exists. -/
theorem exists_ofLayout_self (h : ExactStrides l.itemSlots l.shape l.strides)
    (hoffset : l.offset = 0) : ∃ r, ofLayout l l.shape = .ok r := by
  obtain ⟨rewinds, hrewinds⟩ := h.exists_rewinds
  refine exists_ofLayout_of_sweep (Nat.le_refl _) ?_ hrewinds h.walkable hoffset
    h.greatestShift_lt
  rw [Nat.sub_self]
  exact sweep_self (length_packedStrides h.strides_eq) hrewinds

/-- One item goes along no axis. -/
theorem sweep_single (axis : Nat) (shape : Shape) :
    sweep axis (padLeft shape.length 1 []) (padLeft shape.length 0 []) shape
      = .ok (List.replicate shape.length 0, List.replicate shape.length 0) := by
  induction shape generalizing axis with
  | nil => rfl
  | cons n shape ih =>
    have hstride : (if 1 = 1 ∧ 1 < n then .ok 0 else subscript (some 0)) = (.ok 0 : Outcome Int) := by
      split <;> rfl
    have hrewind : Word.signed (0 * Word.toSigned n) = .ok 0 := by
      rw [Int.zero_mul]
      rfl
    show sweep axis (1 :: padLeft shape.length 1 []) (0 :: padLeft shape.length 0 []) (n :: shape)
      = _
    rw [sweep_cons (.inr rfl)]
    exact Outcome.bind_eq_ok.mpr ⟨0, hstride, Outcome.bind_eq_ok.mpr ⟨0, hrewind,
      Outcome.bind_eq_ok.mpr ⟨_, ih (axis + 1), rfl⟩⟩⟩

/-- An operand that is repeated along all axes moves along none. -/
theorem walkable_single (hs : shape.Signed) :
    Walkable shape (List.replicate shape.length 0) := by
  induction shape with
  | nil => exact .nil
  | cons n shape ih =>
    obtain ⟨hn, hs⟩ := Shape.signed_cons.mp hs
    refine .cons ⟨hn, ?_⟩ (ih hs)
    rw [Int.zero_mul]
    decide

theorem greatestShift_single (shape : Shape) :
    greatestShift shape (List.replicate shape.length 0) = 0 := by
  induction shape with
  | nil => rfl
  | cons n shape ih =>
    rw [List.length_cons, List.replicate_succ, greatestShift, Int.zero_mul, ih]
    rfl

/-- **The route of one item** through a shape exists. -/
theorem exists_ofLayout_single (hs : shape.Signed) :
    ∃ r, ofLayout .single shape = .ok r := by
  have hswept := sweep_single 0 shape
  obtain ⟨-, -, hrewinds⟩ := sweep_eq_ok (by simp) hswept (by simp)
  refine exists_ofLayout_of_sweep (Nat.zero_le _) hswept hrewinds (walkable_single hs) rfl ?_
  rw [greatestShift_single]
  decide

end Route

/-- One item leaves room wherever there is some. -/
theorem Layout.roomy_single : single.Roomy 0x2000000000000000 where
  items p hp := by
    cases p with
    | nil => decide
    | cons c p => exact hp.elim
  sweeps := .nil

/-! ## The items -/

/-- **Of a traversal without positions every step has a result**: the first leads to the end. -/
theorem Odometer.step_after_of_empty {o : Odometer} (ho : o.Sound) (hempty : o.len = 0) (k : Nat) :
    (o.after k).step = .ok (o.after (k + 1), decide (k + 1 ≤ o.len)) := by
  rcases o.step_trap_or_after ho k with ⟨t, htrap⟩ | hstep
  · exfalso
    rcases Nat.eq_zero_or_pos k with rfl | hk
    · rw [after_zero, step_of_ready (o := o.restart) rfl] at htrap
      exact absurd htrap.symm (trap_ne_ok _ _)
    · have hphase : (o.after k).phase = .exhausted := by
        rw [phase_after, if_neg (by omega), if_neg (by omega)]
      rw [step_of_exhausted hphase] at htrap
      exact absurd htrap.symm (trap_ne_ok _ _)
  · exact hstep

namespace View

open Layout

variable {x : View} {w : Workspace} {o : Odometer}

/-- **The items of a row-major array can be gone through.** -/
theorem exists_items (h : ExactStrides x.layout.itemSlots x.shape x.layout.strides)
    (hoffset : x.layout.offset = 0) (hsize : x.size = .ok x.shape.count) :
    ∃ o, x.items = .ok o := by
  obtain ⟨first, hfirst⟩ := Route.exists_ofLayout_self h hoffset
  obtain ⟨second, hsecond⟩ := Route.exists_ofLayout_single h.signed
  unfold items Odometer.ofLayouts
  exact ⟨_, Outcome.bind_eq_ok.mpr ⟨_, ofShape_single, Outcome.bind_eq_ok.mpr
    ⟨_, Shape.broadcast_rank_zero x.layout.shape, Outcome.bind_eq_ok.mpr ⟨_, rfl,
      Outcome.bind_eq_ok.mpr ⟨first, hfirst, Outcome.bind_eq_ok.mpr ⟨second, hsecond,
        Outcome.bind_eq_ok.mpr ⟨_, hsize, rfl⟩⟩⟩⟩⟩⟩⟩

/-- **No step on the way through a row-major array traps.** -/
theorem InBounds.step_items (hx : x.InBounds w)
    (h : ExactStrides x.layout.itemSlots x.shape x.layout.strides)
    (hroom : w.slotCount x.storage ≤ 0x2000000000000000) (ho : x.items = .ok o) (k : Nat) :
    (o.after k).step = .ok (o.after (k + 1), decide (k + 1 ≤ o.len)) := by
  obtain ⟨htracks, -, hshape⟩ := items_eq_ok ho
  rcases Nat.eq_zero_or_pos o.len with hempty | hpos
  · exact Odometer.step_after_of_empty (htracks.sound hx.length_strides rfl nofun) hempty k
  -- where there are items, they and the sweeps of the axes stay within the storage
  have hcount : 0 < x.shape.count := by rwa [← hshape, ← htracks.len]
  have hroomy := hx.roomy (hx.sweepsWithin_packed hcount h.strides_eq) hroom
  have hextents : ∀ n ∈ o.shape, n ≤ 0x2000000000000000 := hshape ▸ hroomy.sweeps.extent_le
  exact (htracks.within (by decide) hroomy roomy_single nofun hextents).step_after
    (Nat.le_refl _) k

end View

end StridedArray
