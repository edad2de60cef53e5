import StridedArray.Proofs.Broadcast
import StridedArray.Proofs.Position
import StridedArray.Proofs.Word

/-!
# Where a route leads

A route through a broadcast shape shows at every position the slot of the
item that broadcasting reads there, in the operand's own layout
(`Route.Leads.address_eq`). It exists whenever the operand's shape stretches
to the broadcast shape and no arithmetic traps (`Route.accepted_ofLayout`),
and its rewinds are what full sweeps of the axes add up to, as words
(`Route.Leads.rewinds`).
-/

namespace StridedArray

namespace Shape

/-! ## The position read under broadcasting -/

theorem sourceOf_cons_cons {s : Shape} {p : List Nat} (n c : Nat) (h : p.length = s.length) :
    sourceOf (n :: s) (c :: p) = (if n = 1 then 0 else c) :: sourceOf s p := by
  unfold sourceOf
  rw [List.length_cons, List.length_cons, h, Nat.sub_self, Nat.sub_self]
  rfl

/-- A coordinate in front of those that a shape reads is dropped. -/
theorem sourceOf_cons {s : Shape} {p : List Nat} (c : Nat) (h : s.length ≤ p.length) :
    s.sourceOf (c :: p) = s.sourceOf p := by
  have hdrop : (c :: p).length - s.length = (p.length - s.length) + 1 := by
    rw [List.length_cons]
    omega
  rw [sourceOf, hdrop]
  rfl

/-- **Padding is not seen**: the coordinates of the axes that it adds are read at 0. -/
theorem sourceOf_padLeft {s : Shape} {p : List Nat} {padding : Nat}
    (h : p.length = padding + s.length) :
    sourceOf (padLeft padding 1 s) p = padLeft padding 0 (s.sourceOf p) := by
  induction padding generalizing p with
  | zero => rfl
  | succ padding ih =>
    cases p with
    | nil =>
      rw [List.length_nil] at h
      omega
    | cons c p =>
      have hp : p.length = padding + s.length := by
        rw [List.length_cons] at h
        omega
      have hle : s.length ≤ p.length := hp ▸ Nat.le_add_left _ _
      rw [sourceOf_cons c hle]
      show sourceOf (1 :: padLeft padding 1 s) (c :: p) = 0 :: padLeft padding 0 (s.sourceOf p)
      rw [sourceOf_cons_cons 1 c (by rw [length_padLeft, hp]), if_pos rfl, ih hp]

/-- Singleton axes in front hold the coordinate 0 and nothing else. -/
theorem contains_padLeft {s : Shape} {p : List Nat} {padding : Nat} :
    Contains (padLeft padding 1 s) (padLeft padding 0 p) ↔ s.Contains p := by
  induction padding with
  | zero => exact Iff.rfl
  | succ padding ih =>
    show 0 < 1 ∧ Contains (padLeft padding 1 s) (padLeft padding 0 p) ↔ s.Contains p
    rw [ih, and_iff_right Nat.one_pos]

/-- A position of a shape is read at itself. -/
theorem sourceOf_self {s : Shape} {p : List Nat} (h : s.Contains p) : s.sourceOf p = p := by
  induction s generalizing p with
  | nil =>
    cases p with
    | nil => rfl
    | cons c p => exact h.elim
  | cons n s ih =>
    cases p with
    | nil => exact h.elim
    | cons c p =>
      rw [sourceOf_cons_cons n c h.2.length_eq, ih h.2]
      by_cases hn : n = 1
      · have hc : c < 1 := hn ▸ h.1
        rw [if_pos hn, Nat.lt_one_iff.mp hc]
      · rw [if_neg hn]

/-- **What is read under broadcasting is there.** -/
theorem contains_sourceOf {s t : Shape} {p : List Nat} (hst : s.StretchesTo t)
    (hp : t.Contains p) : s.Contains (s.sourceOf p) := by
  have general : ∀ (extents target : Shape) (p : List Nat),
      List.Forall₂ (fun m n => m = n ∨ m = 1) extents target → target.Contains p →
        Contains extents (sourceOf extents p) := by
    intro extents target p h
    induction h generalizing p with
    | nil => exact fun _ => trivial
    | @cons m n extents target hmn hrest ih =>
      intro hp
      cases p with
      | nil => exact hp.elim
      | cons c p =>
        rw [sourceOf_cons_cons m c (hp.2.length_eq.trans hrest.length_eq.symm)]
        refine ⟨?_, ih p hp.2⟩
        split
        · omega
        · have := hp.1
          omega
  have hlength : p.length = (t.length - s.length) + s.length := by
    have := hst.length_le
    rw [hp.length_eq]
    omega
  have hpadded := general _ t p hst hp
  rw [padTo, sourceOf_padLeft hlength, contains_padLeft] at hpadded
  exact hpadded

end Shape

namespace Layout

/-- Coordinates 0 in front, on strides 0, do not displace. -/
theorem displacement_padLeft (padding : Nat) (p : List Nat) (strides : List Int) :
    displacement (padLeft padding 0 p) (padLeft padding 0 strides) = displacement p strides := by
  induction padding with
  | zero => rfl
  | succ padding ih =>
    show ((0 : Nat) : Int) * 0 + displacement (padLeft padding 0 p) (padLeft padding 0 strides)
      = displacement p strides
    rw [ih, Int.mul_zero, Int.zero_add]

@[simp] theorem displacement_origin (s : Shape) (strides : List Int) :
    displacement s.origin strides = 0 := by
  induction s generalizing strides with
  | nil => rfl
  | cons n s ih =>
    cases strides with
    | nil => rfl
    | cons v strides =>
      rw [Shape.origin_cons, displacement_cons, ih]
      simp

end Layout

namespace Route

/-! ## Sweeping the axes -/

/-- **The strides of a route**: on every axis the operand's own one, or 0 where a singleton axis is
repeated. -/
def stretchStrides : Shape → List Int → Shape → List Int
  | n :: extents, native :: natives, target :: shape =>
    (if n = 1 ∧ 1 < target then 0 else native) :: stretchStrides extents natives shape
  | _, _, _ => []

/-- **What makes a list of rewinds**: on every axis the stride times the extent, in range. -/
def Rewinds (strides : List Int) (shape : Shape) (rewinds : List Int) : Prop :=
  List.Forall₂ (fun (axis : Int × Nat) rewind =>
    Word.signed (axis.1 * Word.toSigned axis.2) = .ok rewind) (strides.zip shape) rewinds

/-- A sweep over an axis without a conflict: its stride, its rewind, then the faster axes. -/
theorem sweep_cons {axis n target : Nat} {extents shape : Shape} {natives : List Int}
    (h : n = target ∨ n = 1) :
    sweep axis (n :: extents) natives (target :: shape)
      = (if n = 1 ∧ 1 < target then .ok 0 else subscript natives.head?) >>= fun stride =>
          Word.signed (stride * Word.toSigned target) >>= fun rewind =>
            sweep (axis + 1) extents natives.tail shape >>= fun rest =>
              .ok (stride :: rest.1, rewind :: rest.2) := by
  rw [sweep, if_neg (by omega)]
  split
  · rfl
  · rfl

/-- **What a sweep of the axes gives.** -/
theorem sweep_eq_ok {axis : Nat} {extents target : Shape} {natives strides rewinds : List Int}
    (hn : natives.length = extents.length)
    (h : sweep axis extents natives target = .ok (strides, rewinds))
    (ht : extents.length = target.length) :
    List.Forall₂ (fun m n => m = n ∨ m = 1) extents target
      ∧ strides = stretchStrides extents natives target ∧ Rewinds strides target rewinds := by
  induction extents generalizing axis natives target strides rewinds with
  | nil =>
    obtain rfl := List.length_eq_zero_iff.mp ht.symm
    obtain ⟨rfl, rfl⟩ := Prod.mk.inj (Except.ok.inj h)
    exact ⟨.nil, rfl, .nil⟩
  | cons n extents ih =>
    obtain ⟨native, natives, rfl⟩ := List.exists_cons_of_length_eq_add_one hn
    obtain ⟨goal, target, rfl⟩ := List.exists_cons_of_length_eq_add_one ht.symm
    by_cases hagree : n = goal ∨ n = 1
    · rw [sweep_cons hagree] at h
      obtain ⟨stride, hstride, h⟩ := Outcome.bind_eq_ok.mp h
      obtain ⟨rewind, hrewind, h⟩ := Outcome.bind_eq_ok.mp h
      obtain ⟨⟨strides', rewinds'⟩, hrest, h⟩ := Outcome.bind_eq_ok.mp h
      obtain ⟨rfl, rfl⟩ := Prod.mk.inj (Except.ok.inj h)
      obtain ⟨hextents, hstrides, hrewinds⟩ :=
        ih (Nat.succ.inj hn) hrest (Nat.succ.inj ht)
      -- the stride of the axis is the native one unless the axis is repeated
      refine ⟨.cons hagree hextents, ?_, .cons hrewind hrewinds⟩
      rw [stretchStrides, hstrides]
      split at hstride
      · next hrepeat => rw [if_pos hrepeat, Except.ok.inj hstride]
      · next hrepeat => rw [if_neg hrepeat, Except.ok.inj hstride]
    · rw [sweep, if_pos (by omega)] at h
      exact (refuse_ne_ok _ _ h).elim

/-- **What a sweep gives is what it has to give**: a sweep without a conflict whose strides and
rewinds are known. -/
theorem sweep_of_rewinds {axis : Nat} {extents target : Shape} {natives rewinds : List Int}
    (hlength : natives.length = extents.length)
    (h : List.Forall₂ (fun m n => m = n ∨ m = 1) extents target)
    (hrewinds : Rewinds (stretchStrides extents natives target) target rewinds) :
    sweep axis extents natives target
      = .ok (stretchStrides extents natives target, rewinds) := by
  induction h generalizing axis natives rewinds with
  | nil =>
    cases hrewinds
    rfl
  | @cons m n extents target hmn _ ih =>
    obtain ⟨native, natives, rfl⟩ := List.exists_cons_of_length_eq_add_one hlength
    obtain ⟨rewind, rewinds, hrewind, hrest, rfl⟩ := List.forall₂_cons_left_iff.mp hrewinds
    rw [sweep_cons hmn, stretchStrides]
    refine Outcome.bind_eq_ok.mpr ⟨if m = 1 ∧ 1 < n then 0 else native, ?_, ?_⟩
    · split <;> rfl
    · refine Outcome.bind_eq_ok.mpr ⟨rewind, hrewind, ?_⟩
      exact Outcome.bind_eq_ok.mpr ⟨_, ih (Nat.succ.inj hlength) hrest, rfl⟩

/-- **A sweep is refused only at a conflict.** -/
theorem accepted_sweep {axis : Nat} {extents target : Shape} {natives : List Int}
    (h : List.Forall₂ (fun m n => m = n ∨ m = 1) extents target) :
    (sweep axis extents natives target).Accepted := by
  induction h generalizing axis natives with
  | nil => exact Outcome.refusedOnly_ok _
  | @cons m n extents target hmn hrest ih =>
    rw [sweep_cons hmn]
    refine Outcome.RefusedOnly.bind ?_ fun stride _ => ?_
    · split
      · exact Outcome.refusedOnly_ok _
      · exact Outcome.refusedOnly_subscript _
    · refine (Outcome.refusedOnly_signed _).bind fun rewind _ => ?_
      exact ih.bind fun _ _ => Outcome.refusedOnly_ok _

theorem length_stretchStrides {extents shape : Shape} {natives : List Int}
    (hn : natives.length = extents.length) (ht : extents.length = shape.length) :
    (stretchStrides extents natives shape).length = shape.length := by
  induction extents generalizing natives shape with
  | nil =>
    obtain rfl := List.length_eq_zero_iff.mp ht.symm
    rfl
  | cons n extents ih =>
    obtain ⟨native, natives, rfl⟩ := List.exists_cons_of_length_eq_add_one hn
    obtain ⟨goal, shape, rfl⟩ := List.exists_cons_of_length_eq_add_one ht.symm
    exact congrArg (· + 1) (ih (Nat.succ.inj hn) (Nat.succ.inj ht))

/-- **Strides along the own extents are the own strides.** -/
theorem stretchStrides_self {extents : Shape} {natives : List Int}
    (hlength : natives.length = extents.length) :
    stretchStrides extents natives extents = natives := by
  induction extents generalizing natives with
  | nil => exact (List.length_eq_zero_iff.mp hlength).symm
  | cons n extents ih =>
    obtain ⟨native, natives, rfl⟩ := List.exists_cons_of_length_eq_add_one hlength
    rw [stretchStrides, if_neg (by omega), ih (Nat.succ.inj hlength)]

/-- **The strides of a route go where the operand's own strides go** from the position read. -/
theorem displacement_stretchStrides {extents shape : Shape} {natives : List Int} {p : List Nat}
    (h : List.Forall₂ (fun m n => m = n ∨ m = 1) extents shape)
    (hn : natives.length = extents.length) (hp : shape.Contains p) :
    Layout.displacement p (stretchStrides extents natives shape)
      = Layout.displacement (Shape.sourceOf extents p) natives := by
  induction h generalizing natives p with
  | nil =>
    obtain rfl := List.length_eq_zero_iff.mp hn
    rw [Layout.displacement_nil_right]
    exact Layout.displacement_nil_right p
  | @cons m n extents shape hmn hrest ih =>
    obtain ⟨native, natives, rfl⟩ := List.exists_cons_of_length_eq_add_one hn
    cases p with
    | nil => exact hp.elim
    | cons c p =>
      have hc : c < n := hp.1
      rw [Shape.sourceOf_cons_cons m c (hp.2.length_eq.trans hrest.length_eq.symm),
        stretchStrides, Layout.displacement_cons, Layout.displacement_cons,
        ih (Nat.succ.inj hn) hp.2]
      congr 1
      by_cases hm : m = 1
      · -- a singleton axis is read at 0, be it repeated or not
        rw [if_pos hm, Int.natCast_zero, Int.zero_mul]
        by_cases hn1 : 1 < n
        · rw [if_pos ⟨hm, hn1⟩, Int.mul_zero]
        · have hc0 : c = 0 := by omega
          rw [hc0, Int.natCast_zero, Int.zero_mul]
      · rw [if_neg hm, if_neg (fun hrepeat => hm hrepeat.1)]

/-- **The strides through a broadcast shape go where the layout's own strides go** from the position
read. -/
theorem displacement_stretchStrides_padTo {s shape : Shape} {strides : List Int} {p : List Nat}
    (h : s.StretchesTo shape) (hlength : strides.length = s.length) (hp : shape.Contains p) :
    Layout.displacement p (stretchStrides (s.padTo shape.length)
        (padLeft (shape.length - s.length) 0 strides) shape)
      = Layout.displacement (s.sourceOf p) strides := by
  have hrank : p.length = (shape.length - s.length) + s.length := by
    have := h.length_le
    rw [hp.length_eq]
    omega
  have hpadded : (padLeft (shape.length - s.length) (0 : Int) strides).length
      = (s.padTo shape.length).length := by
    rw [length_padLeft, Shape.padTo, length_padLeft, hlength]
  rw [displacement_stretchStrides h hpadded hp, Shape.padTo, Shape.sourceOf_padLeft hrank,
    Layout.displacement_padLeft]

/-! ## The slot past the end -/

theorem isUnsigned_of_pastEndOf {start itemSlots pastEnd : Nat} {strides rewinds : List Int}
    {shape : Shape} (h : pastEndOf start itemSlots strides rewinds shape = .ok pastEnd) :
    Word.IsUnsigned pastEnd := by
  unfold pastEndOf at h
  split at h
  · obtain ⟨hword, rfl⟩ := Word.unsigned_eq_ok.mp h
    exact hword
  · obtain ⟨reach, -, h⟩ := Outcome.bind_eq_ok.mp h
    obtain ⟨swept, -, h⟩ := Outcome.bind_eq_ok.mp h
    obtain ⟨furthest, -, h⟩ := Outcome.bind_eq_ok.mp h
    obtain ⟨past, -, h⟩ := Outcome.bind_eq_ok.mp h
    obtain rfl := Except.ok.inj h
    exact Word.isUnsigned_toUnsigned _

theorem accepted_span (strides : List Int) (shape : Shape) (total : Int) :
    (span strides shape total).Accepted := by
  induction strides generalizing shape total with
  | nil => exact Outcome.refusedOnly_ok _
  | cons s strides ih =>
    cases shape with
    | nil => exact Outcome.refusedOnly_ok _
    | cons n shape =>
      refine (Outcome.refusedOnly_signed _).bind fun steps _ => ?_
      refine (Outcome.refusedOnly_signed _).bind fun reach _ => ?_
      exact (Outcome.refusedOnly_signed _).bind fun total _ => ih shape total

theorem accepted_pastEndOf (start itemSlots : Nat) (strides rewinds : List Int) (shape : Shape) :
    (pastEndOf start itemSlots strides rewinds shape).Accepted := by
  unfold pastEndOf
  split
  · exact Outcome.refusedOnly_unsigned _
  · refine (accepted_span _ _ _).bind fun reach _ => ?_
    refine (Outcome.refusedOnly_signed _).bind fun swept _ => ?_
    refine (Outcome.refusedOnly_signed _).bind fun furthest _ => ?_
    exact (Outcome.refusedOnly_signed _).bind fun past _ => Outcome.refusedOnly_pure _

/-! ## Routes of layouts -/

/-- **The route fits the shape** that it goes through: one stride and one rewind per axis, each
rewind being what a full sweep adds up to. -/
structure Fits (r : Route) (shape : Shape) : Prop where
  /-- There is one stride per axis. -/
  length_strides : r.strides.length = shape.length
  /-- A full sweep of an axis is rewound. -/
  rewinds : Rewinds r.strides shape r.rewinds

/-- **The route leads along the items of a layout** through a broadcast shape. -/
structure Leads (r : Route) (l : Layout) (shape : Shape) : Prop where
  /-- The layout's shape stretches to the broadcast shape. -/
  stretches : l.shape.StretchesTo shape
  /-- The layout has one stride per axis. -/
  length_strides : l.strides.length = l.shape.length
  /-- The extents are the layout's, padded. -/
  extents_eq : r.extents = l.shape.padTo shape.length
  /-- The strides are the layout's, with 0 on the axes repeated. -/
  strides_eq : r.strides = stretchStrides (l.shape.padTo shape.length)
    (padLeft (shape.length - l.shape.length) 0 l.strides) shape
  /-- A full sweep of an axis is rewound. -/
  rewinds : Rewinds r.strides shape r.rewinds
  /-- The first item is the layout's. -/
  start_eq : r.start = l.offset
  /-- The items have as many slots as the layout's. -/
  itemSlots_eq : r.itemSlots = l.itemSlots
  /-- The slot past the end is computed from the other parts. -/
  pastEnd_eq : pastEndOf r.start r.itemSlots r.strides r.rewinds shape = .ok r.pastEnd

/-- **The parts of a route.** -/
theorem ofLayout_eq_ok {l : Layout} {shape : Shape} {r : Route} :
    ofLayout l shape = .ok r ↔ l.shape.length ≤ shape.length
      ∧ sweep 0 (l.shape.padTo shape.length)
          (padLeft (shape.length - l.shape.length) 0 l.strides) shape
        = .ok (r.strides, r.rewinds)
      ∧ pastEndOf r.start r.itemSlots r.strides r.rewinds shape = .ok r.pastEnd
      ∧ r.extents = l.shape.padTo shape.length ∧ r.start = l.offset
      ∧ r.itemSlots = l.itemSlots := by
  unfold ofLayout through
  by_cases hrank : shape.length < l.shape.length
  · rw [if_pos hrank]
    exact iff_of_false (refuse_ne_ok _ _) fun h => Nat.not_lt_of_le h.1 hrank
  rw [if_neg hrank]
  constructor
  · intro h
    obtain ⟨⟨strides, rewinds⟩, hsweep, h⟩ := Outcome.bind_eq_ok.mp h
    obtain ⟨pastEnd, hpast, h⟩ := Outcome.bind_eq_ok.mp h
    obtain rfl := Except.ok.inj h
    exact ⟨Nat.le_of_not_lt hrank, hsweep, hpast, rfl, rfl, rfl⟩
  · rintro ⟨-, hsweep, hpast, hextents, hstart, hitem⟩
    rw [hstart, hitem] at hpast
    refine Outcome.bind_eq_ok.mpr ⟨_, hsweep, Outcome.bind_eq_ok.mpr ⟨_, hpast, ?_⟩⟩
    show Except.ok { r with
      extents := l.shape.padTo shape.length, start := l.offset, itemSlots := l.itemSlots } = _
    rw [← hextents, ← hstart, ← hitem]

/-- **The route of a layout leads along its items.** -/
theorem leads_of_ofLayout {l : Layout} {shape : Shape} {r : Route}
    (hl : l.strides.length = l.shape.length) (h : ofLayout l shape = .ok r) : r.Leads l shape := by
  obtain ⟨hrank, hsweep, hpast, hextents, hstart, hitem⟩ := ofLayout_eq_ok.mp h
  obtain ⟨hstretch, hstrides, hrewinds⟩ := sweep_eq_ok
    (by rw [Shape.padTo, length_padLeft, length_padLeft, hl]) hsweep
    (by rw [Shape.length_padTo]; omega)
  exact ⟨hstretch, hl, hextents, hstrides, hrewinds, hstart, hitem, hpast⟩

/-- **A route exists** where the shape stretches, unless arithmetic traps. -/
theorem accepted_ofLayout {l : Layout} {shape : Shape} (h : l.shape.StretchesTo shape) :
    (ofLayout l shape).Accepted := by
  unfold ofLayout through
  rw [if_neg (Nat.not_lt_of_le h.length_le)]
  refine (accepted_sweep h).bind fun swept _ => ?_
  exact (accepted_pastEndOf _ _ _ _ _).bind fun pastEnd _ => Outcome.refusedOnly_pure _

namespace Leads

variable {r : Route} {l : Layout} {shape : Shape}

/-- A route that leads through a shape fits it. -/
theorem fits (h : r.Leads l shape) : r.Fits shape where
  length_strides := by
    have := h.stretches.length_le
    rw [h.strides_eq, length_stretchStrides]
    · rw [length_padLeft, Shape.padTo, length_padLeft, h.length_strides]
    · rw [Shape.length_padTo]
      omega
  rewinds := h.rewinds

/-- **A route that leads along the items of a layout is its route.** -/
theorem ofLayout_eq (h : r.Leads l shape) : ofLayout l shape = .ok r := by
  refine ofLayout_eq_ok.mpr
    ⟨h.stretches.length_le, ?_, h.pastEnd_eq, h.extents_eq, h.start_eq, h.itemSlots_eq⟩
  have hrewinds := h.rewinds
  rw [h.strides_eq] at hrewinds ⊢
  exact sweep_of_rewinds
    (by rw [length_padLeft, Shape.padTo, length_padLeft, h.length_strides]) h.stretches hrewinds

/-- **The route shows the item that broadcasting reads**, in the operand's own layout. -/
theorem address_eq (h : r.Leads l shape) {p : List Nat} (hp : shape.Contains p) :
    r.address p = l.address (l.shape.sourceOf p) := by
  rw [address, Layout.address, h.start_eq, h.strides_eq,
    displacement_stretchStrides_padTo h.stretches h.length_strides hp]

/-- The slot past the end is an unsigned word. -/
theorem isUnsigned_pastEnd (h : r.Leads l shape) : Word.IsUnsigned r.pastEnd :=
  isUnsigned_of_pastEndOf h.pastEnd_eq

end Leads

end Route

end StridedArray
