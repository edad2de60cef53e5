import StridedArray.Proofs.Evened
import StridedArray.Proofs.Store

/-!
# The index after the end is out of reach

After the end of a traversal an operand shows the slot past the end of its
route. Two bounds make it up: the start and the greatest rewind, and the
end of the item that positive strides reach furthest. For a layout built
by checked constructions the second one alone carries the argument. It
lies beyond every item on the route, whatever the signs of the strides,
and it covers the slots that the layout needs by itself, since a route
goes up as far as its layout does (`Route.greatestShift_le_stretchStrides`).
So the index after the end differs from all that the operand has shown
before, and lies beyond every slot of these items
(`Layout.Built.pastEnd_out_of_reach`).
-/

namespace StridedArray

namespace Route

/-! ## The highest item of a route -/

/-- Axes put in front do not reach higher. -/
theorem greatestShift_padLeft (padding : Nat) (s : Shape) (strides : List Int) :
    Layout.greatestShift (padLeft padding 1 s) (padLeft padding 0 strides)
      = Layout.greatestShift s strides := by
  induction padding with
  | zero => rfl
  | succ padding ih =>
    show max (0 * (((1 : Nat) : Int) - 1)) 0
        + Layout.greatestShift (padLeft padding 1 s) (padLeft padding 0 strides)
      = Layout.greatestShift s strides
    rw [ih, Int.zero_mul, Int.max_self, Int.zero_add]

/-- **A route goes up as far as its layout does**: what is repeated is a single coordinate. -/
theorem greatestShift_le_stretchStrides {extents shape : Shape} {natives : List Int}
    (h : List.Forall₂ (fun m n => m = n ∨ m = 1) extents shape) :
    Layout.greatestShift extents natives
      ≤ Layout.greatestShift shape (stretchStrides extents natives shape) := by
  induction h generalizing natives with
  | nil => exact Int.le_refl 0
  | @cons m n extents shape hmn _ ih =>
    cases natives with
    | nil => exact Layout.greatestShift_nonneg _ _
    | cons native natives =>
      rw [stretchStrides, Layout.greatestShift, Layout.greatestShift]
      refine Int.add_le_add ?_ ih
      rcases hmn with rfl | rfl
      · rw [if_neg (fun hrepeat : m = 1 ∧ 1 < m => by omega)]
      · -- the layout does not move along a single coordinate
        rw [Int.natCast_one, Int.sub_self, Int.mul_zero, Int.max_self]
        exact Int.le_max_right _ _

namespace Leads

variable {r : Route} {l : Layout} {shape : Shape}

/-- A layout has items where its route has. -/
theorem count_pos (h : r.Leads l shape) (hpos : 0 < shape.count) : 0 < l.shape.count :=
  Shape.count_pos_of_contains (Shape.contains_sourceOf h.stretches (Shape.contains_origin hpos))

/-- **The slot past the end is not among those that the layout needs.** -/
theorem slotsNeeded_le_pastEnd (h : r.Leads l shape) (hl : l.Grounded)
    (haxes : Layout.SteadyAxes l.shape l.strides) (hpos : 0 < shape.count) {required : Nat}
    (hrequired : l.slotsNeeded = .ok required) : required ≤ r.pastEnd := by
  have hcount := h.count_pos hpos
  have hoffset := hl.offset_lt hcount
  have hneeded := Layout.slotsNeeded_eq_ok hoffset hcount haxes hrequired
  have hpast := le_pastEndOf (h.start_eq ▸ hoffset) (h.itemSlots_eq ▸ hl.itemSlots_lt)
    (h.steadyAxes haxes) h.pastEnd_eq
  have hreach : Layout.greatestShift (l.shape.padTo shape.length)
      (padLeft (shape.length - l.shape.length) 0 l.strides) ≤ _ :=
    greatestShift_le_stretchStrides h.stretches
  rw [← h.strides_eq, Shape.padTo, greatestShift_padLeft] at hreach
  rw [h.start_eq, h.itemSlots_eq] at hpast
  omega

/-- **The slot shown at a position is the exact slot** on the route. -/
theorem slot_moveTo {lane : Lane} (h : lane.route.Leads l shape) (hl : l.Grounded)
    (haxes : Layout.SteadyAxes l.shape l.strides) {p : List Nat} (hp : shape.Contains p) :
    ((lane.moveTo p).slot : Int) = lane.route.address p := by
  have hnonneg : 0 ≤ lane.route.address p := by
    rw [h.address_eq hp]
    exact hl.nonneg _ (Shape.contains_sourceOf h.stretches hp)
  have hpast := h.le_pastEnd hl haxes hp
  have hword : lane.route.pastEnd < 0x10000000000000000 := h.isUnsigned_pastEnd
  unfold Lane.slot Lane.moveTo
  rw [Word.toUnsigned_wrap, Word.toUnsigned_of_nonneg hnonneg (by omega),
    Int.toNat_of_nonneg hnonneg]

end Leads

end Route

/-! ## Traversals -/

/-- Where an operand is after any number of steps does not depend on where it was. -/
theorem Lane.after_restart (lane : Lane) (shape : Shape) (k : Nat) :
    lane.restart.after shape k = lane.after shape k := by
  have hmove : ∀ p, lane.restart.moveTo p = lane.moveTo p := fun p => by
    unfold moveTo restart ofRoute
    rfl
  unfold after
  rw [restart_restart, finish_restart, hmove]

namespace Odometer

/-- **The slot index that a traversal of `a` and `b` shows for a layout**, as an operand or as the
output. -/
inductive ShowsFor (o : Odometer) (a b : Layout) (target : Target) : Layout → Nat → Prop
  /-- That of the first operand. -/
  | first : ShowsFor o a b target a o.slots.first
  /-- That of the second operand. -/
  | second : ShowsFor o a b target b o.slots.second
  /-- That of the output. -/
  | output {l : Layout} {index : Nat} : l ∈ target.layout? a b → o.slots.output = some index →
      ShowsFor o a b target l index

variable {a b l : Layout} {target : Target} {o o' : Odometer} {r : Route} {k index : Nat}

/-- **What a traversal shows for a layout** is what the route of the layout leads to. -/
theorem Tracks.slot_of_showsFor (h : o.Tracks a b target) (hr : Route.ofLayout l o.shape = .ok r)
    (hshows : (o.after k).ShowsFor a b target l index) :
    index = ((Lane.ofRoute r).after o.shape k).slot := by
  have hlane : ∀ {lane : Lane}, Route.ofLayout l o.shape = .ok lane.route →
      (lane.after o.shape k).slot = ((Lane.ofRoute r).after o.shape k).slot := by
    intro lane hroute
    rw [← Except.ok.inj (hroute.symm.trans hr)]
    exact congrArg Lane.slot (lane.after_restart o.shape k).symm
  cases hshows with
  | first => exact (congrArg Lane.slot (h.first_after k)).trans (hlane h.first)
  | second => exact (congrArg Lane.slot (h.second_after k)).trans (hlane h.second)
  | output hl hindex =>
    obtain ⟨lane, hroute, hslot⟩ := h.output_slot_after hl
    exact (Option.some.inj (hindex.symm.trans (hslot k))).trans (hlane hroute)

/-- A run of a new traversal leads to the state after a number of steps. -/
theorem Tracks.run_eq_ok {calls : List Call} (h : o.Tracks a b target) (hready : o.restart = o)
    (hrun : o.run calls = .ok o') : o' = o.after (Call.steps calls) := by
  rw [← hready, ← o.after_zero] at hrun
  exact run_after h.sound_of_any hrun

/-- A traversal is active as long as there are positions. -/
theorem le_len_of_active (h : (o.after k).phase = .active) : 1 ≤ k ∧ k ≤ o.len := by
  rw [phase_after] at h
  split at h
  · exact absurd h (by decide)
  · split at h
    · omega
    · exact absurd h (by decide)

/-- A traversal is exhausted after its last position. -/
theorem len_lt_of_exhausted (h : (o.after k).phase = .exhausted) : o.len < k := by
  rw [phase_after] at h
  split at h
  · exact absurd h (by decide)
  · split at h
    · exact absurd h (by decide)
    · omega

end Odometer

/-- **The index after the end is out of reach.** The slot past the end of a route of a built layout,
through a shape without an empty axis, lies beyond every item on the route and is none of the slots
that the layout needs. In any traversal of that shape it is what the operand shows after the end,
and it lies beyond every slot of every item that the operand has shown, in whatever order the
traversal was called. -/
theorem Layout.Built.pastEnd_out_of_reach {l : Layout} {shape : Shape} {r : Route} (hl : l.Built)
    (hitem : l.itemSlots < 0x8000000000000000) (hpos : ∀ n ∈ shape, 0 < n)
    (hr : Route.ofLayout l shape = .ok r) :
    (∀ p, shape.Contains p → r.address p + l.itemSlots ≤ r.pastEnd)
      ∧ (∀ required, l.slotsNeeded = .ok required → required ≤ r.pastEnd)
      ∧ ∀ (a b : Layout) (target : Target) (o before ended : Odometer)
          (calls calls' : List Odometer.Call),
          Odometer.ofLayouts a b target = .ok o → o.shape = shape →
          o.run calls = .ok before → before.phase = .active →
          o.run calls' = .ok ended → ended.phase = .exhausted →
          ∀ index past, before.ShowsFor a b target l index → ended.ShowsFor a b target l past →
            (index : Int) = r.address before.position ∧ past = r.pastEnd
              ∧ ∀ i < l.itemSlots, index + i < past := by
  have hgrounded := hl.grounded hitem
  have haxes := Layout.steadyAxes_of_signed hl.signed hgrounded.length_strides
  have hleads := Route.leads_of_ofLayout hgrounded.length_strides hr
  have hcount : 0 < shape.count := Shape.count_pos_iff.mpr (by simpa using hpos)
  have hitems : ∀ p, shape.Contains p → r.address p + l.itemSlots ≤ r.pastEnd := fun p hp =>
    hleads.itemSlots_eq ▸ hleads.le_pastEnd hgrounded haxes hp
  refine ⟨hitems, fun required h => hleads.slotsNeeded_le_pastEnd hgrounded haxes hcount h, ?_⟩
  rintro a b target o before ended calls calls' ho rfl hrun hactive hrun' hended index past
    hindex hpast
  obtain ⟨htracks, hready⟩ := Odometer.tracks_of_ofLayouts ho
  obtain rfl := htracks.run_eq_ok hready hrun
  obtain rfl := htracks.run_eq_ok hready hrun'
  obtain ⟨hfirst, hlast⟩ := Odometer.le_len_of_active hactive
  have hover := Odometer.len_lt_of_exhausted hended
  rw [htracks.len] at hlast hover
  -- an item that is shown stands on the route, and the end of the route is shown after it
  have hp := Shape.contains_unravel (show Odometer.Call.steps calls - 1 < o.shape.count by omega)
  have hshown : (index : Int) = r.address (o.shape.unravel (Odometer.Call.steps calls - 1)) := by
    rw [htracks.slot_of_showsFor hr hindex, Lane.after, if_neg (by omega), if_pos hlast]
    exact Route.Leads.slot_moveTo hleads hgrounded haxes hp
  have hend : past = r.pastEnd := by
    rw [htracks.slot_of_showsFor hr hpast, Lane.after, if_neg (by omega), if_neg (by omega)]
    exact Route.Leads.slot_finish hleads
  refine ⟨?_, hend, fun i hi => ?_⟩
  · rw [hshown, Odometer.position_after, if_pos ⟨hfirst, htracks.len ▸ hlast⟩]
  · have := hitems _ hp
    omega

/-- Overlapping pairs along a rising and a falling axis, gone through twice: at the last position,
and then after the end. -/
theorem Layout.Built.pastEnd_out_of_reach_overlapping : ∃ (l b : Layout) (r : Route) (o : Odometer),
    l = ⟨[2, 3], [3, -2], 4, 2⟩ ∧ l.Built ∧ Route.ofLayout l [2, 2, 3] = .ok r
      ∧ Odometer.ofLayouts l b .none = .ok o
      ∧ o.run (List.replicate 12 .next) = .ok (o.visit [1, 1, 2])
      ∧ o.run (List.replicate 13 .step) = .ok o.exhaust
      ∧ r.address [1, 1, 0] + 2 ≤ r.pastEnd ∧ 9 ≤ r.pastEnd
      ∧ (o.visit [1, 1, 2]).slots.first + 1 < o.exhaust.slots.first := by
  let l : Layout := ⟨[2, 3], [3, -2], 4, 2⟩
  let b : Layout := ⟨[2, 1, 1], [1, 1, 1], 0, 1⟩
  let r : Route := ⟨[1, 2, 3], [0, 3, -2], [0, 6, -6], 4, 10, 2⟩
  let o : Odometer :=
    { shape := [2, 2, 3], len := 12, position := [0, 0, 0], first := .ofRoute r
      second := .ofRoute ⟨[2, 1, 1], [1, 0, 0], [2, 0, 0], 0, 2, 1⟩, output := .none
      phase := .ready }
  have hmade : Layout.ofStrides [2, 3] [3, -2] 4 2 = .ok l := by decide +kernel
  have hbuilt : l.Built := .ofStrides (by decide) (by decide) hmade
  have hr : Route.ofLayout l [2, 2, 3] = .ok r := by decide +kernel
  have ho : Odometer.ofLayouts l b .none = .ok o := by decide +kernel
  have hbefore : o.run (List.replicate 12 .next) = .ok (o.visit [1, 1, 2]) := by decide +kernel
  have hended : o.run (List.replicate 13 .step) = .ok o.exhaust := by decide +kernel
  obtain ⟨hitems, hrequired, hshows⟩ := pastEnd_out_of_reach hbuilt (by decide) (by decide) hr
  refine ⟨l, b, r, o, rfl, hbuilt, hr, ho, hbefore, hended, hitems _ (by decide),
    hrequired 9 (by decide +kernel), ?_⟩
  exact (hshows l b .none o _ _ _ _ ho rfl hbefore rfl hended rfl _ _ .first .first).2.2 1
    (by decide)

end StridedArray
