import StridedArray.Proofs.Overwrite
import StridedArray.Proofs.PastEnd
import StridedArray.Proofs.Reachable

/-!
# What a store writes

A store to the output of a traversal writes one slot, whichever stage the
traversal is in. At a position this is the slot of the item there, and
before the first one that of the item at the origin. Once the traversal
is over it is the slot past the end of the output's route, which lies
beyond every item of the output (`View.StoresAt`,
`Traversal.Runs.store_writes`). If the output is a part of a larger
storage that slot may well be there, and the store then changes an item
of another array (`Traversal.store_after_end`).
-/

namespace StridedArray

/-! ## The output in a run -/

/-- A run stays with its output. -/
theorem Traversal.Runs.output_eq {t t' : Traversal} {w w' : Workspace} (h : t.Runs w t' w') :
    t'.output = t.output := by
  induction h with
  | start => rfl
  | step _ ih => exact ih
  | restart _ ih => exact ih
  | later _ _ ih => exact ih

/-- **The output shows what an operand of its layout shows**, also when it follows one of the two. -/
theorem Odometer.Tracks.output_slot_after {a b l : Layout} {target : Target} {o : Odometer}
    (h : o.Tracks a b target) (hl : l ∈ target.layout? a b) :
    ∃ lane : Lane, Route.ofLayout l o.shape = .ok lane.route
      ∧ ∀ k, (o.after k).slots.output = some (lane.after o.shape k).slot := by
  have hgoes := h.output
  unfold slots
  cases target with
  | none => exact nomatch hl
  | first =>
    obtain rfl := Option.some.inj hl
    refine ⟨o.first, h.first, fun k => ?_⟩
    rw [h.output_after, show o.output = .first from hgoes, ← h.first_after]
    rfl
  | second =>
    obtain rfl := Option.some.inj hl
    refine ⟨o.second, h.second, fun k => ?_⟩
    rw [h.output_after, show o.output = .second from hgoes, ← h.second_after]
    rfl
  | own layout =>
    obtain rfl := Option.some.inj hl
    obtain ⟨lane, hlane, hroute⟩ := hgoes
    refine ⟨lane, hroute, fun k => ?_⟩
    rw [h.output_after, hlane]
    rfl

/-! ## The slot of a store -/

namespace View

/-- **The slot that a store to an array goes to**, wherever the odometer of the traversal is. -/
structure StoresAt (out : View) (o : Odometer) (slot : Nat) : Prop where
  /-- Until the end it is where the item at the current position starts. -/
  current : o.phase ≠ .exhausted → 0 < o.len →
    out.shape.Contains o.position ∧ slot = (out.layout.address o.position).toNat
  /-- Without any position it is first the offset of the array, a word. -/
  vacant : o.phase = .ready → o.len = 0 → Word.IsUnsigned out.layout.offset →
    slot = out.layout.offset
  /-- After the end it is beyond every item. -/
  beyond : o.phase = .exhausted → ∀ p, out.shape.Contains p →
    out.layout.address p + out.layout.itemSlots ≤ slot

variable {a b out : View} {w : Workspace} {o : Odometer} {slot : Nat}

/-- A store after the end goes to no item of the array. -/
theorem StoresAt.not_addresses (h : out.StoresAt o slot) (hout : out.InBounds w)
    (hend : o.phase = .exhausted) : ¬out.Addresses out.storage slot := by
  rintro ⟨-, p, hp, hslot⟩
  have hbeyond := h.beyond hend p hp
  have hnonneg := hout.nonneg p hp
  have hitem := hout.grounded.itemSlots_pos
  omega

/-- **The slot that a store goes to after any number of steps.** -/
theorem InBounds.storesAt (hout : out.InBounds w)
    (ho : o.Tracks a.layout b.layout (.ofView a b (some out))) (k : Nat) :
    ∃ slot, (o.after k).slots.output = some slot ∧ out.StoresAt (o.after k) slot := by
  have hlayout := Target.layout?_ofView a b (some out)
  have hshape : o.shape = out.shape := (ho.output_shape out.layout hlayout).symm
  have hlen : o.len = out.shape.count := hshape ▸ ho.len
  obtain ⟨lane, hroute, hslot⟩ := ho.output_slot_after hlayout
  have hleads : lane.route.Leads out.layout out.shape :=
    Route.leads_of_ofLayout hout.length_strides (hshape ▸ hroute)
  refine ⟨_, hslot k, ?_⟩
  have hphase := o.phase_after k
  have hposition := o.position_after k
  unfold Lane.after
  rcases Nat.eq_zero_or_pos k with rfl | hk
  · -- ready, the output stands at the origin
    rw [if_pos rfl] at hphase ⊢
    rw [if_neg (by omega), hshape] at hposition
    refine ⟨fun _ hpos => ?_, fun _ _ hword => hleads.slot_restart hword,
      fun hend => absurd (hphase.symm.trans hend) (by decide)⟩
    rw [Odometer.len_after, hlen] at hpos
    have hword : Word.IsUnsigned out.layout.offset :=
      Nat.lt_trans (hout.grounded.offset_lt hpos) (by decide)
    rw [hposition, hleads.slot_restart hword, Layout.address, Layout.displacement_origin,
      Int.add_zero, Int.toNat_natCast]
    exact ⟨Shape.contains_origin hpos, rfl⟩
  obtain ⟨j, rfl⟩ : ∃ j, k = j + 1 := ⟨k - 1, by omega⟩
  rw [if_neg (Nat.succ_ne_zero j)] at hphase ⊢
  by_cases hj : j < o.len
  · -- at a position, the output shows the item there
    rw [if_pos (by omega)] at hphase
    rw [if_pos (by omega), Nat.add_sub_cancel] at hposition
    refine ⟨fun _ _ => ?_, fun hready => absurd (hphase.symm.trans hready) (by decide),
      fun hend => absurd (hphase.symm.trans hend) (by decide)⟩
    have hshown := Option.some.inj ((hslot (j + 1)).symm.trans (hout.output_slot ho hj))
    rw [Lane.after, if_neg (Nat.succ_ne_zero j)] at hshown
    rw [hposition, hshown, hshape]
    exact ⟨Shape.contains_unravel (hlen ▸ hj), rfl⟩
  · -- over, it shows the slot past the end of its route
    rw [if_neg (by omega)] at hphase
    refine ⟨fun hunder => absurd hphase hunder, fun hready => absurd (hphase.symm.trans hready) (by decide),
      fun _ p hp => ?_⟩
    have hself : out.layout.shape.sourceOf p = p := Shape.sourceOf_self hp
    have hpast := hleads.le_pastEnd hout.grounded (Layout.steadyAxes_of_inMemory
      hout.length_strides (Shape.count_pos_of_contains hp) hout.inMemory) hp
    rw [hleads.address_eq hp, hself, hleads.itemSlots_eq] at hpast
    rw [if_neg (by rw [hshape]; omega), hleads.slot_finish]
    exact hpast

end View

/-! ## Stores -/

namespace Traversal

variable {x y out : View} {t t' : Traversal} {w w' : Workspace}

/-- **What a store does in any state of any run.** Refused, it leaves the workspace as it is. Else
it changes one slot of the storage of the output: that of the item at the current position until
the end, and after the end one beyond every item, at which none of the output starts. -/
theorem Runs.store_writes (hout : out.InBounds w) (ht : ofViews x y (some out) = .ok t)
    (hrun : t.Runs w t' w') (value : Double) :
    (∀ e w'', t'.store value w' = .error e w'' → w'' = w')
      ∧ ∃ slot, out.StoresAt t'.cursor.odometer slot
        ∧ (t'.cursor.odometer.phase = .exhausted → ¬out.Addresses out.storage slot)
        ∧ ∀ u w'', t'.store value w' = .ok u w'' →
          w'.AgreesOff w'' (fun id index => id = out.storage ∧ index = slot)
            ∧ (t'.cursor.odometer.phase ≠ .exhausted → 0 < t'.cursor.odometer.len →
              w'.AgreesOff w'' out.Addresses) := by
  obtain ⟨o, rfl, htracks, hsound, hready⟩ := tracks_of_ofViews ht
  obtain ⟨-, -, -, k, hk⟩ := hrun.invariant hsound hready
  have houtput : t'.output = some out := hrun.output_eq
  obtain ⟨slot, hslot, hstores⟩ := hout.storesAt htracks k
  rw [← hk] at hslot hstores
  have hstore : t'.store value = out.writeDouble slot value := by
    unfold store
    rw [houtput, hslot]
  refine ⟨fun e w'' hrefused => ?_, slot, hstores,
    fun hend => hstores.not_addresses hout hend, fun u w'' hok => ?_⟩
  · rw [hstore] at hrefused
    exact (Action.changing_eq_error hrefused).2
  · have hagrees : w'.AgreesOff w'' fun id index => id = out.storage ∧ index = slot := by
      refine (agreesOff_store hok).mono ?_
      rintro id index ⟨hindex, out', hout', rfl⟩
      rw [hslot] at hindex
      rw [houtput] at hout'
      exact ⟨congrArg View.storage (Option.some.inj hout').symm, (Option.some.inj hindex).symm⟩
    refine ⟨hagrees, fun hphase hlen => hagrees.mono ?_⟩
    rintro id index ⟨rfl, rfl⟩
    obtain ⟨hposition, rfl⟩ := hstores.current hphase hlen
    exact ⟨rfl, _, hposition, rfl⟩

/-- The traversal of a sequence of two numbers with itself, which is also the output. -/
def twoNumbers (x : View) (route : Route) : Traversal :=
  let lane : Lane := .ofRoute route
  let odometer : Odometer :=
    { shape := [2], len := 2, position := [0], first := lane, second := lane
      output := .first, phase := .ready }
  { cursor := .ofOdometer odometer, first := x, second := x, output := some x }

/-- The last two of three numbers, run through backwards: a store at the first position. -/
theorem Runs.store_writes_reversed : ∃ (x : View) (w w' : Workspace) (t t' : Traversal),
    x.layout = ⟨[2], [-1], 2, 1⟩ ∧ x.InBounds w ∧ ofViews x x (some x) = .ok t ∧ t.Runs w t' w
      ∧ t'.store (.ofInt 9) w = .ok () w'
      ∧ (w'.cell x.storage).storage = ⟨.int8, [1, 2, 9]⟩ ∧ w.AgreesOff w' x.Addresses := by
  let w := Workspace.initial.add ⟨.int8, [1, 2, 3]⟩
  let w' := Workspace.initial.add ⟨.int8, [1, 2, 9]⟩
  let x : View := ⟨0, ⟨[2], [-1], 2, 1⟩⟩
  let t := twoNumbers x ⟨[2], [-1], [-2], 2, 3, 1⟩
  let t' := t.after (t.step w)
  have hmade : View.ofValuesOfType [.ofInt 1, .ofInt 2, .ofInt 3] [3] .int8 .initial
      = .ok ⟨0, ⟨[3], [1], 0, 1⟩⟩ w := by decide +kernel
  have hpart : (⟨0, ⟨[3], [1], 0, 1⟩⟩ : View).apply (.narrow 0 1 2)
      = .ok ⟨0, ⟨[2], [1], 1, 1⟩⟩ := by decide +kernel
  have hflip : (⟨0, ⟨[2], [1], 1, 1⟩⟩ : View).apply (.flip 0) = .ok x := by decide +kernel
  have hx : x.InBounds w := ((View.inBounds_of_ofValuesOfType hmade).apply hpart).apply hflip
  have ht : ofViews x x (some x) = .ok t := by decide +kernel
  have hrun : t.Runs w t' w := .step .start
  have hstore : t'.store (.ofInt 9) w = .ok () w' := by decide +kernel
  obtain ⟨-, slot, -, -, hwrites⟩ := Runs.store_writes hx ht hrun (.ofInt 9)
  exact ⟨x, w, w', t, t', rfl, hx, ht, hrun, hstore, rfl,
    (hwrites _ _ hstore).2 (by decide +kernel) (by decide +kernel)⟩

/-- **A store after the end can change an item of another array**: the first two of three numbers
are run through, and then the third one is written. -/
theorem store_after_end : ∃ (x : View) (w w' : Workspace) (t t' : Traversal),
    x.InBounds w ∧ ofViews x x (some x) = .ok t ∧ t.Runs w t' w
      ∧ t'.store (.ofInt 9) w = .ok () w' ∧ ¬w.AgreesOff w' x.Addresses := by
  let w := Workspace.initial.add ⟨.int8, [1, 2, 3]⟩
  let w' := Workspace.initial.add ⟨.int8, [1, 2, 9]⟩
  let x : View := ⟨0, ⟨[2], [1], 0, 1⟩⟩
  let t := twoNumbers x ⟨[2], [1], [2], 0, 2, 1⟩
  let t₁ := t.after (t.step w)
  let t₂ := t₁.after (t₁.step w)
  let t' := t₂.after (t₂.step w)
  have hmade : View.ofValuesOfType [.ofInt 1, .ofInt 2, .ofInt 3] [3] .int8 .initial
      = .ok ⟨0, ⟨[3], [1], 0, 1⟩⟩ w := by decide +kernel
  have hpart : (⟨0, ⟨[3], [1], 0, 1⟩⟩ : View).apply (.narrow 0 0 2) = .ok x := by decide +kernel
  have hx : x.InBounds w := (View.inBounds_of_ofValuesOfType hmade).apply hpart
  have ht : ofViews x x (some x) = .ok t := by decide +kernel
  have hrun : t.Runs w t' w := .step (.step (.step .start))
  have hstore : t'.store (.ofInt 9) w = .ok () w' := by decide +kernel
  refine ⟨x, w, w', t, t', hx, ht, hrun, hstore, fun hagrees => ?_⟩
  have hother : ¬x.Addresses 0 2 := by
    rintro ⟨-, p, hp, hslot⟩
    match p, hp with
    | [c], ⟨hc, _⟩ =>
      change 2 = ((0 : Int) + (c * 1 + 0)).toNat at hslot
      omega
  exact absurd (hagrees.content_eq 0 2 hother) (by decide +kernel)

end Traversal

end StridedArray
