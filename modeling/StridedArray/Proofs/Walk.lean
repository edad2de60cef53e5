import StridedArray.Proofs.InBounds
import StridedArray.Proofs.Odometer

/-!
# Traversals of arrays in bounds

A traversal is refused at its construction only (`Odometer.accepted_step`),
and not even there if the shapes fit (`Odometer.accepted_ofLayouts`). Over
arrays in bounds the slot indices that it shows are exact
(`View.InBounds.first_slot` and its companions): the slot of an operand at
a position is `View.sourceSlot`, and lies in the operand's storage. So the
only refusal that a step with reads can meet is that of a read
(`Cursor.step_refusedOnly`).
-/

namespace StridedArray

/-! ## What cannot be refused -/

/-- A step of an index is never refused. -/
theorem Route.accepted_roll (shape : Shape) (p : List Nat) (strides rewinds : List Int)
    (index : Int) : (roll shape p strides rewinds index).Accepted := by
  induction shape generalizing p strides rewinds with
  | nil => exact Outcome.refusedOnly_ok _
  | cons n shape ih =>
    match p, strides, rewinds with
    | [], _, _ => exact Outcome.refusedOnly_ok _
    | _ :: _, [], _ => exact Outcome.refusedOnly_ok _
    | _ :: _, _ :: _, [] => exact Outcome.refusedOnly_ok _
    | c :: p, stride :: strides, rewind :: rewinds =>
      refine (ih p strides rewinds).bind fun rolled _ => ?_
      refine .ite (fun _ => ?_) (fun _ => Outcome.refusedOnly_pure _)
      refine (Outcome.refusedOnly_signed _).bind fun advanced _ => ?_
      refine .ite (fun _ => Outcome.refusedOnly_pure _) (fun _ => ?_)
      exact (Outcome.refusedOnly_signed _).bind fun _ _ => Outcome.refusedOnly_pure _

/-- A step of an operand is never refused. -/
theorem Lane.accepted_step (lane : Lane) (shape : Shape) (p : List Nat) :
    (lane.step shape p).Accepted :=
  (Route.accepted_roll _ _ _ _ _).bind fun _ _ => Outcome.refusedOnly_pure _

namespace Odometer

/-- **A step of a traversal is never refused.** -/
theorem accepted_step (o : Odometer) : o.step.Accepted := by
  unfold step
  split
  · exact Outcome.refusedOnly_ok _
  · exact .ite (fun _ => Outcome.refusedOnly_ok _) (fun _ => Outcome.refusedOnly_ok _)
  · refine (Lane.accepted_step _ _ _).bind fun first _ => ?_
    refine (Lane.accepted_step _ _ _).bind fun second _ => ?_
    have houtput : (o.output.step o.shape o.position).Accepted := by
      cases o.output with
      | own lane => exact (Lane.accepted_step _ _ _).bind fun _ _ => Outcome.refusedOnly_pure _
      | _ => exact Outcome.refusedOnly_ok _
    exact houtput.bind fun output _ => Outcome.refusedOnly_pure _

/-- **A step traps or leads to the next state.** -/
theorem step_trap_or_after {o : Odometer} (ho : o.Sound) (k : Nat) :
    (∃ t, (o.after k).step = trap t)
      ∨ (o.after k).step = .ok (o.after (k + 1), decide (k + 1 ≤ o.len)) := by
  rcases (o.after k).accepted_step.isOk_or_trap with ⟨⟨o', moved⟩, hstep⟩ | htrap
  · obtain ⟨rfl, rfl⟩ := step_after ho hstep
    exact .inr hstep
  · exact .inl htrap

/-- **A traversal exists** if the shapes broadcast and the output has the broadcast shape, unless
arithmetic traps. -/
theorem accepted_ofLayouts {a b : Layout} {target : Target} {r : Shape}
    (hshape : Shape.broadcast [a.shape, b.shape] = .ok r)
    (ht : ∀ l ∈ target.layout? a b, l.shape = r) : (ofLayouts a b target).Accepted := by
  have ha := Shape.stretchesTo_of_broadcast hshape (List.mem_cons_self ..)
  have hb := Shape.stretchesTo_of_broadcast hshape
    (List.mem_cons_of_mem _ (List.mem_singleton_self _))
  have hcheck : ∀ l : Layout, l.shape = r → (checkOutput r l.shape).Accepted := by
    intro l hl
    unfold checkOutput
    rw [if_pos hl.symm]
    exact Outcome.refusedOnly_ok _
  have houtput : (outputLane r a b target).Accepted := by
    cases target with
    | none => exact Outcome.refusedOnly_ok _
    | first => exact (hcheck a (ht a rfl)).bind fun _ _ => Outcome.refusedOnly_pure _
    | second => exact (hcheck b (ht b rfl)).bind fun _ _ => Outcome.refusedOnly_pure _
    | own l =>
      have hl := ht l rfl
      refine (hcheck l hl).bind fun _ _ => ?_
      refine (Route.accepted_ofLayout (hl ▸ Shape.StretchesTo.refl l.shape)).bind fun route _ => ?_
      exact Outcome.refusedOnly_pure _
  unfold ofLayouts
  rw [hshape]
  refine houtput.bind fun output _ => ?_
  refine (Route.accepted_ofLayout ha).bind fun first _ => ?_
  refine (Route.accepted_ofLayout hb).bind fun second _ => ?_
  exact (Shape.accepted_size r).bind fun len _ => Outcome.refusedOnly_pure _

/-- The first operand stretches to the shape of the traversal. -/
theorem Tracks.first_stretches {o : Odometer} {a b : Layout} {target : Target}
    (ho : o.Tracks a b target) : a.shape.StretchesTo o.shape :=
  Shape.stretchesTo_of_broadcast ho.shape (List.mem_cons_self ..)

/-- The second operand stretches to the shape of the traversal. -/
theorem Tracks.second_stretches {o : Odometer} {a b : Layout} {target : Target}
    (ho : o.Tracks a b target) : b.shape.StretchesTo o.shape :=
  Shape.stretchesTo_of_broadcast ho.shape (List.mem_cons_of_mem _ (List.mem_singleton_self _))

end Odometer

/-- **The output of a traversal is written through its own layout**, also when it follows an
operand. -/
theorem Target.layout?_ofView (a b : View) (output : Option View) :
    (ofView a b output).layout? a.layout b.layout = output.map (·.layout) := by
  cases output with
  | none => rfl
  | some out =>
    show (if out = a then first else if out = b then second else own out.layout).layout? _ _ = _
    by_cases ha : out = a
    · rw [if_pos ha, ha]
      rfl
    · rw [if_neg ha]
      by_cases hb : out = b
      · rw [if_pos hb, hb]
        rfl
      · rw [if_neg hb]
        rfl

/-! ## Exact slots -/

/-- **The slot shown of an operand in memory is the exact slot** of the item that broadcasting
reads. -/
theorem Lane.slot_moveTo {lane : Lane} {l : Layout} {shape : Shape} {p : List Nat}
    (hl : l.strides.length = l.shape.length) (hroute : Route.ofLayout l shape = .ok lane.route)
    (hmemory : Layout.InMemory l.shape l.strides l.offset) (hp : shape.Contains p) :
    (lane.moveTo p).slot = (l.address (l.shape.sourceOf p)).toNat := by
  have hleads := Route.leads_of_ofLayout hl hroute
  obtain ⟨hnonneg, hlt⟩ := hmemory _ (Shape.contains_sourceOf hleads.stretches hp)
  unfold slot moveTo
  rw [Word.toUnsigned_wrap, hleads.address_eq hp]
  exact Word.toUnsigned_of_nonneg hnonneg (Int.lt_trans hlt (by decide))

namespace View

/-- **The slot that broadcasting reads** of an array at a position of a broadcast shape. -/
def sourceSlot (x : View) (p : List Nat) : Nat :=
  (x.layout.address (x.shape.sourceOf p)).toNat

namespace InBounds

variable {a b : View} {w : Workspace} {target : Target} {o : Odometer} {k : Nat}

/-- The slot that broadcasting reads is there. -/
theorem sourceSlot_lt {r : Shape} {p : List Nat} (ha : a.InBounds w)
    (hr : a.shape.StretchesTo r) (hp : r.Contains p) :
    a.sourceSlot p < w.slotCount a.storage :=
  ha.slot_lt_of_contains (Shape.contains_sourceOf hr hp)

/-- All slots of the item that broadcasting reads are there. -/
theorem sourceSlot_add_le {r : Shape} {p : List Nat} (ha : a.InBounds w)
    (hr : a.shape.StretchesTo r) (hp : r.Contains p) :
    a.sourceSlot p + a.layout.itemSlots ≤ w.slotCount a.storage := by
  have hsource := Shape.contains_sourceOf hr hp
  have hnonneg := ha.nonneg _ hsource
  have hbelow := ha.below _ hsource
  unfold sourceSlot
  omega

/-- **The slot shown of the first operand.** -/
theorem first_slot (ha : a.InBounds w) (ho : o.Tracks a.layout b.layout target)
    (hk : k < o.len) : (o.after (k + 1)).slots.first = a.sourceSlot (o.shape.unravel k) := by
  rw [Odometer.after_of_le hk]
  exact Lane.slot_moveTo ha.length_strides ho.first ha.inMemory
    (Shape.contains_unravel (ho.len ▸ hk))

/-- **The slot shown of the second operand.** -/
theorem second_slot (hb : b.InBounds w) (ho : o.Tracks a.layout b.layout target)
    (hk : k < o.len) : (o.after (k + 1)).slots.second = b.sourceSlot (o.shape.unravel k) := by
  rw [Odometer.after_of_le hk]
  exact Lane.slot_moveTo hb.length_strides ho.second hb.inMemory
    (Shape.contains_unravel (ho.len ▸ hk))

/-- **The slot shown of the output**, also when the output follows an operand. -/
theorem output_slot {out : View} (hout : out.InBounds w)
    (ho : o.Tracks a.layout b.layout (.ofView a b (some out))) (hk : k < o.len) :
    (o.after (k + 1)).slots.output
      = some (out.layout.address (o.shape.unravel k)).toNat := by
  have hp := Shape.contains_unravel (ho.len ▸ hk)
  have hshape : out.shape = o.shape :=
    ho.output_shape out.layout (Target.layout?_ofView a b (some out))
  have hself : out.sourceSlot (o.shape.unravel k)
      = (out.layout.address (o.shape.unravel k)).toNat := by
    rw [sourceSlot, hshape, Shape.sourceOf_self hp]
  have hafter := ho.output_after (k + 1)
  have hgoes : o.output.GoesTo o.shape
    (if out = a then .first else if out = b then .second else .own out.layout) := ho.output
  unfold Odometer.slots
  by_cases ha : out = a
  · rw [if_pos ha] at hgoes
    rw [show o.output = .first from hgoes] at hafter
    rw [hafter, ← hself, ha]
    exact congrArg some (first_slot (ha ▸ hout) ho hk)
  by_cases hb : out = b
  · rw [if_neg ha, if_pos hb] at hgoes
    rw [show o.output = .second from hgoes] at hafter
    rw [hafter, ← hself, hb]
    exact congrArg some (second_slot (hb ▸ hout) ho hk)
  · rw [if_neg ha, if_neg hb] at hgoes
    obtain ⟨lane, hlane, hroute⟩ := hgoes
    have hown : (o.after (k + 1)).output = .own (lane.moveTo (o.shape.unravel k)) := by
      rw [Odometer.after_of_le hk]
      show o.output.map _ = _
      rw [hlane]
      rfl
    rw [hown, ← hself]
    exact congrArg some
      (Lane.slot_moveTo hout.length_strides hroute hout.inMemory hp)

end InBounds

end View

/-- The layout of one item on its own. -/
def Layout.single : Layout where
  shape := []
  strides := []
  offset := 0
  itemSlots := 1

theorem Layout.ofShape_single : ofShape [] 1 = .ok single := rfl

/-- **The traversal of the items of an array** goes through its shape. -/
theorem View.items_eq_ok {x : View} {o : Odometer} (h : x.items = .ok o) :
    o.Tracks x.layout .single .none ∧ o.restart = o ∧ o.shape = x.shape := by
  unfold items at h
  rw [Layout.ofShape_single] at h
  obtain ⟨htracks, hready⟩ := Odometer.tracks_of_ofLayouts h
  refine ⟨htracks, hready, ?_⟩
  exact Except.ok.inj (htracks.shape.symm.trans (Shape.broadcast_rank_zero x.layout.shape))

/-! ## Reads -/

/-- **What is collected is what the visits give**, position after position, unless a step traps. -/
theorem Odometer.collect_verdict {α : Type} (visit : SlotIndices → Outcome (List α))
    {o : Odometer} (ho : o.Sound) (hready : o.restart = o) :
    (∃ k t, (o.after k).step = trap t ∧ o.collect visit = trap t)
      ∨ o.collect visit = ((List.range o.len).mapM fun k => visit (o.after (k + 1)).slots)
          >>= fun parts => .ok parts.flatten := by
  -- with the steps left, the positions left are visited
  have general : ∀ fuel k, k + fuel = o.len + 1 →
      (∃ j t, (o.after j).step = trap t ∧ collectWithin visit fuel (o.after k) = trap t)
        ∨ collectWithin visit fuel (o.after k)
          = ((List.range' k (o.len - k)).mapM fun k => visit (o.after (k + 1)).slots)
            >>= fun parts => .ok parts.flatten := by
    intro fuel
    induction fuel with
    | zero =>
      intro k hk
      rw [show o.len - k = 0 by omega]
      exact .inr rfl
    | succ fuel ih =>
      intro k hk
      rw [collectWithin]
      rcases step_trap_or_after ho k with ⟨t, htrap⟩ | hstep
      · exact .inl ⟨k, t, htrap, by rw [htrap]; rfl⟩
      rw [hstep]
      by_cases hmore : k + 1 ≤ o.len
      · rw [decide_eq_true hmore, show o.len - k = o.len - (k + 1) + 1 by omega,
          List.range'_succ, List.mapM_cons]
        show (∃ j t, _ ∧ (visit (o.after (k + 1)).slots >>= _) = trap t)
          ∨ (visit (o.after (k + 1)).slots >>= _) = _
        cases visit (o.after (k + 1)).slots with
        | error e => exact .inr rfl
        | ok here =>
          rcases ih (k + 1) (by omega) with ⟨j, t, htrap, hrest⟩ | hrest
          · refine .inl ⟨j, t, htrap, ?_⟩
            show (collectWithin visit fuel (o.after (k + 1)) >>= _) = _
            rw [hrest]
            rfl
          · refine .inr ?_
            show (collectWithin visit fuel (o.after (k + 1)) >>= _) = ((List.mapM _ _ >>= _) >>= _)
            rw [hrest, bind_assoc, bind_assoc]
            rfl
      · rw [decide_eq_false hmore, show o.len - k = 0 by omega]
        exact .inr rfl
  have hall := general (o.len + 1) 0 (Nat.zero_add _)
  rw [after_zero, hready, Nat.sub_zero, ← List.range_eq_range'] at hall
  exact hall

/-- **The items of any array can be traversed**, unless arithmetic traps. -/
theorem View.accepted_items (x : View) : x.items.Accepted := by
  unfold items
  rw [Layout.ofShape_single]
  exact Odometer.accepted_ofLayouts (Shape.broadcast_rank_zero x.layout.shape) nofun

namespace Cursor

variable {c : Cursor} {readFirst readSecond : Nat → Outcome Double}

/-- Reading the values does not move the odometer. -/
theorem odometer_load : (c.load readFirst readSecond).cursor.odometer = c.odometer := by
  simp only [load]
  split
  · rfl
  · split <;> rfl

/-- Having a value at hand is refused for the reasons of reading it. -/
theorem refresh_refusedOnly {P : ArrayError → Prop} {kept : Kept} {read : Nat → Outcome Double}
    {slot : Nat} (h : (read slot).RefusedOnly P) : (kept.refresh read slot).RefusedOnly P := by
  unfold Kept.refresh
  refine .ite (fun _ => Outcome.refusedOnly_ok _) (fun _ => ?_)
  exact h.bind fun value _ => Outcome.refusedOnly_pure _

/-- **Reading the values is refused for the reasons of reading either.** -/
theorem load_refusedOnly {P : ArrayError → Prop}
    (hfirst : (readFirst c.odometer.slots.first).RefusedOnly P)
    (hsecond : (readSecond c.odometer.slots.second).RefusedOnly P) :
    (c.load readFirst readSecond).outcome.RefusedOnly P := by
  have hkeep : ∀ {β : Type} {e : Fault} {x : Outcome Kept}, x.RefusedOnly P → x = .error e →
      Outcome.RefusedOnly P (.error e : Outcome β) := fun hx he e' he' =>
    hx e' (he.trans (congrArg Except.error (Except.error.inj he')))
  simp only [load]
  split
  · next e he => exact hkeep (refresh_refusedOnly hfirst) he
  · split
    · next e he => exact hkeep (refresh_refusedOnly hsecond) he
    · exact Outcome.refusedOnly_ok _

variable {o : Odometer} {k : Nat}

/-- **A step of a cursor** moves the odometer to the next state, or traps and leaves it. -/
theorem odometer_step (ho : o.Sound) (hc : c.odometer = o.after k) :
    ∃ j, (c.step readFirst readSecond).cursor.odometer = o.after j := by
  unfold step
  rw [hc]
  rcases o.step_trap_or_after ho k with ⟨t, htrap⟩ | hstep
  · rw [htrap]
    exact ⟨k, hc⟩
  · rw [hstep]
    refine ⟨k + 1, ?_⟩
    show (if decide (k + 1 ≤ o.len) = true then _ else _ : Step).cursor.odometer = _
    split
    · exact odometer_load
    · rfl

/-- **A step of a cursor is refused for the reasons of a read** at one of the positions. -/
theorem step_refusedOnly {P : ArrayError → Prop} (ho : o.Sound) (hc : c.odometer = o.after k)
    (hfirst : ∀ j < o.len, (readFirst (o.after (j + 1)).slots.first).RefusedOnly P)
    (hsecond : ∀ j < o.len, (readSecond (o.after (j + 1)).slots.second).RefusedOnly P) :
    (c.step readFirst readSecond).outcome.RefusedOnly P := by
  unfold step
  rw [hc]
  rcases o.step_trap_or_after ho k with ⟨t, htrap⟩ | hstep
  · rw [htrap]
    exact Outcome.refusedOnly_trap t
  · rw [hstep]
    show (if decide (k + 1 ≤ o.len) = true then _ else _ : Step).outcome.RefusedOnly P
    split
    · next hk =>
      have hk := of_decide_eq_true hk
      exact load_refusedOnly (hfirst k hk) (hsecond k hk)
    · exact Outcome.refusedOnly_ok _

end Cursor

end StridedArray
