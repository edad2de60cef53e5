import StridedArray.Proofs.Listed
import StridedArray.Proofs.Repeat

/-!
# Every array that can be made is in bounds

Arrays come from values, from zeros, from a storage and a layout, from a
repetition or from arithmetic, and then from view operations and
stretching. `View.Reachable` says so, the workspace being free to change
in between as long as its storages stay in use with their types and sizes.
Bounds are checked where a storage meets a layout and nowhere else. They
hold for every array that can be reached (`View.Reachable.inBounds`), and
so no access to one goes out of bounds (`View.Safe`).
-/

namespace StridedArray

/-! ## Storages as they are made -/

/-- **Storages made of zeros or values**, and then written to. -/
inductive Storage.Made : Storage → Prop
  /-- Made of zeros. -/
  | zeros {type : ElementType} {size : Nat} {s : Storage} (h : zeros type size = .ok s) : Made s
  /-- Made of values. -/
  | ofValues {type : ElementType} {values : List Double} {s : Storage}
    (h : ofValues type values = .ok s) : Made s
  /-- With a slot written. -/
  | set {s s' : Storage} {index : Nat} {v : SlotValue} (hs : Made s)
    (h : s.set index v = .ok s') : Made s'

/-- A storage that was made fits into the address space. -/
theorem Storage.Made.addressable {s : Storage} (h : s.Made) :
    s.bytes.length < Word.addressLimit := by
  induction h with
  | zeros h =>
    obtain ⟨hlimit, rfl⟩ := zeros_eq_ok.mp h
    rwa [List.length_replicate]
  | ofValues h => exact (size_of_ofValues h).2.2
  | set hs h ih =>
    rw [(size_of_set h).2]
    exact ih

/-! ## Actions that keep the storages -/

namespace View

open StridedArray.Action

theorem keeps_writeSlot (x : View) (index : Nat) (v : SlotValue) :
    Keeps (x.writeSlot index v) := by
  intro w u w' h
  exact (Workspace.agreesOff_writeSlot (changing_eq_ok.mp h)).1.extends

theorem keeps_writeDouble (x : View) (index : Nat) (value : Double) :
    Keeps (x.writeDouble index value) := by
  intro w u w' h
  have hwrite := changing_eq_ok.mp h
  rw [Workspace.writeDouble_eq_writeSlot] at hwrite
  exact (Workspace.agreesOff_writeSlot hwrite).1.extends

theorem keeps_copyRun (x result : View) (source goal done left : Nat) :
    Keeps (copyRun x result source goal done left) := by
  induction left generalizing done with
  | zero => exact .pure ()
  | succ left ih =>
    refine (Keeps.lift _).bind fun slot => (Keeps.lift _).bind fun origin => ?_
    exact (Keeps.reading _).bind fun v => (keeps_writeSlot result slot v).bind fun _ => ih _

theorem keeps_copyWithin (x result : View) (itemSlots fuel : Nat) (o : Odometer) :
    Keeps (copyWithin x result itemSlots fuel o) := by
  induction fuel generalizing o with
  | zero => exact .pure ()
  | succ fuel ih =>
    refine (Keeps.lift _).bind fun stepped => ?_
    exact .ite ((keeps_copyRun _ _ _ _ _ _).bind fun _ => ih _) (.pure ())

theorem keeps_copyTo (x result : View) (goal : Shape) : Keeps (copyTo x result goal) :=
  .ite (keeps_copyRun _ _ _ _ _ _) ((Keeps.lift _).bind fun _ => keeps_copyWithin _ _ _ _ _)

theorem keeps_store (t : Traversal) (value : Double) : Keeps (t.store value) := by
  unfold Traversal.store
  split
  · exact keeps_writeDouble _ _ _
  · exact Keeps.lift _

theorem keeps_fillWithin (op : Double → Double → Double) (fuel : Nat) (t : Traversal) :
    Keeps (t.fillWithin op fuel) := by
  induction fuel generalizing t with
  | zero => exact .pure ()
  | succ fuel ih =>
    refine Keeps.get.bind fun w => (Keeps.lift _).bind fun moved => ?_
    exact .ite ((keeps_store _ _).bind fun _ => ih _) (.pure ())

theorem keeps_fillFrom (out x y : View) (op : Double → Double → Double) :
    Keeps (out.fillFrom x y op) := by
  refine Keeps.get.bind fun w => ?_
  exact .ite (Keeps.lift _) ((Keeps.lift _).bind fun t => keeps_fillWithin _ _ _)

variable {x y : View} {w w' : Workspace}

/-- **A repetition is in bounds**, whatever is repeated. -/
theorem inBounds_of_repeatTo {t : Shape} (h : x.repeatTo t w = .ok y w') : y.InBounds w' := by
  obtain ⟨goal, w₁, -, hzeros, hcopy⟩ := repeatTo_eq_ok.mp h
  exact (inBounds_of_zerosOfType hzeros).of_extends (keeps_copyTo x y goal w₁ () w' hcopy)

/-- **The result of arithmetic is in bounds**, whatever the operands. -/
theorem inBounds_of_binary {op : BinaryOp} {z : View} (h : binary op x y w = .ok z w') :
    z.InBounds w' := by
  obtain ⟨type, shape, w₁, -, -, hzeros, hfill⟩ := binary_eq_ok.mp h
  exact (inBounds_of_zerosOfType hzeros).of_extends (keeps_fillFrom z x y op.eval w₁ () w' hfill)

/-! ## Arrays that can be reached -/

/-- **The arrays that can be reached** in a workspace. -/
inductive Reachable : View → Workspace → Prop
  /-- Made of values. -/
  | ofValues {values : List Double} {shape : Shape} {type : ElementType} {x : View}
    {w w' : Workspace} (h : ofValuesOfType values shape type w = .ok x w') : Reachable x w'
  /-- Made of zeros. -/
  | zeros {shape : Shape} {type : ElementType} {x : View} {w w' : Workspace}
    (h : zerosOfType shape type w = .ok x w') : Reachable x w'
  /-- Made of one value. -/
  | scalar {value : Double} {x : View} {w w' : Workspace} (h : scalar value w = .ok x w') :
    Reachable x w'
  /-- Made of a storage and a layout. -/
  | ofStorage {s : Storage} {l : Layout} {x : View} {w w' : Workspace} (hs : s.Made)
    (hl : l.Built) (h : ofStorage s l w = .ok x w') : Reachable x w'
  /-- Repeated. -/
  | repeatTo {y x : View} {t : Shape} {w w' : Workspace} (h : y.repeatTo t w = .ok x w') :
    Reachable x w'
  /-- Computed. -/
  | binary {op : BinaryOp} {y z x : View} {w w' : Workspace}
    (h : binary op y z w = .ok x w') : Reachable x w'
  /-- Seen through a view operation. -/
  | apply {x y : View} {w : Workspace} (op : ViewOp) (hx : Reachable x w)
    (h : x.apply op = .ok y) : Reachable y w
  /-- Stretched. -/
  | stretch {x y : View} {w : Workspace} {t : Shape} (hx : Reachable x w)
    (h : x.stretch t = .ok y) : Reachable y w
  /-- Left alone while the workspace changes. -/
  | later {x : View} {w w' : Workspace} (hx : Reachable x w) (hw : w.Extends w') :
    Reachable x w'

/-- **Every array that can be reached is in bounds.** -/
theorem Reachable.inBounds (h : x.Reachable w) : x.InBounds w := by
  induction h with
  | ofValues h => exact inBounds_of_ofValuesOfType h
  | zeros h => exact inBounds_of_zerosOfType h
  | scalar h => exact inBounds_of_scalar h
  | @ofStorage s l x w w' hs hl h =>
    have hitem : l.itemSlots < 0x8000000000000000 := by
      obtain ⟨hcheck, -, -⟩ := ofStorage_eq_ok.mp h
      rw [(checkFit_eq_ok.mp hcheck).1]
      exact s.type.itemSlots_lt
    have hgrounded := hl.grounded hitem
    exact inBounds_of_ofStorage hs.addressable hgrounded
      (fun _ => Layout.steadyAxes_of_signed hl.signed hgrounded.length_strides) h
  | repeatTo h => exact inBounds_of_repeatTo h
  | binary h => exact inBounds_of_binary h
  | apply op _ h ih => exact ih.apply h
  | stretch _ h ih => exact ih.stretch h
  | later _ hw ih => exact ih.of_extends hw

end View

/-! ## Reads of arrays in bounds -/

/-- **The states of a traversal in a run**, the workspace being free to change between two calls as
long as its storages stay in use. -/
inductive Traversal.Runs (t : Traversal) (w : Workspace) : Traversal → Workspace → Prop
  /-- Where the run starts. -/
  | start : Runs t w t w
  /-- After a step, a failed one included. -/
  | step {t' : Traversal} {w' : Workspace} (h : Runs t w t' w') :
    Runs t w (t'.after (t'.step w')) w'
  /-- Ready again. -/
  | restart {t' : Traversal} {w' : Workspace} (h : Runs t w t' w') : Runs t w t'.restart w'
  /-- Left alone while the workspace changes. -/
  | later {t' : Traversal} {w' w'' : Workspace} (h : Runs t w t' w') (hw : w'.Extends w'') :
    Runs t w t' w''

namespace View

variable {x y : View} {w w' : Workspace} {p : List Nat}

/-- A slot that is there is read as a double, unless its storage is locked. -/
theorem InBounds.readDouble_refusedOnly_locked (h : x.InBounds w) (hp : x.shape.Contains p)
    {k : Nat} (hk : k < x.layout.itemSlots) :
    (x.readDouble ((x.layout.address p).toNat + k) w).RefusedOnly (· = .locked) :=
  Workspace.readDouble_refusedOnly_locked (h.slot_lt hp hk)

/-- **The item at a position is read**, unless the storage is locked. -/
theorem InBounds.itemAt_refusedOnly_locked (h : x.InBounds w) (hp : x.shape.Contains p) :
    (x.itemAt p w).RefusedOnly (· = .locked) := by
  unfold itemAt
  rw [h.slotAt_eq hp]
  exact h.readDouble_refusedOnly_locked hp h.grounded.itemSlots_pos

/-- **The item at a position is written**, unless the storage is locked. -/
theorem InBounds.setItemAt_refused_locked (h : x.InBounds w) (hp : x.shape.Contains p)
    {value : Double} {e : ArrayError}
    (hrefused : x.setItemAt p value w = .error (.refused e) w') : e = .locked := by
  unfold setItemAt at hrefused
  rw [h.slotAt_eq hp] at hrefused
  have hwrite : (x.writeDouble (x.layout.address p).toNat value) w = .error (.refused e) w' :=
    hrefused
  exact Workspace.writeDouble_refusedOnly_locked (h.slot_lt_of_contains hp) e
    (Action.changing_eq_error hwrite).1

/-- **The run of slots of an item is read**, unless the storage is locked. -/
theorem InBounds.slotRun_refusedOnly_locked (h : x.InBounds w) (hp : x.shape.Contains p) :
    (x.slotRun (Word.toUnsigned (x.layout.address p)) x.layout.itemSlots w).RefusedOnly
      (· = .locked) := by
  rw [h.toUnsigned_address hp]
  refine Outcome.RefusedOnly.mapM fun k hk => ?_
  rw [h.unsigned_slot hp (List.mem_range.mp hk)]
  exact h.readDouble_refusedOnly_locked hp (List.mem_range.mp hk)

/-- **The list of all items is read**, unless the storage is locked. -/
theorem InBounds.toList_refusedOnly_locked (h : x.InBounds w) :
    (x.toList w).RefusedOnly (· = .locked) :=
  h.toList_endsAs.refusedOnly <| Outcome.RefusedOnly.mapM fun _ hp =>
    h.itemAt_refusedOnly_locked (Shape.mem_positions.mp hp)

/-- **The list of all slots is read**, unless the storage is locked. -/
theorem InBounds.toSlotList_refusedOnly_locked (h : x.InBounds w) :
    (x.toSlotList w).RefusedOnly (· = .locked) := by
  refine (toSlotList_endsAs x w).refusedOnly (Outcome.RefusedOnly.bind ?_ fun _ _ => ?_)
  · exact Outcome.RefusedOnly.mapM fun p hp =>
      h.slotRun_refusedOnly_locked (Shape.mem_positions.mp hp)
  · exact Outcome.refusedOnly_ok _

end View

/-- **A run stays with its operands**, and its odometer goes from one of its states to another. -/
theorem Traversal.Runs.invariant {t t' : Traversal} {w w' : Workspace} {o : Odometer}
    (ho : o.Sound) (hready : t.cursor.odometer = o.after 0) (h : t.Runs w t' w') :
    t'.first = t.first ∧ t'.second = t.second ∧ w.Extends w'
      ∧ ∃ k, t'.cursor.odometer = o.after k := by
  induction h with
  | start => exact ⟨rfl, rfl, .refl w, 0, hready⟩
  | step _ ih =>
    obtain ⟨hfirst, hsecond, hw, k, hk⟩ := ih
    exact ⟨hfirst, hsecond, hw, Cursor.odometer_step ho hk⟩
  | restart _ ih =>
    obtain ⟨hfirst, hsecond, hw, k, hk⟩ := ih
    refine ⟨hfirst, hsecond, hw, 0, ?_⟩
    show Odometer.restart _ = _
    rw [hk, Odometer.restart_after, Odometer.after_zero]
  | later _ hw' ih =>
    obtain ⟨hfirst, hsecond, hw, hk⟩ := ih
    exact ⟨hfirst, hsecond, hw.trans hw', hk⟩

/-- **Every read of a traversal of arrays in bounds** is refused only for a locked storage. -/
theorem Traversal.Runs.step_refusedOnly_locked {x y : View} {output : Option View}
    {t t' : Traversal} {w w' : Workspace} (hx : x.InBounds w) (hy : y.InBounds w)
    (hout : ∀ z ∈ output, z.InBounds w) (ht : ofViews x y output = .ok t)
    (h : t.Runs w t' w') : (t'.step w').outcome.RefusedOnly (· = .locked) := by
  obtain ⟨o, ho, ht⟩ := Outcome.bind_eq_ok.mp ht
  obtain rfl := Except.ok.inj ht
  obtain ⟨htracks, hready⟩ := Odometer.tracks_of_ofLayouts ho
  have hlayout : ∀ l ∈ (Target.ofView x y output).layout? x.layout y.layout,
      l.strides.length = l.shape.length := by
    intro l hl
    rw [Target.layout?_ofView] at hl
    obtain ⟨z, hz, rfl⟩ := Option.map_eq_some_iff.mp hl
    exact (hout z hz).length_strides
  have hsound := htracks.sound hx.length_strides hy.length_strides hlayout
  -- wherever the run is, its next step shows slots of some position
  obtain ⟨hfirst, hsecond, hw, k, hk⟩ :=
    h.invariant hsound (by rw [Odometer.after_zero, hready]; rfl)
  have hx' := hx.of_extends hw
  have hy' := hy.of_extends hw
  have hp : ∀ j < o.len, o.shape.Contains (o.shape.unravel j) := fun j hj =>
    Shape.contains_unravel (htracks.len ▸ hj)
  refine Cursor.step_refusedOnly hsound hk (fun j hj => ?_) (fun j hj => ?_)
  · rw [hx'.first_slot htracks hj, hfirst]
    exact Workspace.readDouble_refusedOnly_locked
      (hx'.sourceSlot_lt htracks.first_stretches (hp j hj))
  · rw [hy'.second_slot htracks hj, hsecond]
    exact Workspace.readDouble_refusedOnly_locked
      (hy'.sourceSlot_lt htracks.second_stretches (hp j hj))

namespace View

/-- **An array on which nothing goes out of bounds**: addresses are exact and lie in the storage,
and of all refusals a read or a write can meet that of a locked storage only. -/
structure Safe (x : View) (w : Workspace) : Prop where
  /-- Every slot of every item lies in the storage. -/
  addressed : ∀ p, x.shape.Contains p → ∀ k < x.layout.itemSlots,
    0 ≤ x.layout.address p ∧ x.layout.address p + k < w.slotCount x.storage
  /-- The slot at which an item starts is its exact slot. -/
  slotAt : ∀ p, x.shape.Contains p → x.layout.slotAt p = .ok (x.layout.address p).toNat
  /-- An item is read. -/
  itemAt : ∀ p, x.shape.Contains p → (x.itemAt p w).RefusedOnly (· = .locked)
  /-- An item is written. -/
  setItemAt : ∀ p value e w', x.shape.Contains p →
    x.setItemAt p value w = .error (.refused e) w' → e = .locked
  /-- All items are read. -/
  toList : (x.toList w).RefusedOnly (· = .locked)
  /-- All slots are read. -/
  toSlotList : (x.toSlotList w).RefusedOnly (· = .locked)
  /-- A traversal together with another array reads both, in every state of every run. -/
  traversal : ∀ (y : View) (output : Option View) (t t' : Traversal) (w' : Workspace),
    y.Reachable w → (∀ z ∈ output, z.Reachable w) → Traversal.ofViews x y output = .ok t →
      t.Runs w t' w' → (t'.step w').outcome.RefusedOnly (· = .locked)

/-- **Nothing goes out of bounds on an array that can be reached**, however many view operations it
has gone through. -/
theorem Reachable.safe {x : View} {w : Workspace} (hx : x.Reachable w) : x.Safe w := by
  have hbounds := hx.inBounds
  refine
    { addressed := fun p hp k hk => ⟨hbounds.nonneg p hp, ?_⟩
      slotAt := fun p hp => hbounds.slotAt_eq hp
      itemAt := fun p hp => hbounds.itemAt_refusedOnly_locked hp
      setItemAt := fun p value e w' hp h => hbounds.setItemAt_refused_locked hp h
      toList := hbounds.toList_refusedOnly_locked
      toSlotList := hbounds.toSlotList_refusedOnly_locked
      traversal := fun y output t t' w' hy hout ht hrun => ?_ }
  · have := hbounds.below p hp
    omega
  · exact Traversal.Runs.step_refusedOnly_locked hbounds hy.inBounds
      (fun z hz => (hout z hz).inBounds) ht hrun

/-- An array of complex numbers, run through backwards, transposed and stretched. -/
theorem Reachable.safe_complex : ∃ (x : View) (w : Workspace),
    x.layout = ⟨[4, 3, 2], [0, -2, 6], 4, 2⟩ ∧ x.Reachable w ∧ x.Safe w := by
  let w := Workspace.initial.add ⟨.complex64, List.replicate 48 0⟩
  have hmade : zerosOfType [2, 3] .complex64 .initial = .ok ⟨0, ⟨[2, 3], [6, 2], 0, 2⟩⟩ w := rfl
  have hzeros : Reachable ⟨0, ⟨[2, 3], [6, 2], 0, 2⟩⟩ w := .zeros hmade
  have hflip : Reachable ⟨0, ⟨[2, 3], [6, -2], 4, 2⟩⟩ w := .apply (.flip 1) hzeros rfl
  have hturn : Reachable ⟨0, ⟨[3, 2], [-2, 6], 4, 2⟩⟩ w := .apply (.transpose 0 1) hflip rfl
  have hstretch : Reachable ⟨0, ⟨[4, 3, 2], [0, -2, 6], 4, 2⟩⟩ w :=
    .stretch (t := [4, 3, 2]) hturn rfl
  exact ⟨_, w, rfl, hstretch, Reachable.safe hstretch⟩

end View

end StridedArray
