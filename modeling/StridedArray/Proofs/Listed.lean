import StridedArray.Proofs.Create
import StridedArray.Proofs.Evened

/-!
# Items listed one after the other

The contents of an array are listed by going through it with an odometer,
which adds up strides. That gives what addressing every position by itself
gives, in row-major order (`View.toList_endsAs`, `View.toSlotList_endsAs`),
whatever the strides are, as far as nothing traps. For an array in bounds
the list of items holds what is found at each position, and the list of
slots the runs of slots that start there (`View.InBounds.listed_in_order`).
The storage is looked at only if there is something to read, so that an
empty array can be listed even if its storage is locked.
-/

namespace StridedArray

namespace Shape

/-- A shape without positions has none to list. -/
theorem positions_eq_nil {s : Shape} : s.positions = [] ↔ s.count = 0 := by
  rw [← List.length_eq_zero_iff, length_positions]

/-- What is refused at every position is refused on all of them together, if there is one. -/
theorem mapM_positions_refused {α : Type} {f : List Nat → Outcome α} {e : ArrayError} {s : Shape}
    (hf : ∀ p, s.Contains p → f p = refuse e) :
    s.positions.mapM f = if s.count = 0 then .ok [] else refuse e := by
  split
  · next hempty =>
    rw [positions_eq_nil.mpr hempty]
    rfl
  · next hpos =>
    have hfirst : 0 < s.positions.length := by
      rw [length_positions]
      exact Nat.pos_of_ne_zero hpos
    refine Outcome.mapM_eq_error.mpr ⟨0, hfirst, ?_, nofun⟩
    exact hf _ (mem_positions.mp (List.getElem_mem hfirst))

end Shape

/-- Results put into lists of one are the results. -/
theorem Outcome.mapM_singletons {α β : Type} (f : α → Outcome β) (xs : List α) :
    ((xs.mapM fun x => f x >>= fun y => .ok [y]) >>= fun parts => .ok parts.flatten)
      = xs.mapM f := by
  induction xs with
  | nil => rfl
  | cons x xs ih =>
    rw [List.mapM_cons, List.mapM_cons, ← ih]
    cases f x with
    | error e => rfl
    | ok y =>
      show ((List.mapM _ xs >>= _) >>= _) = ((List.mapM _ xs >>= _) >>= _)
      rw [bind_assoc, bind_assoc]
      rfl

namespace View

variable {x : View} {w : Workspace}

/-! ## Going through any array -/

/-- **Collecting from the items of an array** visits the slots at which they start, as words, in
row-major order. -/
theorem collect_items_endsAs {α : Type} {o : Odometer} (ho : x.items = .ok o)
    (visit : Nat → Outcome (List α)) :
    (o.collect fun slots => visit slots.first).EndsAs
      ((x.shape.positions.mapM fun p => visit (Word.toUnsigned (x.layout.address p)))
        >>= fun parts => .ok parts.flatten) := by
  obtain ⟨htracks, hready, hshape⟩ := items_eq_ok ho
  have hslots : ∀ k < o.len, (o.after (k + 1)).slots.first
      = Word.toUnsigned (x.layout.address (x.shape.unravel k)) := by
    intro k hk
    have hp := Shape.contains_unravel (htracks.len ▸ hk)
    rw [Odometer.after_of_le hk, ← hshape]
    refine (Lane.slot_moveTo_of_any htracks.first hp).2.trans ?_
    rw [show x.layout.shape = o.shape from hshape.symm, Shape.sourceOf_self hp]
  have hvisits : (x.shape.positions.mapM fun p => visit (Word.toUnsigned (x.layout.address p)))
      = (List.range o.len).mapM fun k => visit (o.after (k + 1)).slots.first := by
    unfold Shape.positions
    rw [List.mapM_map, ← hshape, ← htracks.len]
    refine Outcome.mapM_congr fun k hk => ?_
    rw [hslots k (List.mem_range.mp hk), hshape]
    rfl
  rw [hvisits]
  exact (Odometer.collect_verdict _ htracks.sound_of_any hready).imp_left
    fun ⟨_, t, _, htrap⟩ => ⟨t, htrap⟩

/-- A list of doubles that is too long traps. -/
theorem refusedOnly_checkRoom {P : ArrayError → Prop} (length : Nat) :
    (checkRoom length).RefusedOnly P :=
  .ite (fun _ => Outcome.refusedOnly_trap _) (fun _ => Outcome.refusedOnly_ok _)

/-- **The items are listed** as they are read position after position. -/
theorem toList_endsAs (x : View) (w : Workspace) :
    (x.toList w).EndsAs
      (x.shape.positions.mapM fun p => x.readDouble (Word.toUnsigned (x.layout.address p)) w) := by
  refine (Shape.accepted_size _).bind_endsAs fun size _ => ?_
  refine (refusedOnly_checkRoom _).bind_endsAs fun _ _ => ?_
  refine x.accepted_items.bind_endsAs fun o ho => ?_
  have hcollect := collect_items_endsAs ho fun slot => x.readDouble slot w >>= fun v => .ok [v]
  rwa [Outcome.mapM_singletons] at hcollect

/-- **The slots are listed** as the runs of the items are read position after position. -/
theorem toSlotList_endsAs (x : View) (w : Workspace) :
    (x.toSlotList w).EndsAs
      ((x.shape.positions.mapM fun p =>
          x.slotRun (Word.toUnsigned (x.layout.address p)) x.layout.itemSlots w)
        >>= fun runs => .ok runs.flatten) := by
  refine (Shape.accepted_size _).bind_endsAs fun size _ => ?_
  refine (Outcome.refusedOnly_unsigned _).bind_endsAs fun length _ => ?_
  refine (refusedOnly_checkRoom _).bind_endsAs fun _ _ => ?_
  refine x.accepted_items.bind_endsAs fun o ho => ?_
  exact collect_items_endsAs ho fun slot => x.slotRun slot x.layout.itemSlots w

/-! ## Arrays in bounds -/

/-- **The run of slots of the item at a position**: as many as an item has, from the slot on at which
the item starts. -/
structure IsRun (x : View) (w : Workspace) (p : List Nat) (run : List Double) : Prop where
  /-- There is a value for each slot of the item. -/
  length_eq : run.length = x.layout.itemSlots
  /-- The values are those of consecutive slots. -/
  getElem_eq : ∃ slot, x.layout.slotAt p = .ok slot
    ∧ ∀ (k : Nat) (h : k < run.length), x.readDouble (slot + k) w = .ok run[k]

namespace InBounds

variable {p : List Nat}

/-- An item in bounds starts at an unsigned word. -/
theorem toUnsigned_address (h : x.InBounds w) (hp : x.shape.Contains p) :
    Word.toUnsigned (x.layout.address p) = (x.layout.address p).toNat := by
  have hslot := h.slot_lt_of_contains hp
  have hcount := h.slotCount_lt
  exact Word.toUnsigned_of_nonneg (h.nonneg p hp) (by omega)

/-- A slot of an item is a word. -/
theorem unsigned_slot (h : x.InBounds w) (hp : x.shape.Contains p) {k : Nat}
    (hk : k < x.layout.itemSlots) :
    Word.unsigned ((x.layout.address p).toNat + k) = .ok ((x.layout.address p).toNat + k) := by
  have hslot := h.slot_lt hp hk
  have hcount := h.slotCount_lt
  exact Word.unsigned_eq_ok.mpr ⟨by unfold Word.IsUnsigned; omega, rfl⟩

/-- A slot of an item of an unlocked storage is read. -/
theorem exists_readDouble (h : x.InBounds w) (hw : (w.cell x.storage).locked = false)
    (hp : x.shape.Contains p) {k : Nat} (hk : k < x.layout.itemSlots) :
    ∃ value, x.readDouble ((x.layout.address p).toNat + k) w = .ok value := by
  obtain ⟨v, hv, -⟩ := Workspace.content_of_lt (h.slot_lt hp hk)
  exact ⟨_, Workspace.readDouble_of_content hw hv⟩

/-- **The items are listed** as they are found by their positions. -/
theorem toList_endsAs (h : x.InBounds w) :
    (x.toList w).EndsAs (x.shape.positions.mapM fun p => x.itemAt p w) := by
  have hitems : (x.shape.positions.mapM fun p => x.itemAt p w)
      = x.shape.positions.mapM fun p => x.readDouble (Word.toUnsigned (x.layout.address p)) w :=
    Outcome.mapM_congr fun p hp => by
      have hp := Shape.mem_positions.mp hp
      rw [itemAt, h.slotAt_eq hp, h.toUnsigned_address hp]
      rfl
  rw [hitems]
  exact View.toList_endsAs x w

/-- An item of an unlocked storage is found by its position. -/
theorem exists_itemAt (h : x.InBounds w) (hw : (w.cell x.storage).locked = false)
    (hp : x.shape.Contains p) : ∃ value, x.itemAt p w = .ok value := by
  rw [itemAt, h.slotAt_eq hp]
  exact h.exists_readDouble hw hp (k := 0) h.grounded.itemSlots_pos

/-- The item at a position of a locked storage is refused. -/
theorem itemAt_locked (h : x.InBounds w) (hw : (w.cell x.storage).locked = true)
    (hp : x.shape.Contains p) : x.itemAt p w = refuse .locked := by
  rw [itemAt, h.slotAt_eq hp]
  exact Workspace.readDouble_of_locked hw _

/-- **The run of slots of an item of an unlocked storage is read.** -/
theorem exists_run (h : x.InBounds w) (hw : (w.cell x.storage).locked = false)
    (hp : x.shape.Contains p) :
    ∃ run, x.slotRun (Word.toUnsigned (x.layout.address p)) x.layout.itemSlots w = .ok run
      ∧ x.IsRun w p run := by
  rw [h.toUnsigned_address hp]
  have hread : ∀ k ∈ List.range x.layout.itemSlots, ∃ value,
      (Word.unsigned ((x.layout.address p).toNat + k) >>= fun slot => x.readDouble slot w)
        = .ok value := fun k hk => by
    rw [h.unsigned_slot hp (List.mem_range.mp hk)]
    exact h.exists_readDouble hw hp (List.mem_range.mp hk)
  obtain ⟨run, hrun⟩ := Outcome.exists_mapM_ok hread
  obtain ⟨hlength, hslots⟩ := Outcome.mapM_range_eq_ok.mp hrun
  refine ⟨run, hrun, hlength, _, h.slotAt_eq hp, fun k hk => ?_⟩
  have hslot := hslots k hk
  rwa [h.unsigned_slot hp (hlength ▸ hk)] at hslot

/-- The run of slots of an item of a locked storage is refused. -/
theorem slotRun_locked (h : x.InBounds w) (hw : (w.cell x.storage).locked = true)
    (hp : x.shape.Contains p) :
    x.slotRun (Word.toUnsigned (x.layout.address p)) x.layout.itemSlots w = refuse .locked := by
  have hpos := h.grounded.itemSlots_pos
  rw [h.toUnsigned_address hp]
  refine Outcome.mapM_range_eq_error.mpr ⟨0, hpos, ?_, nofun⟩
  rw [h.unsigned_slot hp hpos]
  exact Workspace.readDouble_of_locked hw _

/-- **The contents of an array in bounds, listed**, are what is found by addressing its positions in
row-major order, as far as nothing traps: the items one by one, and the slots item by item. If the
storage is locked, both lists are refused, unless there is nothing to list. -/
theorem listed_in_order (h : x.InBounds w) :
    ((w.cell x.storage).locked = false →
      ((∀ t, x.toList w ≠ trap t) → ∃ values, x.toList w = .ok values
        ∧ x.size = .ok values.length
        ∧ List.Forall₂ (fun p value => x.itemAt p w = .ok value) x.shape.positions values)
      ∧ ((∀ t, x.toSlotList w ≠ trap t) → ∃ runs : List (List Double),
        x.toSlotList w = .ok runs.flatten
        ∧ List.Forall₂ (x.IsRun w) x.shape.positions runs))
    ∧ ((w.cell x.storage).locked = true →
      ((∀ t, x.toList w ≠ trap t) →
        x.toList w = if x.shape.count = 0 then .ok [] else refuse .locked)
      ∧ ((∀ t, x.toSlotList w ≠ trap t) →
        x.toSlotList w = if x.shape.count = 0 then .ok [] else refuse .locked)) := by
  refine ⟨fun hw => ⟨fun ht => ?_, fun ht => ?_⟩, fun hw => ⟨fun ht => ?_, fun ht => ?_⟩⟩
  · obtain ⟨values, hvalues⟩ := Outcome.exists_mapM_ok
      fun p hp => h.exists_itemAt hw (Shape.mem_positions.mp hp)
    have hlisted := (h.toList_endsAs.eq ht).trans hvalues
    have hitems := Outcome.mapM_eq_ok.mp hvalues
    refine ⟨values, hlisted, ?_, hitems⟩
    obtain ⟨size, hsize, -⟩ := Outcome.bind_eq_ok.mp hlisted
    rw [hsize, ← hitems.length_eq, Shape.length_positions]
    exact congrArg Except.ok (Shape.count_of_size hsize)
  · obtain ⟨runs, hruns⟩ := Outcome.exists_mapM_ok
      fun p hp => (h.exists_run hw (Shape.mem_positions.mp hp)).imp fun _ => And.left
    refine ⟨runs, ?_, ?_⟩
    · rw [(toSlotList_endsAs x w).eq ht, hruns]
      rfl
    · refine ((List.forall₂_and_left _ _).mpr
        ⟨fun _ => Shape.mem_positions.mp, Outcome.mapM_eq_ok.mp hruns⟩).imp ?_
      rintro p run ⟨hp, hrun⟩
      obtain ⟨run', hrun', hisRun⟩ := h.exists_run hw hp
      obtain rfl := Except.ok.inj (hrun.symm.trans hrun')
      exact hisRun
  · rw [h.toList_endsAs.eq ht]
    exact Shape.mapM_positions_refused fun p hp => h.itemAt_locked hw hp
  · rw [(toSlotList_endsAs x w).eq ht, Shape.mapM_positions_refused fun p hp => h.slotRun_locked hw hp]
    split <;> rfl

/-- Two rows of two complex numbers, each run through backwards, and the two axes swapped. The list
of items has the real parts, and the list of slots the pairs of slots of the four items. -/
theorem listed_in_order_complex : ∃ (x : View) (w : Workspace),
    x.layout = ⟨[2, 2], [-2, 4], 2, 2⟩ ∧ x.InBounds w
      ∧ x.toList w = .ok (.map .ofInt [3, 7, 1, 5])
      ∧ ∃ runs : List (List Double), runs.flatten = .map .ofInt [3, 4, 7, 8, 1, 2, 5, 6]
        ∧ List.Forall₂ (x.IsRun w) x.shape.positions runs := by
  let w := Workspace.initial.add ⟨.complex64, [[0, 0, 128, 63], [0, 0, 0, 64], [0, 0, 64, 64],
    [0, 0, 128, 64], [0, 0, 160, 64], [0, 0, 192, 64], [0, 0, 224, 64], [0, 0, 0, 65]].flatten⟩
  let x : View := ⟨0, ⟨[2, 2], [-2, 4], 2, 2⟩⟩
  have hvalues : ofValuesOfType (.map .ofInt [1, 2, 3, 4, 5, 6, 7, 8]) [2, 2] .complex64 .initial
      = .ok ⟨0, ⟨[2, 2], [4, 2], 0, 2⟩⟩ w := by decide +kernel
  have hlist : x.toList w = .ok (.map .ofInt [3, 7, 1, 5]) := by decide +kernel
  have hslots : x.toSlotList w = .ok (.map .ofInt [3, 4, 7, 8, 1, 2, 5, 6]) := by decide +kernel
  have hflip : View.apply (.flip 1) ⟨0, ⟨[2, 2], [4, 2], 0, 2⟩⟩
      = .ok ⟨0, ⟨[2, 2], [4, -2], 2, 2⟩⟩ := rfl
  have hturn : View.apply (.transpose 0 1) ⟨0, ⟨[2, 2], [4, -2], 2, 2⟩⟩ = .ok x := rfl
  have hx : x.InBounds w := ((inBounds_of_ofValuesOfType hvalues).apply hflip).apply hturn
  have hlisted := ((listed_in_order hx).1 rfl).2
    (by rw [hslots]; exact fun t => (trap_ne_ok t _).symm)
  obtain ⟨runs, hruns, hitems⟩ := hlisted
  exact ⟨x, w, rfl, hx, hlist, runs, Except.ok.inj (hruns.symm.trans hslots), hitems⟩

end InBounds

end View

end StridedArray
