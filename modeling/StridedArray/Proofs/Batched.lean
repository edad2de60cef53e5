import StridedArray.Proofs.Atomic
import StridedArray.Proofs.Listed
import StridedArray.Proofs.Sweep

/-!
# Repeating along new axes in front

A shape stretches over any axes put in front of it, empty ones and single
ones included. Behind such a batch of axes its own ones run fastest, so that
its positions are gone through as a whole, and in the same order, once for
each position of the batch (`Shape.map_sourceOf_positions`).

An array repeated to a shape is listed as broadcasting reads the array
(`View.Repeats.slotRun_eq`). Put together, the list of the slots of an array
repeated along new axes is that of the array over and over
(`View.InBounds.batches_listed`).
-/

namespace StridedArray

/-! ## Positions behind a batch -/

/-- What depends only on the remainder repeats itself. -/
theorem map_range_mod {α : Type} (f : Nat → α) (n m : Nat) :
    (List.range (n * m)).map (fun k => f (k % m))
      = (List.replicate n ((List.range m).map f)).flatten := by
  induction n with
  | zero => rw [Nat.zero_mul, List.range_zero, List.map_nil, List.replicate_zero, List.flatten_nil]
  | succ n ih =>
    have hlast : (List.range m).map (fun k => f ((n * m + k) % m)) = (List.range m).map f := by
      refine List.map_congr_left fun k hk => ?_
      rw [Nat.mul_comm, Nat.mul_add_mod, Nat.mod_eq_of_lt (List.mem_range.mp hk)]
    rw [Nat.succ_mul, List.range_add, List.map_append, ih, List.map_map, List.replicate_succ',
      List.flatten_append, List.flatten_singleton]
    exact congrArg _ hlast

namespace Shape

/-- **A shape stretches over axes in front of it**, whatever their extents are. -/
theorem stretchesTo_append (batch s : Shape) : s.StretchesTo (batch ++ s) := by
  have hpadding : (batch ++ s).length - s.length = batch.length := by
    rw [List.length_append, Nat.add_sub_cancel]
  unfold StretchesTo padTo padLeft
  rw [hpadding]
  induction batch with
  | nil => exact List.forall₂_same.mpr fun _ _ => .inl rfl
  | cons n batch ih => exact .cons (.inr rfl) (ih (by rw [List.length_append, Nat.add_sub_cancel]))

/-- **The position read behind a batch** has the rank that is left when the batch is counted off. -/
theorem sourceOf_unravel_append {batch s : Shape} {k : Nat} (hk : k < (batch ++ s).count) :
    s.sourceOf ((batch ++ s).unravel k) = s.unravel (k % s.count) := by
  induction batch generalizing k with
  | nil =>
    rw [List.nil_append] at hk ⊢
    rw [sourceOf_self (contains_unravel hk), Nat.mod_eq_of_lt hk]
  | cons n batch ih =>
    have hpos : 0 < count (batch ++ s) := Nat.pos_of_mul_pos_left (Nat.zero_lt_of_lt hk)
    rw [List.cons_append, unravel, sourceOf_cons _ (by simp), ih (Nat.mod_lt _ hpos),
      count_append, Nat.mod_mul_left_mod]

/-- **The positions of a shape are read over and over**, once for each position of the batch. -/
theorem map_sourceOf_positions (batch s : Shape) :
    (batch ++ s).positions.map s.sourceOf = (List.replicate batch.count s.positions).flatten := by
  have hread : (batch ++ s).positions.map s.sourceOf
      = (List.range (batch.count * s.count)).map fun k => s.unravel (k % s.count) := by
    unfold positions
    rw [List.map_map, ← count_append]
    exact List.map_congr_left fun k hk => sourceOf_unravel_append (List.mem_range.mp hk)
  rw [hread, map_range_mod]
  rfl

end Shape

namespace View

variable {x y : View} {w w' : Workspace} {t : Shape}

/-! ## Repetitions listed -/

/-- The value of a slot as a double is that of the slot. -/
theorem readDouble_eq_readSlot (x : View) (index : Nat) (w : Workspace) :
    x.readDouble index w = x.readSlot index w >>= fun v => .ok v.toDouble := by
  unfold readDouble readSlot Workspace.readDouble Workspace.readSlot
  rw [bind_assoc]
  rfl

/-- **The run of slots of an item of a repetition** is that of the item that broadcasting reads. -/
theorem Repeats.slotRun_eq {p : List Nat} (h : x.Repeats w t y w') (hx : x.InBounds w)
    (hy : y.InBounds w') (ht : x.shape.StretchesTo t) (hp : t.Contains p) :
    y.slotRun (Word.toUnsigned (y.layout.address p)) y.layout.itemSlots w'
      = x.slotRun (Word.toUnsigned (x.layout.address (x.shape.sourceOf p))) x.layout.itemSlots
        w := by
  have hpy : y.shape.Contains p := h.shape_eq.symm ▸ hp
  have hpx : x.shape.Contains (x.shape.sourceOf p) := Shape.contains_sourceOf ht hp
  obtain ⟨i, j, hi, hj, hvalues⟩ := h.readSlot_eq p hp
  obtain rfl := Except.ok.inj ((hy.slotAt_eq hpy).symm.trans hi)
  obtain rfl := Except.ok.inj ((hx.slotAt_eq hpx).symm.trans hj)
  rw [hy.toUnsigned_address hpy, hx.toUnsigned_address hpx]
  unfold slotRun
  rw [h.itemSlots_eq]
  refine Outcome.mapM_congr fun k hk => ?_
  have hk : k < x.layout.itemSlots := List.mem_range.mp hk
  obtain ⟨v, hleft, hright⟩ := hvalues k hk
  rw [hy.unsigned_slot hpy (h.itemSlots_eq.symm ▸ hk), hx.unsigned_slot hpx hk]
  show y.readDouble _ w' = x.readDouble _ w
  rw [readDouble_eq_readSlot, readDouble_eq_readSlot, hleft, hright]

/-- The runs of the items of an unlocked array. -/
theorem InBounds.exists_runs (h : x.InBounds w) (hw : (w.cell x.storage).locked = false) :
    ∃ runs, (x.shape.positions.mapM fun p =>
          x.slotRun (Word.toUnsigned (x.layout.address p)) x.layout.itemSlots w) = .ok runs
      ∧ List.Forall₂ (x.IsRun w) x.shape.positions runs := by
  obtain ⟨runs, hruns⟩ := Outcome.exists_mapM_ok
    fun p hp => (h.exists_run hw (Shape.mem_positions.mp hp)).imp fun _ => And.left
  refine ⟨runs, hruns, ?_⟩
  refine ((List.forall₂_and_left _ _).mpr
    ⟨fun _ => Shape.mem_positions.mp, Outcome.mapM_eq_ok.mp hruns⟩).imp ?_
  rintro p run ⟨hp, hrun⟩
  obtain ⟨run', hrun', hisRun⟩ := h.exists_run hw hp
  obtain rfl := Except.ok.inj (hrun.symm.trans hrun')
  exact hisRun

/-! ## Refusals -/

/-- **An array of zeros is refused for its size only**, and then nothing has happened. -/
theorem zerosOfType_aborts (shape : Shape) (type : ElementType) :
    Action.Aborts w (· = .invalidArgument .storageSize) (zerosOfType shape type) := by
  by_cases hroom : Word.IsUnsigned (shape.count * type.itemSlots * type.slotBytes)
  · exact .of_achieves (zerosOfType_achieves hroom)
  · refine .lift_bind ((Layout.accepted_ofShape _ _).mono nofun) fun l hl => ?_
    refine .lift_bind ((Shape.accepted_size _).mono nofun) fun size hsize => ?_
    refine .lift_bind (Outcome.refusedOnly_unsigned _) fun slots hslots => ?_
    obtain ⟨-, rfl⟩ := Word.unsigned_eq_ok.mp hslots
    obtain rfl : size = shape.count := (Layout.shape_of_ofShape hl).1 ▸ Shape.count_of_size hsize
    have hzeros : Storage.zeros type (shape.count * type.itemSlots)
        = refuse (.invalidArgument .storageSize) := if_pos hroom
    rw [hzeros]
    exact .lift_bind (Outcome.refusedOnly_refuse.mpr rfl) nofun

/-- **A repetition to a shape that an array in bounds stretches to is refused for its size only**,
and then nothing has happened. -/
theorem InBounds.repeatTo_aborts (hx : x.InBounds w) (hw : (w.cell x.storage).locked = false)
    (ht : x.shape.StretchesTo t) :
    Action.Aborts w (· = .invalidArgument .storageSize) (x.repeatTo t) := by
  rw [repeatTo_eq]
  refine .lift_bind ((accepted_repeatedShape ht).mono nofun) fun goal hgoal => .get_bind ?_
  obtain ⟨rfl, -⟩ := repeatedShape_eq_ok ht.length_le hgoal
  refine .bind (Q := fun _ _ => True) (zerosOfType_aborts _ _) fun z w₁ hz => ?_
  refine ((fresh_of_zerosOfType hz).copying hx hw ht).copyTo_achieves.bind fun _ _ _ => ?_
  exact .pure trivial

/-! ## A batch -/

/-- What is read at every entry of a list is read over and over. -/
theorem mapM_replicate {α β : Type} {f : α → Outcome β} {xs : List α} {ys : List β} (n : Nat)
    (h : xs.mapM f = .ok ys) :
    (List.replicate n xs).flatten.mapM f = .ok (List.replicate n ys).flatten := by
  refine Outcome.mapM_eq_ok.mpr ?_
  induction n with
  | zero => exact .nil
  | succ n ih =>
    rw [List.replicate_succ, List.replicate_succ, List.flatten_cons, List.flatten_cons]
    exact List.rel_append (Outcome.mapM_eq_ok.mp h) ih

/-- **An array repeated along new axes in front**: unless arithmetic traps, this is refused exactly
if the number of bytes is no unsigned word, and then nothing has happened. What it makes has the
shape with the new axes in front and the same type, and the list of its slots is that of the array
once for each position of the new axes. -/
theorem InBounds.batches_listed (hx : x.InBounds w) (hw : (w.cell x.storage).locked = false)
    (batch : Shape) :
    ((∀ e w', x.repeatLeft batch w ≠ .error (.trapped e) w') →
        ((∃ y w', x.repeatLeft batch w = .ok y w') ↔ Word.IsUnsigned
          ((batch ++ x.shape).count * x.layout.itemSlots * (x.elementType w).slotBytes)))
      ∧ Action.Aborts w (· = .invalidArgument .storageSize) (x.repeatLeft batch)
      ∧ ∀ y w', x.repeatLeft batch w = .ok y w' →
        y.shape = batch ++ x.shape ∧ y.elementType w' = x.elementType w
          ∧ ∃ runs, List.Forall₂ (x.IsRun w) x.shape.positions runs
            ∧ (x.toSlotList w).EndsAs (.ok runs.flatten)
            ∧ (y.toSlotList w').EndsAs (.ok (List.replicate batch.count runs.flatten).flatten) := by
  have ht : x.shape.StretchesTo (batch ++ x.shape) := Shape.stretchesTo_append batch x.shape
  have hroom : ∀ y w', x.repeatLeft batch w = .ok y w' → Word.IsUnsigned
      ((batch ++ x.shape).count * x.layout.itemSlots * (x.elementType w).slotBytes) := by
    intro y w' h
    obtain ⟨goal, w₁, hgoal, hzeros, -⟩ := repeatTo_eq_ok.mp h
    obtain ⟨rfl, -⟩ := repeatedShape_eq_ok ht.length_le hgoal
    rw [hx.itemSlots_eq]
    exact Nat.lt_trans (fresh_of_zerosOfType hzeros).addressable (by decide)
  refine ⟨fun htrap => ⟨fun ⟨y, w', h⟩ => hroom y w' h, fun hbytes => ?_⟩,
    hx.repeatTo_aborts hw ht, fun y w' h => ?_⟩
  · obtain ⟨y, w', h, -⟩ := (hx.repeatTo_achieves hw ht hbytes).exists_ok htrap
    exact ⟨y, w', h⟩
  · have hy : x.Repeats w (batch ++ x.shape) y w' :=
      ((hx.repeatTo_achieves hw ht (hroom y w' h)).post h).toRepeats
    have hbounds : y.InBounds w' := inBounds_of_repeatTo h
    obtain ⟨runs, hruns, hisRun⟩ := hx.exists_runs hw
    refine ⟨hy.shape_eq, hy.elementType_eq, runs, hisRun, ?_, ?_⟩
    · have hlisted := toSlotList_endsAs x w
      rwa [hruns] at hlisted
    · -- each position of the result is read where broadcasting reads it
      have hread : (y.shape.positions.mapM fun p =>
            y.slotRun (Word.toUnsigned (y.layout.address p)) y.layout.itemSlots w')
          = .ok (List.replicate batch.count runs).flatten := by
        rw [← mapM_replicate batch.count hruns, ← Shape.map_sourceOf_positions, List.mapM_map,
          hy.shape_eq]
        exact Outcome.mapM_congr fun p hp =>
          hy.slotRun_eq hx hbounds ht (Shape.mem_positions.mp hp)
      have hlisted := toSlotList_endsAs y w'
      rw [hread] at hlisted
      have hflat : (List.replicate batch.count runs).flatten.flatten
          = (List.replicate batch.count runs.flatten).flatten := by
        rw [List.flatten_flatten, List.map_replicate]
      exact hflat ▸ hlisted

/-- Two complex numbers in reverse order, repeated along an axis of two and a singleton axis. -/
theorem batches_listed_complex : ∃ (x y : View) (w w' : Workspace),
    x.layout = ⟨[2], [-2], 2, 2⟩ ∧ x.InBounds w ∧ x.repeatLeft [2, 1] w = .ok y w'
      ∧ x.toSlotList w = .ok (.map .ofInt [3, 4, 1, 2]) ∧ y.shape = [2, 1, 2]
      ∧ (y.toSlotList w').EndsAs (.ok (.map .ofInt [3, 4, 1, 2, 3, 4, 1, 2])) := by
  let first : List UInt8 := [0, 0, 128, 63, 0, 0, 0, 64]
  let second : List UInt8 := [0, 0, 64, 64, 0, 0, 128, 64]
  let w := Workspace.initial.add ⟨.complex64, first ++ second⟩
  let w' := w.add ⟨.complex64, second ++ first ++ second ++ first⟩
  let x : View := ⟨0, ⟨[2], [-2], 2, 2⟩⟩
  have hmade : ofValuesOfType (.map .ofInt [1, 2, 3, 4]) [2] .complex64 .initial
      = .ok ⟨0, ⟨[2], [2], 0, 2⟩⟩ w := by decide +kernel
  have hflip : View.apply (.flip 0) ⟨0, ⟨[2], [2], 0, 2⟩⟩ = .ok x := rfl
  have hx : x.InBounds w := (inBounds_of_ofValuesOfType hmade).apply hflip
  have hcopy : x.repeatLeft [2, 1] w = .ok ⟨1, ⟨[2, 1, 2], [4, 4, 2], 0, 2⟩⟩ w' := by
    decide +kernel
  have hslots : x.toSlotList w = .ok (.map .ofInt [3, 4, 1, 2]) := by decide +kernel
  obtain ⟨-, -, hmakes⟩ := InBounds.batches_listed hx rfl [2, 1]
  obtain ⟨hshape, -, runs, -, hlisted, hbatch⟩ := hmakes _ _ hcopy
  have hruns : runs.flatten = .map .ofInt [3, 4, 1, 2] := by
    rw [hslots] at hlisted
    exact (Except.ok.inj (hlisted.eq fun t => (trap_ne_ok t _).symm)).symm
  rw [hruns] at hbatch
  exact ⟨x, _, w, w', rfl, hx, hcopy, hslots, hshape, hbatch⟩

/-- **A batch can be too large**: a single item, repeated `2 ^ 62` times. -/
theorem batch_without_room : ∃ (x : View) (w : Workspace),
    x.InBounds w ∧ (w.cell x.storage).locked = false ∧ x.shape = [1]
      ∧ x.repeatLeft [2 ^ 62] w = .error (.refused (.invalidArgument .storageSize)) w := by
  let w := Workspace.initial.add ⟨.float64, List.replicate 8 0⟩
  let x : View := ⟨0, ⟨[1], [1], 0, 1⟩⟩
  have hmade : zerosOfType [1] .float64 .initial = .ok x w := by decide +kernel
  have hcopy : x.repeatLeft [2 ^ 62] w = .error (.refused (.invalidArgument .storageSize)) w := by
    decide +kernel
  exact ⟨x, w, inBounds_of_zerosOfType hmade, rfl, rfl, hcopy⟩

end View

end StridedArray
