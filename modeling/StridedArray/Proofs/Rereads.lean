import StridedArray.Proofs.Cursor
import StridedArray.Proofs.Reach
import StridedArray.Proofs.Sweep

/-!
# How often an operand is read

A cursor reads an operand again when its slot index differs from the one
that the value at hand was read from. So what is read from an operand in a
full traversal is the sequence of its slot indices with adjacent repetitions
removed (`Cursor.Traverses.reads_eq`), whatever the slots hold at the time
of each step.

That sequence is a matter of the axes. Within a traversal the index of an
operand is exact up to where it starts (`Route.roll_exact`): an axis that
carries has a signed extent, since a slower one takes the step. If no two
positions of the operand share a slot, then the index changes exactly if the
position read does, which is from one sweep to the next. An operand is
read once per sweep (`Cursor.Traverses.readsPerSweep`).
-/

namespace StridedArray

/-! ## Steps of an index are exact -/

/-- Signed words are shown alike only if they are the same. -/
theorem Word.toUnsigned_inj {i j : Int} (hi : IsSigned i) (hj : IsSigned j) :
    toUnsigned i = toUnsigned j ↔ i = j := by
  refine ⟨fun h => eq_of_modEq hi hj ?_, congrArg toUnsigned⟩
  exact (toUnsigned_modEq i).symm.trans (h ▸ toUnsigned_modEq j)

/-- The faster axes have signed extents if the step from a position is taken by this one, as there
would be too many positions otherwise. -/
theorem Shape.signed_of_advance {n c : Nat} {s : Shape} {p : List Nat}
    (hcount : Word.IsUnsigned (count (n :: s))) (hp : s.Contains p) (hc : c + 1 < n) :
    s.Signed := by
  refine signed_of_count (count_pos_of_contains hp) ?_
  have htwice : 2 * count s ≤ n * count s := Nat.mul_le_mul_right _ (by omega)
  rw [count_cons, Word.IsUnsigned] at hcount
  omega

/-- **A step of a running index from one position to the next is exact.** Only the carry out of the
last position may be a multiple of `2 ^ 64` off. -/
theorem Route.roll_exact {shape : Shape} {p : List Nat} {strides rewinds : List Int}
    {index next : Int} (hcount : Word.IsUnsigned shape.count)
    (hlength : strides.length = shape.length) (hrewinds : Rewinds strides shape rewinds)
    (hp : shape.Contains p) (hindex : Word.IsSigned index)
    (h : roll shape p strides rewinds index = .ok (false, next)) :
    next = index + (Layout.displacement (shape.succ p).2 strides
      - Layout.displacement p strides) := by
  induction shape generalizing p strides rewinds next with
  | nil =>
    cases p with
    | nil => exact Bool.noConfusion (Prod.mk.inj (Except.ok.inj h)).1
    | cons c p => exact hp.elim
  | cons n shape ih =>
    cases p with
    | nil => exact hp.elim
    | cons c p =>
      obtain ⟨stride, strides, rfl⟩ := List.exists_cons_of_length_eq_add_one hlength
      obtain ⟨rewind, rewinds, -, hrest, rfl⟩ := List.forall₂_cons_left_iff.mp hrewinds
      obtain ⟨⟨inner, reached⟩, hroll, h⟩ := Outcome.bind_eq_ok.mp h
      obtain ⟨hinner, -⟩ := roll_modEq (fun k _ => Word.toSigned_modEq k) (Nat.succ.inj hlength)
        hrest hp.2 hindex hroll
      obtain ⟨wrapped, q, hsucc⟩ : ∃ wrapped q, Shape.succ shape p = (wrapped, q) := ⟨_, _, rfl⟩
      rw [hsucc] at hinner
      subst hinner
      rw [Shape.succ, hsucc]
      cases inner with
      | false =>
        -- a faster axis has taken the step
        obtain ⟨-, rfl⟩ := Prod.mk.inj (Except.ok.inj h)
        have hfaster : Word.IsUnsigned (Shape.count shape) :=
          Nat.lt_of_le_of_lt (Nat.le_mul_of_pos_left _ (Nat.zero_lt_of_lt hp.1)) hcount
        rw [Layout.displacement_cons, Layout.displacement_cons, Int.add_sub_add_left]
        rw [ih hfaster (Nat.succ.inj hlength) hrest hp.2 hroll, hsucc]
      | true =>
        obtain ⟨advanced, hadvanced, h⟩ := Outcome.bind_eq_ok.mp h
        obtain ⟨-, rfl⟩ := Word.signed_eq_ok.mp hadvanced
        by_cases hlast : c + 1 < n
        · -- this axis takes the step, so those that carry have signed extents
          rw [if_pos hlast] at h
          obtain ⟨-, rfl⟩ := Prod.mk.inj (Except.ok.inj h)
          have hsigned := Shape.signed_of_advance hcount hp.2 hlast
          obtain ⟨-, -, hexact⟩ := roll_modEq (m := 0)
            (fun k hk => Word.toSigned_of_lt (hsigned k hk) ▸ Int.ModEq.refl _)
            (Nat.succ.inj hlength) hrest hp.2 hindex hroll
          rw [hsucc] at hexact
          simp only [if_pos hlast]
          rw [Int.modEq_zero_iff.mp hexact, Layout.displacement_cons, Layout.displacement_cons]
          push_cast
          ring
        · rw [if_neg hlast] at h
          obtain ⟨rewound, -, h⟩ := Outcome.bind_eq_ok.mp h
          exact Bool.noConfusion (Prod.mk.inj (Except.ok.inj h)).1

namespace Lane

variable {lane : Lane} {l : Layout} {shape : Shape}

/-- **From one position to the next an operand is shown alike** exactly if it is at the same
address. -/
theorem slot_moveTo_succ_iff {lane' : Lane} {p : List Nat} (hcount : Word.IsUnsigned shape.count)
    (hfits : lane.route.Fits shape) (hp : shape.Contains p) (hsucc : (shape.succ p).1 = false)
    (h : (lane.moveTo p).step shape p = .ok lane') :
    (lane.moveTo p).slot = (lane.moveTo (shape.succ p).2).slot
      ↔ lane.route.address p = lane.route.address (shape.succ p).2 := by
  have hmoved := step_moveTo hfits hp h
  obtain ⟨⟨carried, next⟩, hroll, h⟩ := Outcome.bind_eq_ok.mp h
  obtain ⟨hcarried, -⟩ := Route.roll_modEq (fun n _ => Word.toSigned_modEq n) hfits.length_strides
    hfits.rewinds hp (Word.isSigned_wrap _) hroll
  rw [hcarried, hsucc] at hroll
  have hexact := Route.roll_exact hcount hfits.length_strides hfits.rewinds hp
    (Word.isSigned_wrap _) hroll
  have hnext : next = Word.wrap (lane.route.address (shape.succ p).2) :=
    congrArg Lane.index ((Except.ok.inj h).trans hmoved)
  refine (Word.toUnsigned_inj (Word.isSigned_wrap _) (Word.isSigned_wrap _)).trans ?_
  rw [← hnext, hexact]
  unfold Route.address
  omega

/-- **The operand takes every step** from one position to the next without a trap. -/
def Walks (lane : Lane) (shape : Shape) : Prop :=
  ∀ k, k + 1 < shape.count → ∃ lane',
    (lane.moveTo (shape.unravel k)).step shape (shape.unravel k) = .ok lane'

/-- **On the way through a broadcast shape an operand is shown alike twice in a row** exactly if the
items that broadcasting reads are at the same address. -/
theorem Walks.slot_eq_iff {k : Nat} (h : lane.Walks shape) (hcount : Word.IsUnsigned shape.count)
    (hroute : Route.ofLayout l shape = .ok lane.route) (hk : k + 1 < shape.count) :
    (lane.moveTo (shape.unravel k)).slot = (lane.moveTo (shape.unravel (k + 1))).slot
      ↔ l.address (l.shape.sourceOf (shape.unravel k))
        = l.address (l.shape.sourceOf (shape.unravel (k + 1))) := by
  have hleads := Route.leads_of_ofLayout (Layout.length_evenStrides l.shape l.strides)
    (Route.ofLayout_evened hroute)
  have hsucc := Shape.succ_unravel (Nat.lt_of_succ_lt hk)
  rw [if_pos hk] at hsucc
  have haddress : ∀ j < shape.count, lane.route.address (shape.unravel j)
      = l.address (l.shape.sourceOf (shape.unravel j)) := fun j hj => by
    have hp := Shape.contains_unravel hj
    rw [hleads.address_eq hp]
    exact Layout.address_evened (Shape.contains_sourceOf hleads.stretches hp)
  obtain ⟨lane', hstep⟩ := h k hk
  have hsame := slot_moveTo_succ_iff hcount hleads.fits
    (Shape.contains_unravel (Nat.lt_of_succ_lt hk)) (by rw [hsucc]) hstep
  rw [hsucc] at hsame
  rw [hsame, haddress k (Nat.lt_of_succ_lt hk), haddress (k + 1) hk]

end Lane

/-! ## How often an operand is read -/

/-- **Distinct positions have distinct slots.** -/
def Layout.Injective (l : Layout) : Prop :=
  ∀ p q, l.shape.Contains p → l.shape.Contains q → l.address p = l.address q → p = q

instance (l : Layout) : Decidable l.Injective :=
  decidable_of_iff
    (∀ p ∈ l.shape.positions, ∀ q ∈ l.shape.positions, l.address p = l.address q → p = q)
    (by
      simp only [Shape.mem_positions]
      exact ⟨fun h p q hp hq => h p hp q hq, fun h p hp q hq => h p q hp hq⟩)

/-- **An operand is read once per sweep**: given its indices at the positions of a broadcast shape, in
order, and the slots that are read. -/
structure ReadsPerSweep (l : Layout) (r : Shape) (indices reads : List Nat) : Prop where
  /-- The indices are, as words, the exact slots of the items that broadcasting reads. -/
  indices_eq : indices
    = r.positions.map fun p => Word.toUnsigned (l.address (l.shape.sourceOf p))
  /-- What is read are the indices with adjacent repetitions removed. -/
  reads_eq : reads = indices.destutter (· ≠ ·)
  /-- There are as many reads as positions up to the last axis along which the operand moves. -/
  length_eq : l.Injective → ∀ m, l.shape.LastMoving r m → reads.length = Shape.count (r.take (m + 1))
  /-- There is one read if it moves along no axis. -/
  length_eq_one : (∀ axis, ¬l.shape.MovesAlong r axis) → reads.length = 1

/-- **An operand that takes every step is read once per sweep**, if what is read are its indices
without adjacent repetitions. -/
theorem Lane.Walks.reads {lane : Lane} {l : Layout} {r : Shape} (h : lane.Walks r)
    (hcount : Word.IsUnsigned r.count) (hpos : 0 < r.count)
    (hroute : Route.ofLayout l r = .ok lane.route) :
    ReadsPerSweep l r ((List.range r.count).map fun k => (lane.moveTo (r.unravel k)).slot)
      (((List.range r.count).map fun k => (lane.moveTo (r.unravel k)).slot).destutter (· ≠ ·)) := by
  have hstretch : l.shape.StretchesTo r :=
    (Route.leads_of_ofLayout (Layout.length_evenStrides l.shape l.strides)
      (Route.ofLayout_evened hroute)).stretches
  refine
    { indices_eq := ?_
      reads_eq := rfl
      length_eq := fun hinj m hm => ?_
      length_eq_one := fun hstill => ?_ }
  · unfold Shape.positions
    rw [List.map_map]
    refine List.map_congr_left fun k hk => ?_
    exact (Lane.slot_moveTo_of_any hroute
      (Shape.contains_unravel (List.mem_range.mp hk))).2
  · refine Shape.length_destutter_sweeps hstretch hpos hm fun k hk => ?_
    rw [h.slot_eq_iff hcount hroute hk]
    refine ⟨fun hsame => hinj _ _ ?_ ?_ hsame, congrArg l.address⟩
    · exact Shape.contains_sourceOf hstretch (Shape.contains_unravel (Nat.lt_of_succ_lt hk))
    · exact Shape.contains_sourceOf hstretch (Shape.contains_unravel hk)
  · refine Shape.length_destutter_still hstretch hpos hstill fun k hk hsame => ?_
    exact (h.slot_eq_iff hcount hroute hk).mpr (congrArg l.address hsame)

/-- **The slots at which a value is read anew** when some indices are gone through, given the slot that
the value kept was read from. -/
def renewals : (kept : Option Nat) → (indices : List Nat) → List Nat
  | _, [] => []
  | kept, i :: indices =>
    if kept = some i then renewals kept indices else i :: renewals (some i) indices

/-- From the first read on a value is read anew where an index differs from the one before. -/
theorem cons_renewals (i : Nat) (indices : List Nat) :
    i :: renewals (some i) indices = indices.destutter' (· ≠ ·) i := by
  induction indices generalizing i with
  | nil => rfl
  | cons j indices ih =>
    rw [renewals, List.destutter']
    by_cases hsame : i = j
    · rw [if_pos (congrArg some hsame), if_neg (not_not_intro hsame), ih]
    · rw [if_neg (fun h => hsame (Option.some.inj h)), if_pos hsame, ih]

/-- With nothing read **the slots read are the indices without adjacent repetitions**. -/
theorem renewals_none (indices : List Nat) :
    renewals none indices = indices.destutter (· ≠ ·) := by
  cases indices with
  | nil => rfl
  | cons i indices => exact cons_renewals i indices

namespace Kept

variable {k : Kept} {slot : Nat}

/-- What is read at one index and then at the others. -/
theorem filterMap_pending {α : Type} {read : α → Option Nat} {x : α} {xs : List α}
    {indices : List Nat} (hx : read x = k.pending slot)
    (hxs : xs.filterMap read = renewals (some slot) indices) :
    (x :: xs).filterMap read = renewals k.slot (slot :: indices) := by
  rw [renewals]
  by_cases hslot : k.slot = some slot
  · rw [List.filterMap_cons_none (hx.trans (if_pos hslot)), hxs, if_pos hslot, hslot]
  · rw [List.filterMap_cons_some (hx.trans (if_neg hslot)), hxs, if_neg hslot]

end Kept

namespace Cursor

variable {c : Cursor} {o : Odometer} {visited : List Step} {last : Step}

/-! ## Full traversals -/

/-- **A full traversal**: steps that come to positions, none of whose reads fails, and a last one
that comes to the end. Each step has reads of its own, as slots may be written to in between. -/
inductive Traverses : Cursor → List Step → Step → Prop where
  /-- There is no position left. -/
  | finish {c : Cursor} (readFirst readSecond : Nat → Outcome Double)
    (h : (c.step readFirst readSecond).outcome = .ok false) :
    Traverses c [] (c.step readFirst readSecond)
  /-- There is a position, and others may follow. -/
  | visit {c : Cursor} {visited : List Step} {last : Step}
    (readFirst readSecond : Nat → Outcome Double)
    (h : (c.step readFirst readSecond).outcome = .ok true)
    (hrest : Traverses (c.step readFirst readSecond).cursor visited last) :
    Traverses c (c.step readFirst readSecond :: visited) last

/-- **What is read in a full traversal** is what differs from the slot read before. -/
theorem Traverses.reads_eq (h : c.Traverses visited last) :
    visited.filterMap (·.firstRead)
        = renewals c.first.slot (visited.map (·.cursor.odometer.slots.first))
      ∧ visited.filterMap (·.secondRead)
        = renewals c.second.slot (visited.map (·.cursor.odometer.slots.second)) := by
  induction h with
  | finish => exact ⟨rfl, rfl⟩
  | visit readFirst readSecond h _ ih =>
    obtain ⟨o, first, second, -, hfirst, hsecond, hstep⟩ := step_eq_true h
    rw [hstep] at ih ⊢
    rw [Kept.slot_of_refresh hfirst, Kept.slot_of_refresh hsecond] at ih
    exact ⟨Kept.filterMap_pending rfl ih.1, Kept.filterMap_pending rfl ih.2⟩

/-- The last step of a full traversal reads nothing. -/
theorem Traverses.last_read (h : c.Traverses visited last) :
    last.firstRead = none ∧ last.secondRead = none := by
  induction h with
  | finish readFirst readSecond h =>
    obtain ⟨o, -, hstep⟩ := step_eq_false h
    rw [hstep]
    exact ⟨rfl, rfl⟩
  | visit _ _ _ _ ih => exact ih

/-- **A full traversal goes through the positions that are left**, one after the other, and no step
of the odometer traps. -/
theorem Traverses.odometers_eq {k : Nat} (ho : o.Sound) (h : c.Traverses visited last)
    (hc : c.odometer = o.after k) :
    visited.map (·.cursor.odometer) = (List.range' k (o.len - k)).map (fun j => o.after (j + 1))
      ∧ ∀ j, k ≤ j → j < o.len → ∃ moved, (o.after j).step = .ok moved := by
  induction h generalizing k with
  | finish readFirst readSecond h =>
    obtain ⟨o', hodometer, -⟩ := step_eq_false h
    rw [hc] at hodometer
    have hend := of_decide_eq_false (Odometer.step_after ho hodometer).2.symm
    rw [show o.len - k = 0 by omega]
    exact ⟨rfl, fun j hj hj' => by omega⟩
  | visit readFirst readSecond h _ ih =>
    obtain ⟨o', first, second, hodometer, -, -, hstep⟩ := step_eq_true h
    rw [hc] at hodometer
    obtain ⟨rfl, hmoved⟩ := Odometer.step_after ho hodometer
    have hk : k + 1 ≤ o.len := of_decide_eq_true hmoved.symm
    rw [hstep] at ih ⊢
    obtain ⟨hrest, hsteps⟩ := ih (k := k + 1) rfl
    refine ⟨?_, fun j hj hj' => ?_⟩
    · rw [List.map_cons, hrest, show o.len - k = o.len - (k + 1) + 1 by omega,
        List.range'_succ]
      rfl
    · rcases Nat.eq_or_lt_of_le hj with rfl | hlt
      · exact ⟨_, hodometer⟩
      · exact hsteps j hlt hj'

/-- **A cursor at the start**: a new one, or one made ready again whatever has happened to it. -/
def AtStart (o : Odometer) (c : Cursor) : Prop :=
  c = .ofOdometer o ∨ ∃ used, Used o used ∧ c = used.restart

/-- At the start the odometer is ready, and nothing has been read. -/
theorem AtStart.ready (ho : o.Sound) (hready : o.restart = o) (h : AtStart o c) :
    c.odometer = o.after 0 ∧ c.first.slot = none ∧ c.second.slot = none := by
  rcases h with rfl | ⟨used, hused, rfl⟩
  · exact ⟨hready.symm.trans o.after_zero.symm, rfl, rfl⟩
  · obtain ⟨k, hk⟩ := hused.odometer_eq ho hready
    refine ⟨?_, rfl, rfl⟩
    show used.odometer.restart = o.after 0
    rw [hk, o.restart_after, o.after_zero]

end Cursor

/-- If no step of an odometer traps, its operands take every step. -/
theorem Odometer.walks_of_steps {o : Odometer} (hlen : o.len = o.shape.count)
    (h : ∀ j < o.len, ∃ moved, (o.after j).step = .ok moved) :
    o.first.Walks o.shape ∧ o.second.Walks o.shape := by
  have hlanes : ∀ k, k + 1 < o.shape.count →
      (∃ lane, (o.first.moveTo (o.shape.unravel k)).step o.shape (o.shape.unravel k) = .ok lane)
        ∧ ∃ lane, (o.second.moveTo (o.shape.unravel k)).step o.shape (o.shape.unravel k)
          = .ok lane := by
    intro k hk
    obtain ⟨moved, hstep⟩ := h (k + 1) (hlen ▸ hk)
    rw [after_of_le (by omega)] at hstep
    obtain ⟨first, hfirst, hstep⟩ := Outcome.bind_eq_ok.mp hstep
    obtain ⟨second, hsecond, -⟩ := Outcome.bind_eq_ok.mp hstep
    exact ⟨⟨first, hfirst⟩, ⟨second, hsecond⟩⟩
  exact ⟨fun k hk => (hlanes k hk).1, fun k hk => (hlanes k hk).2⟩

/-- **In a full traversal every operand is read once per sweep**, from a new cursor or from one made
ready again whatever has happened to it, and whatever is written in between: what is read are the
slot indices without adjacent repetitions. If no two positions of the operand share a slot there are
as many reads as positions up to the last axis along which it moves. -/
theorem Cursor.Traverses.readsPerSweep {a b : Layout} {target : Target} {o : Odometer} {c : Cursor}
    {visited : List Step} {last : Step} (ho : Odometer.ofLayouts a b target = .ok o)
    (hpos : 0 < o.shape.count) (hc : AtStart o c) (h : c.Traverses visited last) :
    ReadsPerSweep a o.shape (visited.map (·.cursor.odometer.slots.first))
        ((visited ++ [last]).filterMap (·.firstRead))
      ∧ ReadsPerSweep b o.shape (visited.map (·.cursor.odometer.slots.second))
        ((visited ++ [last]).filterMap (·.secondRead)) := by
  obtain ⟨htracks, hready⟩ := Odometer.tracks_of_ofLayouts ho
  have hsound := htracks.sound_of_any
  obtain ⟨-, -, -, -, -, -, hsize, -⟩ := Odometer.ofLayouts_eq_ok.mp ho
  have hcount : Word.IsUnsigned o.shape.count := htracks.len ▸ Shape.isUnsigned_of_size hsize
  obtain ⟨hstart, hnoFirst, hnoSecond⟩ := hc.ready hsound hready
  obtain ⟨hodometers, hsteps⟩ := h.odometers_eq hsound hstart
  obtain ⟨hwalksFirst, hwalksSecond⟩ :=
    Odometer.walks_of_steps htracks.len fun j hj => hsteps j (Nat.zero_le j) hj
  obtain ⟨hfirst, hsecond⟩ := h.reads_eq
  obtain ⟨hlastFirst, hlastSecond⟩ := h.last_read
  have hindices : ∀ index : Odometer → Nat, visited.map (fun s => index s.cursor.odometer)
      = (List.range o.shape.count).map fun k => index (o.visit (o.shape.unravel k)) := by
    intro index
    have hmapped := congrArg (List.map index) hodometers
    rw [List.map_map, List.map_map, Nat.sub_zero, ← List.range_eq_range', htracks.len] at hmapped
    refine hmapped.trans (List.map_congr_left fun k hk => ?_)
    exact congrArg index (Odometer.after_of_le (htracks.len ▸ List.mem_range.mp hk))
  have hreads : ∀ read : Step → Option Nat, read last = none →
      (visited ++ [last]).filterMap read = visited.filterMap read := by
    intro read hread
    rw [List.filterMap_append, List.filterMap_cons_none hread, List.filterMap_nil, List.append_nil]
  rw [hreads _ hlastFirst, hreads _ hlastSecond, hfirst, hsecond, hnoFirst, hnoSecond,
    renewals_none, renewals_none, hindices (·.slots.first), hindices (·.slots.second)]
  exact ⟨hwalksFirst.reads hcount hpos htracks.first,
    hwalksSecond.reads hcount hpos htracks.second⟩

/-- Two rows of one item and one row of two, once more after a read that has failed. The first operand
is read once for each row. The second one is read at every position, since its row starts again while
the first one goes on. What is read is another value each time. -/
theorem Cursor.Traverses.readsPerSweep_rows :
    ∃ (o : Odometer) (c : Cursor) (visited : List Step) (last : Step),
      Odometer.ofLayouts ⟨[2, 1], [1, 1], 0, 1⟩ ⟨[1, 2], [2, 1], 0, 1⟩ .none = .ok o
        ∧ AtStart o c ∧ c.Traverses visited last ∧ visited.length = 4
        ∧ ((visited ++ [last]).filterMap (·.firstRead)).length = 2
        ∧ ((visited ++ [last]).filterMap (·.secondRead)).length = 4 := by
  let o : Odometer :=
    { shape := [2, 2], len := 4, position := [0, 0]
      first := ⟨⟨[2, 1], [1, 0], [2, 0], 0, 2, 1⟩, 0⟩
      second := ⟨⟨[1, 2], [0, 1], [0, 2], 0, 2, 1⟩, 0⟩
      output := .none, phase := .ready }
  let refused : Nat → Outcome Double := fun _ => refuse .locked
  let read : Nat → Nat → Outcome Double := fun time slot => .ok (.ofInt (10 * time + slot))
  let c : Cursor := ((Cursor.ofOdometer o).step (read 0) refused).cursor.restart
  let s₁ := c.step (read 1) (read 2)
  let s₂ := s₁.cursor.step (read 3) (read 4)
  let s₃ := s₂.cursor.step (read 5) (read 6)
  let s₄ := s₃.cursor.step (read 7) (read 8)
  have ho : Odometer.ofLayouts ⟨[2, 1], [1, 1], 0, 1⟩ ⟨[1, 2], [2, 1], 0, 1⟩ .none = .ok o := by
    decide +kernel
  have hc : AtStart o c := .inr ⟨_, .step _ _ .new, rfl⟩
  have h : c.Traverses [s₁, s₂, s₃, s₄] (s₄.cursor.step (read 9) (read 10)) :=
    .visit _ _ (by decide +kernel) <| .visit _ _ (by decide +kernel) <|
      .visit _ _ (by decide +kernel) <| .visit _ _ (by decide +kernel) <|
        .finish _ _ (by decide +kernel)
  obtain ⟨hfirst, hsecond⟩ := Cursor.Traverses.readsPerSweep ho (by decide) hc h
  exact ⟨o, c, _, _, ho, hc, h, rfl, hfirst.length_eq (by decide) 0 (by decide),
    hsecond.length_eq (by decide) 1 (by decide)⟩

end StridedArray
