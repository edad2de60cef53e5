import StridedArray.Proofs.PastEnd
import StridedArray.Proofs.Walk

/-!
# Traversals that cannot trap

A running index overshoots its operand at every carry: it goes one stride
too far before the full sweep of the axis is taken back. That the items of
an operand lie in its storage does not bound this, nor the sweeps
themselves. They are bounded if along every axis the extent times the
stride stays within the storage (`Layout.SweepsWithin`). A layout with
this property is **roomy** (`Layout.Roomy`).

Of roomy layouts within `2 ^ 61` slots every route exists
(`Route.exists_ofLayout`), and so does every step: what is on the way in a
carry are slots of items, give or take one stride or one sweep
(`Route.roll_within`). So a traversal of such layouts exists and all calls
to it have a result (`Odometer.exists_run`).
-/

namespace StridedArray

namespace Shape

/-- The position that follows is one of the shape, the origin after the last. -/
theorem contains_succ {s : Shape} {p : List Nat} (hp : s.Contains p) :
    s.Contains (s.succ p).2 := by
  rw [← unravel_ravel hp, succ_unravel (ravel_lt hp)]
  split
  · next hnext => exact contains_unravel hnext
  · exact contains_origin (count_pos_of_contains hp)

/-- A shape is not empty if no extent is zero. -/
theorem count_pos_iff_forall {s : Shape} : 0 < s.count ↔ ∀ n ∈ s, 0 < n := by
  rw [count_pos_iff, List.all_eq_true]
  simp only [decide_eq_true_eq]

/-- **An extent of the broadcast shape** is 1 or an extent of an operand. -/
theorem mem_of_mem_broadcast {shapes : List Shape} {r : Shape} {n : Nat}
    (h : broadcast shapes = .ok r) (hn : n ∈ r) : n = 1 ∨ ∃ s ∈ shapes, n ∈ s := by
  obtain ⟨axis, haxis, rfl⟩ := List.mem_iff_getElem.mp hn
  obtain ⟨-, hextent⟩ := broadcast_eq_ok.mp h
  rw [← List.getD_eq_getElem r 1 haxis]
  rcases (hextent axis haxis).2 with hone | ⟨s, hs, hsame⟩
  · exact .inl hone
  · rw [← hsame]
    rcases Nat.lt_or_ge axis (s.padTo r.length).length with hlt | hge
    · rw [List.getD_eq_getElem _ _ hlt]
      have hmem := List.getElem_mem hlt
      rcases List.mem_append.mp hmem with hpad | hown
      · exact .inl (List.eq_of_mem_replicate hpad)
      · exact .inr ⟨s, hs, hown⟩
    · exact .inl (List.getD_eq_default _ _ hge)

/-- Shapes with positions broadcast to a shape with positions. -/
theorem count_pos_of_broadcast {shapes : List Shape} {r : Shape}
    (h : broadcast shapes = .ok r) (hpos : ∀ s ∈ shapes, 0 < s.count) : 0 < r.count := by
  refine count_pos_iff_forall.mpr fun n hn => ?_
  rcases mem_of_mem_broadcast h hn with rfl | ⟨s, hs, hmem⟩
  · exact Nat.one_pos
  · exact count_pos_iff_forall.mp (hpos s hs) n hmem

end Shape

/-! ## Layouts with room -/

namespace Layout

/-- **Along every axis a full sweep stays within `m` slots**, and so does the extent. -/
def SweepsWithin (m : Nat) (shape : Shape) (strides : List Int) : Prop :=
  List.Forall₂ (fun n s => n ≤ m ∧ n * s.natAbs ≤ m) shape strides

/-- **Neither the items nor the sweeps of the axes reach over `m` slots.** -/
structure Roomy (l : Layout) (m : Nat) : Prop where
  /-- The items lie within the slots. -/
  items : ∀ p, l.shape.Contains p → 0 ≤ l.address p ∧ l.address p + l.itemSlots ≤ m
  /-- The sweeps stay within the slots. -/
  sweeps : SweepsWithin m l.shape l.strides

variable {m m' n : Nat} {s : Int} {shape : Shape} {strides : List Int} {l : Layout}

/-- Any part of a sweep stays within the slots. -/
theorem mul_mem_of_sweep (h : n * s.natAbs ≤ m) {c : Nat} (hc : c ≤ n) :
    -(m : Int) ≤ s * c ∧ s * c ≤ m := by
  have habs : (s * c).natAbs ≤ m := by
    rw [Int.natAbs_mul, Int.natAbs_natCast, Nat.mul_comm]
    exact Nat.le_trans (Nat.mul_le_mul_right _ hc) h
  omega

theorem SweepsWithin.mono (h : SweepsWithin m shape strides) (hm : m ≤ m') :
    SweepsWithin m' shape strides :=
  List.Forall₂.imp (fun _ _ haxis => ⟨haxis.1.trans hm, haxis.2.trans hm⟩) h

theorem Roomy.mono (h : l.Roomy m) (hm : m ≤ m') : l.Roomy m' where
  items p hp := by
    have := h.items p hp
    omega
  sweeps := h.sweeps.mono hm

/-- Axes within few slots can be gone along, unless one of them is empty. -/
theorem SweepsWithin.walkable (h : SweepsWithin m shape strides)
    (hm : m ≤ 0x2000000000000000) (hpos : 0 < shape.count) : Walkable shape strides := by
  induction h with
  | nil => exact .nil
  | @cons n s shape strides haxis _ ih =>
    have hn : 0 < n := Nat.pos_of_mul_pos_right hpos
    have hreach := mul_mem_of_sweep haxis.2 (Nat.sub_le n 1)
    rw [Int.natCast_sub hn, Int.natCast_one] at hreach
    have hsigned : Word.IsSigned (s * ((n : Int) - 1)) := by
      unfold Word.IsSigned
      omega
    exact .cons ⟨by omega, hsigned⟩ (ih (Nat.pos_of_mul_pos_left hpos))

theorem Roomy.length_strides (h : l.Roomy m) : l.strides.length = l.shape.length :=
  h.sweeps.length_eq.symm

/-- An axis that broadcasting repeats does not sweep, and any other sweeps as the layout does. -/
theorem sweep_stretch {k : Nat} (hk : k = n ∨ k = 1) (h : k * s.natAbs ≤ m) :
    n * (if k = 1 ∧ 1 < n then 0 else s).natAbs ≤ m := by
  by_cases hrepeat : k = 1 ∧ 1 < n
  · rw [if_pos hrepeat, Int.natAbs_zero, Nat.mul_zero]
    exact Nat.zero_le m
  · rw [if_neg hrepeat]
    exact Nat.le_trans (Nat.mul_le_mul_right _ (by omega)) h

theorem SweepsWithin.padLeft (h : SweepsWithin m shape strides) (hone : 1 ≤ m) (padding : Nat) :
    SweepsWithin m (padLeft padding 1 shape) (padLeft padding 0 strides) := by
  induction padding with
  | zero => exact h
  | succ padding ih => exact .cons ⟨hone, Nat.zero_le m⟩ ih

/-- Extents are within the slots. -/
theorem SweepsWithin.extent_le (h : SweepsWithin m shape strides) : ∀ n ∈ shape, n ≤ m := by
  induction h with
  | nil => exact nofun
  | cons haxis _ ih => exact List.forall_mem_cons.mpr ⟨haxis.1, ih⟩

/-- **Broadcasting keeps the sweeps within the slots**, if its extents are. -/
theorem SweepsWithin.stretch {extents target : Shape} {natives : List Int}
    (h : SweepsWithin m extents natives)
    (hagree : List.Forall₂ (fun k n => k = n ∨ k = 1) extents target)
    (htarget : ∀ n ∈ target, n ≤ m) :
    SweepsWithin m target (Route.stretchStrides extents natives target) := by
  induction hagree generalizing natives with
  | nil => exact .nil
  | cons hkn _ ih =>
    cases h with
    | cons haxis hrest =>
      obtain ⟨hn, htarget⟩ := List.forall_mem_cons.mp htarget
      exact .cons ⟨hn, sweep_stretch hkn haxis.2⟩ (ih hrest htarget)

end Layout

/-! ## Routes that exist -/

namespace Route

open Layout

variable {m : Nat} {shape : Shape} {strides rewinds : List Int} {l : Layout}

/-- **The axes can be swept.** -/
theorem exists_sweep (axis : Nat) {extents target : Shape} {natives : List Int}
    (hm : m ≤ 0x2000000000000000) (hsweeps : SweepsWithin m extents natives)
    (hagree : List.Forall₂ (fun k n => k = n ∨ k = 1) extents target)
    (htarget : ∀ n ∈ target, n ≤ m) :
    ∃ swept, sweep axis extents natives target = .ok swept := by
  induction hagree generalizing axis natives with
  | nil => exact ⟨_, rfl⟩
  | @cons k n extents target hkn _ ih =>
    cases hsweeps with
    | @cons _ native _ natives haxis hrest =>
      obtain ⟨hn, htarget⟩ := List.forall_mem_cons.mp htarget
      obtain ⟨swept, hswept⟩ := ih (axis + 1) hrest htarget
      have hstride : (if k = 1 ∧ 1 < n then .ok 0 else subscript (native :: natives).head?)
          = (.ok (if k = 1 ∧ 1 < n then 0 else native) : Outcome Int) := by
        split <;> rfl
      have hreach := mul_mem_of_sweep (sweep_stretch hkn haxis.2) (Nat.le_refl n)
      have hrewind : Word.signed ((if k = 1 ∧ 1 < n then 0 else native) * Word.toSigned n)
          = .ok ((if k = 1 ∧ 1 < n then 0 else native) * n) := by
        rw [Word.toSigned_of_lt (by omega)]
        exact Word.signed_of_mem (by omega) (by omega)
      rw [sweep_cons hkn, hstride]
      exact ⟨_, Outcome.bind_eq_ok.mpr ⟨_, rfl, Outcome.bind_eq_ok.mpr ⟨_, hrewind,
        Outcome.bind_eq_ok.mpr ⟨swept, hswept, rfl⟩⟩⟩⟩

/-- Rewinds take back what stays within the slots. -/
theorem mem_rewinds (hm : m ≤ 0x2000000000000000) (hsweeps : SweepsWithin m shape strides)
    (hrewinds : Rewinds strides shape rewinds) : ∀ r ∈ rewinds, -(m : Int) ≤ r ∧ r ≤ m := by
  induction hsweeps generalizing rewinds with
  | nil =>
    cases hrewinds
    exact nofun
  | @cons n s shape strides haxis _ ih =>
    obtain ⟨rewind, rewinds, hrewind, hrest, rfl⟩ := List.forall₂_cons_left_iff.mp hrewinds
    obtain ⟨-, rfl⟩ := Word.signed_eq_ok.mp hrewind
    refine List.forall_mem_cons.mpr ⟨?_, ih hrest⟩
    show -(m : Int) ≤ s * Word.toSigned n ∧ s * Word.toSigned n ≤ m
    rw [Word.toSigned_of_lt (by omega)]
    exact mul_mem_of_sweep haxis.2 (Nat.le_refl n)

/-- The greatest of numbers within bounds is within them. -/
theorem foldl_max_mem {low high i : Int} {rest : List Int} (hi : low ≤ i ∧ i ≤ high)
    (h : ∀ r ∈ rest, low ≤ r ∧ r ≤ high) :
    low ≤ rest.foldl max i ∧ rest.foldl max i ≤ high := by
  induction rest generalizing i with
  | nil => exact hi
  | cons r rest ih =>
    obtain ⟨hr, hrest⟩ := List.forall_mem_cons.mp h
    exact ih (by omega) hrest

/-- The greatest rewind is within the bounds of all of them. -/
theorem greatest_mem {low high : Int} (hlow : low ≤ 0) (hhigh : 0 ≤ high)
    (h : ∀ r ∈ rewinds, low ≤ r ∧ r ≤ high) :
    low ≤ greatest rewinds ∧ greatest rewinds ≤ high := by
  cases rewinds with
  | nil => exact ⟨hlow, hhigh⟩
  | cons r rest =>
    obtain ⟨hr, hrest⟩ := List.forall_mem_cons.mp h
    exact foldl_max_mem hr hrest

/-- **There is a slot past the end** if items and sweeps stay within the slots. -/
theorem exists_pastEndOf_of_sweepsWithin {start itemSlots : Nat} (hm : m ≤ 0x2000000000000000)
    (hsweeps : SweepsWithin m shape strides) (hrewinds : Rewinds strides shape rewinds)
    (hpos : 0 < shape.count)
    (hreach : (start : Int) + greatestShift shape strides + itemSlots ≤ m) :
    ∃ pastEnd, pastEndOf start itemSlots strides rewinds shape = .ok pastEnd := by
  have hshift := greatestShift_nonneg shape strides
  have hgreatest := greatest_mem (by omega) (Int.natCast_nonneg m)
    (mem_rewinds hm hsweeps hrewinds)
  have hswept : Word.IsSigned (start + greatest rewinds) := by
    unfold Word.IsSigned
    omega
  exact exists_pastEndOf (hsweeps.walkable hm hpos) hswept (by omega)

/-- The highest item on a route lies within the slots. -/
theorem greatestShift_le_of_roomy (hl : l.Roomy m) (hstretch : l.shape.StretchesTo shape)
    (hpos : 0 < shape.count) :
    (l.offset : Int) + greatestShift shape (stretchStrides (l.shape.padTo shape.length)
        (padLeft (shape.length - l.shape.length) 0 l.strides) shape) + l.itemSlots ≤ m := by
  obtain ⟨p, hp, hshift⟩ := exists_displacement_eq_greatestShift
    (stretchStrides (l.shape.padTo shape.length)
      (padLeft (shape.length - l.shape.length) 0 l.strides) shape) hpos
  rw [← hshift, displacement_stretchStrides_padTo hstretch hl.length_strides hp]
  exact (hl.items _ (Shape.contains_sourceOf hstretch hp)).2

/-- **Every route of a roomy layout exists.** -/
theorem exists_ofLayout (hm : m ≤ 0x2000000000000000) (hone : 1 ≤ m) (hl : l.Roomy m)
    (hstretch : l.shape.StretchesTo shape) (hextents : ∀ n ∈ shape, n ≤ m)
    (hpos : 0 < shape.count) : ∃ r, ofLayout l shape = .ok r := by
  have hpadded := hl.sweeps.padLeft hone (shape.length - l.shape.length)
  obtain ⟨⟨strides, rewinds⟩, hswept⟩ := exists_sweep 0 hm hpadded hstretch hextents
  obtain ⟨-, rfl, hrewinds⟩ := sweep_eq_ok hpadded.length_eq.symm hswept hstretch.length_eq
  obtain ⟨pastEnd, hpast⟩ := exists_pastEndOf_of_sweepsWithin hm
    (hpadded.stretch hstretch hextents) hrewinds hpos (greatestShift_le_of_roomy hl hstretch hpos)
  exact ⟨⟨_, _, rewinds, l.offset, pastEnd, l.itemSlots⟩,
    ofLayout_eq_ok.mpr ⟨hstretch.length_le, hswept, hpast, rfl, rfl, rfl⟩⟩

/-! ## Steps that exist -/

/-- **The items on a route and the sweeps of its axes stay within `m` slots.** -/
structure Within (r : Route) (m : Nat) (shape : Shape) : Prop where
  /-- The sweeps stay within the slots. -/
  sweeps : SweepsWithin m shape r.strides
  /-- A full sweep of an axis is rewound. -/
  rewinds : Rewinds r.strides shape r.rewinds
  /-- The items lie within the slots. -/
  items : ∀ p, shape.Contains p → 0 ≤ r.address p ∧ r.address p ≤ m

/-- A route along a roomy layout stays within its slots. -/
theorem Leads.within {r : Route} (h : r.Leads l shape) (hone : 1 ≤ m) (hl : l.Roomy m)
    (hextents : ∀ n ∈ shape, n ≤ m) : r.Within m shape where
  sweeps := by
    rw [h.strides_eq]
    exact (hl.sweeps.padLeft hone _).stretch h.stretches hextents
  rewinds := h.rewinds
  items p hp := by
    have := hl.items _ (Shape.contains_sourceOf h.stretches hp)
    rw [h.address_eq hp]
    omega

/-- **A step of a running index has a result**, which is the slot of the next item: whatever is on
the way lies one stride or one sweep from the slot of an item. -/
theorem roll_within {base : Int} {p : List Nat} (hm : m ≤ 0x2000000000000000)
    (hsweeps : SweepsWithin m shape strides) (hrewinds : Rewinds strides shape rewinds)
    (hp : shape.Contains p)
    (hitems : ∀ q, shape.Contains q →
      0 ≤ base + displacement q strides ∧ base + displacement q strides ≤ m) :
    roll shape p strides rewinds (base + displacement p strides)
      = .ok ((shape.succ p).1, base + displacement (shape.succ p).2 strides) := by
  induction hsweeps generalizing p rewinds base with
  | nil =>
    cases p with
    | nil => rfl
    | cons c p => exact hp.elim
  | @cons n s shape strides haxis _ ih =>
    cases p with
    | nil => exact hp.elim
    | cons c p =>
      obtain ⟨rewind, rewinds, hrewind, hrest, rfl⟩ := List.forall₂_cons_left_iff.mp hrewinds
      have hc : c < n := hp.1
      have hsucc := Shape.contains_succ hp.2
      -- the faster axes roll at the place where this axis stands
      have hinner : roll shape p strides rewinds (base + c * s + displacement p strides)
          = .ok ((Shape.succ shape p).1,
            base + c * s + displacement (Shape.succ shape p).2 strides) :=
        ih hrest hp.2 fun q hq => by
          have := hitems (c :: q) ⟨hc, hq⟩
          rwa [displacement_cons, ← Int.add_assoc] at this
      obtain ⟨carried, q, hpair⟩ : ∃ carried q, Shape.succ shape p = (carried, q) :=
        ⟨_, _, rfl⟩
      rw [hpair] at hinner hsucc
      rw [displacement_cons, ← Int.add_assoc, roll, hinner, Shape.succ, hpair]
      have hhere := hitems (c :: q) ⟨hc, hsucc⟩
      have hfirst := hitems (0 :: q) ⟨by omega, hsucc⟩
      rw [displacement_cons] at hhere hfirst
      have hstride := mul_mem_of_sweep haxis.2 (show 1 ≤ n by omega)
      cases carried with
      | false =>
        rw [displacement_cons, ← Int.add_assoc]
        rfl
      | true =>
        have hadvanced : Word.signed (base + c * s + displacement q strides + s)
            = .ok (base + c * s + displacement q strides + s) :=
          Word.signed_of_mem (by omega) (by omega)
        refine Outcome.bind_eq_ok.mpr ⟨_, rfl, Outcome.bind_eq_ok.mpr ⟨_, hadvanced, ?_⟩⟩
        by_cases hlast : c + 1 < n
        · -- this axis takes the step
          simp only [if_pos hlast]
          refine congrArg (fun index => Except.ok (false, index)) ?_
          rw [displacement_cons]
          push_cast
          ring
        · -- this axis carries as well, and its full sweep is taken back
          obtain ⟨-, rfl⟩ := Word.signed_eq_ok.mp hrewind
          have hn : n = c + 1 := by omega
          have hback : base + c * s + displacement q strides + s - s * Word.toSigned n
              = base + (((0 : Nat) : Int) * s + displacement q strides) := by
            rw [Word.toSigned_of_lt (by omega), hn]
            push_cast
            ring
          have hrewound : Word.signed
                (base + c * s + displacement q strides + s - s * Word.toSigned n)
              = .ok (base + (((0 : Nat) : Int) * s + displacement q strides)) := by
            rw [hback]
            exact Word.signed_of_mem (by omega) (by omega)
          simp only [if_neg hlast]
          exact Outcome.bind_eq_ok.mpr ⟨_, hrewound, rfl⟩

end Route

/-- **A step of an operand leads to the next position**, without a trap. -/
theorem Lane.step_within {lane : Lane} {m : Nat} {shape : Shape} {p : List Nat}
    (hm : m ≤ 0x2000000000000000) (h : lane.route.Within m shape) (hp : shape.Contains p) :
    (lane.moveTo p).step shape p = .ok (lane.moveTo (shape.succ p).2) := by
  have hindex : ∀ q, shape.Contains q → Word.wrap (lane.route.address q)
      = lane.route.start + Layout.displacement q lane.route.strides := fun q hq => by
    have := h.items q hq
    exact Word.wrap_of_mem (by omega) (by omega)
  unfold step moveTo
  rw [hindex p hp, hindex _ (Shape.contains_succ hp)]
  exact Outcome.bind_eq_ok.mpr ⟨_, Route.roll_within hm h.sweeps h.rewinds hp h.items, rfl⟩

namespace Odometer

variable {a b : Layout} {target : Target} {o : Odometer} {m n : Nat} {r : Shape}

/-- **All routes of a traversal stay within `m` slots.** -/
structure Within (o : Odometer) (m : Nat) : Prop where
  /-- There are as many steps as positions. -/
  len_eq : o.len = o.shape.count
  /-- The first operand stays within the slots. -/
  first : o.first.route.Within m o.shape
  /-- The second operand stays within the slots. -/
  second : o.second.route.Within m o.shape
  /-- An output that moves by itself stays within the slots. -/
  output : ∀ r, o.output.route? = some r → r.Within m o.shape

theorem Within.sound (h : o.Within m) : o.Sound where
  len_eq := h.len_eq
  first := ⟨h.first.sweeps.length_eq.symm, h.first.rewinds⟩
  second := ⟨h.second.sweeps.length_eq.symm, h.second.rewinds⟩
  output r hr := ⟨(h.output r hr).sweeps.length_eq.symm, (h.output r hr).rewinds⟩

/-- A step of the output has a result. -/
theorem Within.exists_step_output (h : o.Within m) (hm : m ≤ 0x2000000000000000) {p : List Nat}
    (hp : o.shape.Contains p) :
    ∃ out, (o.output.map (·.moveTo p)).step o.shape p = .ok out := by
  have houtput := h.output
  cases hout : o.output with
  | own lane =>
    have hwithin := houtput lane.route (by rw [hout]; rfl)
    exact ⟨_, Outcome.bind_eq_ok.mpr ⟨_, Lane.step_within hm hwithin hp, rfl⟩⟩
  | _ => exact ⟨_, rfl⟩

/-- **Every step has a result.** -/
theorem Within.step_after (h : o.Within m) (hm : m ≤ 0x2000000000000000) (k : Nat) :
    (o.after k).step = .ok (o.after (k + 1), decide (k + 1 ≤ o.len)) := by
  have hexists : ∃ next, (o.after k).step = .ok next := by
    rcases Nat.eq_zero_or_pos k with rfl | hk
    · rw [after_zero]
      show ∃ next, (if o.len = 0 then _ else _) = Except.ok next
      split <;> exact ⟨_, rfl⟩
    obtain ⟨j, rfl⟩ : ∃ j, k = j + 1 := ⟨k - 1, by omega⟩
    by_cases hj : j < o.len
    · have hp := Shape.contains_unravel (h.len_eq ▸ hj)
      obtain ⟨out, hout⟩ := h.exists_step_output hm hp
      rw [after_of_le hj]
      exact ⟨_, Outcome.bind_eq_ok.mpr ⟨_, Lane.step_within hm h.first hp,
        Outcome.bind_eq_ok.mpr ⟨_, Lane.step_within hm h.second hp,
          Outcome.bind_eq_ok.mpr ⟨out, hout, rfl⟩⟩⟩⟩
    · rw [after_of_gt (by omega)]
      exact ⟨_, rfl⟩
  obtain ⟨⟨o', moved⟩, hstep⟩ := hexists
  obtain ⟨rfl, rfl⟩ := Odometer.step_after h.sound hstep
  exact hstep

/-- **Every call has a result.** -/
theorem Within.perform_after (h : o.Within m) (hm : m ≤ 0x2000000000000000) (k : Nat)
    (call : Call) : call.perform (o.after k) = .ok (o.after (call.tick k)) := by
  have hstep := h.step_after hm k
  cases call with
  | step => exact Outcome.bind_eq_ok.mpr ⟨_, hstep, rfl⟩
  | next =>
    exact Outcome.bind_eq_ok.mpr ⟨_, Outcome.bind_eq_ok.mpr ⟨_, hstep, rfl⟩, rfl⟩
  | restart => exact congrArg Except.ok ((o.restart_after k).trans o.after_zero.symm)

/-- **Every run has a result.** -/
theorem Within.run_after (h : o.Within m) (hm : m ≤ 0x2000000000000000) (k : Nat)
    (calls : List Call) : (o.after k).run calls = .ok (o.after (calls.foldl Call.tick k)) := by
  induction calls generalizing k with
  | nil => rfl
  | cons call calls ih =>
    rw [run, List.foldlM_cons]
    exact Outcome.bind_eq_ok.mpr ⟨_, h.perform_after hm k call, ih (call.tick k)⟩

/-- A traversal of roomy layouts stays within their slots. -/
theorem Tracks.within (h : o.Tracks a b target) (hone : 1 ≤ m) (ha : a.Roomy m) (hb : b.Roomy m)
    (htarget : ∀ l, target = .own l → l.Roomy m) (hextents : ∀ n ∈ o.shape, n ≤ m) :
    o.Within m where
  len_eq := h.len
  first := (Route.leads_of_ofLayout ha.length_strides h.first).within hone ha hextents
  second := (Route.leads_of_ofLayout hb.length_strides h.second).within hone hb hextents
  output := by
    intro r hr
    have houtput := h.output
    cases target with
    | own l =>
      obtain ⟨lane, hlane, hroute⟩ := houtput
      rw [hlane] at hr
      obtain rfl := Option.some.inj hr
      have hl := htarget l rfl
      exact (Route.leads_of_ofLayout hl.length_strides hroute).within hone hl hextents
    | _ =>
      rw [show o.output = _ from houtput] at hr
      exact absurd hr (by simp [OutputLane.route?])

/-- **A traversal of roomy layouts exists.** -/
theorem exists_ofLayouts (hm : m ≤ 0x2000000000000000) (hone : 1 ≤ m) (ha : a.Roomy m)
    (hb : b.Roomy m) (htarget : ∀ l, target = .own l → l.Roomy m)
    (hr : Shape.broadcast [a.shape, b.shape] = .ok r) (hn : r.size = .ok n)
    (hshape : ∀ l ∈ target.layout? a b, l.shape = r) (hextents : ∀ n ∈ r, n ≤ m)
    (hpos : 0 < r.count) : ∃ o, ofLayouts a b target = .ok o := by
  have hfirst := Shape.stretchesTo_of_broadcast hr (List.mem_cons_self ..)
  have hsecond := Shape.stretchesTo_of_broadcast hr
    (List.mem_cons_of_mem _ (List.mem_singleton_self _))
  obtain ⟨first, hfirst⟩ := Route.exists_ofLayout hm hone ha hfirst hextents hpos
  obtain ⟨second, hsecond⟩ := Route.exists_ofLayout hm hone hb hsecond hextents hpos
  have hstarts : ∃ out : OutputLane, out.StartsTo r target := by
    cases target with
    | own l =>
      have hself : l.shape.StretchesTo r := hshape l rfl ▸ Shape.StretchesTo.refl l.shape
      obtain ⟨route, hroute⟩ := Route.exists_ofLayout hm hone (htarget l rfl) hself hextents hpos
      exact ⟨_, route, hroute, rfl⟩
    | _ => exact ⟨_, rfl⟩
  obtain ⟨output, hstarts⟩ := hstarts
  have houtput := outputLane_eq_ok.mpr ⟨hshape, hstarts⟩
  exact ⟨_, Outcome.bind_eq_ok.mpr ⟨r, hr, Outcome.bind_eq_ok.mpr ⟨output, houtput,
    Outcome.bind_eq_ok.mpr ⟨first, hfirst, Outcome.bind_eq_ok.mpr ⟨second, hsecond,
      Outcome.bind_eq_ok.mpr ⟨n, hn, rfl⟩⟩⟩⟩⟩⟩

/-- **A traversal of roomy layouts exists, and all calls to it have a result.** -/
theorem exists_run (hm : m ≤ 0x2000000000000000) (hone : 1 ≤ m) (ha : a.Roomy m)
    (hb : b.Roomy m) (htarget : ∀ l, target = .own l → l.Roomy m)
    (hr : Shape.broadcast [a.shape, b.shape] = .ok r) (hn : r.size = .ok n)
    (hshape : ∀ l ∈ target.layout? a b, l.shape = r) (hapos : 0 < a.shape.count)
    (hbpos : 0 < b.shape.count) :
    ∃ o, ofLayouts a b target = .ok o ∧ ∀ calls, ∃ o', o.run calls = .ok o' := by
  -- an extent of the broadcast shape is 1 or an extent of an operand
  have hextents : ∀ n ∈ r, n ≤ m := by
    intro n hn
    rcases Shape.mem_of_mem_broadcast hr hn with rfl | ⟨s, hs, hmem⟩
    · exact hone
    · rcases List.mem_pair.mp hs with rfl | rfl
      · exact ha.sweeps.extent_le n hmem
      · exact hb.sweeps.extent_le n hmem
  obtain ⟨o, ho⟩ := exists_ofLayouts hm hone ha hb htarget hr hn hshape hextents
    (Shape.count_pos_of_broadcast hr (List.forall_mem_cons.mpr ⟨hapos, List.forall_mem_singleton.mpr hbpos⟩))
  obtain ⟨htracks, hready⟩ := tracks_of_ofLayouts ho
  have hsame : o.shape = r := Except.ok.inj (htracks.shape.symm.trans hr)
  have hwithin := htracks.within hone ha hb htarget fun n hn => hextents n (hsame ▸ hn)
  refine ⟨o, ho, fun calls => ?_⟩
  have hrun := hwithin.run_after hm 0 calls
  rw [after_zero, hready] at hrun
  exact ⟨_, hrun⟩

end Odometer

end StridedArray
