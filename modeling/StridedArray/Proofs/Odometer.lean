import Mathlib.Tactic.Ring
import StridedArray.Proofs.Route

/-!
# The odometer against direct addressing

The running indices of an odometer are what direct addressing gives at its
position: a step changes an index by the difference of two addresses, as
words (`Route.roll_modEq`), and the rewinds cancel whole sweeps. So the
whole state of a traversal depends only on the number of steps taken since
it was last ready. `Odometer.after` is that state given outright, and a
step leads from one such state to the next (`Odometer.step_after`).

What a traversal shows after a number of steps is `Odometer.Shows`, be the
position one of the shape or past its end. Any calls in any order come down
to such a number (`Odometer.run_after`).
-/

namespace StridedArray

/-! ## One step of an index -/

/-- **A step of a running index adds the difference of two addresses**: that of the next position
less that of the position left. It does so up to the modulus by which the extents may change when
they are read as signed words: as words in any case, and exactly if the extents are signed. -/
theorem Route.roll_modEq {m : Int} {shape : Shape} {p : List Nat} {strides rewinds : List Int}
    {index next : Int} {carried : Bool} (hextents : ∀ n ∈ shape, Word.toSigned n ≡ n [ZMOD m])
    (hlength : strides.length = shape.length) (hrewinds : Rewinds strides shape rewinds)
    (hp : shape.Contains p) (hindex : Word.IsSigned index)
    (h : roll shape p strides rewinds index = .ok (carried, next)) :
    carried = (shape.succ p).1 ∧ Word.IsSigned next
      ∧ next ≡ index + (Layout.displacement (shape.succ p).2 strides
          - Layout.displacement p strides) [ZMOD m] := by
  induction shape generalizing p strides rewinds carried next with
  | nil =>
    cases p with
    | nil =>
      obtain rfl := List.length_eq_zero_iff.mp hlength
      obtain ⟨rfl, rfl⟩ := Prod.mk.inj (Except.ok.inj h)
      refine ⟨rfl, hindex, ?_⟩
      rw [Layout.displacement_nil_right, Layout.displacement_nil_right, Int.sub_self,
        Int.add_zero]
    | cons c p => exact hp.elim
  | cons n shape ih =>
    cases p with
    | nil => exact hp.elim
    | cons c p =>
      obtain ⟨stride, strides, rfl⟩ := List.exists_cons_of_length_eq_add_one hlength
      obtain ⟨rewind, rewinds, hrewind, hrest, rfl⟩ := List.forall₂_cons_left_iff.mp hrewinds
      obtain ⟨⟨inner, reached⟩, hroll, h⟩ := Outcome.bind_eq_ok.mp h
      obtain ⟨hinner, hsigned, hreached⟩ :=
        ih (fun k hk => hextents k (List.mem_cons_of_mem n hk)) (Nat.succ.inj hlength) hrest hp.2
          hroll
      obtain ⟨wrapped, q, hsucc⟩ : ∃ wrapped q, Shape.succ shape p = (wrapped, q) := ⟨_, _, rfl⟩
      rw [hsucc] at hinner hreached
      subst hinner
      rw [Shape.succ, hsucc]
      cases inner with
      | false =>
        -- a faster axis has taken the step
        obtain ⟨rfl, rfl⟩ := Prod.mk.inj (Except.ok.inj h)
        refine ⟨rfl, hsigned, ?_⟩
        rw [Layout.displacement_cons, Layout.displacement_cons, Int.add_sub_add_left]
        exact hreached
      | true =>
        obtain ⟨advanced, hadvanced, h⟩ := Outcome.bind_eq_ok.mp h
        obtain ⟨hadvancedSigned, rfl⟩ := Word.signed_eq_ok.mp hadvanced
        by_cases hlast : c + 1 < n
        · -- this axis takes the step
          rw [if_pos hlast] at h
          obtain ⟨rfl, rfl⟩ := Prod.mk.inj (Except.ok.inj h)
          simp only [if_pos hlast]
          refine ⟨trivial, hadvancedSigned, ?_⟩
          rw [Layout.displacement_cons, Layout.displacement_cons]
          calc reached + stride
              ≡ index + (Layout.displacement q strides - Layout.displacement p strides) + stride
                [ZMOD m] := hreached.add_right stride
            _ = index + (((c + 1 : Nat) : Int) * stride + Layout.displacement q strides
                  - (c * stride + Layout.displacement p strides)) := by
              push_cast
              ring
        · -- this axis carries as well, and its full sweep is taken back
          rw [if_neg hlast] at h
          obtain ⟨rewound, hrewound, h⟩ := Outcome.bind_eq_ok.mp h
          obtain ⟨hrewoundSigned, rfl⟩ := Word.signed_eq_ok.mp hrewound
          obtain ⟨rfl, rfl⟩ := Prod.mk.inj (Except.ok.inj h)
          simp only [if_neg hlast]
          refine ⟨trivial, hrewoundSigned, ?_⟩
          obtain ⟨-, rfl⟩ := Word.signed_eq_ok.mp hrewind
          have hn : n = c + 1 := by
            have hc : c < n := hp.1
            omega
          have hsweep : stride * Word.toSigned n ≡ stride * n [ZMOD m] :=
            (hextents n List.mem_cons_self).mul_left stride
          rw [Layout.displacement_cons, Layout.displacement_cons]
          calc reached + stride - stride * Word.toSigned n
              ≡ index + (Layout.displacement q strides - Layout.displacement p strides) + stride
                  - stride * n [ZMOD m] :=
                (hreached.add_right stride).sub hsweep
            _ = index + (((0 : Nat) : Int) * stride + Layout.displacement q strides
                  - (c * stride + Layout.displacement p strides)) := by
              rw [hn]
              push_cast
              ring

/-! ## The state after a number of steps -/

namespace Lane

/-- **The operand at a position**: its index is the word of the exact slot there. -/
def moveTo (lane : Lane) (p : List Nat) : Lane :=
  { lane with index := Word.wrap (lane.route.address p) }

/-- At the origin the operand stands as it does before the first position. -/
theorem moveTo_origin (lane : Lane) (shape : Shape) : lane.moveTo shape.origin = lane.restart := by
  unfold moveTo restart ofRoute Route.address
  rw [Layout.displacement_origin, Int.add_zero, Word.toSigned_eq_wrap]

@[simp] theorem restart_restart (lane : Lane) : lane.restart.restart = lane.restart := by
  unfold restart ofRoute
  rfl

@[simp] theorem restart_finish (lane : Lane) : lane.finish.restart = lane.restart := by
  unfold restart finish ofRoute
  rfl

@[simp] theorem finish_restart (lane : Lane) : lane.restart.finish = lane.finish := by
  unfold restart finish ofRoute
  rfl

@[simp] theorem restart_moveTo (lane : Lane) (p : List Nat) :
    (lane.moveTo p).restart = lane.restart := by
  unfold restart moveTo ofRoute
  rfl

/-- **A step leads from the operand at a position to the operand at the next.** -/
theorem step_moveTo {lane lane' : Lane} {shape : Shape} {p : List Nat}
    (hfits : lane.route.Fits shape) (hp : shape.Contains p)
    (h : (lane.moveTo p).step shape p = .ok lane') : lane' = lane.moveTo (shape.succ p).2 := by
  obtain ⟨⟨carried, next⟩, hroll, h⟩ := Outcome.bind_eq_ok.mp h
  obtain rfl := Except.ok.inj h
  obtain ⟨-, hsigned, hnext⟩ := Route.roll_modEq (fun n _ => Word.toSigned_modEq n)
    hfits.length_strides hfits.rewinds hp (Word.isSigned_wrap _) hroll
  have hword : next ≡ lane.route.address (shape.succ p).2 [ZMOD 0x10000000000000000] := by
    refine (hnext.trans ((Word.wrap_modEq _).add_right _)).trans ?_
    rw [Route.address, Route.address, Int.add_assoc, Int.add_comm (Layout.displacement p _),
      Int.sub_add_cancel]
  unfold moveTo
  rw [Word.eq_wrap hsigned hword]

end Lane

/-- Two changes in a row to an output that moves by itself. -/
theorem OutputLane.map_map (f g : Lane → Lane) (out : OutputLane) :
    (out.map g).map f = out.map fun lane => f (g lane) := by
  cases out <;> rfl

namespace Odometer

/-- The traversal at a position. -/
def visit (o : Odometer) (p : List Nat) : Odometer :=
  { o with
    position := p
    first := o.first.moveTo p
    second := o.second.moveTo p
    output := o.output.map (·.moveTo p)
    phase := .active }

/-- **The traversal `k` steps after it was ready**, given outright: ready, then at the positions in
row-major order, then exhausted for good. -/
def after (o : Odometer) (k : Nat) : Odometer :=
  if k = 0 then o.restart
  else if k ≤ o.len then o.visit (o.shape.unravel (k - 1))
  else o.restart.exhaust

/-- **The parts of a traversal fit together**: its length is the number of positions, and every
route goes through its shape. -/
structure Sound (o : Odometer) : Prop where
  /-- There are as many steps as positions. -/
  len_eq : o.len = o.shape.count
  /-- The route of the first operand fits. -/
  first : o.first.route.Fits o.shape
  /-- The route of the second operand fits. -/
  second : o.second.route.Fits o.shape
  /-- The route of an output that moves by itself fits. -/
  output : ∀ r, o.output.route? = some r → r.Fits o.shape

theorem after_zero (o : Odometer) : o.after 0 = o.restart :=
  if_pos rfl

theorem after_of_le {o : Odometer} {k : Nat} (h : k < o.len) :
    o.after (k + 1) = o.visit (o.shape.unravel k) := by
  rw [after, if_neg (Nat.succ_ne_zero k), if_pos (Nat.succ_le_of_lt h), Nat.add_sub_cancel]

theorem after_of_gt {o : Odometer} {k : Nat} (h : o.len ≤ k) :
    o.after (k + 1) = o.restart.exhaust := by
  rw [after, if_neg (Nat.succ_ne_zero k), if_neg (by omega)]

/-- The first position is the origin, at which nothing has moved yet. -/
theorem visit_origin (o : Odometer) :
    o.visit o.shape.origin = { o.restart with phase := .active } := by
  have hlane : (fun lane : Lane => lane.moveTo o.shape.origin) = Lane.restart :=
    funext fun lane => lane.moveTo_origin o.shape
  unfold visit restart
  rw [hlane, Lane.moveTo_origin, Lane.moveTo_origin]

/-- Being exhausted after the last position is being exhausted without having moved. -/
theorem exhaust_visit_origin (o : Odometer) :
    (o.visit o.shape.origin).exhaust = o.restart.exhaust := by
  rw [visit_origin]
  rfl

@[simp] theorem restart_restart (o : Odometer) : o.restart.restart = o.restart := by
  unfold restart
  simp only [OutputLane.map_map, Lane.restart_restart]

@[simp] theorem restart_exhaust (o : Odometer) : o.exhaust.restart = o.restart := by
  unfold restart exhaust
  simp only [OutputLane.map_map, Lane.restart_finish]

@[simp] theorem restart_visit (o : Odometer) (p : List Nat) :
    (o.visit p).restart = o.restart := by
  unfold restart visit
  simp only [OutputLane.map_map, Lane.restart_moveTo]

/-- Every state of a traversal restarts alike. -/
theorem restart_after (o : Odometer) (k : Nat) : (o.after k).restart = o.restart := by
  unfold after
  split
  · exact o.restart_restart
  · split
    · exact o.restart_visit _
    · rw [restart_exhaust, restart_restart]

/-- A step of the output leads from a position to the next. -/
theorem step_output {o : Odometer} {p : List Nat} {out : OutputLane} (ho : o.Sound)
    (hp : o.shape.Contains p)
    (h : (o.output.map (·.moveTo p)).step o.shape p = .ok out) :
    out = o.output.map (·.moveTo (o.shape.succ p).2) := by
  cases hout : o.output with
  | own lane =>
    rw [hout] at h
    obtain ⟨lane', hlane, h⟩ := Outcome.bind_eq_ok.mp h
    obtain rfl := Except.ok.inj h
    have hfits := ho.output lane.route (by rw [hout]; rfl)
    exact congrArg OutputLane.own (Lane.step_moveTo hfits hp hlane)
  | _ =>
    rw [hout] at h
    exact (Except.ok.inj h).symm

/-- The first step leads to the first position, or to the end if there is none. -/
theorem step_restart {o o' : Odometer} {moved : Bool} (h : o.restart.step = .ok (o', moved)) :
    o' = o.after 1 ∧ moved = decide (1 ≤ o.len) := by
  unfold step at h
  rw [show o.restart.phase = .ready from rfl, show o.restart.len = o.len from rfl] at h
  by_cases hempty : o.len = 0
  · simp only [if_pos hempty] at h
    obtain ⟨rfl, rfl⟩ := Prod.mk.inj (Except.ok.inj h)
    exact ⟨(after_of_gt (by omega)).symm, (decide_eq_false (by omega)).symm⟩
  · simp only [if_neg hempty] at h
    obtain ⟨rfl, rfl⟩ := Prod.mk.inj (Except.ok.inj h)
    refine ⟨?_, (decide_eq_true (by omega)).symm⟩
    rw [after_of_le (by omega), Shape.unravel_zero, visit_origin]
    rfl

/-- **A step from a position** moves every index on to the next one. From the last position it leads
to the end. -/
theorem step_visit {o o' : Odometer} {j : Nat} {moved : Bool} (ho : o.Sound) (hj : j < o.len)
    (h : (o.visit (o.shape.unravel j)).step = .ok (o', moved)) :
    o' = o.after (j + 2) ∧ moved = decide (j + 2 ≤ o.len) := by
  have hj' : j < o.shape.count := ho.len_eq ▸ hj
  have hp := Shape.contains_unravel hj'
  obtain ⟨first, hfirst, h⟩ := Outcome.bind_eq_ok.mp h
  obtain ⟨second, hsecond, h⟩ := Outcome.bind_eq_ok.mp h
  obtain ⟨output, houtput, h⟩ := Outcome.bind_eq_ok.mp h
  have hmoved : ({ o with
        position := (o.shape.succ (o.shape.unravel j)).2
        first, second, output, phase := .active } : Odometer)
      = o.visit (o.shape.succ (o.shape.unravel j)).2 := by
    rw [Lane.step_moveTo ho.first hp hfirst, Lane.step_moveTo ho.second hp hsecond,
      step_output ho hp houtput]
    rfl
  have hpair : (if (o.shape.succ (o.shape.unravel j)).1 then
        ((o.visit (o.shape.succ (o.shape.unravel j)).2).exhaust, false)
      else (o.visit (o.shape.succ (o.shape.unravel j)).2, true)) = (o', moved) := by
    rw [← hmoved]
    exact Except.ok.inj h
  -- a carry out of the slowest axis is what ends the traversal
  rw [Shape.succ_unravel hj', ← ho.len_eq] at hpair
  by_cases hlast : j + 1 < o.len
  · simp only [if_pos hlast] at hpair
    obtain ⟨rfl, rfl⟩ := Prod.mk.inj hpair
    exact ⟨(after_of_le hlast).symm, (decide_eq_true hlast).symm⟩
  · simp only [if_neg hlast] at hpair
    obtain ⟨rfl, rfl⟩ := Prod.mk.inj hpair
    refine ⟨?_, (decide_eq_false hlast).symm⟩
    rw [after_of_gt (by omega), exhaust_visit_origin]

/-- **A step leads from one state to the next**, and tells whether that one is at a position. -/
theorem step_after {o o' : Odometer} {k : Nat} {moved : Bool} (ho : o.Sound)
    (h : (o.after k).step = .ok (o', moved)) :
    o' = o.after (k + 1) ∧ moved = decide (k + 1 ≤ o.len) := by
  rcases Nat.eq_zero_or_pos k with rfl | hk
  · rw [after_zero] at h
    exact step_restart h
  obtain ⟨j, rfl⟩ : ∃ j, k = j + 1 := ⟨k - 1, by omega⟩
  by_cases hj : j < o.len
  · rw [after_of_le hj] at h
    exact step_visit ho hj h
  · -- the end is where every further step leads
    rw [after_of_gt (by omega)] at h
    obtain ⟨rfl, rfl⟩ := Prod.mk.inj (Except.ok.inj h)
    exact ⟨(after_of_gt (by omega)).symm, (decide_eq_false (by omega)).symm⟩

end Odometer

/-! ## What a traversal of layouts shows -/

/-- **A layout as a machine holds it**: one stride per axis, and an unsigned word as offset. -/
structure Layout.Regular (l : Layout) : Prop where
  /-- There is one stride per axis. -/
  length_strides : l.strides.length = l.shape.length
  /-- The offset is an unsigned word. -/
  offset : Word.IsUnsigned l.offset

/-- The layout that a traversal of two layouts writes through. -/
def Target.layout? (a b : Layout) : Target → Option Layout
  | none => Option.none
  | first => some a
  | second => some b
  | own l => some l

/-- **The slot index of an operand** `k` steps after a traversal of the shape `r` was ready. -/
structure IndexAfter (l : Layout) (r : Shape) (k index : Nat) : Prop where
  /-- The index is an unsigned word. -/
  isUnsigned : Word.IsUnsigned index
  /-- Before the first position it is the offset. -/
  ready : k = 0 → index = l.offset
  /-- At a position it is, as a word, the exact slot of the item that broadcasting reads there. -/
  active : 1 ≤ k → k ≤ r.count →
    (index : Int) ≡ l.address (l.shape.sourceOf (r.unravel (k - 1))) [ZMOD 0x10000000000000000]
  /-- After the last position it is the slot past the end of the route. -/
  exhausted : r.count < k → ∃ route, Route.ofLayout l r = .ok route ∧ index = route.pastEnd

/-- **What a traversal shows** `k` steps after it was ready. -/
structure Odometer.Shows (o : Odometer) (a b : Layout) (target : Target) (k : Nat) : Prop where
  /-- Its shape is the broadcast shape. -/
  shape : Shape.broadcast [a.shape, b.shape] = .ok o.shape
  /-- Its length is the number of positions. -/
  len : o.len = o.shape.count
  /-- It is ready, then active for as many steps as there are positions, then exhausted. -/
  phase : o.phase = if k = 0 then .ready else if k ≤ o.len then .active else .exhausted
  /-- It goes through the positions in row-major order, and stands at the origin else. -/
  position : o.position
    = if 1 ≤ k ∧ k ≤ o.len then o.shape.unravel (k - 1) else o.shape.origin
  /-- The index of the first operand. -/
  first : IndexAfter a o.shape k o.slots.first
  /-- The index of the second operand. -/
  second : IndexAfter b o.shape k o.slots.second
  /-- There is an index of the output exactly if there is an output. -/
  isSome_output : o.slots.output.isSome = (target.layout? a b).isSome
  /-- The index of the output. -/
  output : ∀ l ∈ target.layout? a b, ∀ index ∈ o.slots.output, IndexAfter l o.shape k index

/-- **The output goes where it was asked for**, by the route of its layout if it has its own. -/
def OutputLane.GoesTo (out : OutputLane) (shape : Shape) : Target → Prop
  | .none => out = .none
  | .first => out = .first
  | .second => out = .second
  | .own l => ∃ lane, out = .own lane ∧ Route.ofLayout l shape = .ok lane.route

/-- **The output stands before the first position** and goes where it was asked for. -/
def OutputLane.StartsTo (out : OutputLane) (shape : Shape) : Target → Prop
  | .none => out = .none
  | .first => out = .first
  | .second => out = .second
  | .own l => ∃ route, Route.ofLayout l shape = .ok route ∧ out = .own (.ofRoute route)

theorem OutputLane.StartsTo.goesTo {out : OutputLane} {shape : Shape} {target : Target}
    (h : out.StartsTo shape target) : out.GoesTo shape target := by
  cases target with
  | own l =>
    obtain ⟨route, hroute, rfl⟩ := h
    exact ⟨_, rfl, hroute⟩
  | _ => exact h

theorem OutputLane.StartsTo.restart {out : OutputLane} {shape : Shape} {target : Target}
    (h : out.StartsTo shape target) : out.map Lane.restart = out := by
  cases target with
  | own l =>
    obtain ⟨route, -, rfl⟩ := h
    rfl
  | _ =>
    rw [show out = _ from h]
    rfl

/-- **A traversal keeps track of the layouts** that it was made for. -/
structure Odometer.Tracks (o : Odometer) (a b : Layout) (target : Target) : Prop where
  /-- Its shape is the broadcast shape. -/
  shape : Shape.broadcast [a.shape, b.shape] = .ok o.shape
  /-- Its length is the number of positions. -/
  len : o.len = o.shape.count
  /-- The first operand goes by the route of its layout. -/
  first : Route.ofLayout a o.shape = .ok o.first.route
  /-- The second operand goes by the route of its layout. -/
  second : Route.ofLayout b o.shape = .ok o.second.route
  /-- The output has the broadcast shape. -/
  output_shape : ∀ l ∈ target.layout? a b, l.shape = o.shape
  /-- The output is where it was asked for. -/
  output : o.output.GoesTo o.shape target

/-- Before the first position an operand shows its offset. -/
theorem Route.Leads.slot_restart {lane : Lane} {l : Layout} {shape : Shape}
    (h : lane.route.Leads l shape) (hoffset : Word.IsUnsigned l.offset) :
    lane.restart.slot = l.offset := by
  unfold Lane.slot Lane.restart Lane.ofRoute
  rw [h.start_eq, Word.toUnsigned_toSigned hoffset]

/-- After the last position an operand shows the slot past the end of its route. -/
theorem Route.Leads.slot_finish {lane : Lane} {l : Layout} {shape : Shape}
    (h : lane.route.Leads l shape) : lane.finish.slot = lane.route.pastEnd := by
  unfold Lane.slot Lane.finish
  rw [Word.toUnsigned_toSigned h.isUnsigned_pastEnd]

/-- The operand `k` steps after a traversal of the shape was ready. -/
def Lane.after (lane : Lane) (shape : Shape) (k : Nat) : Lane :=
  if k = 0 then lane.restart
  else if k ≤ shape.count then lane.moveTo (shape.unravel (k - 1))
  else lane.finish

/-- **The index of an operand after any number of steps.** -/
theorem Lane.indexAfter {lane : Lane} {l : Layout} {shape : Shape} (hl : l.Regular)
    (hroute : Route.ofLayout l shape = .ok lane.route) (k : Nat) :
    IndexAfter l shape k (lane.after shape k).slot := by
  have hleads := Route.leads_of_ofLayout hl.length_strides hroute
  unfold after
  split
  · next hk =>
    rw [hleads.slot_restart hl.offset]
    exact ⟨hl.offset, fun _ => rfl, fun h => by omega, fun h => by omega⟩
  · next hk =>
    split
    · next hcount =>
      have hp := Shape.contains_unravel (show k - 1 < shape.count by omega)
      have hslot : (lane.moveTo (shape.unravel (k - 1))).slot
          = Word.toUnsigned (l.address (l.shape.sourceOf (shape.unravel (k - 1)))) := by
        unfold slot moveTo
        rw [Word.toUnsigned_wrap, hleads.address_eq hp]
      rw [hslot]
      exact ⟨Word.isUnsigned_toUnsigned _, fun h => by omega,
        fun _ _ => Word.toUnsigned_modEq _, fun h => by omega⟩
    · rw [hleads.slot_finish]
      exact ⟨hleads.isUnsigned_pastEnd, fun h => by omega, fun _ h => by omega,
        fun _ => ⟨lane.route, hroute, rfl⟩⟩

namespace Odometer

section New

variable {a b : Layout} {target : Target} {o : Odometer} {shape : Shape}

theorem checkOutput_eq_ok {s : Shape} {u : Unit} : checkOutput shape s = .ok u ↔ s = shape := by
  unfold checkOutput
  split
  · next h => exact iff_of_true rfl h.symm
  · next h => exact iff_of_false (refuse_ne_ok _ _) fun hs => h hs.symm

/-- **The output of a new traversal** has the broadcast shape and is where it was asked for. -/
theorem outputLane_eq_ok {out : OutputLane} :
    outputLane shape a b target = .ok out ↔
      (∀ l ∈ target.layout? a b, l.shape = shape) ∧ out.StartsTo shape target := by
  have hcheck : ∀ (l : Layout) (start : Outcome OutputLane),
      (checkOutput shape l.shape >>= fun _ => start) = .ok out ↔
        (∀ m ∈ some l, m.shape = shape) ∧ start = .ok out := by
    intro l start
    rw [Outcome.bind_eq_ok]
    constructor
    · rintro ⟨_, hl, hstart⟩
      exact ⟨fun m hm => Option.some.inj hm ▸ checkOutput_eq_ok.mp hl, hstart⟩
    · rintro ⟨hl, hstart⟩
      exact ⟨(), checkOutput_eq_ok.mpr (hl l rfl), hstart⟩
  have hsame : ∀ other : OutputLane, (.ok other : Outcome OutputLane) = .ok out ↔ out = other :=
    fun other => ⟨fun h => (Except.ok.inj h).symm, fun h => h ▸ rfl⟩
  cases target with
  | none => exact (hsame .none).trans ⟨fun h => ⟨nofun, h⟩, fun h => h.2⟩
  | first => exact (hcheck a _).trans (and_congr_right' (hsame .first))
  | second => exact (hcheck b _).trans (and_congr_right' (hsame .second))
  | own l =>
    refine (hcheck l _).trans (and_congr_right' (Outcome.bind_eq_ok.trans ?_))
    exact exists_congr fun route => and_congr_right' (hsame (.own (.ofRoute route)))

/-- **The parts of a new traversal.** -/
theorem ofLayouts_eq_ok :
    ofLayouts a b target = .ok o ↔ ∃ first second,
      Shape.broadcast [a.shape, b.shape] = .ok o.shape
        ∧ outputLane o.shape a b target = .ok o.output
        ∧ Route.ofLayout a o.shape = .ok first ∧ Route.ofLayout b o.shape = .ok second
        ∧ o.shape.size = .ok o.len ∧ o.position = o.shape.origin
        ∧ o.first = .ofRoute first ∧ o.second = .ofRoute second ∧ o.phase = .ready := by
  constructor
  · intro h
    obtain ⟨shape, hshape, h⟩ := Outcome.bind_eq_ok.mp h
    obtain ⟨output, houtput, h⟩ := Outcome.bind_eq_ok.mp h
    obtain ⟨first, hfirst, h⟩ := Outcome.bind_eq_ok.mp h
    obtain ⟨second, hsecond, h⟩ := Outcome.bind_eq_ok.mp h
    obtain ⟨len, hlen, h⟩ := Outcome.bind_eq_ok.mp h
    obtain rfl := Except.ok.inj h
    exact ⟨first, second, hshape, houtput, hfirst, hsecond, hlen, rfl, rfl, rfl, rfl⟩
  · rintro ⟨first, second, hshape, houtput, hfirst, hsecond, hlen, hposition, hone, htwo, hphase⟩
    refine Outcome.bind_eq_ok.mpr ⟨o.shape, hshape, ?_⟩
    refine Outcome.bind_eq_ok.mpr ⟨o.output, houtput, ?_⟩
    refine Outcome.bind_eq_ok.mpr ⟨first, hfirst, ?_⟩
    refine Outcome.bind_eq_ok.mpr ⟨second, hsecond, ?_⟩
    refine Outcome.bind_eq_ok.mpr ⟨o.len, hlen, ?_⟩
    rw [← hposition, ← hone, ← htwo, ← hphase]
    rfl

/-- **A new traversal** keeps track of its layouts and is ready. -/
theorem tracks_of_ofLayouts (h : ofLayouts a b target = .ok o) :
    o.Tracks a b target ∧ o.restart = o := by
  obtain ⟨first, second, hshape, houtput, hfirst, hsecond, hlen, hposition, hone, htwo, hphase⟩ :=
    ofLayouts_eq_ok.mp h
  obtain ⟨hfit, hstarts⟩ := outputLane_eq_ok.mp houtput
  refine ⟨⟨hshape, Shape.count_of_size hlen, by rw [hone]; exact hfirst,
    by rw [htwo]; exact hsecond, hfit, hstarts.goesTo⟩, ?_⟩
  unfold restart
  rw [hstarts.restart, ← hposition, ← hphase, hone, htwo]
  show { o with first := Lane.ofRoute first, second := Lane.ofRoute second } = o
  rw [← hone, ← htwo]

end New

section Tracks

variable {a b : Layout} {target : Target} {o : Odometer}

/-- The parts of a traversal of layouts with one stride per axis fit together. -/
theorem Tracks.sound (h : o.Tracks a b target) (ha : a.strides.length = a.shape.length)
    (hb : b.strides.length = b.shape.length)
    (ht : ∀ l ∈ target.layout? a b, l.strides.length = l.shape.length) : o.Sound where
  len_eq := h.len
  first := (Route.leads_of_ofLayout ha h.first).fits
  second := (Route.leads_of_ofLayout hb h.second).fits
  output := by
    intro r hr
    have houtput := h.output
    cases target with
    | own l =>
      obtain ⟨lane, hlane, hroute⟩ := houtput
      rw [hlane] at hr
      obtain rfl := Option.some.inj hr
      exact (Route.leads_of_ofLayout (ht l rfl) hroute).fits
    | _ =>
      rw [show o.output = _ from houtput] at hr
      exact absurd hr (by simp [OutputLane.route?])

@[simp] theorem shape_after (o : Odometer) (k : Nat) : (o.after k).shape = o.shape := by
  unfold after
  split
  · rfl
  · split <;> rfl

@[simp] theorem len_after (o : Odometer) (k : Nat) : (o.after k).len = o.len := by
  unfold after
  split
  · rfl
  · split <;> rfl

theorem phase_after (o : Odometer) (k : Nat) :
    (o.after k).phase = if k = 0 then .ready else if k ≤ o.len then .active else .exhausted := by
  unfold after
  split
  · rfl
  · split <;> rfl

theorem position_after (o : Odometer) (k : Nat) :
    (o.after k).position
      = if 1 ≤ k ∧ k ≤ o.len then o.shape.unravel (k - 1) else o.shape.origin := by
  unfold after
  split
  · rw [if_neg (by omega)]
    rfl
  · split
    · rw [if_pos (by omega)]
      rfl
    · rw [if_neg (by omega)]
      rfl

theorem Tracks.first_after (h : o.Tracks a b target) (k : Nat) :
    (o.after k).first = o.first.after o.shape k := by
  unfold after Lane.after
  rw [← h.len]
  split
  · rfl
  · split
    · rfl
    · exact o.first.finish_restart

theorem Tracks.second_after (h : o.Tracks a b target) (k : Nat) :
    (o.after k).second = o.second.after o.shape k := by
  unfold after Lane.after
  rw [← h.len]
  split
  · rfl
  · split
    · rfl
    · exact o.second.finish_restart

theorem Tracks.output_after (h : o.Tracks a b target) (k : Nat) :
    (o.after k).output = o.output.map (·.after o.shape k) := by
  unfold after Lane.after
  rw [← h.len]
  split
  · rfl
  · split
    · rfl
    · show (o.output.map Lane.restart).map Lane.finish = o.output.map Lane.finish
      simp only [OutputLane.map_map, Lane.finish_restart]

/-- **What a traversal shows after any number of steps.** -/
theorem Tracks.shows (h : o.Tracks a b target) (ha : a.Regular) (hb : b.Regular)
    (ht : ∀ l ∈ target.layout? a b, l.Regular) (k : Nat) : (o.after k).Shows a b target k := by
  have hfirst : IndexAfter a o.shape k (o.after k).slots.first := by
    show IndexAfter a o.shape k (o.after k).first.slot
    rw [h.first_after]
    exact Lane.indexAfter ha h.first k
  have hsecond : IndexAfter b o.shape k (o.after k).slots.second := by
    show IndexAfter b o.shape k (o.after k).second.slot
    rw [h.second_after]
    exact Lane.indexAfter hb h.second k
  -- an output that follows an operand shows what the operand shows
  have houtput : ∀ l ∈ target.layout? a b,
      ∃ index, (o.after k).slots.output = some index ∧ IndexAfter l o.shape k index := by
    intro l hl
    have hout := h.output
    have hafter := h.output_after k
    unfold slots
    cases target with
    | none => exact absurd hl (by simp [Target.layout?])
    | first =>
      obtain rfl := Option.some.inj hl
      rw [show o.output = .first from hout] at hafter
      exact ⟨_, by rw [hafter]; rfl, hfirst⟩
    | second =>
      obtain rfl := Option.some.inj hl
      rw [show o.output = .second from hout] at hafter
      exact ⟨_, by rw [hafter]; rfl, hsecond⟩
    | own layout =>
      obtain rfl := Option.some.inj hl
      obtain ⟨lane, hlane, hroute⟩ := hout
      rw [hlane] at hafter
      exact ⟨_, by rw [hafter]; rfl, Lane.indexAfter (ht _ rfl) hroute k⟩
  refine
    { shape := by rw [shape_after]; exact h.shape
      len := by rw [len_after, shape_after]; exact h.len
      phase := by rw [phase_after, len_after]
      position := by rw [position_after, len_after, shape_after]
      first := by rw [shape_after]; exact hfirst
      second := by rw [shape_after]; exact hsecond
      isSome_output := ?_
      output := ?_ }
  · cases hl : target.layout? a b with
    | some l =>
      obtain ⟨index, hindex, -⟩ := houtput l hl
      rw [hindex]
      rfl
    | none =>
      have hnone : target = .none := by
        cases target <;> first | rfl | exact absurd hl (by simp [Target.layout?])
      have hout : o.output = .none := by
        have := h.output
        rwa [hnone] at this
      have hafter := h.output_after k
      rw [hout] at hafter
      unfold slots
      rw [hafter]
      rfl
  · intro l hl index hindex
    obtain ⟨index', hindex', hafter⟩ := houtput l hl
    obtain rfl : index' = index := Option.some.inj (hindex'.symm.trans hindex)
    rw [shape_after]
    exact hafter

end Tracks

/-! ## Runs -/

/-- **A call to a traversal.** -/
inductive Call where
  /-- Takes a step. -/
  | step
  /-- Takes a step and gives the slot indices there. -/
  | next
  /-- Makes the traversal ready again. -/
  | restart
deriving DecidableEq, Repr

namespace Call

/-- The traversal after a call. -/
def perform (call : Call) (o : Odometer) : Outcome Odometer :=
  match call with
  | step => do
    let (o, _) ← o.step
    return o
  | next => do
    let (o, _) ← o.next?
    return o
  | restart => .ok o.restart

/-- The number of steps since the traversal was ready, given that number before the call. -/
def tick (k : Nat) : Call → Nat
  | step | next => k + 1
  | restart => 0

/-- **The number of steps since the traversal was ready**, after calls to a new one. -/
def steps (calls : List Call) : Nat :=
  calls.foldl tick 0

end Call

/-- **The traversal after some calls**, in order. -/
def run (o : Odometer) (calls : List Call) : Outcome Odometer :=
  calls.foldlM (fun o call => call.perform o) o

/-- **A call leads from one state to another** that depends on the number of steps only. -/
theorem perform_after {o o' : Odometer} {k : Nat} {call : Call} (ho : o.Sound)
    (h : call.perform (o.after k) = .ok o') : o' = o.after (call.tick k) := by
  cases call with
  | step =>
    obtain ⟨⟨next, moved⟩, hstep, h⟩ := Outcome.bind_eq_ok.mp h
    obtain rfl := Except.ok.inj h
    exact (step_after ho hstep).1
  | next =>
    obtain ⟨⟨next, slots⟩, hnext, h⟩ := Outcome.bind_eq_ok.mp h
    obtain ⟨⟨next', moved⟩, hstep, hnext⟩ := Outcome.bind_eq_ok.mp hnext
    obtain ⟨rfl, -⟩ := Prod.mk.inj (Except.ok.inj hnext)
    obtain rfl := Except.ok.inj h
    exact (step_after ho hstep).1
  | restart =>
    obtain rfl := Except.ok.inj h
    exact (o.restart_after k).trans o.after_zero.symm

/-- **A run leads to a state that depends on the number of steps only.** -/
theorem run_after {o o' : Odometer} {k : Nat} {calls : List Call} (ho : o.Sound)
    (h : (o.after k).run calls = .ok o') : o' = o.after (calls.foldl Call.tick k) := by
  induction calls generalizing k with
  | nil => exact (Except.ok.inj h).symm
  | cons call calls ih =>
    rw [run, List.foldlM_cons] at h
    obtain ⟨between, hcall, hrest⟩ := Outcome.bind_eq_ok.mp h
    rw [perform_after ho hcall] at hrest
    exact ih hrest

/-- **A traversal shows direct addressing.** After any calls in any order its whole state depends
only on the number of steps since it was ready, and shows the position of that number and the exact
slots of the items there. The next step finds a position as long as there is one left. -/
theorem run_shows {a b : Layout} {target : Target} {o o' : Odometer} {calls : List Call}
    (ha : a.Regular) (hb : b.Regular) (ht : ∀ l, target = .own l → l.Regular)
    (ho : ofLayouts a b target = .ok o) (hrun : o.run calls = .ok o') :
    o' = o.after (Call.steps calls)
      ∧ o'.Shows a b target (Call.steps calls)
      ∧ (∀ o'' moved, o'.step = .ok (o'', moved) →
          moved = decide (Call.steps calls + 1 ≤ o'.len))
      ∧ (∀ o'' slots, o'.next? = .ok (o'', slots) →
          slots = if Call.steps calls + 1 ≤ o'.len then some o''.slots else none) := by
  obtain ⟨htracks, hready⟩ := tracks_of_ofLayouts ho
  have ht' : ∀ l ∈ target.layout? a b, l.Regular := by
    intro l hl
    cases target with
    | none => exact absurd hl (by simp [Target.layout?])
    | first => exact Option.some.inj hl ▸ ha
    | second => exact Option.some.inj hl ▸ hb
    | own layout => exact ht l (congrArg Target.own (Option.some.inj hl))
  have hsound := htracks.sound ha.length_strides hb.length_strides
    fun l hl => (ht' l hl).length_strides
  -- a new traversal is in the state after no step
  have hstate : o' = o.after (Call.steps calls) := by
    rw [← hready, ← o.after_zero] at hrun
    exact run_after hsound hrun
  have hstep : ∀ o'' moved, o'.step = .ok (o'', moved) →
      moved = decide (Call.steps calls + 1 ≤ o'.len) := by
    intro o'' moved h
    rw [hstate] at h
    rw [hstate, len_after]
    exact (step_after hsound h).2
  refine ⟨hstate, hstate ▸ htracks.shows ha hb ht' _, hstep, fun o'' slots h => ?_⟩
  obtain ⟨⟨next, moved⟩, hnext, hslots⟩ := Outcome.bind_eq_ok.mp h
  obtain ⟨rfl, rfl⟩ := Prod.mk.inj (Except.ok.inj hslots)
  rw [hstep next moved hnext]
  by_cases hmore : Call.steps calls + 1 ≤ o'.len
  · simp only [hmore, decide_true, if_true]
  · simp only [hmore, decide_false, if_false, Bool.false_eq_true]

/-- A repeated and a reversed operand with an output of its own, restarted on the way and left in
the midst of the second row. -/
theorem run_shows_reversed :
    ∃ o o',
      ofLayouts ⟨[2, 1], [-3, 5], 3, 1⟩ ⟨[3], [-1], 2, 1⟩ (.own ⟨[2, 3], [1, 2], 0, 1⟩) = .ok o
      ∧ o.run [.step, .next, .restart, .step, .next, .step, .step, .step] = .ok o'
      ∧ o'.Shows ⟨[2, 1], [-3, 5], 3, 1⟩ ⟨[3], [-1], 2, 1⟩ (.own ⟨[2, 3], [1, 2], 0, 1⟩) 5 := by
  let o := ofLayouts ⟨[2, 1], [-3, 5], 3, 1⟩ ⟨[3], [-1], 2, 1⟩ (.own ⟨[2, 3], [1, 2], 0, 1⟩)
  let calls : List Call := [.step, .next, .restart, .step, .next, .step, .step, .step]
  have hok : (do (← o).run calls).isOk := by decide +kernel
  obtain ⟨o', ho'⟩ := Outcome.isOk_iff.mp hok
  obtain ⟨o, ho, hrun⟩ := Outcome.bind_eq_ok.mp ho'
  refine ⟨o, o', ho, hrun, ?_⟩
  have hout : ∀ l, Target.own ⟨[2, 3], [1, 2], 0, 1⟩ = .own l → l.Regular := by
    intro l hl
    obtain rfl := Target.own.inj hl
    exact ⟨rfl, by decide⟩
  exact (run_shows ⟨rfl, by decide⟩ ⟨rfl, by decide⟩ hout ho hrun).2.1

end Odometer

end StridedArray
