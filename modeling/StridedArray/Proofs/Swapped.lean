import StridedArray.Proofs.AxisByAxis
import StridedArray.Proofs.Conflict
import StridedArray.Proofs.Display
import StridedArray.Proofs.Fill

/-!
# Operands in the other order

With its operands in the other order a traversal is the same traversal with
its two indices swapped (`Odometer.swapped`). Swapping goes along with every
step: both indices are stepped before it is looked at whether either has
trapped, and there is one way only in which a step can trap
(`Lane.step_eq_error`). So the two traversals show the same after any calls,
up to the order of the indices (`Odometer.displayAfter_swapped`), and they
are refused for the same axis with the two extents swapped
(`Shape.Disagreement.swapped`).

Then the order of the operands makes no difference to arithmetic either, as
long as it makes none to the operation on the numbers that are read
(`View.CommutesOn`): what is made is the same array, down to every slot
(`View.binary_swapped`).
-/

namespace StridedArray

/-! ## Shapes -/

namespace Shape

variable {s t r : Shape} {axis m n : Nat} {e : ArrayError}

/-- Two shapes broadcast alike in either order. -/
theorem broadcast_pair_swapped : broadcast [s, t] = .ok r ↔ broadcast [t, s] = .ok r :=
  broadcast_congr_mem fun x => by rw [List.mem_pair, List.mem_pair, or_comm]

theorem maxRank_pair_swapped (s t : Shape) : maxRank [t, s] = maxRank [s, t] := by
  show max t.length (max s.length 0) = max s.length (max t.length 0)
  omega

/-- What two shapes ask for comes in their order. -/
theorem asked_pair_swapped (s t : Shape) (axis : Nat) :
    asked [t, s] axis = (asked [s, t] axis).reverse := by
  unfold asked others
  rw [maxRank_pair_swapped, ← List.filter_reverse]
  rfl

/-- **Two shapes that disagree** ask for both extents. -/
theorem Disagreement.asked_eq (h : Disagreement [s, t] axis m n) : asked [s, t] axis = [m, n] := by
  have hlength : (asked [s, t] axis).length ≤ 2 := List.length_filter_le _ _
  have hfirst := h.first
  have hlater := h.later
  match hasked : asked [s, t] axis, hlength with
  | [], _ => exact nomatch hasked ▸ hfirst
  | [k], _ =>
    rw [hasked] at hfirst hlater
    obtain rfl := Option.some.inj hfirst
    simp at hlater
  | [k, l], _ =>
    rw [hasked] at hfirst hlater
    obtain rfl := Option.some.inj hfirst
    rw [List.find?_cons_of_neg (by simp)] at hlater
    obtain rfl := List.mem_singleton.mp (List.mem_of_find?_eq_some hlater)
    rfl

/-- **A disagreement of two shapes is one in the other order**, with the extents swapped. -/
theorem Disagreement.swapped (h : Disagreement [s, t] axis m n) :
    Disagreement [t, s] axis n m where
  lt := maxRank_pair_swapped s t ▸ h.lt
  before d hd k hk l hl := by
    rw [asked_pair_swapped, List.mem_reverse] at hk hl
    exact h.before d hd k hk l hl
  first := by
    rw [asked_pair_swapped, h.asked_eq]
    rfl
  later := by
    have hne : n ≠ m := by simpa using List.find?_some h.later
    rw [asked_pair_swapped, h.asked_eq]
    show List.find? (· ≠ n) [n, m] = some m
    rw [List.find?_cons_of_neg (by simp), List.find?_cons_of_pos (by simpa using hne.symm)]

end Shape

/-- **The same error for operands in the other order**: of a conflict the two extents are swapped. -/
def ArrayError.swapped : ArrayError → ArrayError
  | .extentConflict axis m n => .extentConflict axis n m
  | other => other

@[simp] theorem ArrayError.swapped_swapped (e : ArrayError) : e.swapped.swapped = e := by
  cases e <;> rfl

/-- Two shapes are refused alike in either order. -/
theorem Shape.broadcastAll_pair_refused {s t : Shape} {e : ArrayError}
    (h : broadcastAll [s, t] = refuse e) : broadcastAll [t, s] = refuse e.swapped := by
  obtain ⟨axis, m, n, hdisagree, rfl⟩ := broadcastAll_eq_refuse.mp h
  exact broadcastAll_eq_refuse.mpr ⟨axis, n, m, hdisagree.swapped, rfl⟩

/-! ## Steps -/

/-- What is no signed word overflows. -/
theorem Word.signed_eq_error {i : Int} {fault : Fault} (h : signed i = .error fault) :
    fault = .trapped .overflow := by
  unfold signed at h
  split at h
  · exact nomatch h
  · exact (Except.error.inj h).symm

/-- **A step of an index goes wrong in one way only**: by an overflow. -/
theorem Route.roll_eq_error {shape : Shape} {p : List Nat} {strides rewinds : List Int}
    {index : Int} {fault : Fault} (h : roll shape p strides rewinds index = .error fault) :
    fault = .trapped .overflow := by
  induction shape generalizing p strides rewinds with
  | nil => exact nomatch h
  | cons n shape ih =>
    match p, strides, rewinds with
    | [], _, _ => exact nomatch h
    | _ :: _, [], _ => exact nomatch h
    | _ :: _, _ :: _, [] => exact nomatch h
    | c :: p, stride :: strides, rewind :: rewinds =>
      rcases Outcome.bind_eq_error.mp h with hfaster | ⟨⟨carried, rolled⟩, -, h⟩
      · exact ih hfaster
      · cases carried with
        | false => exact nomatch h
        | true =>
          rcases Outcome.bind_eq_error.mp h with hstride | ⟨advanced, -, h⟩
          · exact Word.signed_eq_error hstride
          · by_cases hlast : c + 1 < n
            · rw [if_pos hlast] at h
              exact nomatch h
            · rw [if_neg hlast] at h
              rcases Outcome.bind_eq_error.mp h with hrewind | ⟨_, -, h⟩
              · exact Word.signed_eq_error hrewind
              · exact nomatch h

/-- A step of an operand goes wrong by an overflow only. -/
theorem Lane.step_eq_error {lane : Lane} {shape : Shape} {p : List Nat} {fault : Fault}
    (h : lane.step shape p = .error fault) : fault = .trapped .overflow := by
  rcases Outcome.bind_eq_error.mp h with hroll | ⟨_, -, h⟩
  · exact Route.roll_eq_error hroll
  · exact nomatch h

/-- **Two operands can be stepped in either order.** -/
theorem Lane.step_comm {α : Type} (first second : Lane) (shape : Shape) (p : List Nat)
    (f : Lane → Lane → Outcome α) :
    (first.step shape p >>= fun a => second.step shape p >>= fun b => f a b)
      = second.step shape p >>= fun b => first.step shape p >>= fun a => f a b := by
  cases hfirst : first.step shape p with
  | ok a => rfl
  | error fault =>
    cases hsecond : second.step shape p with
    | ok b => rfl
    | error fault' =>
      obtain rfl := step_eq_error hfirst
      obtain rfl := step_eq_error hsecond
      rfl

/-! ## Traversals -/

/-- **The same target for operands in the other order.** -/
def Target.swapped : Target → Target
  | .first => .second
  | .second => .first
  | other => other

@[simp] theorem Target.swapped_swapped (target : Target) : target.swapped.swapped = target := by
  cases target <;> rfl

/-- The output is written through the same layout. -/
theorem Target.layout?_swapped (a b : Layout) (target : Target) :
    target.swapped.layout? b a = target.layout? a b := by
  cases target <;> rfl

namespace OutputLane

/-- **The same output for operands in the other order.** -/
def swapped : OutputLane → OutputLane
  | .first => .second
  | .second => .first
  | other => other

@[simp] theorem swapped_swapped (out : OutputLane) : out.swapped.swapped = out := by
  cases out <;> rfl

theorem step_swapped (out : OutputLane) (shape : Shape) (p : List Nat) :
    out.swapped.step shape p = out.step shape p >>= fun out' => .ok out'.swapped := by
  cases out with
  | own lane =>
    show (lane.step shape p >>= _) = (lane.step shape p >>= _) >>= _
    rw [bind_assoc]
    rfl
  | _ => rfl

theorem map_swapped (change : Lane → Lane) (out : OutputLane) :
    out.swapped.map change = (out.map change).swapped := by
  cases out <;> rfl

theorem startsTo_swapped {out : OutputLane} {shape : Shape} {target : Target}
    (h : out.StartsTo shape target) : out.swapped.StartsTo shape target.swapped := by
  cases target with
  | none => exact congrArg swapped h
  | first => exact congrArg swapped h
  | second => exact congrArg swapped h
  | own l =>
    obtain ⟨route, hroute, rfl⟩ := h
    exact ⟨route, hroute, rfl⟩

end OutputLane

/-- **Slot indices with those of the operands swapped.** -/
def SlotIndices.swapped (i : SlotIndices) : SlotIndices :=
  { i with first := i.second, second := i.first }

namespace Odometer

variable {a b : Layout} {target : Target} {o : Odometer} {calls : List Call} {d : Display}
  {e : ArrayError}

/-- What is shown with the indices of the operands swapped. -/
def Display.swapped (d : Display) : Display :=
  { d with slots := d.slots.swapped }

@[simp] theorem Display.swapped_swapped (d : Display) : d.swapped.swapped = d := rfl

/-- **The traversal with its operands swapped.** -/
def swapped (o : Odometer) : Odometer :=
  { o with first := o.second, second := o.first, output := o.output.swapped }

@[simp] theorem swapped_swapped (o : Odometer) : o.swapped.swapped = o := by
  unfold swapped
  rw [OutputLane.swapped_swapped]

/-- **Swapping the operands goes along with whatever a traversal does.** -/
theorem goesAlong_swapped : GoesAlong swapped where
  shape _ := rfl
  len _ := rfl
  position _ := rfl
  phase _ := rfl
  enter _ _ := rfl
  exhaust o := by
    unfold exhaust swapped
    rw [OutputLane.map_swapped]
  restart o := by
    unfold restart swapped
    rw [OutputLane.map_swapped]
  moved o := by
    unfold moved
    rw [bind_assoc]
    show (o.second.step o.shape o.position >>= fun first =>
      o.first.step o.shape o.position >>= fun second =>
        o.output.swapped.step o.shape o.position >>= _) = _
    rw [Lane.step_comm]
    refine bind_congr fun first => ?_
    rw [bind_assoc]
    refine bind_congr fun second => ?_
    rw [bind_assoc, OutputLane.step_swapped, bind_assoc]
    rfl

/-- What the swapped traversal shows. -/
theorem display_swapped (o : Odometer) : o.swapped.display = o.display.swapped := by
  unfold display slots swapped
  cases o.output <;> rfl

/-- **The traversal of two layouts in the other order** is the swapped one. -/
theorem ofLayouts_swapped (h : ofLayouts a b target = .ok o) :
    ofLayouts b a target.swapped = .ok o.swapped := by
  obtain ⟨first, second, hshape, houtput, hfirst, hsecond, hlen, hposition, hone, htwo, hphase⟩ :=
    ofLayouts_eq_ok.mp h
  obtain ⟨hfit, hstarts⟩ := outputLane_eq_ok.mp houtput
  refine ofLayouts_eq_ok.mpr ⟨second, first, Shape.broadcast_pair_swapped.mp hshape, ?_, hsecond,
    hfirst, hlen, hposition, htwo, hone, hphase⟩
  refine outputLane_eq_ok.mpr ⟨?_, OutputLane.startsTo_swapped hstarts⟩
  rw [Target.layout?_swapped]
  exact hfit

/-- **Two layouts are refused for the same in the other order.** -/
theorem ofLayouts_refused_swapped (h : ofLayouts a b target = refuse e) :
    ofLayouts b a target.swapped = refuse e.swapped := by
  refine ofLayouts_eq_refuse.mpr ?_
  rcases ofLayouts_eq_refuse.mp h with hshapes | ⟨r, hr, l, hl, hne, rfl⟩
  · exact .inl (Shape.broadcastAll_pair_refused hshapes)
  · rw [Target.layout?_swapped]
    exact .inr ⟨r, Shape.broadcast_pair_swapped.mp hr, l, hl, hne, rfl⟩

/-- **After any calls the traversal in the other order shows the same**, with the indices of the
operands swapped. -/
theorem displayAfter_swapped (h : displayAfter a b target calls = .ok d) :
    displayAfter b a target.swapped calls = .ok d.swapped := by
  obtain ⟨o, ho, h⟩ := Outcome.bind_eq_ok.mp h
  obtain ⟨o', hrun, h⟩ := Outcome.bind_eq_ok.mp h
  obtain rfl := Except.ok.inj h
  refine Outcome.bind_eq_ok.mpr ⟨o.swapped, ofLayouts_swapped ho, ?_⟩
  refine Outcome.bind_eq_ok.mpr ⟨o'.swapped, ?_, congrArg Except.ok o'.display_swapped⟩
  rw [goesAlong_swapped.run, hrun]
  rfl

/-- Without an output only extents can be refused. -/
theorem ofLayouts_none_refused (h : ofLayouts a b .none = refuse e) :
    ∃ axis m n, e = .extentConflict axis m n := by
  rcases ofLayouts_eq_refuse.mp h with hshapes | ⟨_, _, l, hl, _⟩
  · obtain ⟨axis, m, n, -, rfl⟩ := Shape.broadcastAll_eq_refuse.mp hshapes
    exact ⟨axis, m, n, rfl⟩
  · exact nomatch hl

end Odometer

/-! ## Arithmetic -/

/-- Two types meet alike in either order. -/
theorem ElementType.promote_comm (s t : ElementType) : s.promote t = t.promote s := by
  cases s <;> cases t <;> rfl

namespace View

variable {x y z : View} {w w₁ w₂ : Workspace} {op : Double → Double → Double}

/-- **The order of the operands makes no difference to the operation** on the values that they have
at a position. -/
def CommutesOn (op : Double → Double → Double) (x y : View) (w : Workspace) : Prop :=
  ∀ r p, Shape.broadcast [x.shape, y.shape] = .ok r → r.Contains p →
    ∀ u v, x.itemAt (x.shape.sourceOf p) w = .ok u → y.itemAt (y.shape.sourceOf p) w = .ok v →
      op u v = op v u

theorem CommutesOn.swapped (h : CommutesOn op x y w) : CommutesOn op y x w :=
  fun r p hr hp u v hu hv => (h r p (Shape.broadcast_pair_swapped.mp hr) hp v u hv hu).symm

/-- The order makes no difference if both orders are tried on the values at every position. -/
theorem CommutesOn.of_positions {r : Shape} (hr : Shape.broadcast [x.shape, y.shape] = .ok r)
    (h : ∀ p ∈ r.positions,
      (x.itemAt (x.shape.sourceOf p) w >>= fun u => y.itemAt (y.shape.sourceOf p) w >>= fun v =>
        .ok (decide (op u v = op v u))) = .ok true) : CommutesOn op x y w := by
  intro r' p hr' hp u v hu hv
  obtain rfl := Except.ok.inj (hr.symm.trans hr')
  have htried := h p (Shape.mem_positions.mpr hp)
  rw [hu, hv] at htried
  exact of_decide_eq_true (Except.ok.inj htried)

/-- **Results computed in either order** from the same start leave the same behind. -/
theorem Computes.agree (h : Computes op x y z w w₁) (h' : Computes op y x z w w₂)
    (hr : Shape.broadcast [x.shape, y.shape] = .ok z.shape) (hcomm : CommutesOn op x y w) :
    w₁.AgreesOff w₂ fun _ _ => False where
  length_eq := h'.2.length_eq.trans h.2.length_eq.symm
  defaultType_eq := h'.2.defaultType_eq.trans h.2.defaultType_eq.symm
  type_eq id := (h'.2.type_eq id).trans (h.2.type_eq id).symm
  bytes_eq id := (h'.2.bytes_eq id).trans (h.2.bytes_eq id).symm
  locked_eq id := (h'.2.locked_eq id).trans (h.2.locked_eq id).symm
  content_eq id index _ := by
    by_cases hslot : z.Addresses id index
    · obtain ⟨rfl, p, hp, rfl⟩ := hslot
      obtain ⟨u, v, hu, hv, hcontent⟩ := h.1 p hp
      obtain ⟨v', u', hv', hu', hcontent'⟩ := h'.1 p hp
      obtain rfl := Except.ok.inj (hu.symm.trans hu')
      obtain rfl := Except.ok.inj (hv.symm.trans hv')
      have htype : z.elementType w₂ = z.elementType w₁ :=
        (h'.2.type_eq z.storage).trans (h.2.type_eq z.storage).symm
      rw [hcontent, hcontent', htype, hcomm _ p hr hp u v hu hv]
    · rw [h'.2.content_eq id index hslot, h.2.content_eq id index hslot]

/-- **Arithmetic with the operands in the other order makes the same array**, slot for slot, unless
it traps. -/
theorem binary_swapped {op : BinaryOp} (hx : x.Operand w) (hy : y.Operand w)
    (hcomm : CommutesOn op.eval x y w) (h : binary op x y w = .ok z w₁) :
    Action.Achieves w (binary op y x) fun z' w₂ =>
      z' = z ∧ w₁.AgreesOff w₂ fun _ _ => False := by
  obtain ⟨type, r, w₀, htype, hr, hzeros, hfill⟩ := binary_eq_ok.mp h
  have hr' : Shape.broadcast [y.shape, x.shape] = .ok r := Shape.broadcast_pair_swapped.mp hr
  obtain rfl := Except.ok.inj ((resultType_eq_ok hx.real hy.real).symm.trans htype)
  have htype' : resultType (y.elementType w) (x.elementType w)
      = .ok ((x.elementType w).promote (y.elementType w)) :=
    ElementType.promote_comm .. ▸ resultType_eq_ok hy.real hx.real
  have hreal := ElementType.isComplex_promote hx.real hy.real
  have hfresh := fresh_of_zerosOfType hzeros
  -- the new array is the same, and nothing that was there has changed
  have hcomm' : CommutesOn op.eval x y w₀ := by
    intro r p hr hp u v hu hv
    rw [itemAt_of_cell_eq (hfresh.cell_of_lt hx.inBounds.inUse)] at hu
    rw [itemAt_of_cell_eq (hfresh.cell_of_lt hy.inBounds.inUse)] at hv
    exact hcomm r p hr hp u v hu hv
  have hdone := ((hfresh.receives hx hy hr hreal).fillFrom op.eval).post hfill
  refine .get_bind (.lift_bind (htype' ▸ Outcome.refusedOnly_ok _) fun type htype => ?_)
  obtain rfl := Except.ok.inj (htype'.symm.trans htype)
  refine .lift_bind (hr' ▸ Outcome.refusedOnly_ok _) fun shape hshape => ?_
  obtain rfl := Except.ok.inj (hr'.symm.trans hshape)
  have hmade : Action.Achieves w (zerosOfType r ((x.elementType w).promote (y.elementType w)))
      fun z' w' => z' = z ∧ w' = w₀ := .inl ⟨z, w₀, hzeros, rfl, rfl⟩
  refine hmade.bind ?_
  rintro _ _ ⟨rfl, rfl⟩
  refine ((hfresh.receives hy hx hr' hreal).fillFrom op.eval).bind fun _ w₂ hdone' => .pure ?_
  exact ⟨rfl, hdone.agree hdone' (hfresh.shape_eq.symm ▸ hr) hcomm'⟩

/-- Arrays list the same slots where all slots hold the same. -/
theorem toSlotList_congr (h : w₁.AgreesOff w₂ fun _ _ => False) (x : View) :
    x.toSlotList w₂ = x.toSlotList w₁ := by
  have hrun : ∀ slot count, x.slotRun slot count w₂ = x.slotRun slot count w₁ := by
    intro slot count
    unfold slotRun readDouble
    simp only [h.readDouble_eq not_false]
  unfold toSlotList
  simp only [hrun]

end View

open Odometer View

/-- **The order of the operands makes no difference.** A traversal of two layouts in the other order
is refused for the same, with the extents of a conflict swapped, and made alike, and after any calls
it shows the same, with the indices of the operands swapped. Arithmetic on two arrays in the other
order makes the same array, slot for slot, if the operation gives the same on the values that are
read, unless one of the two traps. -/
theorem operands_swapped :
    (∀ (a b : Layout) (target : Target),
        (∀ o, ofLayouts a b target = .ok o ↔ ofLayouts b a target.swapped = .ok o.swapped)
          ∧ (∀ e, ofLayouts a b target = refuse e ↔
            ofLayouts b a target.swapped = refuse e.swapped)
          ∧ (∀ e, ofLayouts a b .none = refuse e → ∃ axis m n, e = .extentConflict axis m n)
          ∧ ∀ calls d, displayAfter a b target calls = .ok d ↔
            displayAfter b a target.swapped calls = .ok d.swapped)
      ∧ ∀ (op : BinaryOp) (x y : View) (w : Workspace), x.Operand w → y.Operand w →
        CommutesOn op.eval x y w →
          ((∀ e w', binary op x y w ≠ .error (.trapped e) w') →
            (∀ e w', binary op y x w ≠ .error (.trapped e) w') →
              ((∃ z w₁, binary op x y w = .ok z w₁) ↔ ∃ z w₂, binary op y x w = .ok z w₂))
          ∧ ∀ z z' w₁ w₂, binary op x y w = .ok z w₁ → binary op y x w = .ok z' w₂ →
            z' = z ∧ z'.elementType w₂ = z.elementType w₁ ∧ z'.toSlotList w₂ = z.toSlotList w₁
              ∧ w₁.AgreesOff w₂ fun _ _ => False := by
  refine ⟨fun a b target => ⟨fun o => ⟨ofLayouts_swapped, fun h => ?_⟩,
    fun e => ⟨ofLayouts_refused_swapped, fun h => ?_⟩, fun e => ofLayouts_none_refused,
    fun calls d => ⟨displayAfter_swapped, fun h => ?_⟩⟩,
    fun op x y w hx hy hcomm => ⟨fun htrap htrap' => ⟨fun ⟨z, w₁, h⟩ => ?_, fun ⟨z, w₂, h⟩ => ?_⟩,
      fun z z' w₁ w₂ h h' => ?_⟩⟩
  · simpa using ofLayouts_swapped h
  · simpa using ofLayouts_refused_swapped h
  · simpa using displayAfter_swapped h
  · obtain ⟨z', w₂, h', -⟩ := (binary_swapped hx hy hcomm h).exists_ok htrap'
    exact ⟨z', w₂, h'⟩
  · obtain ⟨z', w₁, h', -⟩ := (binary_swapped hy hx hcomm.swapped h).exists_ok htrap
    exact ⟨z', w₁, h'⟩
  · obtain ⟨rfl, hsame⟩ := (binary_swapped hx hy hcomm h).post h'
    exact ⟨rfl, hsame.type_eq z'.storage, toSlotList_congr hsame z', hsame⟩

/-- A column and the same items as a row, run through backwards, and two rows that do not go
together. With a row of longer numbers the column meets in numbers that are longer still. -/
theorem operands_swapped_column : ∃ (x y u z z' : View) (w w₁ w₂ w₃ w₄ : Workspace),
    x.layout = ⟨[2, 1], [1, 1], 0, 1⟩ ∧ y = { x with layout := ⟨[2], [-1], 1, 1⟩ }
      ∧ x.Operand w ∧ y.Operand w ∧ CommutesOn Double.add x y w
      ∧ binary .add x y w = .ok z w₁ ∧ z.toSlotList w₁ = .ok (.map .ofInt [3, 2, 4, 3])
      ∧ binary .add y x w = .ok z w₂ ∧ z.toSlotList w₂ = .ok (.map .ofInt [3, 2, 4, 3])
      ∧ x.elementType w = .uint8 ∧ u.elementType w = .uint32 ∧ u.Operand w
      ∧ CommutesOn Double.maximum x u w
      ∧ binary .maximum x u w = .ok z' w₃ ∧ z'.elementType w₃ = .int64
      ∧ z'.toSlotList w₃ = .ok (.map .ofInt [1, 70000, 2, 70000])
      ∧ binary .maximum u x w = .ok z' w₄ ∧ z'.elementType w₄ = .int64
      ∧ z'.toSlotList w₄ = .ok (.map .ofInt [1, 70000, 2, 70000])
      ∧ displayAfter x.layout y.layout .none [.step, .next] = .ok ⟨[0, 1], .active, ⟨0, 0, none⟩⟩
      ∧ displayAfter x.layout y.layout .none [.step] = .ok ⟨[0, 0], .active, ⟨0, 1, none⟩⟩
      ∧ displayAfter y.layout x.layout .none [.step] = .ok ⟨[0, 0], .active, ⟨1, 0, none⟩⟩
      ∧ ofLayouts ⟨[3], [1], 0, 1⟩ y.layout .none = refuse (.extentConflict 0 3 2)
      ∧ ofLayouts y.layout ⟨[3], [1], 0, 1⟩ .none = refuse (.extentConflict 0 2 3) := by
  let w₀ := Workspace.initial.add ⟨.uint8, [1, 2]⟩
  let w := w₀.add ⟨.uint32, [1, 0, 0, 0, 112, 17, 1, 0]⟩
  let w₁ := w.add ⟨.uint8, [3, 2, 4, 3]⟩
  let w₃ := w.add ⟨.int64, [[1, 0, 0, 0, 0, 0, 0, 0], [112, 17, 1, 0, 0, 0, 0, 0],
    [2, 0, 0, 0, 0, 0, 0, 0], [112, 17, 1, 0, 0, 0, 0, 0]].flatten⟩
  let x : View := ⟨0, ⟨[2, 1], [1, 1], 0, 1⟩⟩
  let y : View := ⟨0, ⟨[2], [-1], 1, 1⟩⟩
  let u : View := ⟨1, ⟨[2], [1], 0, 1⟩⟩
  let z : View := ⟨2, ⟨[2, 2], [2, 1], 0, 1⟩⟩
  have hmade : ofValuesOfType [.ofInt 1, .ofInt 2] [2, 1] .uint8 .initial = .ok x w₀ := by
    decide +kernel
  have hlonger : ofValuesOfType [.ofInt 1, .ofInt 70000] [2] .uint32 w₀ = .ok u w := by
    decide +kernel
  have hrow : View.apply (.reshape [2]) x = .ok ⟨0, ⟨[2], [1], 0, 1⟩⟩ := by decide +kernel
  have hflip : View.apply (.flip 0) ⟨0, ⟨[2], [1], 0, 1⟩⟩ = .ok y := rfl
  have hbounds : x.InBounds w := (inBounds_of_ofValuesOfType hmade).of_extends (w₀.extends_add _)
  have hx : x.Operand w := ⟨hbounds, rfl, rfl⟩
  have hy : y.Operand w := ⟨(hbounds.apply hrow).apply hflip, rfl, rfl⟩
  have hu : u.Operand w := ⟨inBounds_of_ofValuesOfType hlonger, rfl, rfl⟩
  have hadd : CommutesOn Double.add x y w :=
    .of_positions (show Shape.broadcast [[2, 1], [2]] = .ok [2, 2] by decide +kernel)
      (by decide +kernel)
  have hmaximum : CommutesOn Double.maximum x u w :=
    .of_positions (show Shape.broadcast [[2, 1], [2]] = .ok [2, 2] by decide +kernel)
      (by decide +kernel)
  obtain ⟨htraversals, harithmetic⟩ := operands_swapped
  have hxy : binary .add x y w = .ok z w₁ := by decide +kernel
  have hyx : binary .add y x w = .ok z w₁ := by decide +kernel
  have hsums : z.toSlotList w₁ = .ok (.map .ofInt [3, 2, 4, 3]) := by decide +kernel
  have hxu : binary .maximum x u w = .ok z w₃ := by decide +kernel
  have hux : binary .maximum u x w = .ok z w₃ := by decide +kernel
  have hgreater : z.toSlotList w₃ = .ok (.map .ofInt [1, 70000, 2, 70000]) := by decide +kernel
  obtain ⟨-, -, hlisted, -⟩ := (harithmetic .add x y w hx hy hadd).2 _ _ _ _ hxy hyx
  obtain ⟨-, htype, hlisted', -⟩ := (harithmetic .maximum x u w hx hu hmaximum).2 _ _ _ _ hxu hux
  have hstep : displayAfter x.layout y.layout .none [.step]
      = .ok ⟨[0, 0], .active, ⟨0, 1, none⟩⟩ := by decide +kernel
  have hnext : displayAfter x.layout y.layout .none [.step, .next]
      = .ok ⟨[0, 1], .active, ⟨0, 0, none⟩⟩ := by decide +kernel
  have hconflict : ofLayouts ⟨[3], [1], 0, 1⟩ y.layout .none = refuse (.extentConflict 0 3 2) :=
    rfl
  exact ⟨x, y, u, z, z, w, w₁, w₁, w₃, w₃, rfl, rfl, hx, hy, hadd, hxy, hsums, hyx,
    hlisted.trans hsums, rfl, rfl, hu, hmaximum, hxu, rfl, hgreater, hux, htype.trans rfl,
    hlisted'.trans hgreater, hnext, hstep, ((htraversals _ _ .none).2.2.2 _ _).mp hstep, hconflict,
    ((htraversals _ _ .none).2.1 _).mp hconflict⟩

end StridedArray
