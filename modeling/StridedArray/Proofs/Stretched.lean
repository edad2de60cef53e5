import StridedArray.Proofs.Display
import StridedArray.Proofs.Fill
import StridedArray.Proofs.Repeat

/-!
# Stretching first

Broadcasting is done twice over when arrays are stretched to the broadcast
shape before they are put together: once by `View.stretch`, whose strides are
zero along the repeated axes, and once more by the traversal, which finds
extents that agree already. The second time changes nothing. A stretched
layout goes by the route of the original, and is told from it by the extents
kept with the route, which no traversal looks at (`Route.ofLayout_stretched`).
So traversals of the stretched arrays and of the originals show the same
after any calls, and arithmetic has the same results, in the same order of
reads and writes (`View.stretching_agrees`).
-/

namespace StridedArray

/-! ## The route of a stretched layout -/

namespace Route

/-- **A sweep over strides and extents that have been swept** changes nothing. -/
theorem sweep_self {axis : Nat} {strides rewinds : List Int} {shape : Shape}
    (hlength : strides.length = shape.length) (h : Rewinds strides shape rewinds) :
    sweep axis shape strides shape = .ok (strides, rewinds) := by
  -- no axis is repeated a second time
  have hself := stretchStrides_self hlength
  have hswept : sweep axis shape strides shape
      = .ok (stretchStrides shape strides shape, rewinds) :=
    sweep_of_rewinds hlength (List.forall₂_same.mpr fun _ _ => .inl rfl) (hself.symm ▸ h)
  rwa [hself] at hswept

/-- The route with the extents of the broadcast shape itself. -/
def stretched (r : Route) (shape : Shape) : Route :=
  { r with extents := shape }

/-- **A stretched layout goes by the route of the original.** -/
theorem ofLayout_stretched {l v : Layout} {shape : Shape} {r : Route}
    (hl : l.strides.length = l.shape.length) (hr : ofLayout l shape = .ok r)
    (hv : Layout.ofStrides shape r.strides l.offset l.itemSlots = .ok v) :
    v.shape = shape ∧ ofLayout v shape = .ok (r.stretched shape) := by
  have hleads := leads_of_ofLayout hl hr
  obtain ⟨hlength, -, -, rfl⟩ := Layout.ofStrides_eq_ok.mp hv
  have hself : sweep 0 (shape.padTo shape.length) (padLeft (shape.length - shape.length) 0 r.strides)
      shape = .ok (r.strides, r.rewinds) := by
    rw [Shape.padTo_length, Nat.sub_self]
    exact sweep_self hlength.symm hleads.rewinds
  exact ⟨rfl, ofLayout_eq_ok.mpr ⟨Nat.le_refl _, hself, hleads.pastEnd_eq,
    (Shape.padTo_length shape).symm, hleads.start_eq, hleads.itemSlots_eq⟩⟩

end Route

/-! ## Traversals of stretched layouts -/

/-- The operand by the route of its stretched layout. -/
def Lane.stretched (lane : Lane) (shape : Shape) : Lane :=
  { lane with route := lane.route.stretched shape }

/-- An operand ends alike, stretched or not. -/
theorem Lane.finish_stretched (lane : Lane) (t : Shape) :
    (lane.stretched t).finish = lane.finish.stretched t := by
  unfold finish stretched Route.stretched
  with_reducible rfl

/-- An operand restarts alike, stretched or not. -/
theorem Lane.restart_stretched (lane : Lane) (t : Shape) :
    (lane.stretched t).restart = lane.restart.stretched t := by
  unfold restart ofRoute stretched Route.stretched
  with_reducible rfl

/-- An operand moves alike, stretched or not. -/
theorem Lane.step_stretched (lane : Lane) (shape t : Shape) (p : List Nat) :
    (lane.stretched t).step shape p = lane.step shape p >>= fun lane' => .ok (lane'.stretched t) := by
  show (Route.roll _ _ _ _ _ >>= _) = (Route.roll _ _ _ _ _ >>= _) >>= _
  rw [bind_assoc]
  rfl

namespace Odometer

/-- **The traversal of the stretched operands.** -/
def stretched (o : Odometer) : Odometer :=
  { o with first := o.first.stretched o.shape, second := o.second.stretched o.shape }

/-- **That the operands are stretched is not seen.** -/
theorem unseen_stretched : Unseen stretched where
  shape _ := rfl
  len _ := rfl
  display o := by
    unfold display slots stretched
    cases o.output <;> rfl
  enter _ _ := rfl
  exhaust o := by
    unfold exhaust stretched
    rw [Lane.finish_stretched, Lane.finish_stretched]
  restart o := by
    unfold restart stretched
    rw [Lane.restart_stretched, Lane.restart_stretched]
  moved o := by
    unfold moved
    show ((o.first.stretched o.shape).step o.shape o.position >>= fun _ =>
      (o.second.stretched o.shape).step o.shape o.position >>= fun _ =>
        o.output.step o.shape o.position >>= _) = _
    rw [Lane.step_stretched, Lane.step_stretched]
    cases o.first.step o.shape o.position with
    | error e => rfl
    | ok first =>
      cases o.second.step o.shape o.position with
      | error e => rfl
      | ok second => cases o.output.step o.shape o.position <;> rfl

/-- **A traversal of stretched layouts** is one of the originals, with the operands stretched, if
the output does not follow an operand. -/
theorem ofLayouts_stretched {a b va vb : Layout} {target : Target} {shape : Shape} {ra rb : Route}
    (hshape : Shape.broadcast [a.shape, b.shape] = .ok shape)
    (hra : Route.ofLayout a shape = .ok ra) (hrb : Route.ofLayout b shape = .ok rb)
    (hva : va.shape = shape ∧ Route.ofLayout va shape = .ok (ra.stretched shape))
    (hvb : vb.shape = shape ∧ Route.ofLayout vb shape = .ok (rb.stretched shape))
    (ht : target = .none ∨ ∃ l, target = .own l) :
    ofLayouts va vb target = ofLayouts a b target >>= fun o => .ok o.stretched := by
  have hself : Shape.broadcast [shape, shape] = .ok shape :=
    Shape.broadcast_target_eq_ok.mpr (.refl shape)
  have houtput : outputLane shape va vb target = outputLane shape a b target := by
    rcases ht with rfl | ⟨l, rfl⟩
    · rfl
    · rfl
  unfold ofLayouts
  rw [hva.1, hvb.1, hself, hshape]
  show (outputLane shape va vb target >>= _) = (outputLane shape a b target >>= _) >>= _
  rw [houtput, hva.2, hvb.2, hra, hrb]
  cases outputLane shape a b target with
  | error e => rfl
  | ok out =>
    show (shape.size >>= _) = (shape.size >>= _) >>= _
    cases shape.size with
    | error e => rfl
    | ok len =>
      refine congrArg Except.ok ?_
      unfold stretched Lane.stretched Lane.ofRoute Route.stretched
      with_reducible rfl

end Odometer

/-! ## Arithmetic on stretched arrays -/

namespace Cursor

/-- The cursor with its odometer changed. -/
def mapOdometer (f : Odometer → Odometer) (c : Cursor) : Cursor :=
  { c with odometer := f c.odometer }

variable {f : Odometer → Odometer}

/-- What is read does not depend on a change that is not seen. -/
theorem load_mapOdometer (h : Odometer.Unseen f) (c : Cursor)
    (readFirst readSecond : Nat → Outcome Double) :
    (c.mapOdometer f).load readFirst readSecond
      = { c.load readFirst readSecond with
          cursor := (c.load readFirst readSecond).cursor.mapOdometer f } := by
  have hfirst : (f c.odometer).first.slot = c.odometer.first.slot :=
    congrArg SlotIndices.first (h.slots c.odometer)
  have hsecond : (f c.odometer).second.slot = c.odometer.second.slot :=
    congrArg SlotIndices.second (h.slots c.odometer)
  unfold load mapOdometer
  simp only [hfirst, hsecond]
  cases c.first.refresh readFirst c.odometer.first.slot with
  | error e => rfl
  | ok first =>
    simp only
    cases c.second.refresh readSecond c.odometer.second.slot with
    | error e => rfl
    | ok second => rfl

/-- **A step of a cursor** does not depend on a change that is not seen. -/
theorem step_mapOdometer (h : Odometer.Unseen f) (c : Cursor)
    (readFirst readSecond : Nat → Outcome Double) :
    (c.mapOdometer f).step readFirst readSecond
      = { c.step readFirst readSecond with
          cursor := (c.step readFirst readSecond).cursor.mapOdometer f } := by
  have hstep : (c.mapOdometer f).odometer.step
      = c.odometer.step >>= fun taken => .ok (f taken.1, taken.2) := h.step c.odometer
  unfold step
  rw [hstep]
  cases c.odometer.step with
  | error e => rfl
  | ok taken =>
    obtain ⟨odometer, moved⟩ := taken
    cases moved with
    | false => rfl
    | true => exact load_mapOdometer h { c with odometer } readFirst readSecond

end Cursor

namespace Traversal

variable {f : Odometer → Odometer}

/-- The traversal with its odometer changed, and its operands read through other layouts. -/
def mapOdometer (f : Odometer → Odometer) (a b : View) (t : Traversal) : Traversal :=
  { t with cursor := t.cursor.mapOdometer f, first := a, second := b }

/-- A step of a traversal does not depend on a change that is not seen, nor on the layouts that the
operands are read through. -/
theorem step_mapOdometer (h : Odometer.Unseen f) (t : Traversal) {a b : View}
    (ha : a.storage = t.first.storage) (hb : b.storage = t.second.storage) (w : Workspace) :
    (t.mapOdometer f a b).step w
      = { t.step w with cursor := (t.step w).cursor.mapOdometer f } := by
  have hread : ∀ {x y : View}, x.storage = y.storage →
      (fun i => x.readDouble i w) = fun i => y.readDouble i w := by
    intro x y hxy
    unfold View.readDouble
    rw [hxy]
  show (t.cursor.mapOdometer f).step (fun i => a.readDouble i w) (fun i => b.readDouble i w) = _
  rw [hread ha, hread hb]
  exact Cursor.step_mapOdometer h t.cursor _ _

/-- What is stored goes to the same slot. -/
theorem store_mapOdometer (h : Odometer.Unseen f) (t : Traversal) (a b : View) (value : Double) :
    (t.mapOdometer f a b).store value = t.store value := by
  have hslots : (t.mapOdometer f a b).cursor.odometer.slots = t.cursor.odometer.slots :=
    h.slots t.cursor.odometer
  unfold store
  rw [hslots]
  rfl

/-- **Filling does not depend on a change that is not seen**, nor on the layouts that the operands
are read through. -/
theorem fillWithin_mapOdometer (h : Odometer.Unseen f) (op : Double → Double → Double) (fuel : Nat)
    (t : Traversal) {a b : View} (ha : a.storage = t.first.storage)
    (hb : b.storage = t.second.storage) :
    fillWithin op fuel (t.mapOdometer f a b) = fillWithin op fuel t := by
  induction fuel generalizing t with
  | zero => rfl
  | succ fuel ih =>
    unfold fillWithin
    refine bind_congr fun w => ?_
    rw [step_mapOdometer h t ha hb]
    refine bind_congr fun moved => ?_
    -- the state after the step is the changed one
    show (if moved = true then ((t.after (t.step w)).mapOdometer f a b).store _ >>= fun _ =>
      fillWithin op fuel ((t.after (t.step w)).mapOdometer f a b) else _) = _
    rw [store_mapOdometer h, ih (t.after (t.step w)) ha hb]
    rfl

/-- **Filling to the end** does not depend on a change that is not seen, either. -/
theorem fill_mapOdometer (h : Odometer.Unseen f) (op : Double → Double → Double) (t : Traversal)
    {a b : View} (ha : a.storage = t.first.storage) (hb : b.storage = t.second.storage) :
    (t.mapOdometer f a b).fill op = t.fill op := by
  unfold fill
  rw [show (t.mapOdometer f a b).cursor.odometer.len = t.cursor.odometer.len from h.len _]
  exact fillWithin_mapOdometer h op _ t ha hb

end Traversal

/-- Two actions that start alike are the same if they go on alike from the result of the start. -/
theorem Action.bind_congr_of_result {α β : Type} {x : Action α} {f g : α → Action β} {w : Workspace}
    (h : ∀ a w', x w = .ok a w' → f a w' = g a w') : (x >>= f) w = (x >>= g) w := by
  show EStateM.bind x f w = EStateM.bind x g w
  unfold EStateM.bind
  cases hx : x w with
  | ok a w' => exact h a w' hx
  | error e w' => rfl

namespace View

variable {x y vx vy z : View} {w : Workspace} {r : Shape}

/-- **A stretched view** goes by the route of the original through the same storage. -/
theorem stretch_eq_ok (hx : x.layout.strides.length = x.shape.length) (h : x.stretch r = .ok vx) :
    vx.storage = x.storage ∧ ∃ route, Route.ofLayout x.layout r = .ok route
      ∧ vx.layout.shape = r ∧ Route.ofLayout vx.layout r = .ok (route.stretched r) := by
  obtain ⟨route, hroute, h⟩ := Outcome.bind_eq_ok.mp h
  obtain ⟨v, hv, h⟩ := Outcome.bind_eq_ok.mp h
  obtain rfl := Except.ok.inj h
  exact ⟨rfl, route, hroute, Route.ofLayout_stretched hx hroute hv⟩

/-- **Two arrays with their stretched views**: the shapes broadcast, and each view repeats its array
to the broadcast shape. -/
structure Stretches (x y vx vy : View) (r : Shape) : Prop where
  /-- The first array has one stride per axis. -/
  length_first : x.layout.strides.length = x.shape.length
  /-- The second array has one stride per axis. -/
  length_second : y.layout.strides.length = y.shape.length
  /-- The shapes broadcast. -/
  broadcast : Shape.broadcast [x.shape, y.shape] = .ok r
  /-- The view of the first array. -/
  first : x.stretch r = .ok vx
  /-- The view of the second array. -/
  second : y.stretch r = .ok vy

namespace Stretches

variable (h : Stretches x y vx vy r)

include h

/-- A traversal of the views is one of the arrays, with the operands stretched. -/
theorem ofLayouts_eq {target : Target} (ht : target = .none ∨ ∃ l, target = .own l) :
    Odometer.ofLayouts vx.layout vy.layout target
      = Odometer.ofLayouts x.layout y.layout target >>= fun o => .ok o.stretched := by
  obtain ⟨-, _, hrx, hvx⟩ := stretch_eq_ok h.length_first h.first
  obtain ⟨-, _, hry, hvy⟩ := stretch_eq_ok h.length_second h.second
  exact Odometer.ofLayouts_stretched h.broadcast hrx hry hvx hvy ht

/-- **Traversals of the views and of the arrays show the same.** -/
theorem displayAfter_eq {target : Target} (ht : target = .none ∨ ∃ l, target = .own l)
    (calls : List Odometer.Call) :
    Odometer.displayAfter vx.layout vy.layout target calls
      = Odometer.displayAfter x.layout y.layout target calls := by
  unfold Odometer.displayAfter
  rw [h.ofLayouts_eq ht, bind_assoc]
  exact bind_congr fun o => Odometer.unseen_stretched.display_run o calls

/-- The views broadcast as the arrays do. -/
theorem broadcast_eq : Shape.broadcast [vx.shape, vy.shape] = .ok r := by
  obtain ⟨-, _, -, hvx, -⟩ := stretch_eq_ok h.length_first h.first
  obtain ⟨-, _, -, hvy, -⟩ := stretch_eq_ok h.length_second h.second
  rw [shape, shape, hvx, hvy]
  exact Shape.broadcast_target_eq_ok.mpr (.refl r)

/-- **Storing the results in an array of another storage** is the same for the views. -/
theorem fillFrom_eq (hx : z.storage ≠ x.storage) (hy : z.storage ≠ y.storage)
    (op : Double → Double → Double) : z.fillFrom vx vy op = z.fillFrom x y op := by
  have hvx := (stretch_eq_ok h.length_first h.first).1
  have hvy := (stretch_eq_ok h.length_second h.second).1
  have htarget : ∀ {a b : View}, z.storage ≠ a.storage → z.storage ≠ b.storage →
      Target.ofView a b (some z) = .own z.layout := by
    intro a b ha hb
    show (if z = a then Target.first else if z = b then .second else .own z.layout) = _
    rw [if_neg fun hza => ha (congrArg storage hza), if_neg fun hzb => hb (congrArg storage hzb)]
  have hviews : Traversal.ofViews vx vy (some z) = Traversal.ofViews x y (some z) >>= fun t =>
      .ok (t.mapOdometer Odometer.stretched vx vy) := by
    unfold Traversal.ofViews
    rw [htarget (hvx ▸ hx) (hvy ▸ hy), htarget hx hy, h.ofLayouts_eq (.inr ⟨_, rfl⟩), bind_assoc,
      bind_assoc]
    rfl
  unfold fillFrom
  refine bind_congr fun w => if_congr Iff.rfl rfl ?_
  rw [hviews]
  cases ht : Traversal.ofViews x y (some z) with
  | error e => rfl
  | ok t =>
    obtain ⟨o, -, hmade⟩ := Outcome.bind_eq_ok.mp ht
    obtain rfl := Except.ok.inj hmade
    exact Traversal.fill_mapOdometer Odometer.unseen_stretched op _ hvx hvy

/-- **An operation on the views is the operation on the arrays**, whatever it comes to. -/
theorem binary_eq (hx : x.storage < w.cells.length) (hy : y.storage < w.cells.length)
    (op : BinaryOp) : binary op vx vy w = binary op x y w := by
  have hvx := (stretch_eq_ok h.length_first h.first).1
  have hvy := (stretch_eq_ok h.length_second h.second).1
  unfold binary
  refine Action.bind_congr_of_result fun w₁ w' hget => ?_
  obtain ⟨rfl, rfl⟩ := EStateM.Result.ok.inj hget
  rw [elementType, elementType, hvx, hvy]
  refine Action.bind_congr_of_result fun type w₁ htype => ?_
  obtain ⟨-, rfl⟩ := Action.ofOutcome_eq_ok.mp htype
  rw [h.broadcast_eq, h.broadcast]
  refine Action.bind_congr_of_result fun shape w₂ hshape => ?_
  obtain ⟨-, rfl⟩ := Action.ofOutcome_eq_ok.mp hshape
  refine Action.bind_congr_of_result fun result w₃ hzeros => ?_
  -- the new array has a storage of its own
  have hfresh := (fresh_of_zerosOfType hzeros).storage_eq
  rw [h.fillFrom_eq (by omega) (by omega)]

end Stretches

/-- **Stretching first makes no difference.** Arrays in bounds whose shapes broadcast can be
stretched to the broadcast shape, unless arithmetic traps. Whatever the calls, a traversal of the
stretched views shows what a traversal of the arrays shows, and an operation on the views comes to
what the operation on the arrays comes to: the results on the values of the arrays. -/
theorem stretching_agrees (hx : x.InBounds w) (hy : y.InBounds w)
    (hr : Shape.broadcast [x.shape, y.shape] = .ok r) :
    ((∃ vx, x.stretch r = .ok vx) ∨ ∃ t, x.stretch r = trap t)
      ∧ ((∃ vy, y.stretch r = .ok vy) ∨ ∃ t, y.stretch r = trap t)
      ∧ ∀ vx vy, x.stretch r = .ok vx → y.stretch r = .ok vy →
        (∀ target, (target = .none ∨ ∃ l, target = .own l) → ∀ calls,
            Odometer.displayAfter vx.layout vy.layout target calls
              = Odometer.displayAfter x.layout y.layout target calls)
          ∧ (∀ op, binary op vx vy w = binary op x y w)
          ∧ ∀ op z w', x.Operand w → y.Operand w → binary op vx vy w = .ok z w' →
              ComputesFresh op.eval x y z r w w' := by
  have hxr := Shape.stretchesTo_of_broadcast hr (List.mem_cons_self ..)
  have hyr := Shape.stretchesTo_of_broadcast hr
    (List.mem_cons_of_mem _ (List.mem_singleton_self _))
  refine ⟨(hx.accepted_stretch hxr).isOk_or_trap, (hy.accepted_stretch hyr).isOk_or_trap,
    fun vx vy hvx hvy => ?_⟩
  have h : Stretches x y vx vy r := ⟨hx.length_strides, hy.length_strides, hr, hvx, hvy⟩
  refine ⟨fun target ht calls => h.displayAfter_eq ht calls,
    fun op => h.binary_eq hx.inUse hy.inUse op, fun op z w' hox hoy hz => ?_⟩
  rw [h.binary_eq hx.inUse hy.inUse] at hz
  exact (hox.binary hoy op hr (room_of_binary hox hoy hr hz)).post hz

/-- A column and a reversed row, both stretched to pairs of threes, traversed to beyond the end and
added. -/
theorem stretching_agrees_column : ∃ (x y vx vy z : View) (w w' : Workspace),
    x.InBounds w ∧ y.InBounds w ∧ x.layout = ⟨[2, 1], [1, 1], 0, 1⟩ ∧ y.layout = ⟨[3], [-1], 2, 1⟩
      ∧ x.stretch [2, 3] = .ok vx ∧ y.stretch [2, 3] = .ok vy
      ∧ vx.layout = ⟨[2, 3], [1, 0], 0, 1⟩ ∧ vy.layout = ⟨[2, 3], [0, -1], 2, 1⟩
      ∧ Odometer.displayAfter x.layout y.layout .none (List.replicate 7 .next)
        = .ok ⟨[0, 0], .exhausted, ⟨2, 3, none⟩⟩
      ∧ Odometer.displayAfter vx.layout vy.layout .none (List.replicate 7 .next)
        = .ok ⟨[0, 0], .exhausted, ⟨2, 3, none⟩⟩
      ∧ binary .add x y w = .ok z w' ∧ binary .add vx vy w = .ok z w'
      ∧ (w'.cell z.storage).storage = ⟨.int8, [31, 21, 11, 32, 22, 12]⟩ := by
  let w₁ := Workspace.initial.add ⟨.int8, [1, 2]⟩
  let w := w₁.add ⟨.int8, [10, 20, 30]⟩
  let w' := w.add ⟨.int8, [31, 21, 11, 32, 22, 12]⟩
  let x : View := ⟨0, ⟨[2, 1], [1, 1], 0, 1⟩⟩
  let y : View := ⟨1, ⟨[3], [-1], 2, 1⟩⟩
  let z : View := ⟨2, ⟨[2, 3], [3, 1], 0, 1⟩⟩
  have hmadeX : ofValuesOfType [.ofInt 1, .ofInt 2] [2, 1] .int8 .initial = .ok x w₁ := by
    decide +kernel
  have hmadeY : ofValuesOfType [.ofInt 10, .ofInt 20, .ofInt 30] [3] .int8 w₁
      = .ok ⟨1, ⟨[3], [1], 0, 1⟩⟩ w := by decide +kernel
  have hflip : View.apply (.flip 0) ⟨1, ⟨[3], [1], 0, 1⟩⟩ = .ok y := rfl
  have hx : x.InBounds w :=
    (inBounds_of_ofValuesOfType hmadeX).of_extends (Workspace.extends_add _ _)
  have hy : y.InBounds w := (inBounds_of_ofValuesOfType hmadeY).apply hflip
  have hr : Shape.broadcast [x.shape, y.shape] = .ok [2, 3] := by decide +kernel
  have hvx : x.stretch [2, 3] = .ok ⟨0, ⟨[2, 3], [1, 0], 0, 1⟩⟩ := by decide +kernel
  have hvy : y.stretch [2, 3] = .ok ⟨1, ⟨[2, 3], [0, -1], 2, 1⟩⟩ := by decide +kernel
  obtain ⟨hshow, hbinary, -⟩ := (stretching_agrees hx hy hr).2.2 _ _ hvx hvy
  have hdisplay : Odometer.displayAfter x.layout y.layout .none (List.replicate 7 .next)
      = .ok ⟨[0, 0], .exhausted, ⟨2, 3, none⟩⟩ := by decide +kernel
  have hsum : binary .add x y w = .ok z w' := by decide +kernel
  exact ⟨x, y, _, _, z, w, w', hx, hy, rfl, rfl, hvx, hvy, rfl, rfl, hdisplay,
    (hshow .none (.inl rfl) _).trans hdisplay, hsum, (hbinary .add).trans hsum, rfl⟩

end View

end StridedArray
