import StridedArray.Proofs.Walk

/-!
# What a traversal shows

Of a traversal its user sees the position, the phase and the slot indices
(`Odometer.Display`), and not how it comes by them. Traversals that were made
in different ways are all one to the user if they show the same after any
calls. They do if the one is the other up to a change of its inner workings
that is not seen (`Odometer.Unseen`) and goes along with whatever a traversal
does (`Odometer.GoesAlong`): such a change goes along with every step
(`Odometer.GoesAlong.step`), and so with every run
(`Odometer.GoesAlong.run`).
-/

namespace StridedArray.Odometer

/-! ## Displays -/

/-- **What a traversal shows.** -/
structure Display where
  /-- The current position. -/
  position : List Nat
  /-- The stage of the traversal. -/
  phase : Phase
  /-- The slot indices at the position. -/
  slots : SlotIndices
deriving DecidableEq, Repr

/-- What a traversal shows now. -/
def display (o : Odometer) : Display where
  position := o.position
  phase := o.phase
  slots := o.slots

/-- **What a new traversal shows after some calls.** -/
def displayAfter (a b : Layout) (target : Target) (calls : List Call) : Outcome Display := do
  let o ← ofLayouts a b target
  let o ← o.run calls
  return o.display

/-- A run of a traversal is never refused. -/
theorem accepted_run (o : Odometer) (calls : List Call) : (o.run calls).Accepted := by
  induction calls generalizing o with
  | nil => exact Outcome.refusedOnly_ok _
  | cons call calls ih =>
    have hcall : (call.perform o).Accepted := by
      cases call with
      | step => exact o.accepted_step.bind fun _ _ => Outcome.refusedOnly_pure _
      | next =>
        exact (o.accepted_step.bind fun _ _ => Outcome.refusedOnly_pure _).bind fun _ _ =>
          Outcome.refusedOnly_pure _
      | restart => exact Outcome.refusedOnly_ok _
    rw [run, List.foldlM_cons]
    exact hcall.bind fun o' _ => ih o'

/-! ## Changes that are not seen -/

/-- The traversal with position and indices moved on, before it is looked at whether there is a
position left. -/
def moved (o : Odometer) : Outcome Odometer := do
  let first ← o.first.step o.shape o.position
  let second ← o.second.step o.shape o.position
  let output ← o.output.step o.shape o.position
  return { o with position := (o.shape.succ o.position).2, first, second, output }

/-- The first step leads to the first position, or to the end if there is none. -/
theorem step_of_ready {o : Odometer} (h : o.phase = .ready) :
    o.step = .ok (if o.len = 0 then (o.exhaust, false) else ({ o with phase := .active }, true)) := by
  unfold step
  rw [h]
  show (if o.len = 0 then _ else _) = _
  split <;> rfl

/-- After the last position nothing changes. -/
theorem step_of_exhausted {o : Odometer} (h : o.phase = .exhausted) : o.step = .ok (o, false) := by
  unfold step
  rw [h]

/-- **A step from a position** moves on, and ends the traversal if all axes carried. -/
theorem step_of_active {o : Odometer} (h : o.phase = .active) :
    o.step = o.moved >>= fun o' =>
      .ok (if (o.shape.succ o.position).1 then (o'.exhaust, false) else (o', true)) := by
  unfold step moved
  rw [h, bind_assoc]
  refine bind_congr fun first => ?_
  rw [bind_assoc]
  refine bind_congr fun second => ?_
  rw [bind_assoc]
  rfl

/-- **A change that goes along with whatever a traversal does**: with moving on, with the end and
with a new start. Where the traversal is and at which stage is not changed. -/
structure GoesAlong (f : Odometer → Odometer) : Prop where
  /-- The shape stays. -/
  shape : ∀ o, (f o).shape = o.shape
  /-- The number of positions stays. -/
  len : ∀ o, (f o).len = o.len
  /-- The position stays. -/
  position : ∀ o, (f o).position = o.position
  /-- The stage stays. -/
  phase : ∀ o, (f o).phase = o.phase
  /-- The stage has no part in it. -/
  enter : ∀ o phase, f { o with phase } = { f o with phase }
  /-- The changed traversal moves on to the changed one. -/
  moved : ∀ o, (f o).moved = o.moved >>= fun o' => .ok (f o')
  /-- The changed traversal ends in the changed one. -/
  exhaust : ∀ o, (f o).exhaust = f o.exhaust
  /-- The changed traversal restarts to the changed one. -/
  restart : ∀ o, (f o).restart = f o.restart

namespace GoesAlong

variable {f : Odometer → Odometer}

/-- **A step of the changed traversal is the changed step.** -/
theorem step (h : GoesAlong f) (o : Odometer) :
    (f o).step = o.step >>= fun taken => .ok (f taken.1, taken.2) := by
  cases hphase : o.phase with
  | exhausted =>
    rw [step_of_exhausted ((h.phase o).trans hphase), step_of_exhausted hphase]
    rfl
  | ready =>
    rw [step_of_ready ((h.phase o).trans hphase), step_of_ready hphase]
    by_cases hempty : o.len = 0
    · rw [if_pos ((h.len o).trans hempty), if_pos hempty, h.exhaust]
      rfl
    · rw [if_neg ((h.len o).symm ▸ hempty), if_neg hempty]
      exact congrArg (fun o' => Except.ok (o', true)) (h.enter o .active).symm
  | active =>
    rw [step_of_active ((h.phase o).trans hphase), step_of_active hphase, h.moved, h.shape,
      h.position, bind_assoc, bind_assoc]
    refine bind_congr fun o' => ?_
    show Except.ok (if _ then ((f o').exhaust, false) else (f o', true))
      = Except.ok (f (if _ then (o'.exhaust, false) else (o', true)).1, _)
    split
    · rw [h.exhaust]
    · rfl

/-- A call to the changed traversal leads to the changed one. -/
theorem perform (h : GoesAlong f) (call : Call) (o : Odometer) :
    call.perform (f o) = call.perform o >>= fun o' => .ok (f o') := by
  cases call with
  | step =>
    show ((f o).step >>= fun taken => .ok taken.1) = (o.step >>= fun taken => .ok taken.1) >>= _
    rw [h.step, bind_assoc, bind_assoc]
    rfl
  | next =>
    show ((f o).step >>= _) >>= _ = (((o.step >>= _) >>= _) >>= _)
    rw [h.step, bind_assoc, bind_assoc, bind_assoc, bind_assoc]
    rfl
  | restart => exact congrArg Except.ok (h.restart o)

/-- **A run of the changed traversal leads to the changed one.** -/
theorem run (h : GoesAlong f) (o : Odometer) (calls : List Call) :
    (f o).run calls = o.run calls >>= fun o' => .ok (f o') := by
  induction calls generalizing o with
  | nil => rfl
  | cons call calls ih =>
    unfold Odometer.run at ih ⊢
    rw [List.foldlM_cons, List.foldlM_cons, h.perform, bind_assoc, bind_assoc]
    exact bind_congr fun o' => ih o'

end GoesAlong

/-- **A change to the inner workings of a traversal that is not seen.** It leaves alone what is
shown, and goes along with moving on, with the end and with a new start. -/
structure Unseen (f : Odometer → Odometer) : Prop where
  /-- The shape stays. -/
  shape : ∀ o, (f o).shape = o.shape
  /-- The number of positions stays. -/
  len : ∀ o, (f o).len = o.len
  /-- What is shown stays. -/
  display : ∀ o, (f o).display = o.display
  /-- The stage has no part in it. -/
  enter : ∀ o phase, f { o with phase } = { f o with phase }
  /-- The changed traversal moves on to the changed one. -/
  moved : ∀ o, (f o).moved = o.moved >>= fun o' => .ok (f o')
  /-- The changed traversal ends in the changed one. -/
  exhaust : ∀ o, (f o).exhaust = f o.exhaust
  /-- The changed traversal restarts to the changed one. -/
  restart : ∀ o, (f o).restart = f o.restart

namespace Unseen

variable {f : Odometer → Odometer}

theorem position (h : Unseen f) (o : Odometer) : (f o).position = o.position :=
  congrArg Display.position (h.display o)

theorem phase (h : Unseen f) (o : Odometer) : (f o).phase = o.phase :=
  congrArg Display.phase (h.display o)

theorem slots (h : Unseen f) (o : Odometer) : (f o).slots = o.slots :=
  congrArg Display.slots (h.display o)

/-- What is not seen goes along with whatever a traversal does. -/
theorem goesAlong (h : Unseen f) : GoesAlong f where
  shape := h.shape
  len := h.len
  position := h.position
  phase := h.phase
  enter := h.enter
  moved := h.moved
  exhaust := h.exhaust
  restart := h.restart

/-- **A step of the changed traversal is the changed step.** -/
theorem step (h : Unseen f) (o : Odometer) :
    (f o).step = o.step >>= fun taken => .ok (f taken.1, taken.2) :=
  h.goesAlong.step o

/-- **After any calls the changed traversal shows the same.** -/
theorem display_run (h : Unseen f) (o : Odometer) (calls : List Call) :
    ((f o).run calls >>= fun o' => .ok o'.display) = o.run calls >>= fun o' => .ok o'.display := by
  rw [h.goesAlong.run, bind_assoc]
  exact bind_congr fun o' => congrArg Except.ok (h.display o')

end Unseen

end StridedArray.Odometer
