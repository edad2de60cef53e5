import StridedArray.Route

/-!
# The odometer

An **odometer** goes through the positions of a broadcast shape in
row-major order and keeps, for two operands and perhaps an output, the
slot index of the item at the current position. It does not compute
these indices afresh. A step counts up the last coordinate and adds the
stride of that axis. A coordinate that reaches its extent goes back to
zero, its rewind is subtracted, and the step carries on to the next
slower axis.

The odometer starts **ready**, before the first position. The first step
makes it **active** and leaves the indices where they are, at the first
items. The step from the last position on makes it **exhausted**: every
index stands past the end of its route, and further steps change
nothing. `restart` makes it ready again.

An output may be one of the two operands; then it has no index of its
own and shows that of the operand.
-/

namespace StridedArray

/-- **Where the output of a traversal goes.** -/
inductive Target where
  /-- There is no output. -/
  | none
  /-- To the first operand. -/
  | first
  /-- To the second operand. -/
  | second
  /-- To an array of its own. -/
  | own (layout : Layout)
deriving DecidableEq, Repr

/-- **The stage of a traversal.** -/
inductive Phase where
  /-- Before the first position. -/
  | ready
  /-- At a position. -/
  | active
  /-- After the last position. -/
  | exhausted
deriving DecidableEq, Repr

namespace Shape

/-- **The position after a position** in row-major order, and whether every coordinate went back to
zero. -/
def succ : Shape → List Nat → Bool × List Nat
  | n :: s, c :: p =>
    match succ s p with
    | (false, p) => (false, c :: p)
    | (true, p) => if c + 1 < n then (false, (c + 1) :: p) else (true, 0 :: p)
  | _, p => (true, p)

/-- The first position of a shape: the origin. -/
def origin (s : Shape) : List Nat :=
  List.replicate s.length 0

end Shape

namespace Route

/-- **One step of a running index** away from the position `p`: the axes that carry are rewound,
and the stride of the first axis that does not is added. The truth value says whether all axes
carried. -/
def roll : Shape → List Nat → List Int → List Int → Int → Outcome (Bool × Int)
  | n :: shape, c :: p, stride :: strides, rewind :: rewinds, index => do
    let (carried, index) ← roll shape p strides rewinds index
    if carried then
      let index ← Word.signed (index + stride)
      if c + 1 < n then
        return (false, index)
      else
        let index ← Word.signed (index - rewind)
        return (true, index)
    else
      return (false, index)
  | _, _, _, _, index => .ok (true, index)

end Route

/-- **An operand under way**: its route and the running slot index, a signed word. -/
structure Lane where
  /-- The route of the operand. -/
  route : Route
  /-- The slot index at the current position. -/
  index : Int
deriving DecidableEq, Repr

namespace Lane

/-- The operand before the first position. -/
def ofRoute (route : Route) : Lane :=
  { route, index := Word.toSigned route.start }

/-- The operand back before the first position. -/
def restart (lane : Lane) : Lane :=
  ofRoute lane.route

/-- The operand after the last position. -/
def finish (lane : Lane) : Lane :=
  { lane with index := Word.toSigned lane.route.pastEnd }

/-- The operand one step on from the position `p`. -/
def step (lane : Lane) (shape : Shape) (p : List Nat) : Outcome Lane := do
  let (_, index) ← Route.roll shape p lane.route.strides lane.route.rewinds lane.index
  return { lane with index }

/-- The running index as it is shown, an unsigned word. -/
def slot (lane : Lane) : Nat :=
  Word.toUnsigned lane.index

end Lane

/-- **The output under way.** -/
inductive OutputLane where
  /-- There is no output. -/
  | none
  /-- The output is the first operand. -/
  | first
  /-- The output is the second operand. -/
  | second
  /-- The output moves by itself. -/
  | own (lane : Lane)
deriving DecidableEq, Repr

namespace OutputLane

/-- Applies a change to an output that moves by itself. -/
def map (change : Lane → Lane) : OutputLane → OutputLane
  | own lane => own (change lane)
  | other => other

/-- The output one step on from the position `p`. -/
def step (shape : Shape) (p : List Nat) : OutputLane → Outcome OutputLane
  | own lane => do
    let lane ← lane.step shape p
    return own lane
  | other => .ok other

/-- The route of an output that moves by itself. -/
def route? : OutputLane → Option Route
  | own lane => some lane.route
  | _ => Option.none

end OutputLane

/-- **The slot indices at one position.** -/
structure SlotIndices where
  /-- The index of the first operand. -/
  first : Nat
  /-- The index of the second operand. -/
  second : Nat
  /-- The index of the output, if there is one. -/
  output : Option Nat
deriving DecidableEq, Repr

/-- **A traversal of the broadcast shape of two operands.** -/
structure Odometer where
  /-- The broadcast shape. -/
  shape : Shape
  /-- The number of positions. -/
  len : Nat
  /-- The current position. -/
  position : List Nat
  /-- The first operand. -/
  first : Lane
  /-- The second operand. -/
  second : Lane
  /-- The output. -/
  output : OutputLane
  /-- The stage of the traversal. -/
  phase : Phase
deriving DecidableEq, Repr

namespace Odometer

/-- Refuses an output that does not have the broadcast shape. -/
def checkOutput (broadcast output : Shape) : Outcome Unit :=
  if broadcast = output then .ok () else refuse (.outputShape broadcast output)

/-- The output before the first position, once its shape has been checked. -/
def outputLane (shape : Shape) (a b : Layout) : Target → Outcome OutputLane
  | .none => .ok .none
  | .first => do
    checkOutput shape a.shape
    return .first
  | .second => do
    checkOutput shape b.shape
    return .second
  | .own layout => do
    checkOutput shape layout.shape
    let route ← Route.ofLayout layout shape
    return .own (.ofRoute route)

/-- **The traversal of two layouts** and an output, before the first position. -/
def ofLayouts (a b : Layout) (target : Target) : Outcome Odometer := do
  let shape ← Shape.broadcast [a.shape, b.shape]
  let output ← outputLane shape a b target
  let first ← Route.ofLayout a shape
  let second ← Route.ofLayout b shape
  let len ← shape.size
  return {
    shape, len, output
    position := shape.origin
    first := .ofRoute first
    second := .ofRoute second
    phase := .ready }

/-- **The traversal before the first position again.** -/
def restart (o : Odometer) : Odometer :=
  { o with
    position := o.shape.origin
    first := o.first.restart
    second := o.second.restart
    output := o.output.map Lane.restart
    phase := .ready }

/-- The traversal after the last position. -/
def exhaust (o : Odometer) : Odometer :=
  { o with
    first := o.first.finish
    second := o.second.finish
    output := o.output.map Lane.finish
    phase := .exhausted }

/-- **One step.** The truth value says whether there is a position to be at. -/
def step (o : Odometer) : Outcome (Odometer × Bool) :=
  match o.phase with
  | .exhausted => .ok (o, false)
  | .ready =>
    if o.len = 0 then .ok (o.exhaust, false) else .ok ({ o with phase := .active }, true)
  | .active => do
    let (wrapped, position) := o.shape.succ o.position
    let first ← o.first.step o.shape o.position
    let second ← o.second.step o.shape o.position
    let output ← o.output.step o.shape o.position
    let moved := { o with position, first, second, output }
    return if wrapped then (moved.exhaust, false) else (moved, true)

/-- Whether there is no position to go through. -/
def isEmpty (o : Odometer) : Bool :=
  o.len = 0

/-- The number of axes. -/
def rank (o : Odometer) : Nat :=
  o.shape.length

/-- Whether the traversal is over. -/
def isOver (o : Odometer) : Bool :=
  o.phase = .exhausted

/-- **The slot indices at the current position.** -/
def slots (o : Odometer) : SlotIndices where
  first := o.first.slot
  second := o.second.slot
  output :=
    match o.output with
    | .none => none
    | .first => some o.first.slot
    | .second => some o.second.slot
    | .own lane => some lane.slot

/-- The slot indices at the next position, if there is one. -/
def next? (o : Odometer) : Outcome (Odometer × Option SlotIndices) := do
  let (o, moved) ← o.step
  return (o, if moved then some o.slots else none)

end Odometer

end StridedArray
