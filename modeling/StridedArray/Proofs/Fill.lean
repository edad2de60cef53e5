import StridedArray.Proofs.Create
import StridedArray.Proofs.Overwrite

/-!
# Arithmetic stores what it says

An operation writes its output while it is still reading its operands,
which may lie in the same storage. As long as the output does not run
ahead into slots that an operand still has to be read from
(`View.StaysBehind`), it overtakes none
(`View.StaysBehind.not_overtakes`), and every result is computed from the
values that the operands had at the start. `View.Computes` is what an
operation has done in the end, however it was started, and
`View.ComputesFresh` what it has done if its result is a new array.
-/

namespace StridedArray

/-! ## Outputs that stay behind -/

namespace View

/-- **The output does not run ahead of an operand**: no slot of the output is one from which the
operand is read at a later position. -/
def StaysBehind (out x : View) : Prop :=
  ∀ p q, out.shape.Contains p → out.shape.Contains q → out.shape.ravel p < out.shape.ravel q →
    out.storage = x.storage → out.layout.address p ≠ x.layout.address (x.shape.sourceOf q)

/-- **An output that the results of an operation can be stored to** while the operands are still
being read. -/
structure Receives (out x y : View) (w : Workspace) : Prop where
  /-- The first operand. -/
  first : x.Operand w
  /-- The second operand. -/
  second : y.Operand w
  /-- The output. -/
  output : out.Operand w
  /-- The output has the broadcast shape. -/
  shape : Shape.broadcast [x.shape, y.shape] = .ok out.shape
  /-- Distinct positions of the output have distinct slots. -/
  injective : out.Injective
  /-- The output does not run ahead of the first operand. -/
  behind_first : out.StaysBehind x
  /-- The output does not run ahead of the second operand. -/
  behind_second : out.StaysBehind y

/-- **The output holds the result of the operation** on the values that the operands had at a
position. -/
def StoredAt (op : Double → Double → Double) (x y out : View) (w w' : Workspace) (p : List Nat) :
    Prop :=
  ∃ l r, x.itemAt (x.shape.sourceOf p) w = .ok l ∧ y.itemAt (y.shape.sourceOf p) w = .ok r
    ∧ w'.content out.storage (out.layout.address p).toNat
      = .ok (.ofDouble (out.elementType w').slotKind (op l r))

end View

/-! ## The ways to start an operation -/

/-- Two types without complex items meet in one without complex items. -/
theorem ElementType.isComplex_promote {s t : ElementType} (hs : s.isComplex = false)
    (ht : t.isComplex = false) : (s.promote t).isComplex = false := by
  revert hs ht
  cases s <;> cases t <;> decide

namespace View

variable {x y out : View} {w w' : Workspace}

/-- **What an operation leaves behind**: the output holds the results on the values that the
operands had, and every slot that the output does not address is as it was. -/
def Computes (op : Double → Double → Double) (x y out : View) (w w' : Workspace) : Prop :=
  (∀ p, out.shape.Contains p → StoredAt op x y out w w' p) ∧ w.AgreesOff w' out.Addresses

/-- An array with distinct slots stays behind itself. -/
theorem Injective.staysBehind (h : x.Injective) : x.StaysBehind x := by
  intro p q hp hq hbefore _ hsame
  rw [Shape.sourceOf_self hq] at hsame
  exact Nat.lt_irrefl _ (h p q hp hq hsame ▸ hbefore)

/-- An output that stays behind an operand does not overtake it. -/
theorem StaysBehind.not_overtakes (h : out.StaysBehind x) (hout : out.InBounds w)
    (hx : x.InBounds w) (hstretch : x.shape.StretchesTo out.shape) {p : List Nat}
    (hp : out.shape.Contains p) : ¬out.Overtakes x p := by
  rintro ⟨hstorage, q, hq, hbefore, hslot⟩
  have hnonneg := hout.nonneg q hq
  have hnonneg' := hx.nonneg _ (Shape.contains_sourceOf hstretch hp)
  refine h q p hq hp (Nat.lt_of_lt_of_le hbefore (x.readRank_le _ _)) hstorage ?_
  unfold sourceSlot at hslot
  omega

/-- **Storing the results of an operation.** -/
theorem Receives.fillFrom (h : out.Receives x y w) (op : Double → Double → Double) :
    Action.Achieves w (out.fillFrom x y op) fun _ w' => Computes op x y out w w' := by
  refine (h.first.fillFrom h.second h.output h.shape h.injective op).mono ?_
  rintro _ w' ⟨hstored, hothers⟩
  refine ⟨fun p hp => ?_, hothers⟩
  obtain ⟨l, r, hl, hr, hcontent⟩ := hstored p hp
  -- no operand has been overtaken, so the values at hand are those from the start
  have hfirst := h.behind_first.not_overtakes h.output.inBounds h.first.inBounds
    (Shape.stretchesTo_of_broadcast h.shape (List.mem_cons_self ..)) hp
  have hsecond := h.behind_second.not_overtakes h.output.inBounds h.second.inBounds
    (Shape.stretchesTo_of_broadcast h.shape
      (List.mem_cons_of_mem _ (List.mem_singleton_self _))) hp
  exact ⟨l, r, hl.before hfirst, hr.before hsecond, hcontent⟩

/-- The type of the result of arithmetic on real items. -/
theorem resultType_eq_ok {s t : ElementType} (hs : s.isComplex = false)
    (ht : t.isComplex = false) : resultType s t = .ok (s.promote t) := by
  unfold resultType
  rw [hs, ht]
  rfl

/-- **Storing the results of an operation in a given array.** -/
theorem Receives.binaryInto (h : out.Receives x y w) (op : BinaryOp) :
    Action.Achieves w (binaryInto op x y out) fun _ w' => Computes op.eval x y out w w' := by
  refine .get_bind ?_
  refine .lift_bind ?_ fun _ _ => h.fillFrom op.eval
  rw [resultType_eq_ok h.first.real h.second.real]
  exact Outcome.refusedOnly_ok _

/-- An item depends on its storage only. -/
theorem itemAt_of_cell_eq {p : List Nat} (h : w'.cell x.storage = w.cell x.storage) :
    x.itemAt p w' = x.itemAt p w := by
  unfold itemAt readDouble Workspace.readDouble Workspace.unlocked
  rw [h]

/-- **What an operation leaves behind in a new array**: it has the broadcast shape, the type in
which the operands meet and a storage of its own, holds the results, and no other storage has
changed. -/
structure ComputesFresh (op : Double → Double → Double) (x y z : View) (r : Shape)
    (w w' : Workspace) : Prop where
  /-- The shape is the broadcast shape. -/
  shape_eq : z.shape = r
  /-- The type is the one in which the types of the operands meet. -/
  elementType_eq : z.elementType w' = (x.elementType w).promote (y.elementType w)
  /-- The storage was not in use before. -/
  storage_eq : z.storage = w.cells.length
  /-- The array is in bounds. -/
  inBounds : z.InBounds w'
  /-- The results are stored. -/
  stored : ∀ p, r.Contains p → StoredAt op x y z w w' p
  /-- The other storages are as they were. -/
  others : w.Preserves w'

/-- An operand is still one after a new array was made. -/
theorem Operand.of_fresh {z : View} {shape : Shape} {type : ElementType} (hx : x.Operand w)
    (hz : z.Fresh shape type w w') : x.Operand w' where
  inBounds := hx.inBounds.of_extends hz.keeps
  unlocked := by
    rw [hz.cell_of_lt hx.inBounds.inUse]
    exact hx.unlocked
  real := by
    rw [elementType, Workspace.elementType, hz.cell_of_lt hx.inBounds.inUse]
    exact hx.real

/-- A new array stays behind every array from before. -/
theorem Fresh.staysBehind {z : View} {shape : Shape} {type : ElementType}
    (hz : z.Fresh shape type w w') (hx : x.storage < w.cells.length) : z.StaysBehind x := by
  intro _ _ _ _ _ hsame
  rw [hz.storage_eq] at hsame
  omega

/-- **A new array receives the results** of an operation on arrays from before. -/
theorem Fresh.receives {z : View} {shape : Shape} {type : ElementType}
    (hz : z.Fresh shape type w w') (hx : x.Operand w) (hy : y.Operand w)
    (hshape : Shape.broadcast [x.shape, y.shape] = .ok shape) (hreal : type.isComplex = false) :
    z.Receives x y w' where
  first := hx.of_fresh hz
  second := hy.of_fresh hz
  output := ⟨hz.inBounds, hz.unlocked, hz.elementType_eq ▸ hreal⟩
  shape := hz.shape_eq ▸ hshape
  injective _ _ hp hq := hz.address_injective (hz.shape_eq ▸ hp) (hz.shape_eq ▸ hq)
  behind_first := hz.staysBehind hx.inBounds.inUse
  behind_second := hz.staysBehind hy.inBounds.inUse

/-- **The results of an operation as a new array**, if the number of its bytes is an unsigned
word. -/
theorem Operand.binary {r : Shape} (hx : x.Operand w) (hy : y.Operand w) (op : BinaryOp)
    (hr : Shape.broadcast [x.shape, y.shape] = .ok r)
    (hroom : Word.IsUnsigned
      (r.count * ((x.elementType w).promote (y.elementType w)).slotBytes)) :
    Action.Achieves w (binary op x y) fun z w' => ComputesFresh op.eval x y z r w w' := by
  have hreal := ElementType.isComplex_promote hx.real hy.real
  have hslots : ((x.elementType w).promote (y.elementType w)).itemSlots = 1 := by
    unfold ElementType.itemSlots
    rw [hreal]
    rfl
  refine .get_bind ?_
  refine .lift_bind (by rw [resultType_eq_ok hx.real hy.real]; exact Outcome.refusedOnly_ok _)
    fun type htype => ?_
  obtain rfl := Except.ok.inj ((resultType_eq_ok hx.real hy.real).symm.trans htype)
  refine .lift_bind (by rw [hr]; exact Outcome.refusedOnly_ok _) fun shape hshape => ?_
  obtain rfl := Except.ok.inj (hr.symm.trans hshape)
  refine (zerosOfType_achieves (by rwa [hslots, Nat.mul_one])).bind fun z w₁ hz => ?_
  refine ((hz.receives hx hy hr hreal).fillFrom op.eval).bind fun _ w' hdone => .pure ?_
  obtain ⟨hstored, hothers⟩ := hdone
  refine
    { shape_eq := hz.shape_eq
      elementType_eq := (hothers.type_eq z.storage).trans hz.elementType_eq
      storage_eq := hz.storage_eq
      inBounds := hz.inBounds.of_extends hothers.extends
      stored := fun p hp => ?_
      others := hz.preserves.agreesOff hothers fun id index hslot => ?_ }
  · obtain ⟨a, b, ha, hb, hcontent⟩ := hstored p (hz.shape_eq.symm ▸ hp)
    refine ⟨a, b, ?_, ?_, hcontent⟩
    · rwa [itemAt_of_cell_eq (hz.cell_of_lt hx.inBounds.inUse)] at ha
    · rwa [itemAt_of_cell_eq (hz.cell_of_lt hy.inBounds.inUse)] at hb
  · rw [hslot.1, hz.storage_eq]

/-- A new array of results has room. -/
theorem room_of_binary {op : BinaryOp} {z : View} {r : Shape} (hx : x.Operand w)
    (hy : y.Operand w) (hr : Shape.broadcast [x.shape, y.shape] = .ok r)
    (h : View.binary op x y w = .ok z w') :
    Word.IsUnsigned (r.count * ((x.elementType w).promote (y.elementType w)).slotBytes) := by
  obtain ⟨type, shape, w₁, htype, hshape, hzeros, -⟩ := binary_eq_ok.mp h
  obtain rfl := Except.ok.inj ((resultType_eq_ok hx.real hy.real).symm.trans htype)
  obtain rfl := Except.ok.inj (hr.symm.trans hshape)
  have hlimit := (fresh_of_zerosOfType hzeros).addressable
  refine Nat.lt_of_le_of_lt (Nat.mul_le_mul_right _ ?_) (Nat.lt_trans hlimit (by decide))
  exact Nat.le_mul_of_pos_right _ (ElementType.itemSlots_pos _)

/-- **Arithmetic stores what it says**, unless it traps: in an output that receives the results
while the operands are still being read, in a given array, in the first operand, and in a new
array. A new array is made if the number of its bytes is an unsigned word. -/
theorem arithmetic_stores (hx : x.Operand w) (hy : y.Operand w) :
    (∀ op out, out.Receives x y w →
        Action.Achieves w (fillFrom out x y op) fun _ w' => Computes op x y out w w')
      ∧ (∀ op out, out.Receives x y w →
        Action.Achieves w (binaryInto op x y out) fun _ w' => Computes op.eval x y out w w')
      ∧ (∀ op, x.Receives x y w →
        Action.Achieves w (binaryInPlace op x y) fun _ w' => Computes op.eval x y x w w')
      ∧ ∀ op r, Shape.broadcast [x.shape, y.shape] = .ok r →
        (∀ z w', binary op x y w = .ok z w' → ComputesFresh op.eval x y z r w w')
          ∧ (Word.IsUnsigned
              (r.count * ((x.elementType w).promote (y.elementType w)).slotBytes) →
            Action.Achieves w (binary op x y) fun z w' => ComputesFresh op.eval x y z r w w') := by
  refine ⟨fun op _ h => h.fillFrom op, fun op _ h => h.binaryInto op, fun op h => h.binaryInto op,
    fun op r hr => ⟨fun z w' h => ?_, hx.binary hy op hr⟩⟩
  exact (hx.binary hy op hr (room_of_binary hx hy hr h)).post h

/-- A sequence whose items are read from the next slot on, added to itself in place, and the halves
of its items as a new array: the two is of a short format, in which bytes and numbers of that format
meet. -/
theorem arithmetic_stores_shifted : ∃ (x y two z : View) (w w' w₁ : Workspace),
    x.layout = ⟨[3], [1], 0, 1⟩ ∧ y = { x with layout := ⟨[3], [1], 1, 1⟩ }
      ∧ (w.cell x.storage).storage = ⟨.int8, [1, 2, 3, 4]⟩ ∧ x.Operand w ∧ y.Operand w
      ∧ x.Receives x y w ∧ binaryInPlace .add x y w = .ok () w'
      ∧ (w'.cell x.storage).storage = ⟨.int8, [3, 5, 7, 4]⟩
      ∧ Computes Double.add x y x w w'
      ∧ two.layout = ⟨[1], [1], 0, 1⟩
      ∧ (w.cell two.storage).storage = ⟨.float16, [0, 64]⟩ ∧ two.Operand w
      ∧ binary .div x two w = .ok z w₁ ∧ z.elementType w₁ = .float16
      ∧ z.toSlotList w₁ = .ok [⟨0x3FE0000000000000⟩, .one, ⟨0x3FF8000000000000⟩]
      ∧ ComputesFresh Double.div x two z [3] w w₁ := by
  let w₀ := Workspace.initial.add ⟨.int8, [1, 2, 3, 4]⟩
  let w := w₀.add ⟨.float16, [0, 64]⟩
  let w' := (Workspace.initial.add ⟨.int8, [3, 5, 7, 4]⟩).add ⟨.float16, [0, 64]⟩
  let w₁ := w.add ⟨.float16, [0, 56, 0, 60, 0, 62]⟩
  let x : View := ⟨0, ⟨[3], [1], 0, 1⟩⟩
  let y : View := ⟨0, ⟨[3], [1], 1, 1⟩⟩
  let two : View := ⟨1, ⟨[1], [1], 0, 1⟩⟩
  let z : View := ⟨2, ⟨[3], [1], 0, 1⟩⟩
  have hmade : ofValuesOfType [.ofInt 1, .ofInt 2, .ofInt 3, .ofInt 4] [4] .int8 .initial
      = .ok ⟨0, ⟨[4], [1], 0, 1⟩⟩ w₀ := by decide +kernel
  have htwo : ofValuesOfType [.ofInt 2] [1] .float16 w₀ = .ok two w := by decide +kernel
  have hsum : binaryInPlace .add x y w = .ok () w' := by decide +kernel
  have hhalf : binary .div x two w = .ok z w₁ := by decide +kernel
  have hslots : z.toSlotList w₁ = .ok [⟨0x3FE0000000000000⟩, .one, ⟨0x3FF8000000000000⟩] := by
    decide +kernel
  have hbounds : View.InBounds ⟨0, ⟨[4], [1], 0, 1⟩⟩ w :=
    (inBounds_of_ofValuesOfType hmade).of_extends (w₀.extends_add _)
  have hfirst : View.apply (.narrow 0 0 3) ⟨0, ⟨[4], [1], 0, 1⟩⟩ = .ok x := rfl
  have hsecond : View.apply (.narrow 0 1 3) ⟨0, ⟨[4], [1], 0, 1⟩⟩ = .ok y := rfl
  have hx : x.Operand w := ⟨hbounds.apply hfirst, rfl, rfl⟩
  have hy : y.Operand w := ⟨hbounds.apply hsecond, rfl, rfl⟩
  have hu : two.Operand w := ⟨inBounds_of_ofValuesOfType htwo, rfl, rfl⟩
  have hposition : ∀ p, Shape.Contains [3] p → ∃ i, p = [i] := by
    intro p hp
    match p, hp with
    | [i], _ => exact ⟨i, rfl⟩
  have haddress : ∀ offset i : Nat,
      (⟨[3], [1], offset, 1⟩ : Layout).address [i] = offset + i := by
    intro offset i
    simp [Layout.address, Layout.displacement]
  have hinjective : x.Injective := by
    intro p q hp hq heq
    obtain ⟨i, rfl⟩ := hposition p hp
    obtain ⟨j, rfl⟩ := hposition q hq
    rw [haddress, haddress] at heq
    rw [show i = j by omega]
  have hbehind : x.StaysBehind y := by
    intro p q hp hq hbefore _ heq
    rw [Shape.sourceOf_self (s := y.shape) hq] at heq
    obtain ⟨i, rfl⟩ := hposition p hp
    obtain ⟨j, rfl⟩ := hposition q hq
    rw [haddress, haddress] at heq
    have hlt : i * 1 + 0 < j * 1 + 0 := hbefore
    omega
  have hreceives : x.Receives x y w :=
    ⟨hx, hy, hx, rfl, hinjective, hinjective.staysBehind, hbehind⟩
  exact ⟨x, y, two, z, w, w', w₁, rfl, rfl, rfl, hx, hy, hreceives, hsum, rfl,
    ((arithmetic_stores hx hy).2.2.1 .add hreceives).post hsum, rfl, rfl, hu, hhalf, rfl, hslots,
    ((arithmetic_stores hx hu).2.2.2 .div [3] (by decide +kernel)).1 z w₁ hhalf⟩

end View

end StridedArray
