import StridedArray.Proofs.Fill

/-!
# Arithmetic in place on views of one storage

An operation in place writes over its first operand, and its second operand
may be another view of the same storage. Nothing keeps the two apart: what
has been written is what later positions read. The results are those on the
values from before the operation wherever the first operand has not
overtaken the second (`View.Overtakes`). Where it has, the value read of
the second is the one that is there after the operation.

The first operand itself is always read as it was
(`View.Injective.not_overtakes`), since every position writes its own slot
after reading it.
-/

namespace StridedArray.View

variable {x y : View} {w w' : Workspace}

/-- Positions of a row-major array have distinct slots. -/
theorem injective_of_packed (hs : x.shape.Signed)
    (h : Layout.packedStrides x.layout.itemSlots x.shape = .ok x.layout.strides)
    (hitem : 0 < x.layout.itemSlots) : x.Injective := by
  intro p q hp hq heq
  rw [Layout.address_packed hs h hp, Layout.address_packed hs h hq] at heq
  have hrank : (x.layout.itemSlots : Int) * x.shape.ravel p
      = x.layout.itemSlots * x.shape.ravel q := Int.add_left_cancel heq
  exact Shape.ravel_injective hp hq
    (Int.ofNat.inj (Int.eq_of_mul_eq_mul_left (by omega) hrank))

/-- An array with distinct slots does not overtake itself. -/
theorem Injective.not_overtakes (h : x.Injective) (hx : x.InBounds w) {p : List Nat}
    (hp : x.shape.Contains p) : ¬x.Overtakes x p :=
  h.staysBehind.not_overtakes hx hx (.refl x.shape) hp

/-- **What an operation in place leaves behind**: at every position the result on the value that the
first operand had there and on the value of the second that was at hand. -/
structure ComputesInPlace (op : Double → Double → Double) (x y : View) (w w' : Workspace) :
    Prop where
  /-- The results are stored. -/
  stored : ∀ p, x.shape.Contains p → ∃ l r, x.itemAt p w = .ok l ∧ AtHand y x w w' p r
    ∧ w'.content x.storage (x.layout.address p).toNat
      = .ok (.ofDouble (x.elementType w).slotKind (op l r))
  /-- Every slot that the first operand does not address is as it was. -/
  others : w.AgreesOff w' x.Addresses

/-- Results on the values at hand, stored in the first operand. -/
theorem ComputesFrom.inPlace {op : Double → Double → Double} (h : ComputesFrom op x y x w w')
    (hx : x.InBounds w) (hinjective : x.Injective) : ComputesInPlace op x y w w' := by
  obtain ⟨hstored, hothers⟩ := h
  refine ⟨fun p hp => ?_, hothers⟩
  obtain ⟨l, r, hl, hr, hcontent⟩ := hstored p hp
  have hbefore := hl.before (hinjective.not_overtakes hx hp)
  have htype : x.elementType w' = x.elementType w := hothers.type_eq x.storage
  rw [Shape.sourceOf_self hp] at hbefore
  rw [htype] at hcontent
  exact ⟨l, r, hbefore, hr, hcontent⟩

/-- An array over the storage of an operand is an operand. -/
theorem Operand.of_storage_eq (hx : x.Operand w) (hy : y.InBounds w)
    (hstorage : y.storage = x.storage) : y.Operand w where
  inBounds := hy
  unlocked := by rw [hstorage]; exact hx.unlocked
  real := by rw [elementType, hstorage]; exact hx.real

/-- **Arithmetic in place on views of one storage** has a result unless it traps: at every position
the operation on the value from before and on the value of the second operand at hand, which is the
one from before unless the first operand has overtaken the second there, and then the one from
after. -/
theorem binaryInPlace_shared (hx : x.Operand w) (hinjective : x.Injective) (hy : y.InBounds w)
    (hstorage : y.storage = x.storage)
    (hshape : Shape.broadcast [x.shape, y.shape] = .ok x.shape) (op : BinaryOp) :
    Action.Achieves w (binaryInPlace op x y) fun _ w' => ComputesInPlace op.eval x y w w' := by
  have hy' := hx.of_storage_eq hy hstorage
  refine .get_bind (.lift_bind ?_ fun type _ => ?_)
  · rw [resultType_eq_ok hx.real hy'.real]
    exact Outcome.refusedOnly_ok _
  · exact (hx.fillFrom hy' hx hshape hinjective op.eval).mono
      fun _ w' hdone => hdone.inPlace hx.inBounds hinjective

/-- A sequence of three numbers. -/
theorem operand_sequence :
    (⟨0, ⟨[3], [1], 0, 1⟩⟩ : View).Operand (Workspace.initial.add ⟨.int8, [1, 2, 3]⟩)
      ∧ (⟨0, ⟨[3], [1], 0, 1⟩⟩ : View).Injective := by
  have hmade : ofValuesOfType [.ofInt 1, .ofInt 2, .ofInt 3] [3] .int8 .initial
      = .ok ⟨0, ⟨[3], [1], 0, 1⟩⟩ (Workspace.initial.add ⟨.int8, [1, 2, 3]⟩) := by
    decide +kernel
  exact ⟨⟨inBounds_of_ofValuesOfType hmade, rfl, rfl⟩,
    injective_of_packed (by decide +kernel) (by decide +kernel) (by decide)⟩

/-- A sequence to which it is added backwards: the last position reads what the first one has
written. -/
theorem binaryInPlace_shared_reversed : ∃ (x y : View) (w w' : Workspace),
    x.layout = ⟨[3], [1], 0, 1⟩ ∧ x.apply (.flip 0) = .ok y ∧ x.Operand w ∧ x.Injective
      ∧ y.InBounds w ∧ (w.cell x.storage).storage = ⟨.int8, [1, 2, 3]⟩
      ∧ binaryInPlace .add x y w = .ok () w'
      ∧ (w'.cell x.storage).storage = ⟨.int8, [4, 4, 7]⟩
      ∧ ComputesInPlace Double.add x y w w' := by
  let w := Workspace.initial.add ⟨.int8, [1, 2, 3]⟩
  let w' := Workspace.initial.add ⟨.int8, [4, 4, 7]⟩
  let x : View := ⟨0, ⟨[3], [1], 0, 1⟩⟩
  let y : View := ⟨0, ⟨[3], [-1], 2, 1⟩⟩
  obtain ⟨hx, hinjective⟩ : x.Operand w ∧ x.Injective := operand_sequence
  have hsum : binaryInPlace .add x y w = .ok () w' := by decide +kernel
  have hflip : x.apply (.flip 0) = .ok y := by decide +kernel
  have hy : y.InBounds w := hx.inBounds.apply hflip
  exact ⟨x, y, w, w', rfl, hflip, hx, hinjective, hy, rfl, hsum, rfl,
    (binaryInPlace_shared hx hinjective hy rfl rfl .add).post hsum⟩

/-- **An operation in place is not the one on the values from before**: a sequence to which it is
added backwards holds another sum at its end. -/
theorem binaryInPlace_reads_back : ∃ (x y : View) (w w' : Workspace),
    x.Operand w ∧ x.Injective ∧ x.apply (.flip 0) = .ok y ∧ y.InBounds w
      ∧ Shape.broadcast [x.shape, y.shape] = .ok x.shape
      ∧ binaryInPlace .add x y w = .ok () w'
      ∧ ¬∀ p, x.shape.Contains p → StoredAt Double.add x y x w w' p := by
  let w := Workspace.initial.add ⟨.int8, [1, 2, 3]⟩
  let w' := Workspace.initial.add ⟨.int8, [4, 4, 7]⟩
  let x : View := ⟨0, ⟨[3], [1], 0, 1⟩⟩
  let y : View := ⟨0, ⟨[3], [-1], 2, 1⟩⟩
  obtain ⟨hx, hinjective⟩ : x.Operand w ∧ x.Injective := operand_sequence
  have hsum : binaryInPlace .add x y w = .ok () w' := by decide +kernel
  have hflip : x.apply (.flip 0) = .ok y := by decide +kernel
  refine ⟨x, y, w, w', hx, hinjective, hflip, hx.inBounds.apply hflip, rfl, hsum, fun hall => ?_⟩
  obtain ⟨l, r, hl, hr, hcontent⟩ := hall [2] ⟨by decide, trivial⟩
  obtain rfl : Double.ofInt 3 = l :=
    Except.ok.inj ((show x.itemAt [2] w = .ok (.ofInt 3) by decide +kernel).symm.trans hl)
  obtain rfl : Double.ofInt 1 = r :=
    Except.ok.inj ((show y.itemAt [2] w = .ok (.ofInt 1) by decide +kernel).symm.trans hr)
  revert hcontent
  decide +kernel

end StridedArray.View
