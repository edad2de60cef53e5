import StridedArray.Proofs.Conflict
import StridedArray.Proofs.Overwrite
import StridedArray.Proofs.Reachable

/-!
# Arithmetic is refused before it writes

An operation reads and writes in one loop, and a read or a write may be
refused. Still nothing is left half done. Whatever makes no sense is found
out before the loop starts. A locked storage is found out at the first
position: nothing is kept there yet, so both operands are read before the
first store, and no position is passed unless all three storages are
unlocked (`Fill.first_step`). And if they are, nothing is refused in
the whole loop (`Fill.run_underway`).

`Action.Aborts` is the judgement for it: whenever the action is refused, it
is for a reason of a certain kind and the workspace is as it was. Of two
actions in a row it holds if it holds of the first and the second is never
refused (`Action.Aborts.bind`).
-/

namespace StridedArray

/-! ## Actions that are refused without a trace -/

namespace Action

variable {α β : Type} {w : Workspace} {P : ArrayError → Prop}

/-- **Refused without a trace**: if the action is refused, it is for one of the given reasons, and
the workspace is as it was. -/
def Aborts (w : Workspace) (P : ArrayError → Prop) (x : Action α) : Prop :=
  ∀ e w', x w = .error (.refused e) w' → P e ∧ w' = w

namespace Aborts

/-- What is never refused leaves no trace of a refusal. -/
theorem of_achieves {x : Action α} {Q : α → Workspace → Prop} (hx : Achieves w x Q) :
    Aborts w P x := by
  intro e w' h
  rcases hx with ⟨a, w₁, hok, -⟩ | ⟨t, w₁, htrap⟩
  · exact nomatch hok.symm.trans h
  · exact nomatch htrap.symm.trans h

/-- An operation that does not look at the workspace leaves it as it is. -/
theorem ofOutcome {x : Outcome α} (hx : x.RefusedOnly P) : Aborts w P (Action.ofOutcome x) := by
  intro e w' h
  match x, hx, h with
  | .error (.refused e), hx, rfl => exact ⟨hx e rfl, rfl⟩

theorem pure (a : α) : Aborts w P (Pure.pure a : Action α) :=
  of_achieves (.pure (P := fun _ _ => True) trivial)

/-- A change that is refused has not been made. -/
theorem changing {f : Workspace → Outcome Workspace} (hf : (f w).RefusedOnly P) :
    Aborts w P (Action.changing f) := by
  intro e w' h
  obtain ⟨hrefused, rfl⟩ := changing_eq_error h
  exact ⟨hf e hrefused, rfl⟩

/-- **Two actions in a row**, the second of which is never refused. -/
theorem bind {x : Action α} {f : α → Action β} {Q : β → Workspace → Prop} (hx : Aborts w P x)
    (hf : ∀ a w₁, x w = .ok a w₁ → Achieves w₁ (f a) Q) : Aborts w P (x >>= f) := by
  intro e w' h
  change EStateM.bind x f w = _ at h
  unfold EStateM.bind at h
  cases hfirst : x w with
  | ok a w₁ =>
    rw [hfirst] at h
    exact (of_achieves (P := fun _ => False) (hf a w₁ hfirst) e w' h).1.elim
  | error fault w₁ =>
    rw [hfirst] at h
    obtain ⟨rfl, rfl⟩ := EStateM.Result.error.inj h
    exact hx e w₁ hfirst

/-- **An operation that does not look at the workspace**, in front of an action. -/
theorem lift_bind {x : Outcome α} {f : α → Action β} (hx : x.RefusedOnly P)
    (hf : ∀ a, x = .ok a → Aborts w P (f a)) : Aborts w P ((liftM x : Action α) >>= f) := by
  cases x with
  | ok a => exact hf a rfl
  | error fault =>
    intro e w' h
    obtain ⟨rfl, rfl⟩ := EStateM.Result.error.inj h
    exact ⟨hx e rfl, rfl⟩

/-- Looking at the workspace, in front of an action. -/
theorem get_bind {f : Workspace → Action β} (hf : Aborts w P (f w)) :
    Aborts w P ((get : Action Workspace) >>= f) :=
  hf

theorem ite {c : Prop} [Decidable c] {x y : Action α} (hx : c → Aborts w P x)
    (hy : ¬c → Aborts w P y) : Aborts w P (if c then x else y) := by
  split
  · next h => exact hx h
  · next h => exact hy h

end Aborts

end Action

/-! ## Why arithmetic is refused -/

/-- **A reason to refuse arithmetic**: complex items, shapes that do not fit, or a locked storage. -/
inductive ArithmeticFault : ArrayError → Prop
  /-- Items are complex. -/
  | unsupportedType (type : ElementType) : ArithmeticFault (.unsupportedType type)
  /-- The shapes of the operands do not broadcast. -/
  | extentConflict (axis first later : Nat) : ArithmeticFault (.extentConflict axis first later)
  /-- The output does not have the broadcast shape. -/
  | outputShape (expected got : Shape) : ArithmeticFault (.outputShape expected got)
  /-- A storage is locked. -/
  | locked : ArithmeticFault .locked

theorem View.resultType_refusedOnly (s t : ElementType) :
    (View.resultType s t).RefusedOnly ArithmeticFault :=
  .ite (fun _ => Outcome.refusedOnly_refuse.mpr (.unsupportedType s)) fun _ =>
    .ite (fun _ => Outcome.refusedOnly_refuse.mpr (.unsupportedType t)) fun _ =>
      Outcome.refusedOnly_ok _

/-- Extents are refused for a conflict only. -/
theorem Shape.commonExtent_refusedOnly (axis : Nat) (found : Option Nat) (ns : List Nat) :
    (commonExtent axis found ns).RefusedOnly ArithmeticFault := by
  induction ns generalizing found with
  | nil => exact Outcome.refusedOnly_ok _
  | cons n ns ih =>
    cases found with
    | none => exact .ite (fun _ => ih none) fun _ => ih (some n)
    | some m =>
      exact .ite (fun _ => ih (some m)) fun _ =>
        Outcome.refusedOnly_refuse.mpr (.extentConflict axis m n)

theorem Shape.broadcast_refusedOnly (shapes : List Shape) :
    (broadcast shapes).RefusedOnly ArithmeticFault := by
  have hall : (broadcastAll shapes).RefusedOnly ArithmeticFault :=
    (Outcome.RefusedOnly.mapM fun axis _ => commonExtent_refusedOnly axis none _).bind
      fun _ _ => Outcome.refusedOnly_pure _
  exact hall.bind fun _ _ => Outcome.refusedOnly_pure _

/-- **A traversal is refused for its shapes only**, those of the operands or that of the output. -/
theorem Odometer.ofLayouts_refusedOnly (a b : Layout) (target : Target) :
    (ofLayouts a b target).RefusedOnly ArithmeticFault := by
  intro e h
  rcases ofLayouts_eq_refuse.mp h with hshapes | ⟨r, -, l, -, -, rfl⟩
  · exact Shape.broadcast_refusedOnly _ e (Shape.broadcast_eq_refuse.mpr hshapes)
  · exact .outputShape r l.shape

/-! ## The first position -/

/-- **A step to a position** has moved the odometer and has both values at hand. -/
theorem Cursor.of_step_true {c : Cursor} {o : Odometer} {k : Nat}
    {readFirst readSecond : Nat → Outcome Double} (ho : o.Sound) (hc : c.odometer = o.after k)
    (h : (c.step readFirst readSecond).outcome = .ok true) :
    k < o.len ∧ (c.step readFirst readSecond).cursor.odometer = o.after (k + 1)
      ∧ (∃ first, c.first.refresh readFirst (o.after (k + 1)).slots.first = .ok first)
      ∧ ∃ second, c.second.refresh readSecond (o.after (k + 1)).slots.second = .ok second := by
  obtain ⟨o', first, second, hodometer, hfirst, hsecond, hstep⟩ := step_eq_true h
  rw [hc] at hodometer
  obtain ⟨rfl, hmoved⟩ := Odometer.step_after ho hodometer
  rw [hstep]
  exact ⟨of_decide_eq_true hmoved.symm, rfl, ⟨first, hfirst⟩, second, hsecond⟩

namespace Fill

open View

variable {op : Double → Double → Double} {x y out : View} {w : Workspace} {t : Traversal}

/-- With nothing kept, having a value at hand takes a read. -/
theorem unlocked_of_refresh {a : View} {slot : Nat} {kept : Kept}
    (h : Kept.nothing.refresh (a.readDouble · w) slot = .ok kept) :
    (w.cell a.storage).locked = false := by
  rcases Kept.refresh_eq_ok.mp h with ⟨hslot, -⟩ | ⟨-, value, hread, -⟩
  · exact nomatch hslot
  · exact Workspace.unlocked_of_readDouble hread

/-- **The first position is reached only if both operands are unlocked.** What is stored there goes
to a slot of the output. -/
theorem first_step (hout : out.InBounds w) (ht : Traversal.ofViews x y (some out) = .ok t)
    (hstep : (t.step w).outcome = .ok true) :
    (w.cell x.storage).locked = false ∧ (w.cell y.storage).locked = false
      ∧ ∃ slot < w.slotCount out.storage, (t.after (t.step w)).store = out.writeDouble slot := by
  obtain ⟨o, rfl, htracks, hsound, hready⟩ := Traversal.tracks_of_ofViews ht
  obtain ⟨hk, hcursor, ⟨first, hfirst⟩, second, hsecond⟩ :=
    Cursor.of_step_true hsound hready hstep
  refine ⟨unlocked_of_refresh hfirst, unlocked_of_refresh hsecond,
    (out.layout.address (o.shape.unravel 0)).toNat, hout.slot_lt_of_contains ?_, ?_⟩
  · rw [show out.shape = o.shape from
      htracks.output_shape _ (Target.layout?_ofView x y (some out))]
    exact Shape.contains_unravel (htracks.len ▸ hk)
  · funext value
    unfold Traversal.store Traversal.after
    rw [show (Traversal.step _ w).cursor.odometer = o.after 1 from hcursor,
      hout.output_slot htracks hk]

/-- **The loop is refused without a trace**, and only for a locked storage: at its first position,
or nowhere. -/
theorem aborts_fill (hx : x.InBounds w) (hy : y.InBounds w) (hout : out.InBounds w)
    (hrealFirst : (x.elementType w).isComplex = false)
    (hrealSecond : (y.elementType w).isComplex = false)
    (hrealOutput : (out.elementType w).isComplex = false)
    (ht : Traversal.ofViews x y (some out) = .ok t) :
    Action.Aborts w ArithmeticFault (t.fill op) := by
  by_cases hunlocked : (w.cell x.storage).locked = false ∧ (w.cell y.storage).locked = false
      ∧ (w.cell out.storage).locked = false
  · obtain ⟨hfirst, hsecond, houtput⟩ := hunlocked
    obtain ⟨o, hcursor, hready, hunderway⟩ := ready_of_ofViews ⟨hx, hfirst, hrealFirst⟩
      ⟨hy, hsecond, hrealSecond⟩ ⟨hout, houtput, hrealOutput⟩ ht
    unfold Traversal.fill
    rw [hcursor]
    exact .of_achieves (run_underway hready hunderway)
  · have hreads : (t.step w).outcome.RefusedOnly ArithmeticFault :=
      (Traversal.Runs.step_refusedOnly_locked hx hy
        (fun z hz => Option.some.inj hz ▸ hout) ht .start).mono fun e he => he ▸ .locked
    refine .get_bind (.lift_bind hreads fun moved hmoved => ?_)
    cases moved with
    | false => exact .pure ()
    | true =>
      obtain ⟨hfirst, hsecond, slot, hslot, hstore⟩ := first_step hout ht hmoved
      rw [if_pos rfl, hstore]
      refine .bind (Q := fun _ _ => True) (.changing ?_) fun _ w₁ hok => ?_
      · exact (Workspace.writeDouble_refusedOnly_locked hslot).mono fun e he => he ▸ .locked
      · -- the store would be one to a storage that is locked
        have hwrite := Action.changing_eq_ok.mp hok
        exact absurd ⟨hfirst, hsecond, Workspace.unlocked_of_writeDouble hwrite⟩ hunlocked

end Fill

/-! ## Whole operations -/

namespace View

variable {x y out : View} {w : Workspace}

/-- A type for which a result type exists is not complex. -/
theorem real_of_resultType {s t type : ElementType} (h : resultType s t = .ok type) :
    s.isComplex = false ∧ t.isComplex = false := by
  unfold resultType at h
  by_cases hs : s.isComplex = true
  · rw [if_pos hs] at h
    exact (refuse_ne_ok _ _ h).elim
  by_cases ht : t.isComplex = true
  · rw [if_neg hs, if_pos ht] at h
    exact (refuse_ne_ok _ _ h).elim
  · exact ⟨Bool.eq_false_iff.mpr hs, Bool.eq_false_iff.mpr ht⟩

/-- **An operation with a given output is refused without a trace.** -/
theorem InBounds.aborts_binaryInto (hx : x.InBounds w) (hy : y.InBounds w)
    (hout : out.InBounds w) (op : BinaryOp) :
    Action.Aborts w ArithmeticFault (binaryInto op x y out) := by
  refine .get_bind (.lift_bind (resultType_refusedOnly _ _) fun type htype => ?_)
  obtain ⟨hrealFirst, hrealSecond⟩ := real_of_resultType htype
  refine .get_bind (.ite (fun _ => ?_) fun hreal => ?_)
  · exact .ofOutcome (Outcome.refusedOnly_refuse.mpr (.unsupportedType _))
  · refine .lift_bind ?_ fun t ht =>
      Fill.aborts_fill hx hy hout hrealFirst hrealSecond (Bool.eq_false_iff.mpr hreal) ht
    exact (Odometer.ofLayouts_refusedOnly _ _ _).bind fun _ _ => Outcome.refusedOnly_pure _

/-- **Arithmetic that is refused has written nothing**, whatever storages its arrays share and
whichever of them are locked, and it is refused only for complex items, for shapes that do not fit,
and for a locked storage. -/
theorem refused_arithmetic_unchanged (hx : x.InBounds w) (hy : y.InBounds w)
    (hout : out.InBounds w) (op : BinaryOp) :
    (∀ e w', binaryInto op x y out w = .error (.refused e) w' → ArithmeticFault e ∧ w' = w)
      ∧ ∀ e w', binaryInPlace op x y w = .error (.refused e) w' → ArithmeticFault e ∧ w' = w :=
  ⟨hx.aborts_binaryInto hy hout op, hx.aborts_binaryInto hy hx op⟩

/-- A sum that is to go to a locked storage: both operands can be read, and nothing is stored. -/
theorem refused_arithmetic_unchanged_locked : ∃ (x out : View) (w w' : Workspace),
    x.InBounds w ∧ out.InBounds w ∧ (w.cell x.storage).locked = false
      ∧ (w.cell out.storage).locked = true
      ∧ binaryInto .add x x out w = .error (.refused .locked) w' ∧ w' = w := by
  let w₁ := Workspace.initial.add ⟨.int8, [1, 2, 3]⟩
  let w₂ := w₁.add ⟨.int8, [0, 0, 0]⟩
  let w : Workspace :=
    { w₂ with cells := [⟨⟨.int8, [1, 2, 3]⟩, false⟩, ⟨⟨.int8, [0, 0, 0]⟩, true⟩] }
  let x : View := ⟨0, ⟨[3], [1], 0, 1⟩⟩
  let out : View := ⟨1, ⟨[3], [1], 0, 1⟩⟩
  have hfirst : ofValuesOfType [.ofInt 1, .ofInt 2, .ofInt 3] [3] .int8 .initial = .ok x w₁ := by
    decide +kernel
  have hsecond : zerosOfType [3] .int8 w₁ = .ok out w₂ := by decide +kernel
  have hlock : w₂.Extends w := by
    refine ⟨Nat.le_refl 2, fun id hid => ?_, fun id hid => ?_⟩
    · match id, hid with
      | 0, _ | 1, _ => rfl
    · match id, hid with
      | 0, _ | 1, _ => rfl
  have hx : x.InBounds w :=
    (inBounds_of_ofValuesOfType hfirst).of_extends ((w₁.extends_add _).trans hlock)
  have hout : out.InBounds w := (inBounds_of_zerosOfType hsecond).of_extends hlock
  have hrefused : binaryInto .add x x out w = .error (.refused .locked) w := by decide +kernel
  exact ⟨x, out, w, w, hx, hout, rfl, rfl, hrefused,
    ((refused_arithmetic_unchanged hx hx hout .add).1 _ _ hrefused).2⟩

end View

end StridedArray
