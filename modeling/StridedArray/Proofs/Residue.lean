import StridedArray.Proofs.Built

/-!
# Layouts after many view operations

View operations are called on a layout one after the other, and some of the
calls may be refused. A refused call leaves the layout as it is
(`ViewOp.residue_of_refused`), so that what is left behind in the end is the
work of the others.

Whatever they were, the items of the layout left behind are items of the
first one, none of them coming twice (`ViewOp.exists_selects_residueAll`). A
view reaches no slot that its base does not address, and two of its
positions share a slot only if two positions of the base do.
-/

namespace StridedArray

namespace ViewOp

variable {op : ViewOp} {ops : List ViewOp} {l v : Layout}

/-! ## What one call leaves behind -/

/-- An operation is not refused once it has assigned its first field. -/
theorem accepted_finish (op : ViewOp) (l : Layout) : (op.finish l).Accepted := by
  cases op with
  | reshape shape =>
    exact (Layout.accepted_packedStrides _ _).bind fun _ _ => Outcome.refusedOnly_pure _
  | transpose i j =>
    have hexchange : (exchange l.strides i j).Accepted :=
      (Outcome.refusedOnly_subscript _).bind fun _ _ =>
        (Outcome.refusedOnly_subscript _).bind fun _ _ => Outcome.refusedOnly_pure _
    exact hexchange.bind fun _ _ => Outcome.refusedOnly_pure _
  | narrow axis start length => exact Outcome.refusedOnly_ok _
  | flip axis =>
    exact (Outcome.refusedOnly_subscript _).bind fun _ _ =>
      (Outcome.refusedOnly_signed _).bind fun _ _ => Outcome.refusedOnly_pure _

/-- What an operation makes it leaves behind. -/
theorem residue_of_ok (h : op.apply l = .ok v) : op.residue l = v := by
  obtain ⟨started, hstart, hfinish⟩ := Outcome.bind_eq_ok.mp h
  unfold residue
  simp only [hstart, hfinish]

/-- **A refused operation leaves the layout as it is.** -/
theorem residue_of_refused {e : ArrayError} (h : op.apply l = refuse e) : op.residue l = l := by
  unfold residue
  cases hstart : op.start l with
  | error fault => rfl
  | ok started =>
    -- it was refused before its first assignment, or not at all
    have hfinish : op.finish started = refuse e := by
      rw [← h, apply, hstart]
      rfl
    exact (op.accepted_finish started e hfinish).elim

/-- A call that does not trap makes what it leaves behind, or is refused and changes nothing. -/
theorem residue_of_not_trap (h : (op.apply l).isTrap = false) :
    op.apply l = .ok (op.residue l) ∨ op.residue l = l := by
  cases happly : op.apply l with
  | ok v => exact .inl (congrArg Except.ok (residue_of_ok happly).symm)
  | error fault =>
    cases fault with
    | refused e => exact .inr (residue_of_refused happly)
    | trapped t =>
      rw [happly] at h
      exact absurd h Bool.true_eq_false.mp

/-- **One call selects**: the layout left behind shows items of the layout, none of them twice. -/
theorem selects_residue (hl : l.Grounded) (hold : l.shape.Signed)
    (hnew : (op.residue l).shape.Signed) (h : (op.apply l).isTrap = false) :
    ∃ f, (op.residue l).Selects l f := by
  rcases residue_of_not_trap h with hok | hsame
  · exact selects_of_apply hl (fun _ => exact_of_signed hl hold hnew hok) hok
  · rw [hsame]
    exact ⟨id, hl.selects⟩

/-! ## What many calls leave behind -/

/-- **The layout left behind by calls** one after the other, the refused ones included. -/
def residueAll (ops : List ViewOp) (l : Layout) : Layout :=
  ops.foldl (fun l op => op.residue l) l

/-- **The calls go through**: none of them traps, and every shape on the way has signed extents. -/
def GoThrough : List ViewOp → Layout → Prop
  | [], l => l.shape.Signed
  | op :: ops, l =>
    l.shape.Signed ∧ (op.apply l).isTrap = false ∧ GoThrough ops (op.residue l)

instance decidableGoThrough : (ops : List ViewOp) → (l : Layout) → Decidable (GoThrough ops l)
  | [], l => inferInstanceAs (Decidable l.shape.Signed)
  | op :: ops, l =>
    have := decidableGoThrough ops (op.residue l)
    inferInstanceAs (Decidable (_ ∧ _ ∧ _))

theorem GoThrough.signed (h : GoThrough ops l) : l.shape.Signed := by
  cases ops with
  | nil => exact h
  | cons op ops => exact h.1

/-- **Many calls select**: each of them selects from what the calls before have left. -/
theorem exists_selects_residueAll (hl : l.Grounded) (h : GoThrough ops l) :
    ∃ f, (residueAll ops l).Selects l f := by
  induction ops generalizing l with
  | nil => exact ⟨id, hl.selects⟩
  | cons op ops ih =>
    obtain ⟨hsigned, htrap, hrest⟩ := h
    obtain ⟨f, hf⟩ := selects_residue hl hsigned hrest.signed htrap
    obtain ⟨g, hg⟩ := ih (hf.toViews.grounded hl) hrest
    exact ⟨f ∘ g, hg.trans hf⟩

end ViewOp

namespace Layout

variable {v l : Layout} {f : List Nat → List Nat}

/-- **A view reaches no slot that its base does not address.** -/
theorem Views.exists_address_eq (h : v.Views l f) {p : List Nat} (hp : v.shape.Contains p) :
    ∃ q, l.shape.Contains q ∧ l.address q = v.address p :=
  ⟨f p, h.contains p hp, (h.address_eq p hp).symm⟩

/-- **Two positions share a slot only if two of the base do**, the same one. -/
theorem Selects.exists_shared (h : v.Selects l f) {p p' : List Nat} (hp : v.shape.Contains p)
    (hp' : v.shape.Contains p') (hne : p ≠ p') (hshared : v.address p = v.address p') :
    ∃ q q', l.shape.Contains q ∧ l.shape.Contains q' ∧ q ≠ q' ∧ l.address q = v.address p
      ∧ l.address q' = v.address p :=
  ⟨f p, f p', h.contains p hp, h.contains p' hp', fun heq => hne (h.injective p p' hp hp' heq),
    (h.address_eq p hp).symm, (h.address_eq p' hp').symm.trans hshared.symm⟩

/-- **Views of views show items of their base.** However many view operations are called on a built
layout, none of them trapping: what they leave behind selects from it, no item lies below the first
slot, every slot is one of the base, and slots are shared only where the base shares them. A further
call that is refused changes nothing. -/
theorem Built.selects_residueAll {ops : List ViewOp} (hl : l.Built)
    (hitem : l.itemSlots < 0x8000000000000000) (h : ViewOp.GoThrough ops l) :
    (∃ f, (ViewOp.residueAll ops l).Selects l f)
      ∧ (∀ p, (ViewOp.residueAll ops l).shape.Contains p →
          0 ≤ (ViewOp.residueAll ops l).address p
            ∧ ∃ q, l.shape.Contains q ∧ l.address q = (ViewOp.residueAll ops l).address p)
      ∧ (∀ p p', (ViewOp.residueAll ops l).shape.Contains p →
          (ViewOp.residueAll ops l).shape.Contains p' → p ≠ p' →
          (ViewOp.residueAll ops l).address p = (ViewOp.residueAll ops l).address p' →
          ∃ q q', l.shape.Contains q ∧ l.shape.Contains q' ∧ q ≠ q'
            ∧ l.address q = (ViewOp.residueAll ops l).address p
            ∧ l.address q' = (ViewOp.residueAll ops l).address p)
      ∧ ∀ (op : ViewOp) (e : ArrayError), op.apply (ViewOp.residueAll ops l) = refuse e →
          op.residue (ViewOp.residueAll ops l) = ViewOp.residueAll ops l := by
  have hgrounded := hl.grounded hitem
  obtain ⟨f, hf⟩ := ViewOp.exists_selects_residueAll hgrounded h
  refine ⟨⟨f, hf⟩, fun p hp => ⟨?_, hf.toViews.exists_address_eq hp⟩,
    fun p p' hp hp' => hf.exists_shared hp hp', fun op e => ViewOp.residue_of_refused⟩
  exact (hf.toViews.grounded hgrounded).nonneg p hp

/-- Pairs of slots transposed, counted anew in vain, run through backwards and cut down. -/
theorem Built.selects_residueAll_transposed :
    (⟨[2, 3], [6, 2], 0, 2⟩ : Layout).Built
      ∧ ViewOp.GoThrough [.transpose 0 1, .reshape [6], .flip 0, .narrow 1 1 1]
          ⟨[2, 3], [6, 2], 0, 2⟩
      ∧ ViewOp.residueAll [.transpose 0 1, .reshape [6], .flip 0, .narrow 1 1 1]
          ⟨[2, 3], [6, 2], 0, 2⟩ = ⟨[3, 1], [-2, 6], 10, 2⟩
      ∧ ∃ f, (⟨[3, 1], [-2, 6], 10, 2⟩ : Layout).Selects ⟨[2, 3], [6, 2], 0, 2⟩ f := by
  have hmade : Layout.ofShape [2, 3] 2 = .ok ⟨[2, 3], [6, 2], 0, 2⟩ := by decide +kernel
  have hbuilt : (⟨[2, 3], [6, 2], 0, 2⟩ : Layout).Built := .ofShape (by decide) hmade
  have hleft : ViewOp.residueAll [.transpose 0 1, .reshape [6], .flip 0, .narrow 1 1 1]
      ⟨[2, 3], [6, 2], 0, 2⟩ = ⟨[3, 1], [-2, 6], 10, 2⟩ := by decide +kernel
  have hcalls : ViewOp.GoThrough [.transpose 0 1, .reshape [6], .flip 0, .narrow 1 1 1]
      ⟨[2, 3], [6, 2], 0, 2⟩ := by decide +kernel
  have hviews := (Built.selects_residueAll hbuilt (by decide) hcalls).1
  rw [hleft] at hviews
  exact ⟨hbuilt, hcalls, hleft, hviews⟩

end Layout

end StridedArray
