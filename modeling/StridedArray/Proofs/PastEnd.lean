import StridedArray.Proofs.ViewOp

/-!
# Past the end of a route

Once a traversal is over, an operand shows a slot index **past the end**
of its route. Where the axes of its layout are steady, this index is
beyond every slot of every item on the route (`Route.Leads.le_pastEnd`).
It exists if the words on the way to it do (`Route.exists_pastEndOf`). It
need not be beyond the storage: a layout may cover a part of one only.
-/

namespace StridedArray.Route

/-! ## Steady axes -/

/-- Axes put in front, of extent 1, are steady. -/
theorem steadyAxes_padLeft {s : Shape} {strides : List Int} (padding : Nat)
    (h : Layout.SteadyAxes s strides) :
    Layout.SteadyAxes (padLeft padding 1 s) (padLeft padding 0 strides) := by
  induction padding with
  | zero => exact h
  | succ padding ih => exact .cons (.inr rfl) ih

/-- **Stretching keeps the axes steady**: an axis that is repeated does not move. -/
theorem steadyAxes_stretchStrides {extents shape : Shape} {natives : List Int}
    (h : List.Forall₂ (fun m n => m = n ∨ m = 1) extents shape)
    (haxes : Layout.SteadyAxes extents natives) :
    Layout.SteadyAxes shape (stretchStrides extents natives shape) := by
  induction h generalizing natives with
  | nil => exact .nil
  | @cons m n extents shape hmn _ ih =>
    cases haxes with
    | @cons _ native _ natives haxis hrest =>
      refine .cons ?_ (ih hrest)
      by_cases hrepeat : m = 1 ∧ 1 < n
      · exact .inr (if_pos hrepeat)
      · rw [if_neg hrepeat]
        exact haxis.imp_left fun hm => by omega

/-- The axes of a route are steady if those of its layout are. -/
theorem Leads.steadyAxes {r : Route} {l : Layout} {shape : Shape} (h : r.Leads l shape)
    (haxes : Layout.SteadyAxes l.shape l.strides) : Layout.SteadyAxes shape r.strides := by
  rw [h.strides_eq]
  exact steadyAxes_stretchStrides h.stretches (steadyAxes_padLeft _ haxes)

/-! ## The slot past the end -/

/-- **The span in machine words is the way up to the highest item.** -/
theorem span_eq_ok {shape : Shape} {strides : List Int} {total reach : Int}
    (haxes : Layout.SteadyAxes shape strides) (h : span strides shape total = .ok reach) :
    reach = total + Layout.greatestShift shape strides := by
  induction haxes generalizing total with
  | nil =>
    obtain rfl := Except.ok.inj h
    exact (Int.add_zero total).symm
  | @cons n s shape strides haxis _ ih =>
    obtain ⟨steps, hsteps, h⟩ := Outcome.bind_eq_ok.mp h
    obtain ⟨-, hsteps⟩ := Word.signed_eq_ok.mp hsteps
    obtain ⟨sweep, hsweep, h⟩ := Outcome.bind_eq_ok.mp h
    obtain ⟨-, rfl⟩ := Word.signed_eq_ok.mp hsweep
    obtain ⟨next, hnext, h⟩ := Outcome.bind_eq_ok.mp h
    obtain ⟨-, rfl⟩ := Word.signed_eq_ok.mp hnext
    rw [ih h, Layout.greatestShift, hsteps, Layout.mul_toSigned_sub_one haxis, Int.add_assoc]

/-- **The way up to the highest item can be added up** if it is a signed word. -/
theorem exists_span {shape : Shape} {strides : List Int} {total : Int}
    (haxes : Layout.Walkable shape strides) (htotal : 0 ≤ total)
    (hreach : total + Layout.greatestShift shape strides < 0x8000000000000000) :
    ∃ reach, span strides shape total = .ok reach := by
  induction haxes generalizing total with
  | nil => exact ⟨total, rfl⟩
  | @cons n s shape strides haxis _ ih =>
    have hshift := Layout.greatestShift_nonneg shape strides
    rw [Layout.greatestShift] at hreach
    have hreached : Word.signed (s * ((n : Int) - 1)) = .ok (s * (n - 1)) :=
      Word.signed_eq_ok.mpr ⟨haxis.2, rfl⟩
    have hnext : Word.signed (total + max (s * ((n : Int) - 1)) 0)
        = .ok (total + max (s * (n - 1)) 0) := Word.signed_of_mem (by omega) (by omega)
    obtain ⟨reach, hspan⟩ : ∃ reach, span strides shape (total + max (s * (n - 1)) 0) = .ok reach :=
      ih (by omega) (by omega)
    exact ⟨reach, Outcome.bind_eq_ok.mpr ⟨_, Layout.signed_steps haxis.1, Outcome.bind_eq_ok.mpr
      ⟨_, hreached, Outcome.bind_eq_ok.mpr ⟨_, hnext, hspan⟩⟩⟩⟩

/-- **There is a slot past the end** if the greatest rewind and the end of the highest item are
signed words. -/
theorem exists_pastEndOf {start itemSlots : Nat} {strides rewinds : List Int} {shape : Shape}
    (haxes : Layout.Walkable shape strides) (hswept : Word.IsSigned (start + greatest rewinds))
    (hreach : (start : Int) + Layout.greatestShift shape strides + itemSlots
      < 0x8000000000000000) :
    ∃ pastEnd, pastEndOf start itemSlots strides rewinds shape = .ok pastEnd := by
  have hshift := Layout.greatestShift_nonneg shape strides
  unfold pastEndOf
  by_cases hrank : shape = []
  · rw [if_pos hrank]
    have hword : Word.IsUnsigned (start + itemSlots) := by
      unfold Word.IsUnsigned
      omega
    exact ⟨_, Word.unsigned_eq_ok.mpr ⟨hword, rfl⟩⟩
  · obtain ⟨reach, hspan⟩ := exists_span haxes (Int.le_refl 0) (by omega)
    have hreached : reach = Layout.greatestShift shape strides := by
      rw [span_eq_ok haxes.steadyAxes hspan, Int.zero_add]
    have hfurthest : Word.signed ((start : Int) + reach) = .ok (start + reach) :=
      Word.signed_of_mem (by omega) (by omega)
    have hpast : Word.signed ((start : Int) + reach + itemSlots)
        = .ok (start + reach + itemSlots) := Word.signed_of_mem (by omega) (by omega)
    rw [if_neg hrank, Word.toSigned_of_lt (by omega), Word.toSigned_of_lt (by omega)]
    exact ⟨_, Outcome.bind_eq_ok.mpr ⟨reach, hspan, Outcome.bind_eq_ok.mpr
      ⟨_, Word.signed_eq_ok.mpr ⟨hswept, rfl⟩, Outcome.bind_eq_ok.mpr ⟨_, hfurthest,
        Outcome.bind_eq_ok.mpr ⟨_, hpast, rfl⟩⟩⟩⟩⟩

/-- **The slot past the end lies beyond the highest item.** -/
theorem le_pastEndOf {start itemSlots pastEnd : Nat} {strides rewinds : List Int} {shape : Shape}
    (hstart : start < 0x8000000000000000) (hitem : itemSlots < 0x8000000000000000)
    (haxes : Layout.SteadyAxes shape strides)
    (h : pastEndOf start itemSlots strides rewinds shape = .ok pastEnd) :
    (start : Int) + Layout.greatestShift shape strides + itemSlots ≤ pastEnd := by
  unfold pastEndOf at h
  by_cases hrank : shape = []
  · rw [if_pos hrank] at h
    obtain ⟨-, rfl⟩ := Word.unsigned_eq_ok.mp h
    subst hrank
    show (start : Int) + 0 + itemSlots ≤ ((start + itemSlots : Nat) : Int)
    omega
  · rw [if_neg hrank, Word.toSigned_of_lt hstart, Word.toSigned_of_lt hitem] at h
    obtain ⟨reach, hreach, h⟩ := Outcome.bind_eq_ok.mp h
    obtain ⟨swept, hswept, h⟩ := Outcome.bind_eq_ok.mp h
    obtain ⟨furthest, hfurthest, h⟩ := Outcome.bind_eq_ok.mp h
    obtain ⟨past, hpast, h⟩ := Outcome.bind_eq_ok.mp h
    obtain rfl := Except.ok.inj h
    obtain ⟨⟨-, hswept⟩, rfl⟩ := Word.signed_eq_ok.mp hswept
    obtain ⟨-, rfl⟩ := Word.signed_eq_ok.mp hfurthest
    obtain ⟨⟨-, hpast⟩, rfl⟩ := Word.signed_eq_ok.mp hpast
    have hspan : reach = Layout.greatestShift shape strides := by
      rw [span_eq_ok haxes hreach, Int.zero_add]
    have hnonneg := Layout.greatestShift_nonneg shape strides
    -- the greater of two signed words, of which one is not negative, keeps its value
    rw [Word.toUnsigned_of_nonneg (by omega) (by omega)]
    omega

/-- **The slot past the end lies beyond every item on the route.** -/
theorem Leads.le_pastEnd {r : Route} {l : Layout} {shape : Shape} {p : List Nat}
    (h : r.Leads l shape) (hl : l.Grounded) (haxes : Layout.SteadyAxes l.shape l.strides)
    (hp : shape.Contains p) : r.address p + r.itemSlots ≤ r.pastEnd := by
  have hsource := Shape.contains_sourceOf h.stretches hp
  have hstart : r.start < 0x8000000000000000 := by
    rw [h.start_eq]
    exact hl.offset_lt (Shape.count_pos_of_contains hsource)
  have hitem : r.itemSlots < 0x8000000000000000 := h.itemSlots_eq ▸ hl.itemSlots_lt
  have hpast := le_pastEndOf hstart hitem (h.steadyAxes haxes) h.pastEnd_eq
  have hshift := (Layout.displacement_mem_shift r.strides hp).2
  unfold address
  omega

end StridedArray.Route
