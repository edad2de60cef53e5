import StridedArray.Proofs.ViewOp

/-!
# Laws of view operations

Different sequences of view operations can lead to the same layout, and
whether two views are the same array is told by comparing layouts. So the
laws are stated as equations of layouts, offset included, and not only of
the items shown.

An operation on one axis gives it a new extent and a new stride and moves
the origin (`ViewOp.effect`). Moves add up as words, whatever the order in
which they are made (`Layout.rework_rework`, `Layout.rework_comm`), since a
conversion between the two kinds of word keeps the residue. What is left of
each law is a calculation with residues. Exchanging two axes takes an effect
from the one to the other (`Layout.rework_transposed`).

It may happen that one sequence traps on the way and the other does not. But
where one leads, the other is not refused (`ViewOp.Replaces`). All laws
together are `ViewOp.sequences_agree`.
-/

namespace StridedArray

/-! ## What becomes of one axis -/

/-- **What an operation makes of an axis.** -/
structure AxisEffect where
  /-- The extent afterwards. -/
  extent : Nat
  /-- The stride afterwards. -/
  stride : Int
  /-- By how many slots the origin moves. -/
  move : Int

namespace ViewOp

/-- The axis that an operation works on, if it is a single one. -/
def axis? : ViewOp → Option Nat
  | narrow axis _ _ | flip axis => some axis
  | reshape _ | transpose _ _ => none

/-- **What an operation on an axis makes of it**, given its extent and its stride. -/
def effect : ViewOp → Nat → Int → AxisEffect
  | narrow _ start length, _, stride => ⟨length, stride, Word.toSigned start * stride⟩
  | flip _, n, stride => ⟨n, -stride, if 0 < n then (Word.toSigned n - 1) * stride else 0⟩
  | reshape _, n, stride | transpose _ _, n, stride => ⟨n, stride, 0⟩

/-- An operation stays within an axis of the given extent. -/
def StaysWithin : ViewOp → Nat → Prop
  | narrow _ start length, n => start + length ≤ n
  | _, _ => True

end ViewOp

namespace Layout

variable {l v : Layout} {d d' i j n n' : Nat} {stride stride' : Int} {e e' : AxisEffect}

/-- **An axis of a layout**, with its extent and its stride. -/
structure HasAxis (l : Layout) (d n : Nat) (stride : Int) : Prop where
  /-- The extent. -/
  extent : l.shape[d]? = some n
  /-- The stride. -/
  stride : l.strides[d]? = some stride

/-- **The layout with an effect on an axis.** -/
def rework (l : Layout) (d : Nat) (e : AxisEffect) : Layout where
  shape := l.shape.set d e.extent
  strides := l.strides.set d e.stride
  offset := Word.toUnsigned (Word.toSigned l.offset + e.move)
  itemSlots := l.itemSlots

/-- An axis is what it was made into. -/
theorem HasAxis.reworked (h : l.HasAxis d n stride) (e : AxisEffect) :
    (l.rework d e).HasAxis d e.extent e.stride where
  extent := List.getElem?_set_self (List.getElem?_eq_some_iff.mp h.extent).1
  stride := List.getElem?_set_self (List.getElem?_eq_some_iff.mp h.stride).1

/-- Another axis stays as it is. -/
theorem hasAxis_rework_of_ne (hd : d ≠ d') :
    (l.rework d e).HasAxis d' n stride ↔ l.HasAxis d' n stride := by
  have hshape : (l.rework d e).shape[d']? = l.shape[d']? := List.getElem?_set_ne hd
  have hstrides : (l.rework d e).strides[d']? = l.strides[d']? := List.getElem?_set_ne hd
  exact ⟨fun h => ⟨hshape ▸ h.extent, hstrides ▸ h.stride⟩,
    fun h => ⟨hshape.trans h.extent, hstrides.trans h.stride⟩⟩

/-- An axis has one extent and one stride. -/
theorem HasAxis.unique (h : l.HasAxis d n stride) (h' : l.HasAxis d n' stride') :
    n = n' ∧ stride = stride' :=
  ⟨Option.some.inj (h.extent.symm.trans h'.extent),
    Option.some.inj (h.stride.symm.trans h'.stride)⟩

/-- **Moves of the origin add up as words.** -/
theorem toUnsigned_moves (offset : Nat) (a b : Int) :
    Word.toUnsigned (Word.toSigned (Word.toUnsigned (Word.toSigned offset + a)) + b)
      = Word.toUnsigned (Word.toSigned offset + (a + b)) := by
  refine Word.toUnsigned_congr ?_
  rw [← Int.add_assoc]
  exact ((Word.toSigned_modEq _).trans (Word.toUnsigned_modEq _)).add_right b

/-- **Two effects on one axis**: the later extent and stride, and both moves. -/
theorem rework_rework (l : Layout) (d : Nat) (e e' : AxisEffect) :
    (l.rework d e).rework d e' = l.rework d ⟨e'.extent, e'.stride, e.move + e'.move⟩ := by
  unfold rework
  rw [List.set_set, List.set_set, toUnsigned_moves]

/-- **Effects on different axes** can be had in either order. -/
theorem rework_comm (l : Layout) (hd : d ≠ d') (e e' : AxisEffect) :
    (l.rework d e).rework d' e' = (l.rework d' e').rework d e := by
  unfold rework
  rw [List.set_comm _ _ hd, List.set_comm _ _ hd, toUnsigned_moves, toUnsigned_moves,
    Int.add_comm e.move]

/-- Moves count as words only. -/
theorem rework_congr (l : Layout) (d : Nat) {a b : Int}
    (h : a ≡ b [ZMOD 0x10000000000000000]) :
    l.rework d ⟨n, stride, a⟩ = l.rework d ⟨n, stride, b⟩ := by
  unfold rework
  rw [Word.toUnsigned_congr (h.add_left (Word.toSigned l.offset))]

/-- **No effect**: extent and stride as they are, and the origin where it is. -/
theorem HasAxis.rework_self (h : l.HasAxis d n stride) (hoffset : Word.IsUnsigned l.offset) :
    l.rework d ⟨n, stride, 0⟩ = l := by
  obtain ⟨_, rfl⟩ := List.getElem?_eq_some_iff.mp h.extent
  obtain ⟨_, rfl⟩ := List.getElem?_eq_some_iff.mp h.stride
  unfold rework
  rw [List.set_getElem_self, List.set_getElem_self, Int.add_zero,
    Word.toUnsigned_toSigned hoffset]

/-- The offset after an effect is a word. -/
theorem isUnsigned_offset_rework (l : Layout) (d : Nat) (e : AxisEffect) :
    Word.IsUnsigned (l.rework d e).offset := by
  dsimp only [rework]
  exact Word.isUnsigned_toUnsigned _

/-- A move of the origin along an axis is an effect on it. -/
theorem eq_rework_of_moveOrigin {steps : Int} (h : l.moveOrigin d steps = .ok v)
    (hn : l.shape[d]? = some n) :
    ∃ stride, l.HasAxis d n stride ∧ v = l.rework d ⟨n, stride, steps * stride⟩ := by
  obtain ⟨stride, hstride, -, -, rfl⟩ := moveOrigin_eq_ok.mp h
  refine ⟨stride, ⟨hn, hstride⟩, ?_⟩
  obtain ⟨_, rfl⟩ := List.getElem?_eq_some_iff.mp hn
  obtain ⟨_, rfl⟩ := List.getElem?_eq_some_iff.mp hstride
  unfold rework
  rw [List.set_getElem_self, List.set_getElem_self]

/-! ## Two axes exchanged -/

/-- **The layout with two axes exchanged.** -/
def transposed (l : Layout) (i j : Nat) : Layout :=
  { l with shape := exchanged 0 i j l.shape, strides := exchanged 0 i j l.strides }

/-- Exchanged twice, the axes are back. -/
theorem transposed_transposed (hlength : l.strides.length = l.shape.length) (hi : i < l.rank)
    (hj : j < l.rank) : (l.transposed i j).transposed i j = l := by
  unfold transposed
  rw [exchanged_exchanged hi hj, exchanged_exchanged (hlength ▸ hi) (hlength ▸ hj)]

/-- The one axis comes from where the other was. -/
theorem hasAxis_transposed (hlength : l.strides.length = l.shape.length) (hi : i < l.rank)
    (hj : j < l.rank) : (l.transposed i j).HasAxis i n stride ↔ l.HasAxis j n stride := by
  have hshape : (l.transposed i j).shape[i]? = l.shape[j]? := getElem?_exchanged hi hj
  have hstrides : (l.transposed i j).strides[i]? = l.strides[j]? :=
    getElem?_exchanged (hlength ▸ hi) (hlength ▸ hj)
  exact ⟨fun h => ⟨hshape ▸ h.extent, hstrides ▸ h.stride⟩,
    fun h => ⟨hshape.trans h.extent, hstrides.trans h.stride⟩⟩

/-- **An effect on the one axis** is, before the exchange, the same effect on the other one. -/
theorem rework_transposed (hlength : l.strides.length = l.shape.length) (hi : i < l.rank)
    (hj : j < l.rank) (e : AxisEffect) :
    (l.transposed i j).rework i e = (l.rework j e).transposed i j := by
  unfold transposed rework
  rw [exchanged_set hi hj, exchanged_set (hlength ▸ hi) (hlength ▸ hj)]

end Layout

namespace ViewOp

open Layout

variable {l u v : Layout} {op op' : ViewOp} {d d' i j n : Nat} {stride : Int}

/-! ## Operations on one axis -/

/-- **All that an operation on an axis can do**: it stays within the axis and has its effect. -/
theorem eq_rework_of_apply (hoffset : Word.IsUnsigned l.offset) (hop : op.axis? = some d)
    (h : op.apply l = .ok v) :
    ∃ n stride, l.HasAxis d n stride ∧ op.StaysWithin n
      ∧ v = l.rework d (op.effect n stride) := by
  cases op with
  | narrow axis start length =>
    obtain rfl := Option.some.inj hop
    obtain ⟨n, moved, hn, -, hrange, hmoved, rfl⟩ := narrow_eq_ok.mp h
    obtain ⟨stride, haxis, rfl⟩ := eq_rework_of_moveOrigin hmoved hn
    refine ⟨n, stride, haxis, hrange, ?_⟩
    unfold setExtent Layout.rework effect
    rw [List.set_set]
  | flip axis =>
    obtain rfl := Option.some.inj hop
    obtain ⟨n, moved, hn, hmoved, hv⟩ := flip_eq_ok.mp h
    obtain ⟨stride, hstride, -, rfl⟩ := negateStride_eq_ok.mp hv
    -- an empty axis has no end to move to
    have hmove : ∃ s, l.HasAxis axis n s
        ∧ moved = l.rework axis ⟨n, s, if 0 < n then (Word.toSigned n - 1) * s else 0⟩ := by
      by_cases hpos : 0 < n
      · rw [if_pos hpos] at hmoved
        simp only [if_pos hpos]
        exact eq_rework_of_moveOrigin hmoved.2 hn
      · rw [if_neg hpos] at hmoved
        rw [hmoved] at hstride ⊢
        simp only [if_neg hpos]
        exact ⟨stride, ⟨hn, hstride⟩, (HasAxis.rework_self ⟨hn, hstride⟩ hoffset).symm⟩
    obtain ⟨s, haxis, rfl⟩ := hmove
    obtain rfl : s = stride := Option.some.inj ((haxis.reworked _).stride.symm.trans hstride)
    refine ⟨n, s, haxis, trivial, ?_⟩
    unfold Layout.rework effect
    rw [List.set_set]
  | reshape => exact nomatch hop
  | transpose => exact nomatch hop

/-- **An operation that stays within its axis is not refused.** -/
theorem accepted_apply (hop : op.axis? = some d) (hn : l.shape[d]? = some n)
    (hwithin : op.StaysWithin n) : (op.apply l).Accepted := by
  have hmove : ∀ (k : Layout) (steps : Int), (k.moveOrigin d steps).Accepted := fun k steps =>
    (Outcome.refusedOnly_subscript _).bind fun _ _ =>
      (Outcome.refusedOnly_signed _).bind fun _ _ =>
        (Outcome.refusedOnly_signed _).bind fun _ _ => Outcome.refusedOnly_pure _
  have hextent : l.extent d = .ok n := extent_eq_ok.mpr hn
  cases op with
  | narrow axis start length =>
    obtain rfl := Option.some.inj hop
    refine Outcome.RefusedOnly.bind ?_ fun _ _ => Outcome.refusedOnly_pure _
    show (l.moveToRange axis start length).Accepted
    unfold moveToRange
    rw [hextent]
    refine (Outcome.refusedOnly_unsigned _).bind fun stop hstop => ?_
    obtain ⟨-, rfl⟩ := Word.unsigned_eq_ok.mp hstop
    exact .ite (fun hover => absurd hwithin (Nat.not_le_of_lt hover)) fun _ => hmove l _
  | flip axis =>
    obtain rfl := Option.some.inj hop
    refine Outcome.RefusedOnly.bind ?_ fun moved _ => ?_
    · show (l.moveToEnd axis).Accepted
      unfold moveToEnd
      rw [hextent]
      exact .ite (fun _ => (Outcome.refusedOnly_signed _).bind fun _ _ => hmove l _)
        fun _ => Outcome.refusedOnly_pure _
    · exact (Outcome.refusedOnly_subscript _).bind fun _ _ =>
        (Outcome.refusedOnly_signed _).bind fun _ _ => Outcome.refusedOnly_pure _
  | reshape => exact nomatch hop
  | transpose => exact nomatch hop

/-! ## Sequences -/

/-- Two operations one after the other. -/
theorem applyAll_pair_eq_ok :
    applyAll [op, op'] l = .ok v ↔ ∃ u, op.apply l = .ok u ∧ op'.apply u = .ok v := by
  unfold applyAll
  rw [List.foldlM_cons, Outcome.bind_eq_ok]
  refine exists_congr fun u => and_congr_right fun _ => ?_
  rw [List.foldlM_cons, Outcome.bind_eq_ok]
  exact ⟨fun ⟨_, hv, h⟩ => Except.ok.inj h ▸ hv, fun h => ⟨v, h, rfl⟩⟩

/-- One operation on its own. -/
theorem applyAll_singleton (op : ViewOp) (l : Layout) : applyAll [op] l = op.apply l :=
  bind_pure _

/-- Two operations of which neither is refused. -/
theorem accepted_pair (h : (op.apply l).Accepted)
    (h' : ∀ u, op.apply l = .ok u → (op'.apply u).Accepted) :
    (applyAll [op, op'] l).Accepted := by
  unfold applyAll
  rw [List.foldlM_cons]
  refine h.bind fun u hu => ?_
  rw [List.foldlM_cons]
  exact (h' u hu).bind fun _ _ => Outcome.refusedOnly_pure _

/-- **A sequence of operations can take the place of another one** on a layout: where the other one
leads it leads as well, unless arithmetic traps. -/
def Replaces (new old : List ViewOp) (l : Layout) : Prop :=
  ∀ v, applyAll old l = .ok v → (applyAll new l).EndsAs (.ok v)

/-- A sequence that is not refused and leads nowhere else takes the place of the other one. -/
theorem Replaces.of_accepted {new old : List ViewOp}
    (h : ∀ v, applyAll old l = .ok v →
      (applyAll new l).Accepted ∧ ∀ u, applyAll new l = .ok u → u = v) : Replaces new old l := by
  intro v hv
  obtain ⟨haccepted, hsame⟩ := h v hv
  rcases haccepted.isOk_or_trap with ⟨u, hu⟩ | htrap
  · exact .inr (hu.trans (congrArg Except.ok (hsame u hu)))
  · exact .inl htrap

/-- **Two operations on one axis**, each with its effect. -/
theorem eq_rework_of_pair (hoffset : Word.IsUnsigned l.offset) (hop : op.axis? = some d)
    (hop' : op'.axis? = some d) (h : applyAll [op, op'] l = .ok v) :
    ∃ n stride, l.HasAxis d n stride ∧ op.StaysWithin n
      ∧ op'.StaysWithin (op.effect n stride).extent
      ∧ v = (l.rework d (op.effect n stride)).rework d
        (op'.effect (op.effect n stride).extent (op.effect n stride).stride) := by
  obtain ⟨u, hu, hv⟩ := applyAll_pair_eq_ok.mp h
  obtain ⟨n, stride, haxis, hwithin, rfl⟩ := eq_rework_of_apply hoffset hop hu
  obtain ⟨n', stride', haxis', hwithin', rfl⟩ :=
    eq_rework_of_apply (isUnsigned_offset_rework _ _ _) hop' hv
  obtain ⟨rfl, rfl⟩ := haxis'.unique (haxis.reworked _)
  exact ⟨n, stride, haxis, hwithin, hwithin', rfl⟩

/-- Two operations on one axis that stay within it are not refused. -/
theorem accepted_pair_of_axis (hoffset : Word.IsUnsigned l.offset) (hop : op.axis? = some d)
    (hop' : op'.axis? = some d) (haxis : l.HasAxis d n stride) (hwithin : op.StaysWithin n)
    (hwithin' : op'.StaysWithin (op.effect n stride).extent) :
    (applyAll [op, op'] l).Accepted := by
  refine accepted_pair (accepted_apply hop haxis.extent hwithin) fun u hu => ?_
  obtain ⟨n', stride', haxis', -, rfl⟩ := eq_rework_of_apply hoffset hop hu
  obtain ⟨rfl, rfl⟩ := haxis.unique haxis'
  exact accepted_apply hop' (haxis.reworked _).extent hwithin'

/-! ## The laws -/

/-- **Backwards twice is forwards.** -/
theorem flip_flip (hlength : l.strides.length = l.shape.length)
    (hoffset : Word.IsUnsigned l.offset) (hd : d < l.rank) :
    (applyAll [flip d, flip d] l).EndsAs (.ok l) := by
  have hd' : d < l.strides.length := hlength ▸ hd
  have haxis : l.HasAxis d l.shape[d] l.strides[d] :=
    ⟨List.getElem?_eq_getElem _, List.getElem?_eq_getElem _⟩
  have haccepted : (applyAll [flip d, flip d] l).Accepted :=
    accepted_pair_of_axis hoffset rfl rfl haxis trivial trivial
  refine haccepted.isOk_or_trap.symm.imp_right ?_
  rintro ⟨v, hv⟩
  obtain ⟨n, stride, haxis, -, -, rfl⟩ := eq_rework_of_pair hoffset rfl rfl hv
  have hback : (effect (flip d) n stride).move + (effect (flip d) n (-stride)).move = 0 := by
    show (if 0 < n then (Word.toSigned n - 1) * stride else 0)
      + (if 0 < n then (Word.toSigned n - 1) * -stride else 0) = 0
    split
    · rw [Int.mul_neg, Int.add_right_neg]
    · rfl
  have hnone : ((l.rework d (effect (flip d) n stride)).rework d (effect (flip d) n (-stride)))
      = l := by
    rw [rework_rework, hback]
    show l.rework d ⟨n, - -stride, 0⟩ = l
    rw [Int.neg_neg, haxis.rework_self hoffset]
  exact hv.trans (congrArg Except.ok hnone)

/-- **Ranges of ranges are ranges.** -/
theorem narrow_narrow (hoffset : Word.IsUnsigned l.offset) (d s₁ k₁ s₂ k₂ : Nat) :
    Replaces [narrow d (s₁ + s₂) k₂] [narrow d s₁ k₁, narrow d s₂ k₂] l := by
  refine .of_accepted fun v hv => ?_
  obtain ⟨n, stride, haxis, hwithin, hwithin', rfl⟩ := eq_rework_of_pair hoffset rfl rfl hv
  have hrange : s₁ + k₁ ≤ n := hwithin
  have hrange' : s₂ + k₂ ≤ k₁ := hwithin'
  rw [applyAll_singleton]
  refine ⟨accepted_apply rfl haxis.extent (show s₁ + s₂ + k₂ ≤ n by omega), fun u hu => ?_⟩
  obtain ⟨n', stride', haxis', -, rfl⟩ := eq_rework_of_apply hoffset rfl hu
  obtain ⟨rfl, rfl⟩ := haxis.unique haxis'
  rw [rework_rework]
  refine rework_congr l d ?_
  show Word.toSigned (s₁ + s₂) * stride
    ≡ Word.toSigned s₁ * stride + Word.toSigned s₂ * stride [ZMOD 0x10000000000000000]
  have hsum : Word.toSigned (s₁ + s₂) ≡ Word.toSigned s₁ + Word.toSigned s₂
      [ZMOD 0x10000000000000000] := by
    refine (Word.toSigned_modEq _).trans ?_
    rw [Int.natCast_add]
    exact ((Word.toSigned_modEq s₁).add (Word.toSigned_modEq s₂)).symm
  rw [← Int.add_mul]
  exact hsum.mul_right stride

/-- **A range of the axis run through backwards** is the range as far from the other end, run through
backwards: in offset, extent and stride. -/
theorem rework_flip_narrow {s k : Nat} (hk : 0 < k) (hrange : s + k ≤ n) :
    (l.rework d (effect (flip d) n stride)).rework d (effect (narrow d s k) n (-stride))
      = (l.rework d (effect (narrow d (n - s - k) k) n stride)).rework d
        (effect (flip d) k stride) := by
  rw [rework_rework, rework_rework]
  refine rework_congr l d ?_
  show (if 0 < n then (Word.toSigned n - 1) * stride else 0) + Word.toSigned s * -stride
    ≡ Word.toSigned (n - s - k) * stride + (if 0 < k then (Word.toSigned k - 1) * stride else 0)
      [ZMOD 0x10000000000000000]
  rw [if_pos (by omega), if_pos hk, Int.mul_neg, ← Int.neg_mul, ← Int.add_mul, ← Int.add_mul]
  refine Int.ModEq.mul_right stride ?_
  -- the two starts and the length make up the extent
  have hparts : (n : Int) - 1 + -(s : Int) = ((n - s - k : Nat) : Int) + ((k : Int) - 1) := by
    omega
  have hleft : Word.toSigned n - 1 + -Word.toSigned s ≡ (n : Int) - 1 + -(s : Int)
      [ZMOD 0x10000000000000000] :=
    ((Word.toSigned_modEq n).sub_right 1).add (Word.toSigned_modEq s).neg
  have hright : Word.toSigned (n - s - k) + (Word.toSigned k - 1)
      ≡ ((n - s - k : Nat) : Int) + ((k : Int) - 1) [ZMOD 0x10000000000000000] :=
    (Word.toSigned_modEq _).add ((Word.toSigned_modEq k).sub_right 1)
  rw [← hparts] at hright
  exact hleft.trans hright.symm

/-- **Backwards and then a range** is the range from the other end and then backwards. -/
theorem flip_narrow {s k : Nat} (hoffset : Word.IsUnsigned l.offset) (hn : l.extent? d = some n)
    (hk : 0 < k) :
    Replaces [narrow d (n - s - k) k, flip d] [flip d, narrow d s k] l
      ∧ (s + k ≤ n → Replaces [flip d, narrow d s k] [narrow d (n - s - k) k, flip d] l) := by
  constructor
  · refine .of_accepted fun v hv => ?_
    obtain ⟨m, stride, haxis, -, hwithin, rfl⟩ := eq_rework_of_pair hoffset rfl rfl hv
    obtain rfl := Option.some.inj (hn.symm.trans haxis.extent)
    have hrange : s + k ≤ n := hwithin
    refine ⟨accepted_pair_of_axis hoffset rfl rfl haxis (show n - s - k + k ≤ n by omega) trivial,
      fun u hu => ?_⟩
    obtain ⟨m', stride', haxis', -, -, rfl⟩ := eq_rework_of_pair hoffset rfl rfl hu
    obtain ⟨rfl, rfl⟩ := haxis.unique haxis'
    exact (rework_flip_narrow hk hrange).symm
  · intro hrange
    refine .of_accepted fun v hv => ?_
    obtain ⟨m, stride, haxis, -, -, rfl⟩ := eq_rework_of_pair hoffset rfl rfl hv
    obtain rfl := Option.some.inj (hn.symm.trans haxis.extent)
    refine ⟨accepted_pair_of_axis hoffset rfl rfl haxis trivial hrange, fun u hu => ?_⟩
    obtain ⟨m', stride', haxis', -, -, rfl⟩ := eq_rework_of_pair hoffset rfl rfl hu
    obtain ⟨rfl, rfl⟩ := haxis.unique haxis'
    exact rework_flip_narrow hk hrange

/-- **Operations on different axes** can be applied in either order. -/
theorem apply_comm (hoffset : Word.IsUnsigned l.offset) (hop : op.axis? = some d)
    (hop' : op'.axis? = some d') (hd : d ≠ d') : Replaces [op', op] [op, op'] l := by
  -- each of the two finds its own axis as it was, in either order
  have hpair : ∀ {op op' : ViewOp} {d d' : Nat} {v : Layout}, op.axis? = some d →
      op'.axis? = some d' → d ≠ d' → applyAll [op, op'] l = .ok v →
        ∃ n stride n' stride', l.HasAxis d n stride ∧ l.HasAxis d' n' stride'
          ∧ op.StaysWithin n ∧ op'.StaysWithin n'
          ∧ v = (l.rework d (op.effect n stride)).rework d' (op'.effect n' stride') := by
    intro op op' d d' v hop hop' hd hv
    obtain ⟨u, hu, hv⟩ := applyAll_pair_eq_ok.mp hv
    obtain ⟨n, stride, haxis, hwithin, rfl⟩ := eq_rework_of_apply hoffset hop hu
    obtain ⟨n', stride', haxis', hwithin', rfl⟩ :=
      eq_rework_of_apply (isUnsigned_offset_rework _ _ _) hop' hv
    exact ⟨n, stride, n', stride', haxis, (hasAxis_rework_of_ne hd).mp haxis', hwithin, hwithin',
      rfl⟩
  refine .of_accepted fun v hv => ?_
  obtain ⟨n, stride, n', stride', haxis, haxis', hwithin, hwithin', rfl⟩ := hpair hop hop' hd hv
  refine ⟨accepted_pair (accepted_apply hop' haxis'.extent hwithin') fun u hu => ?_, fun u hu => ?_⟩
  · obtain ⟨_, _, -, -, rfl⟩ := eq_rework_of_apply hoffset hop' hu
    exact accepted_apply hop ((hasAxis_rework_of_ne hd.symm).mpr haxis).extent hwithin
  · obtain ⟨m', t', m, t, hm', hm, -, -, rfl⟩ := hpair hop' hop hd.symm hu
    obtain ⟨rfl, rfl⟩ := haxis.unique hm
    obtain ⟨rfl, rfl⟩ := haxis'.unique hm'
    exact rework_comm l hd.symm _ _

/-- Exchanging two axes. -/
theorem apply_transpose_eq_ok (hlength : l.strides.length = l.shape.length) :
    (transpose i j).apply l = .ok v ↔ i < l.rank ∧ j < l.rank ∧ v = l.transposed i j :=
  transpose_eq_ok hlength

/-- **Exchanging two axes twice** leaves them as they were. -/
theorem transpose_transpose (hlength : l.strides.length = l.shape.length) (hi : i < l.rank)
    (hj : j < l.rank) : applyAll [transpose i j, transpose i j] l = .ok l := by
  have hrank : (l.transposed i j).rank = l.rank := length_exchanged 0 i j l.shape
  have hlength' : (l.transposed i j).strides.length = (l.transposed i j).shape.length :=
    (length_exchanged ..).trans (hlength.trans hrank.symm)
  have hfirst : (transpose i j).apply l = .ok (l.transposed i j) :=
    (apply_transpose_eq_ok hlength).mpr ⟨hi, hj, rfl⟩
  have hsecond : (transpose i j).apply (l.transposed i j) = .ok l :=
    (apply_transpose_eq_ok hlength').mpr
      ⟨hrank ▸ hi, hrank ▸ hj, (transposed_transposed hlength hi hj).symm⟩
  exact applyAll_pair_eq_ok.mpr ⟨_, hfirst, hsecond⟩

/-- **Exchanging two axes and then backwards along the one** is backwards along the other one and
then exchanging them. -/
theorem transpose_flip (hlength : l.strides.length = l.shape.length)
    (hoffset : Word.IsUnsigned l.offset) (i j : Nat) :
    Replaces [flip j, transpose i j] [transpose i j, flip i] l
      ∧ Replaces [transpose i j, flip i] [flip j, transpose i j] l := by
  -- an effect on an axis changes neither the rank nor the number of strides
  have hrank : ∀ d e, (l.rework d e).rank = l.rank := fun d e => List.length_set
  have hlength' : ∀ d e, (l.rework d e).strides.length = (l.rework d e).shape.length :=
    fun d e => List.length_set.trans (hlength.trans (hrank d e).symm)
  have hoffset' : ∀ i j, Word.IsUnsigned (l.transposed i j).offset := fun _ _ => hoffset
  constructor
  · refine .of_accepted fun v hv => ?_
    obtain ⟨u, hu, hv⟩ := applyAll_pair_eq_ok.mp hv
    obtain ⟨hi, hj, rfl⟩ := (apply_transpose_eq_ok hlength).mp hu
    obtain ⟨n, stride, haxis, -, rfl⟩ := eq_rework_of_apply (hoffset' i j) rfl hv
    have haxis' := (hasAxis_transposed hlength hi hj).mp haxis
    have hsecond : ∀ u, (flip j).apply l = .ok u →
        (transpose i j).apply u
          = .ok ((l.transposed i j).rework i ((flip i).effect n stride)) := by
      intro u hu
      obtain ⟨n', stride', haxis'', -, rfl⟩ := eq_rework_of_apply hoffset rfl hu
      obtain ⟨rfl, rfl⟩ := haxis'.unique haxis''
      exact (apply_transpose_eq_ok (hlength' ..)).mpr
        ⟨hrank .. ▸ hi, hrank .. ▸ hj, rework_transposed hlength hi hj _⟩
    refine ⟨accepted_pair (accepted_apply rfl haxis'.extent trivial) fun u hu => ?_, fun u hu => ?_⟩
    · exact hsecond u hu ▸ Outcome.refusedOnly_pure _
    · obtain ⟨w, hw, hu⟩ := applyAll_pair_eq_ok.mp hu
      exact Except.ok.inj (hu.symm.trans (hsecond w hw))
  · refine .of_accepted fun v hv => ?_
    obtain ⟨u, hu, hv⟩ := applyAll_pair_eq_ok.mp hv
    obtain ⟨n, stride, haxis, -, rfl⟩ := eq_rework_of_apply hoffset rfl hu
    obtain ⟨hi, hj, rfl⟩ := (apply_transpose_eq_ok (hlength' ..)).mp hv
    rw [hrank] at hi hj
    have haxis' := (hasAxis_transposed hlength hi hj).mpr haxis
    have hfirst : (transpose i j).apply l = .ok (l.transposed i j) :=
      (apply_transpose_eq_ok hlength).mpr ⟨hi, hj, rfl⟩
    refine ⟨accepted_pair (hfirst ▸ Outcome.refusedOnly_pure _) fun u hu => ?_, fun u hu => ?_⟩
    · obtain rfl := Except.ok.inj (hfirst.symm.trans hu)
      exact accepted_apply rfl haxis'.extent trivial
    · obtain ⟨w, hw, hu⟩ := applyAll_pair_eq_ok.mp hu
      obtain rfl := Except.ok.inj (hfirst.symm.trans hw)
      obtain ⟨n', stride', haxis'', -, rfl⟩ := eq_rework_of_apply (hoffset' i j) rfl hu
      obtain ⟨rfl, rfl⟩ := haxis'.unique haxis''
      exact rework_transposed hlength hi hj _

/-- **The laws of view operations.** Backwards twice, or two axes exchanged twice, is the layout
itself. Exchanging axes turns a flip of the one into a flip of the other. A range of a range is a
range, and a range of what is run through backwards is one from the other end. Operations on
different axes can be applied in either order. -/
theorem sequences_agree (hlength : l.strides.length = l.shape.length)
    (hoffset : Word.IsUnsigned l.offset) :
    (∀ d < l.rank, (applyAll [flip d, flip d] l).EndsAs (.ok l))
      ∧ (∀ i < l.rank, ∀ j < l.rank, applyAll [transpose i j, transpose i j] l = .ok l)
      ∧ (∀ i j, Replaces [flip j, transpose i j] [transpose i j, flip i] l
        ∧ Replaces [transpose i j, flip i] [flip j, transpose i j] l)
      ∧ (∀ d s₁ k₁ s₂ k₂, Replaces [narrow d (s₁ + s₂) k₂] [narrow d s₁ k₁, narrow d s₂ k₂] l)
      ∧ (∀ d n s k, l.extent? d = some n → 0 < k →
        Replaces [narrow d (n - s - k) k, flip d] [flip d, narrow d s k] l
          ∧ (s + k ≤ n → Replaces [flip d, narrow d s k] [narrow d (n - s - k) k, flip d] l))
      ∧ ∀ (op op' : ViewOp) (d d' : Nat), op.axis? = some d → op'.axis? = some d' → d ≠ d' →
        Replaces [op', op] [op, op'] l :=
  ⟨fun _ => flip_flip hlength hoffset, fun _ hi _ => transpose_transpose hlength hi,
    transpose_flip hlength hoffset, narrow_narrow hoffset,
    fun _ _ _ _ => flip_narrow hoffset, fun _ _ _ _ => apply_comm hoffset⟩

/-- A range of rows that are already run through backwards. -/
theorem sequences_agree_backwards :
    (applyAll [flip 0, flip 0] ⟨[4, 3], [-3, 1], 9, 1⟩).EndsAs (.ok ⟨[4, 3], [-3, 1], 9, 1⟩)
      ∧ applyAll [flip 0, narrow 0 1 2] ⟨[4, 3], [-3, 1], 9, 1⟩ = .ok ⟨[2, 3], [3, 1], 3, 1⟩
      ∧ (applyAll [narrow 0 1 2, flip 0] ⟨[4, 3], [-3, 1], 9, 1⟩).EndsAs
        (.ok ⟨[2, 3], [3, 1], 3, 1⟩) := by
  have hlaws := sequences_agree (l := ⟨[4, 3], [-3, 1], 9, 1⟩) rfl (by decide)
  have hrange : applyAll [flip 0, narrow 0 1 2] ⟨[4, 3], [-3, 1], 9, 1⟩
      = .ok ⟨[2, 3], [3, 1], 3, 1⟩ := by decide
  obtain ⟨hflip, -, -, -, hnarrow, -⟩ := hlaws
  exact ⟨hflip 0 (by decide), hrange, (hnarrow 0 4 1 2 rfl (by decide)).1 _ hrange⟩

end ViewOp

end StridedArray
