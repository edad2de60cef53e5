import Mathlib.Data.List.Destutter
import StridedArray.Proofs.Axis
import StridedArray.Proofs.Route

/-!
# Where the position read stays the same

Going through the positions of a broadcast shape in row-major order, an
operand is moved along those of its axes that are not repeated
(`Shape.MovesAlong`). The axes after the last one of these make up a
**sweep**: during a sweep the position read stays the same, and from one
sweep to the next it changes, because the coordinate on that last axis does
(`Shape.sourceOf_unravel_eq_iff`). What other axes do makes no difference.
So an index that changes with the position read changes once per sweep, and
there are as many sweeps as positions on the axes before
(`Shape.length_destutter_sweeps`).
-/

namespace StridedArray

/-! ## Repetitions in a list -/

/-- **An index that stays the same within blocks** of `block` ranks and changes from one block to the
next: without repetitions it has one entry per block. -/
theorem length_destutter_blocks {α : Type} [DecidableEq α] {f : Nat → α} {block k n : Nat}
    (hf : ∀ j, k ≤ j → j < k + n → (f j = f (j + 1) ↔ j / block = (j + 1) / block)) :
    (((List.range' (k + 1) n).map f).destutter' (· ≠ ·) (f k)).length + k / block
      = (k + n) / block + 1 := by
  induction n generalizing k with
  | zero =>
    show 1 + k / block = k / block + 1
    omega
  | succ n ih =>
    have hrest := ih (k := k + 1) fun j hj hj' => hf j (Nat.le_of_succ_le hj) (by omega)
    have hhere := hf k (Nat.le_refl k) (by omega)
    rw [List.range'_succ, List.map_cons]
    rw [show k + (n + 1) = k + 1 + n by omega]
    by_cases hsame : f k = f (k + 1)
    · rw [List.destutter'_cons_neg _ (not_not_intro hsame), hsame, hhere.mp hsame, hrest]
    · have hnext : (k + 1) / block = k / block + 1 := by
        rw [Nat.succ_div]
        rw [hhere, Nat.succ_div] at hsame
        split at hsame
        · next hdvd => rw [if_pos hdvd]
        · exact absurd rfl hsame
      rw [List.destutter'_cons_pos _ hsame, List.length_cons]
      omega

namespace Shape

variable {s r : Shape} {p q : List Nat} {m : Nat}

/-! ## Coordinates of a rank -/

theorem count_append (s t : Shape) : count (s ++ t) = s.count * t.count := by
  induction s with
  | nil => exact (Nat.one_mul _).symm
  | cons n s ih => rw [List.cons_append, count_cons, count_cons, ih, Nat.mul_assoc]

/-- The positions are those of the slower axes, each with those of the faster ones. -/
theorem count_take_mul_drop (s : Shape) (axis : Nat) :
    count (s.take axis) * count (s.drop axis) = s.count := by
  rw [← count_append, List.take_append_drop]

/-- The faster axes have a multiple of the positions of yet faster ones. -/
theorem count_drop_dvd {axis axis' : Nat} (h : axis ≤ axis') :
    count (s.drop axis') ∣ count (s.drop axis) := by
  obtain ⟨k, rfl⟩ := Nat.exists_eq_add_of_le h
  rw [← List.drop_drop, ← count_take_mul_drop (s.drop axis) k]
  exact Nat.dvd_mul_left _ _

/-- An extent divides the number of positions of its axis and the slower ones. -/
theorem getD_dvd_count_take (s : Shape) (axis : Nat) :
    s.getD axis 1 ∣ count (s.take (axis + 1)) := by
  induction s generalizing axis with
  | nil => exact Nat.dvd_refl 1
  | cons n s ih =>
    cases axis with
    | zero => exact Nat.dvd_mul_right n _
    | succ axis => exact Nat.dvd_mul_left_of_dvd (ih axis) n

/-- **The coordinate of a rank on an axis**: the rank counted in full turns of the faster axes, modulo
the extent. -/
theorem getD_unravel {axis : Nat} (k : Nat) (h : axis < s.length) :
    (s.unravel k).getD axis 0 = k / count (s.drop (axis + 1)) % s.getD axis 1 := by
  induction s generalizing k axis with
  | nil => exact absurd h (Nat.not_lt_zero axis)
  | cons n s ih =>
    cases axis with
    | zero => rfl
    | succ axis =>
      show (unravel s (k % count s)).getD axis 0
        = k / count (s.drop (axis + 1)) % s.getD axis 1
      rw [ih _ (Nat.lt_of_succ_lt_succ h), ← count_take_mul_drop s (axis + 1),
        Nat.mod_mul_left_div_self, Nat.mod_mod_of_dvd _ (getD_dvd_count_take s axis)]

/-! ## Axes along which an operand moves -/

/-- **An operand moves along an axis** of a broadcast shape if it has the extent of the axis itself,
and more than one coordinate there. -/
def MovesAlong (s r : Shape) (axis : Nat) : Prop :=
  (s.padTo r.length).getD axis 1 = r.getD axis 1 ∧ 1 < r.getD axis 1

instance (s r : Shape) (axis : Nat) : Decidable (s.MovesAlong r axis) :=
  inferInstanceAs (Decidable (_ ∧ _))

/-- **The last axis along which an operand moves.** -/
def LastMoving (s r : Shape) (axis : Nat) : Prop :=
  s.MovesAlong r axis ∧ ∀ later, axis < later → ¬s.MovesAlong r later

/-- An axis along which an operand moves is there. -/
theorem MovesAlong.lt {axis : Nat} (h : s.MovesAlong r axis) : axis < r.length := by
  by_contra hge
  have hextent := h.2
  rw [List.getD_eq_default _ _ (Nat.le_of_not_lt hge)] at hextent
  exact Nat.lt_irrefl 1 hextent

instance (s r : Shape) (axis : Nat) : Decidable (s.LastMoving r axis) :=
  decidable_of_iff
    (s.MovesAlong r axis ∧ ∀ later < r.length, axis < later → ¬s.MovesAlong r later)
    (and_congr_right' ⟨fun h later hlater hmoves => h later hmoves.lt hlater hmoves,
      fun h later _ hlater => h later hlater⟩)

/-- Two positions of a shape are read alike if they agree on the axes that are not singletons. -/
theorem sourceOf_eq_iff_getD (hp : p.length = s.length) (hq : q.length = s.length) :
    s.sourceOf p = s.sourceOf q
      ↔ ∀ axis < s.length, s.getD axis 1 ≠ 1 → p.getD axis 0 = q.getD axis 0 := by
  induction s generalizing p q with
  | nil =>
    obtain rfl := List.length_eq_zero_iff.mp hp
    obtain rfl := List.length_eq_zero_iff.mp hq
    exact iff_of_true rfl nofun
  | cons n s ih =>
    obtain ⟨c, p, rfl⟩ := List.exists_cons_of_length_eq_add_one hp
    obtain ⟨e, q, rfl⟩ := List.exists_cons_of_length_eq_add_one hq
    have hp := Nat.succ.inj hp
    have hq := Nat.succ.inj hq
    rw [sourceOf_cons_cons n c hp, sourceOf_cons_cons n e hq, List.cons_eq_cons, ih hp hq,
      List.length_cons, Nat.forall_lt_succ_left]
    refine and_congr_left' ?_
    show (if n = 1 then 0 else c) = (if n = 1 then 0 else e) ↔ (n ≠ 1 → c = e)
    by_cases hn : n = 1
    · rw [if_pos hn, if_pos hn]
      exact iff_of_true rfl fun h => absurd hn h
    · rw [if_neg hn, if_neg hn]
      exact ⟨fun h _ => h, fun h => h hn⟩

/-- **Broadcasting reads two positions alike** exactly if they agree on the axes along which the
operand moves. -/
theorem sourceOf_eq_iff (hst : s.StretchesTo r) (hp : r.Contains p) (hq : r.Contains q) :
    s.sourceOf p = s.sourceOf q ↔ ∀ axis, s.MovesAlong r axis → p.getD axis 0 = q.getD axis 0 := by
  obtain ⟨hle, haxes⟩ := stretchesTo_iff.mp hst
  have hpad : (s.padTo r.length).length = r.length := by
    rw [length_padTo]
    omega
  have hlength : ∀ {p : List Nat}, r.Contains p → p.length = (r.length - s.length) + s.length :=
    fun hp => by
      rw [hp.length_eq]
      omega
  have hpadded : s.sourceOf p = s.sourceOf q
      ↔ (s.padTo r.length).sourceOf p = (s.padTo r.length).sourceOf q := by
    rw [padTo, sourceOf_padLeft (hlength hp), sourceOf_padLeft (hlength hq), padLeft, padLeft,
      List.append_cancel_left_eq]
  rw [hpadded, sourceOf_eq_iff_getD (hp.length_eq.trans hpad.symm) (hq.length_eq.trans hpad.symm),
    hpad]
  constructor
  · intro h axis hmoves
    have hextent : (s.padTo r.length).getD axis 1 ≠ 1 := by
      rw [hmoves.1]
      exact Nat.ne_of_gt hmoves.2
    exact h axis hmoves.lt hextent
  · intro h axis haxis hextent
    have hsame := (haxes axis haxis).resolve_right hextent
    have hpos := count_pos_iff_getD.mp (count_pos_of_contains hp) axis haxis
    rw [List.getD_eq_getElem _ _ haxis] at hpos
    refine h axis ⟨hsame, ?_⟩
    rw [hsame] at hextent
    rw [List.getD_eq_getElem _ _ haxis] at hextent ⊢
    omega

/-- **The position read changes from one sweep to the next** and at no other time: the ranks of a
sweep are those between two multiples of the number of positions after the last axis along which the
operand moves. -/
theorem sourceOf_unravel_eq_iff {k : Nat} (hst : s.StretchesTo r) (hk : k + 1 < r.count)
    (hm : s.LastMoving r m) :
    s.sourceOf (r.unravel k) = s.sourceOf (r.unravel (k + 1))
      ↔ k / count (r.drop (m + 1)) = (k + 1) / count (r.drop (m + 1)) := by
  rw [sourceOf_eq_iff hst (contains_unravel (Nat.lt_of_succ_lt hk)) (contains_unravel hk)]
  constructor
  · intro h
    -- the coordinate on the last axis counts the sweeps
    have hcoordinate := h m hm.1
    rw [getD_unravel _ hm.1.lt, getD_unravel _ hm.1.lt, Nat.succ_div] at hcoordinate
    rw [Nat.succ_div]
    split at hcoordinate
    · have hone := Nat.sub_mod_eq_zero_of_mod_eq hcoordinate.symm
      rw [Nat.add_sub_cancel_left, Nat.mod_eq_of_lt hm.1.2] at hone
      exact absurd hone Nat.one_ne_zero
    · next hdvd => rw [if_neg hdvd]; rfl
  · intro h axis hmoves
    -- the coordinate on any other axis depends on the number of sweeps
    have hle : axis ≤ m := Nat.le_of_not_lt fun hlt => hm.2 axis hlt hmoves
    obtain ⟨turns, hturns⟩ := count_drop_dvd (s := r) (Nat.succ_le_succ hle)
    rw [getD_unravel _ hmoves.lt, getD_unravel _ hmoves.lt, hturns, ← Nat.div_div_eq_div_mul,
      ← Nat.div_div_eq_div_mul, h]

/-- An operand that moves along no axis is read at one position. -/
theorem sourceOf_eq_of_still (hst : s.StretchesTo r) (hm : ∀ axis, ¬s.MovesAlong r axis)
    (hp : r.Contains p) (hq : r.Contains q) : s.sourceOf p = s.sourceOf q :=
  (sourceOf_eq_iff hst hp hq).mpr fun axis hmoves => absurd hmoves (hm axis)

/-! ## How often the position read changes -/

/-- The indices at all ranks, without repetitions, are those that follow the first one. -/
theorem destutter_range {α : Type} [DecidableEq α] {n : Nat} (f : Nat → α) (hn : 0 < n) :
    ((List.range n).map f).destutter (· ≠ ·)
      = ((List.range' 1 (n - 1)).map f).destutter' (· ≠ ·) (f 0) := by
  obtain ⟨n, rfl⟩ := Nat.exists_eq_succ_of_ne_zero (Nat.ne_of_gt hn)
  rw [List.range_eq_range', List.range'_succ, List.map_cons]
  rfl

/-- **There are as many sweeps as positions up to the last axis** along which the operand moves: so
often an index changes that changes with the position read. -/
theorem length_destutter_sweeps {α : Type} [DecidableEq α] {f : Nat → α} (hst : s.StretchesTo r)
    (hpos : 0 < r.count) (hm : s.LastMoving r m)
    (hf : ∀ k, k + 1 < r.count →
      (f k = f (k + 1) ↔ s.sourceOf (r.unravel k) = s.sourceOf (r.unravel (k + 1)))) :
    (((List.range r.count).map f).destutter (· ≠ ·)).length = count (r.take (m + 1)) := by
  have hchange : ∀ j, 0 ≤ j → j < 0 + (r.count - 1) →
      (f j = f (j + 1) ↔ j / count (r.drop (m + 1)) = (j + 1) / count (r.drop (m + 1))) :=
    fun j _ hj => (hf j (by omega)).trans (sourceOf_unravel_eq_iff hst (by omega) hm)
  have hblocks := length_destutter_blocks hchange
  have hproduct := count_take_mul_drop r (m + 1)
  rw [← hproduct] at hpos
  have hsweeps : 0 < count (r.take (m + 1)) := Nat.pos_of_mul_pos_right hpos
  have hsweep : 0 < count (r.drop (m + 1)) := Nat.pos_of_mul_pos_left hpos
  -- the last rank is in the last sweep
  have hlast : (r.count - 1) / count (r.drop (m + 1)) = count (r.take (m + 1)) - 1 := by
    refine Nat.div_eq_of_lt_le ?_ ?_
    · rw [← hproduct, Nat.sub_mul, Nat.one_mul]
      exact Nat.sub_le_sub_left hsweep _
    · rw [Nat.sub_add_cancel hsweeps, hproduct]
      omega
  rw [Nat.zero_div, Nat.add_zero, Nat.zero_add, Nat.zero_add, hlast, Nat.sub_add_cancel hsweeps] at hblocks
  rw [destutter_range f (hproduct ▸ hpos), hblocks]

-- one column of three, repeated twice in front and twice along its items
example : ((positions [2, 3, 2]).map (sourceOf [3, 1])).destutter (· ≠ ·)
    = [[0, 0], [1, 0], [2, 0], [0, 0], [1, 0], [2, 0]] := by decide

/-- An index that changes with the position read stays the same if the operand moves along no
axis. -/
theorem length_destutter_still {α : Type} [DecidableEq α] {f : Nat → α} (hst : s.StretchesTo r)
    (hpos : 0 < r.count) (hm : ∀ axis, ¬s.MovesAlong r axis)
    (hf : ∀ k, k + 1 < r.count →
      s.sourceOf (r.unravel k) = s.sourceOf (r.unravel (k + 1)) → f k = f (k + 1)) :
    (((List.range r.count).map f).destutter (· ≠ ·)).length = 1 := by
  -- all ranks are one block
  have hchange : ∀ j, 0 ≤ j → j < 0 + (r.count - 1) →
      (f j = f (j + 1) ↔ j / r.count = (j + 1) / r.count) := by
    intro j _ hj
    have hj : j + 1 < r.count := by omega
    rw [Nat.div_eq_of_lt hj, Nat.div_eq_of_lt (Nat.lt_of_succ_lt hj)]
    exact iff_of_true (hf j hj (sourceOf_eq_of_still hst hm
      (contains_unravel (Nat.lt_of_succ_lt hj)) (contains_unravel hj))) rfl
  have hblocks := length_destutter_blocks hchange
  rw [Nat.zero_div, Nat.add_zero, Nat.zero_add, Nat.div_eq_of_lt (by omega)] at hblocks
  rw [destutter_range f hpos, hblocks]

end Shape

end StridedArray
