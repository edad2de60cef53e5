import StridedArray.Proofs.Broadcast

/-!
# Broadcasting is a partial join

Stretching orders the shapes: it is reflexive, transitive and
antisymmetric. Padding is not seen when axes are counted from the last one
(`Shape.backExtent`), so that shapes of different ranks are compared axis by
axis.

In this order the broadcast shape of a list is the least shape to which all
of the list stretch (`Shape.broadcast_eq_ok_iff`), and it exists as soon as
there is any such shape (`Shape.exists_broadcast`). So the join is partial:
two shapes with a conflict on an axis have no common target. How operands are
grouped, in which order they come and how often, is all the same to a least
common target (`Shape.broadcast_partial_join`). Only an error can tell the
order: it names the extents that were met first.
-/

namespace StridedArray.Shape

variable {s t u r : Shape} {xs ys : List Shape}

/-! ## Axes counted from the last one -/

/-- **The extent of an axis counted from the last one**, which is 1 where there is no such axis. -/
def backExtent (s : Shape) (axis : Nat) : Nat :=
  s.reverse.getD axis 1

theorem backExtent_of_ge {axis : Nat} (h : s.length ≤ axis) : s.backExtent axis = 1 := by
  unfold backExtent
  exact List.getD_eq_default _ _ (by rwa [List.length_reverse])

/-- Shapes of one rank with the same extents are the same. -/
theorem eq_of_backExtent (hlength : s.length = t.length)
    (h : ∀ axis, s.backExtent axis = t.backExtent axis) : s = t := by
  refine List.reverse_injective (List.ext_getElem ?_ fun axis hs ht => ?_)
  · rw [List.length_reverse, List.length_reverse, hlength]
  · have haxis := h axis
    unfold backExtent at haxis
    rwa [List.getD_eq_getElem _ _ hs, List.getD_eq_getElem _ _ ht] at haxis

/-- **Padding is not seen** from the last axis on. -/
theorem getD_padTo {rank axis : Nat} (hs : s.length ≤ rank) (haxis : axis < rank) :
    (s.padTo rank).getD axis 1 = s.backExtent (rank - 1 - axis) := by
  unfold padTo padLeft backExtent
  by_cases hpad : axis < rank - s.length
  · -- an axis that padding has added
    rw [List.getD_append _ _ _ _ (by rwa [List.length_replicate]), List.getD_replicate,
      List.getD_eq_default _ _ (by rw [List.length_reverse]; omega)]
    exact hpad
  · have hlt : axis - (rank - s.length) < s.length := by omega
    have hback : rank - 1 - axis < s.reverse.length := by
      rw [List.length_reverse]
      omega
    rw [List.getD_append_right _ _ _ _ (by rw [List.length_replicate]; omega),
      List.length_replicate, List.getD_eq_getElem _ _ hlt, List.getD_eq_getElem _ _ hback,
      List.getElem_reverse]
    congr 1
    omega

/-! ## The order -/

/-- **Stretching said from the last axis on.** -/
theorem stretchesTo_iff_backExtent :
    s.StretchesTo t ↔ s.length ≤ t.length
      ∧ ∀ axis, s.backExtent axis = t.backExtent axis ∨ s.backExtent axis = 1 := by
  rw [stretchesTo_iff]
  refine and_congr_right fun hle => ⟨fun h axis => ?_, fun h axis haxis => ?_⟩
  · by_cases haxis : axis < t.length
    · have hpadded := h (t.length - 1 - axis) (by omega)
      have hback : t.length - 1 - (t.length - 1 - axis) = axis := by omega
      have hsame := getD_padTo (Nat.le_refl t.length) (show t.length - 1 - axis < t.length by omega)
      rw [padTo_length] at hsame
      rwa [getD_padTo hle (by omega), hsame, hback] at hpadded
    · exact .inr (backExtent_of_ge (by omega))
  · have hsame := getD_padTo (Nat.le_refl t.length) haxis
    rw [padTo_length] at hsame
    rw [getD_padTo hle haxis, hsame]
    exact h _

theorem StretchesTo.trans (h : s.StretchesTo t) (h' : t.StretchesTo u) : s.StretchesTo u := by
  obtain ⟨hlength, hextent⟩ := stretchesTo_iff_backExtent.mp h
  obtain ⟨hlength', hextent'⟩ := stretchesTo_iff_backExtent.mp h'
  refine stretchesTo_iff_backExtent.mpr ⟨Nat.le_trans hlength hlength', fun axis => ?_⟩
  rcases hextent axis with hs | hs
  · rw [hs]
    exact hextent' axis
  · exact .inr hs

/-- Two shapes that stretch to each other are the same. -/
theorem StretchesTo.antisymm (h : s.StretchesTo t) (h' : t.StretchesTo s) : s = t := by
  obtain ⟨hlength, hextent⟩ := stretchesTo_iff_backExtent.mp h
  obtain ⟨hlength', hextent'⟩ := stretchesTo_iff_backExtent.mp h'
  refine eq_of_backExtent (Nat.le_antisymm hlength hlength') fun axis => ?_
  rcases hextent axis, hextent' axis with ⟨hs | hs, ht | ht⟩
  · exact hs
  · exact hs
  · exact ht.symm
  · rw [hs, ht]

/-! ## The least common target -/

theorem length_le_maxRank (h : s ∈ xs) : s.length ≤ maxRank xs := by
  induction xs with
  | nil => exact absurd h List.not_mem_nil
  | cons x xs ih =>
    rw [maxRank, List.foldr_cons]
    rcases List.mem_cons.mp h with rfl | h
    · exact Nat.le_max_left _ _
    · exact Nat.le_trans (ih h) (Nat.le_max_right _ _)

/-- A bound on the ranks is one on the largest rank. -/
theorem maxRank_le {rank : Nat} (h : ∀ x ∈ xs, x.length ≤ rank) : maxRank xs ≤ rank := by
  induction xs with
  | nil => exact Nat.zero_le rank
  | cons x xs ih =>
    rw [maxRank, List.foldr_cons]
    exact Nat.max_le.mpr ⟨h x List.mem_cons_self, ih fun y hy => h y (List.mem_cons_of_mem _ hy)⟩

/-- **The broadcast shape said from the last axis on.** -/
theorem broadcast_eq_ok_iff_backExtent :
    broadcast xs = .ok r ↔ r.length = maxRank xs
      ∧ ∀ axis, (∀ x ∈ xs, x.backExtent axis = 1 ∨ x.backExtent axis = r.backExtent axis)
        ∧ (r.backExtent axis = 1 ∨ ∃ x ∈ xs, x.backExtent axis = r.backExtent axis) := by
  rw [broadcast_eq_ok]
  refine and_congr_right fun hrank => ?_
  have hle : ∀ x ∈ xs, x.length ≤ r.length := fun x hx => hrank ▸ length_le_maxRank hx
  -- counted from either end, the axes say the same
  have hpadded : ∀ axis < r.length, ∀ x ∈ xs,
      (x.padTo r.length).getD axis 1 = x.backExtent (r.length - 1 - axis) :=
    fun axis haxis x hx => getD_padTo (hle x hx) haxis
  have hself : ∀ axis < r.length, r.getD axis 1 = r.backExtent (r.length - 1 - axis) := by
    intro axis haxis
    have hsame := getD_padTo (Nat.le_refl r.length) haxis
    rwa [padTo_length] at hsame
  constructor
  · intro h axis
    by_cases haxis : axis < r.length
    · have hback : r.length - 1 - (r.length - 1 - axis) = axis := by omega
      have hlt : r.length - 1 - axis < r.length := by omega
      obtain ⟨hall, hsome⟩ := h (r.length - 1 - axis) hlt
      rw [hself _ hlt, hback] at hall hsome
      refine ⟨fun x hx => ?_, hsome.imp_right ?_⟩
      · have hx' := hall x hx
        rwa [hpadded _ hlt x hx, hback] at hx'
      · rintro ⟨x, hx, hx'⟩
        rw [hpadded _ hlt x hx, hback] at hx'
        exact ⟨x, hx, hx'⟩
    · exact ⟨fun x hx => .inl (backExtent_of_ge (by have := hle x hx; omega)),
        .inl (backExtent_of_ge (by omega))⟩
  · intro h axis haxis
    obtain ⟨hall, hsome⟩ := h (r.length - 1 - axis)
    rw [hself axis haxis]
    refine ⟨fun x hx => ?_, hsome.imp_right ?_⟩
    · rw [hpadded axis haxis x hx]
      exact hall x hx
    · rintro ⟨x, hx, hx'⟩
      exact ⟨x, hx, (hpadded axis haxis x hx).trans hx'⟩

/-- **A common target to which every other common target is reached by stretching on.** -/
structure LeastTarget (xs : List Shape) (r : Shape) : Prop where
  /-- Every operand stretches to it. -/
  stretches : ∀ x ∈ xs, x.StretchesTo r
  /-- It stretches to whatever all operands stretch to. -/
  least : ∀ t, (∀ x ∈ xs, x.StretchesTo t) → r.StretchesTo t

/-- There is only one least target. -/
theorem LeastTarget.unique (h : LeastTarget xs r) (h' : LeastTarget xs s) : r = s :=
  (h.least s h'.stretches).antisymm (h'.least r h.stretches)

/-- **The broadcast shape is a least target.** -/
theorem leastTarget_of_broadcast (h : broadcast xs = .ok r) : LeastTarget xs r := by
  refine ⟨fun x hx => stretchesTo_of_broadcast h hx, fun t ht => ?_⟩
  obtain ⟨hrank, hextent⟩ := broadcast_eq_ok_iff_backExtent.mp h
  refine stretchesTo_iff_backExtent.mpr ⟨?_, fun axis => ?_⟩
  · rw [hrank]
    exact maxRank_le fun x hx => (ht x hx).length_le
  · -- an extent other than 1 is that of an operand, and the operand stretches to the target
    rcases (hextent axis).2 with hone | ⟨x, hx, hsame⟩
    · exact .inr hone
    · rw [← hsame]
      exact (stretchesTo_iff_backExtent.mp (ht x hx)).2 axis

/-- **Shapes with a common target broadcast.** -/
theorem exists_broadcast (h : ∀ x ∈ xs, x.StretchesTo t) : ∃ r, broadcast xs = .ok r := by
  classical
  -- the target's extent on every axis on which an operand asks for one
  let extent : Nat → Nat := fun axis =>
    if ∃ x ∈ xs, x.backExtent axis ≠ 1 then t.backExtent axis else 1
  let r : Shape := ((List.range (maxRank xs)).map extent).reverse
  have hlength : r.length = maxRank xs := by
    rw [List.length_reverse, List.length_map, List.length_range]
  have hextent : ∀ axis, r.backExtent axis = extent axis := by
    intro axis
    by_cases haxis : axis < maxRank xs
    · unfold backExtent
      rw [List.reverse_reverse, List.getD_eq_getElem _ _ (by simpa using haxis), List.getElem_map,
        List.getElem_range]
    · have hnone : ¬∃ x ∈ xs, x.backExtent axis ≠ 1 := by
        rintro ⟨x, hx, hne⟩
        have := length_le_maxRank hx
        exact hne (backExtent_of_ge (by omega))
      rw [backExtent_of_ge (by omega)]
      exact (if_neg hnone).symm
  refine ⟨r, broadcast_eq_ok_iff_backExtent.mpr ⟨hlength, fun axis => ?_⟩⟩
  rw [hextent]
  by_cases hsome : ∃ x ∈ xs, x.backExtent axis ≠ 1
  · have hextent : extent axis = t.backExtent axis := if_pos hsome
    have hstretch : ∀ x ∈ xs, x.backExtent axis = t.backExtent axis ∨ x.backExtent axis = 1 :=
      fun x hx => (stretchesTo_iff_backExtent.mp (h x hx)).2 axis
    rw [hextent]
    refine ⟨fun x hx => (hstretch x hx).symm, .inr ?_⟩
    obtain ⟨x, hx, hne⟩ := hsome
    exact ⟨x, hx, (hstretch x hx).resolve_right hne⟩
  · have hextent : extent axis = 1 := if_neg hsome
    rw [hextent]
    exact ⟨fun x hx => .inl (not_not.mp fun hne => hsome ⟨x, hx, hne⟩), .inl rfl⟩

/-- **The broadcast shape is the least target.** -/
theorem broadcast_eq_ok_iff : broadcast xs = .ok r ↔ LeastTarget xs r := by
  refine ⟨leastTarget_of_broadcast, fun h => ?_⟩
  obtain ⟨s, hs⟩ := exists_broadcast h.stretches
  rw [hs, h.unique (leastTarget_of_broadcast hs)]

/-! ## Grouping, order and repetition -/

/-- **Broadcasts are grouped at will.** -/
theorem broadcast_append_eq_ok :
    broadcast (xs ++ ys) = .ok r ↔
      ∃ s t, broadcast xs = .ok s ∧ broadcast ys = .ok t ∧ broadcast [s, t] = .ok r := by
  constructor
  · intro h
    obtain ⟨hstretches, hleast⟩ := broadcast_eq_ok_iff.mp h
    obtain ⟨hxs, hys⟩ := List.forall_mem_append.mp hstretches
    obtain ⟨s, hs⟩ := exists_broadcast hxs
    obtain ⟨t, ht⟩ := exists_broadcast hys
    have hs' := broadcast_eq_ok_iff.mp hs
    have ht' := broadcast_eq_ok_iff.mp ht
    refine ⟨s, t, hs, ht, broadcast_eq_ok_iff.mpr ⟨?_, fun u hu => hleast u ?_⟩⟩
    · exact List.forall_mem_cons.mpr ⟨hs'.least r hxs,
        List.forall_mem_singleton.mpr (ht'.least r hys)⟩
    · obtain ⟨hsu, htu⟩ := List.forall_mem_cons.mp hu
      have htu := List.forall_mem_singleton.mp htu
      exact List.forall_mem_append.mpr ⟨fun x hx => (hs'.stretches x hx).trans hsu,
        fun y hy => (ht'.stretches y hy).trans htu⟩
  · rintro ⟨s, t, hs, ht, hr⟩
    have hs := broadcast_eq_ok_iff.mp hs
    have ht := broadcast_eq_ok_iff.mp ht
    obtain ⟨hstretches, hleast⟩ := broadcast_eq_ok_iff.mp hr
    obtain ⟨hsr, htr⟩ := List.forall_mem_cons.mp hstretches
    have htr := List.forall_mem_singleton.mp htr
    refine broadcast_eq_ok_iff.mpr ⟨?_, fun u hu => hleast u ?_⟩
    · exact List.forall_mem_append.mpr ⟨fun x hx => (hs.stretches x hx).trans hsr,
        fun y hy => (ht.stretches y hy).trans htr⟩
    · obtain ⟨hxs, hys⟩ := List.forall_mem_append.mp hu
      exact List.forall_mem_cons.mpr ⟨hs.least u hxs, List.forall_mem_singleton.mpr (ht.least u hys)⟩

/-- **Only the common targets of the operands matter.** -/
theorem broadcast_congr (h : ∀ t, (∀ x ∈ xs, x.StretchesTo t) ↔ ∀ y ∈ ys, y.StretchesTo t) :
    broadcast xs = .ok r ↔ broadcast ys = .ok r := by
  rw [broadcast_eq_ok_iff, broadcast_eq_ok_iff]
  exact ⟨fun hr => ⟨(h r).mp hr.stretches, fun t ht => hr.least t ((h t).mpr ht)⟩,
    fun hr => ⟨(h r).mpr hr.stretches, fun t ht => hr.least t ((h t).mp ht)⟩⟩

/-- Operands with the same members broadcast alike. -/
theorem broadcast_congr_mem (h : ∀ x, x ∈ xs ↔ x ∈ ys) :
    broadcast xs = .ok r ↔ broadcast ys = .ok r :=
  broadcast_congr fun _ => forall_congr' fun x => by rw [h x]

/-- With an extent found, meeting it again changes nothing. -/
theorem commonExtent_some_append {axis n : Nat} (ns ms : List Nat) :
    commonExtent axis (some n) (ns ++ n :: ms) = commonExtent axis (some n) (ns ++ ms) := by
  induction ns with
  | nil => exact if_pos (.inr rfl)
  | cons k ns ih =>
    rw [List.cons_append, List.cons_append, commonExtent, commonExtent, ih]

/-- **An extent of 1, or one met before, changes nothing**, not even the error. -/
theorem commonExtent_append {axis n : Nat} {ns : List Nat} (ms : List Nat)
    (h : n = 1 ∨ n ∈ ns) (found : Option Nat) :
    commonExtent axis found (ns ++ n :: ms) = commonExtent axis found (ns ++ ms) := by
  induction ns generalizing found with
  | nil =>
    obtain rfl := h.resolve_right List.not_mem_nil
    cases found with
    | none => exact if_pos rfl
    | some m => exact if_pos (.inl rfl)
  | cons k ns ih =>
    rw [List.cons_append, List.cons_append]
    by_cases hk : n = k
    · -- from here on the extent has been found, unless there is a conflict already
      subst hk
      cases found with
      | none =>
        rw [commonExtent, commonExtent]
        by_cases hone : n = 1
        · rw [if_pos hone, if_pos hone]
          exact ih (.inl hone) none
        · rw [if_neg hone, if_neg hone]
          exact commonExtent_some_append ns ms
      | some m =>
        rw [commonExtent, commonExtent]
        by_cases hagree : n = 1 ∨ n = m
        · rw [if_pos hagree, if_pos hagree]
          rcases hagree with hone | rfl
          · exact ih (.inl hone) (some m)
          · exact commonExtent_some_append ns ms
        · rw [if_neg hagree, if_neg hagree]
    · have hrest : n = 1 ∨ n ∈ ns := h.imp_right fun hmem =>
        (List.mem_cons.mp hmem).resolve_left hk
      cases found with
      | none => rw [commonExtent, commonExtent, ih hrest none, ih hrest (some k)]
      | some m => rw [commonExtent, commonExtent, ih hrest (some m)]

theorem maxRank_append : maxRank (xs ++ ys) = max (maxRank xs) (maxRank ys) := by
  refine Nat.le_antisymm (maxRank_le fun x hx => ?_) (Nat.max_le.mpr ⟨?_, ?_⟩)
  · rcases List.mem_append.mp hx with hx | hx
    · exact Nat.le_trans (length_le_maxRank hx) (Nat.le_max_left _ _)
    · exact Nat.le_trans (length_le_maxRank hx) (Nat.le_max_right _ _)
  · exact maxRank_le fun x hx => length_le_maxRank (List.mem_append_left ys hx)
  · exact maxRank_le fun y hy => length_le_maxRank (List.mem_append_right xs hy)

/-- **An operand of rank 0, or one met before, changes nothing**, not even the error. -/
theorem broadcast_append_cons (h : s = [] ∨ s ∈ xs) :
    broadcast (xs ++ s :: ys) = broadcast (xs ++ ys) := by
  have hrank : maxRank (xs ++ s :: ys) = maxRank (xs ++ ys) := by
    have hlength : s.length ≤ maxRank xs := by
      rcases h with rfl | h
      · exact Nat.zero_le _
      · exact length_le_maxRank h
    have hcons : maxRank (s :: ys) = max s.length (maxRank ys) := rfl
    rw [maxRank_append, maxRank_append, hcons]
    omega
  have hcolumn : ∀ rank axis,
      commonExtent axis none (column ((xs ++ s :: ys).map (·.padTo rank)) axis)
        = commonExtent axis none (column ((xs ++ ys).map (·.padTo rank)) axis) := by
    intro rank axis
    simp only [column, List.map_append, List.map_cons]
    refine commonExtent_append _ ?_ none
    rcases h with rfl | h
    · left
      rw [padTo, padLeft, List.append_nil, List.getD_eq_getElem?_getD, List.getElem?_replicate]
      split
      · rfl
      · rfl
    · exact .inr (List.mem_map_of_mem (List.mem_map_of_mem h))
  unfold broadcast broadcastAll
  simp only [hrank, hcolumn]
  cases (List.range (maxRank (xs ++ ys))).mapM fun axis =>
      commonExtent axis none (column ((xs ++ ys).map (·.padTo (maxRank (xs ++ ys)))) axis) with
  | error e => rfl
  | ok shape => rfl

/-- **Broadcasting is a partial join.** Operands can be grouped at will and come in any order and any
number of times, an operand of rank 0 changes nothing, and the broadcast shape is the least one to
which every operand stretches. A repetition of what came before, and an operand of rank 0, leave the
error as it is, too. -/
theorem broadcast_partial_join (xs ys : List Shape) :
    (∀ r, broadcast (xs ++ ys) = .ok r ↔
        ∃ s t, broadcast xs = .ok s ∧ broadcast ys = .ok t ∧ broadcast [s, t] = .ok r)
      ∧ (∀ zs, xs.Perm zs → ∀ r, broadcast xs = .ok r ↔ broadcast zs = .ok r)
      ∧ (∀ x ∈ xs ++ ys, ∀ r,
          broadcast (xs ++ x :: ys) = .ok r ↔ broadcast (xs ++ ys) = .ok r)
      ∧ (∀ x ∈ xs, broadcast (xs ++ x :: ys) = broadcast (xs ++ ys))
      ∧ broadcast (xs ++ [] :: ys) = broadcast (xs ++ ys)
      ∧ ∀ r, broadcast xs = .ok r → (∀ x ∈ xs, broadcast [x, r] = .ok r)
          ∧ ∀ t, (∀ x ∈ xs, broadcast [x, t] = .ok t) → broadcast [r, t] = .ok t := by
  refine ⟨fun r => broadcast_append_eq_ok, fun zs h r => broadcast_congr_mem fun x => h.mem_iff,
    fun x hx r => broadcast_congr_mem fun y => ?_, fun x hx => broadcast_append_cons (.inr hx),
    broadcast_append_cons (.inl rfl), fun r h => ?_⟩
  · rw [List.mem_append, List.mem_cons, List.mem_append]
    constructor
    · rintro (hy | rfl | hy)
      · exact .inl hy
      · exact List.mem_append.mp hx
      · exact .inr hy
    · exact fun hy => hy.imp_right .inr
  · obtain ⟨hstretches, hleast⟩ := broadcast_eq_ok_iff.mp h
    simp only [broadcast_target_eq_ok]
    exact ⟨hstretches, hleast⟩

/-- A column, a row and an empty batch of columns: they are taken in another grouping and order, with
repetitions, and stretched on to a larger target. -/
theorem broadcast_partial_join_empty :
    broadcast ([[2, 1], [3]] ++ [[0, 1, 1]]) = .ok [0, 2, 3]
      ∧ (∃ s t, broadcast [[2, 1], [3]] = .ok s ∧ broadcast [[0, 1, 1]] = .ok t
          ∧ broadcast [s, t] = .ok [0, 2, 3])
      ∧ broadcast [[3], [2, 1]] = .ok [2, 3]
      ∧ broadcast ([[2, 1], [3]] ++ [0, 1, 1] :: [[0, 1, 1]]) = .ok [0, 2, 3]
      ∧ broadcast ([[2, 1], [3]] ++ [2, 1] :: [[4]]) = broadcast ([[2, 1], [3]] ++ [[4]])
      ∧ broadcast [[2, 3], [5, 2, 3]] = .ok [5, 2, 3] := by
  obtain ⟨hgroup, hperm, hrepeat, -, -, hleast⟩ := broadcast_partial_join [[2, 1], [3]] [[0, 1, 1]]
  have hall : broadcast ([[2, 1], [3]] ++ [[0, 1, 1]]) = .ok [0, 2, 3] := by decide +kernel
  have hfirst : broadcast [[2, 1], [3]] = .ok [2, 3] := by decide +kernel
  refine ⟨hall, (hgroup _).mp hall, (hperm [[3], [2, 1]] (.swap _ _ _) _).mp hfirst,
    (hrepeat [0, 1, 1] (by decide) _).mpr hall,
    (broadcast_partial_join [[2, 1], [3]] [[4]]).2.2.2.1 [2, 1] (by decide), ?_⟩
  refine (hleast _ hfirst).2 [5, 2, 3] fun x hx => ?_
  rcases List.mem_pair.mp hx with rfl | rfl
  · decide +kernel
  · decide +kernel

end StridedArray.Shape
