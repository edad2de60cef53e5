import Mathlib.Data.List.GetD
import StridedArray.Proofs.Outcome
import StridedArray.Shape.Broadcast

/-!
# Stretching a shape

A shape **stretches** to a target when every extent, after padding, is the
target's or 1: the relation under which a route exists and under which an
array is repeated. Shapes broadcast to one that all of them stretch to and
that has no more axes, and on no axis another extent, than one of them asks
for (`Shape.broadcast_eq_ok`). In particular a shape broadcasts with its
target to the target exactly if it stretches to it
(`Shape.broadcast_target_eq_ok`).
-/

namespace StridedArray.Shape

/-! ## The extent of one axis -/

/-- With an extent other than 1 found, the common extent is that one. -/
theorem commonExtent_some_eq_ok {axis m n : Nat} {ns : List Nat} :
    commonExtent axis (some m) ns = .ok n ↔ n = m ∧ ∀ k ∈ ns, k = 1 ∨ k = m := by
  induction ns with
  | nil => exact ⟨fun h => ⟨(Except.ok.inj h).symm, nofun⟩, fun h => h.1 ▸ rfl⟩
  | cons k ns ih =>
    rw [commonExtent, List.forall_mem_cons]
    by_cases hk : k = 1 ∨ k = m
    · rw [if_pos hk, ih, and_iff_right hk]
    · rw [if_neg hk]
      exact ⟨fun h => (refuse_ne_ok _ _ h).elim, fun h => (hk h.2.1).elim⟩

/-- **The common extent of an axis** is one that every extent agrees with, being equal to it or
1, and that is not larger than needed: it is 1 or one of them. -/
theorem commonExtent_eq_ok {axis n : Nat} {ns : List Nat} :
    commonExtent axis none ns = .ok n ↔ (∀ k ∈ ns, k = 1 ∨ k = n) ∧ (n = 1 ∨ n ∈ ns) := by
  induction ns with
  | nil =>
    refine ⟨fun h => ⟨nofun, .inl (Except.ok.inj h).symm⟩, fun h => ?_⟩
    rw [h.2.resolve_right List.not_mem_nil]
    rfl
  | cons k ns ih =>
    rw [commonExtent, List.forall_mem_cons, List.mem_cons]
    by_cases hk : k = 1
    · rw [if_pos hk, ih, and_iff_right (.inl hk : k = 1 ∨ k = n)]
      refine and_congr_right fun _ => ⟨fun h => h.imp_right .inr, fun h => ?_⟩
      rcases h with h | h | h
      · exact .inl h
      · exact .inl (h.trans hk)
      · exact .inr h
    · rw [if_neg hk, commonExtent_some_eq_ok]
      constructor
      · rintro ⟨rfl, h⟩
        exact ⟨⟨.inr rfl, h⟩, .inr (.inl rfl)⟩
      · rintro ⟨⟨hkn, h⟩, -⟩
        obtain rfl := hkn.resolve_left hk
        exact ⟨rfl, h⟩

/-! ## Padding -/

@[simp] theorem length_padTo (s : Shape) (rank : Nat) :
    (s.padTo rank).length = max rank s.length := by
  rw [padTo, length_padLeft]
  omega

/-- Padding to a rank that is there already changes nothing. -/
theorem padTo_of_le {s : Shape} {rank : Nat} (h : rank ≤ s.length) : s.padTo rank = s := by
  rw [padTo, Nat.sub_eq_zero_of_le h]
  rfl

@[simp] theorem padTo_length (s : Shape) : s.padTo s.length = s :=
  padTo_of_le (Nat.le_refl _)

/-! ## Stretching -/

/-- **The shape stretches to a target**: padded to its rank, every extent is the target's or 1. -/
def StretchesTo (s t : Shape) : Prop :=
  List.Forall₂ (fun m n => m = n ∨ m = 1) (s.padTo t.length) t

instance (s t : Shape) : Decidable (s.StretchesTo t) :=
  inferInstanceAs (Decidable (List.Forall₂ _ _ _))

/-- A shape does not stretch to a lower rank. -/
theorem StretchesTo.length_le {s t : Shape} (h : s.StretchesTo t) : s.length ≤ t.length := by
  have hlength := List.Forall₂.length_eq h
  rw [length_padTo] at hlength
  omega

/-- A shape stretches to itself. -/
theorem StretchesTo.refl (s : Shape) : s.StretchesTo s := by
  unfold StretchesTo
  rw [padTo_length]
  exact List.forall₂_same.mpr fun _ _ => .inl rfl

/-- Stretching said axis by axis. -/
theorem stretchesTo_iff {s t : Shape} :
    s.StretchesTo t ↔ s.length ≤ t.length
      ∧ ∀ axis < t.length, (s.padTo t.length).getD axis 1 = t.getD axis 1
        ∨ (s.padTo t.length).getD axis 1 = 1 := by
  constructor
  · intro h
    refine ⟨h.length_le, fun axis haxis => ?_⟩
    have hpad : axis < (s.padTo t.length).length := by
      rw [length_padTo]
      omega
    rw [List.getD_eq_getElem _ _ hpad, List.getD_eq_getElem _ _ haxis]
    exact List.Forall₂.get h hpad haxis
  · rintro ⟨hle, h⟩
    have hlength : (s.padTo t.length).length = t.length := by
      rw [length_padTo]
      omega
    refine List.forall₂_iff_get.mpr ⟨hlength, fun axis hpad haxis => ?_⟩
    have haxis' := h axis haxis
    rwa [List.getD_eq_getElem _ _ hpad, List.getD_eq_getElem _ _ haxis] at haxis'

/-! ## The broadcast of two shapes -/

/-- **The broadcast shape said axis by axis**: it has the largest rank, every padded extent is its
own or 1, and its extent is 1 where no operand asks for another. -/
theorem broadcast_eq_ok {shapes : List Shape} {r : Shape} :
    broadcast shapes = .ok r ↔ r.length = maxRank shapes
      ∧ ∀ axis < r.length,
          (∀ s ∈ shapes, (s.padTo r.length).getD axis 1 = 1
            ∨ (s.padTo r.length).getD axis 1 = r.getD axis 1)
          ∧ (r.getD axis 1 = 1
            ∨ ∃ s ∈ shapes, (s.padTo r.length).getD axis 1 = r.getD axis 1) := by
  -- the extents of one axis agree up to 1 in the padded shapes
  have hcolumn : ∀ (rank axis n : Nat),
      commonExtent axis none (column (shapes.map (·.padTo rank)) axis) = .ok n ↔
        (∀ s ∈ shapes, (s.padTo rank).getD axis 1 = 1 ∨ (s.padTo rank).getD axis 1 = n)
          ∧ (n = 1 ∨ ∃ s ∈ shapes, (s.padTo rank).getD axis 1 = n) := by
    intro rank axis n
    rw [commonExtent_eq_ok, column, List.map_map, List.forall_mem_map, List.mem_map]
    rfl
  have hextents : broadcast shapes = .ok r ↔
      (List.range (maxRank shapes)).mapM (fun axis =>
        commonExtent axis none (column (shapes.map (·.padTo (maxRank shapes))) axis)) = .ok r := by
    rw [broadcast, broadcastAll, Outcome.bind_eq_ok]
    constructor
    · rintro ⟨full, hfull, hr⟩
      obtain ⟨shape, hshape, hpair⟩ := Outcome.bind_eq_ok.mp hfull
      obtain rfl := Except.ok.inj hpair
      obtain rfl := Except.ok.inj hr
      exact hshape
    · intro h
      exact ⟨_, Outcome.bind_eq_ok.mpr ⟨r, h, rfl⟩, rfl⟩
  rw [hextents, Outcome.mapM_range_eq_ok]
  refine and_congr_right fun hlength => ?_
  rw [← hlength]
  refine forall_congr' fun axis => forall_congr' fun haxis => ?_
  rw [hcolumn, List.getD_eq_getElem _ _ haxis]

/-- **A shape broadcasts with its target to the target** exactly if it stretches to it. -/
theorem broadcast_target_eq_ok {s t : Shape} :
    broadcast [s, t] = .ok t ↔ s.StretchesTo t := by
  rw [broadcast_eq_ok, stretchesTo_iff]
  have hrank : t.length = maxRank [s, t] ↔ s.length ≤ t.length := by
    unfold maxRank
    simp only [List.foldr_cons, List.foldr_nil]
    omega
  rw [hrank]
  refine and_congr_right fun _ => forall_congr' fun axis => forall_congr' fun haxis => ?_
  simp only [List.forall_mem_cons, List.exists_mem_cons_iff, padTo_length, List.not_mem_nil]
  tauto

/-- **Every operand stretches to the broadcast shape.** -/
theorem stretchesTo_of_broadcast {shapes : List Shape} {r s : Shape}
    (h : broadcast shapes = .ok r) (hs : s ∈ shapes) : s.StretchesTo r := by
  obtain ⟨hrank, haxis⟩ := broadcast_eq_ok.mp h
  refine stretchesTo_iff.mpr ⟨?_, fun axis hlt => ((haxis axis hlt).1 s hs).symm⟩
  rw [hrank]
  clear h hrank haxis
  induction shapes with
  | nil => exact absurd hs List.not_mem_nil
  | cons u shapes ih =>
    rw [maxRank, List.foldr_cons]
    rcases List.mem_cons.mp hs with rfl | hs
    · exact Nat.le_max_left _ _
    · exact Nat.le_trans (ih hs) (Nat.le_max_right _ _)

/-- Broadcasting with a single item of rank 0 changes nothing. -/
theorem broadcast_rank_zero (s : Shape) : broadcast [s, []] = .ok s := by
  rw [broadcast_eq_ok]
  have hrank : s.length = maxRank [s, []] := by
    unfold maxRank
    simp only [List.foldr_cons, List.foldr_nil, List.length_nil]
    omega
  refine ⟨hrank, fun axis haxis => ⟨fun u hu => ?_, ?_⟩⟩
  · rcases List.mem_pair.mp hu with rfl | rfl
    · exact .inr (by rw [padTo_length])
    · left
      rw [padTo, padLeft, List.append_nil, List.getD_replicate]
      omega
  · exact .inr ⟨s, List.mem_cons_self, by rw [padTo_length]⟩

end StridedArray.Shape
