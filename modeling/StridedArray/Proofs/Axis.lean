import Mathlib.Data.List.GetD
import Mathlib.Tactic.Ring
import StridedArray.Proofs.Position

/-!
# Changing one axis

A view operation changes a layout on one axis or on two. To follow an item
through it, positions are taken coordinate by coordinate
(`Shape.contains_iff_getD`), and a displacement changes by what the
changed coordinate or stride contributes (`Layout.displacement_set_left`,
`Layout.displacement_set_right`).
-/

namespace StridedArray

/-! ## Entries of lists -/

section Entries

variable {α : Type}

/-- The entries of a list with one of them set. -/
theorem getD_set {xs : List α} {i k : Nat} {x d : α} (hi : i < xs.length) :
    (xs.set i x).getD k d = if k = i then x else xs.getD k d := by
  rw [List.getD_eq_getElem?_getD, List.getD_eq_getElem?_getD, List.getElem?_set]
  by_cases hk : k = i
  · rw [if_pos hk.symm, if_pos hi, if_pos hk]
    rfl
  · rw [if_neg (Ne.symm hk), if_neg hk]

/-- An entry that is there. -/
theorem getD_of_getElem?_eq_some {xs : List α} {i : Nat} {x d : α} (h : xs[i]? = some x) :
    i < xs.length ∧ xs.getD i d = x := by
  refine ⟨(List.getElem?_eq_some_iff.mp h).1, ?_⟩
  rw [List.getD_eq_getElem?_getD, h]
  rfl

/-- **A list with two entries exchanged**, `d` standing for an entry that is not there. -/
def exchanged (d : α) (i j : Nat) (xs : List α) : List α :=
  (xs.set i (xs.getD j d)).set j (xs.getD i d)

@[simp] theorem length_exchanged (d : α) (i j : Nat) (xs : List α) :
    (exchanged d i j xs).length = xs.length := by
  rw [exchanged, List.length_set, List.length_set]

/-- The place of an entry in a list with two entries exchanged. -/
def exchangedIndex (i j k : Nat) : Nat :=
  if k = j then i else if k = i then j else k

@[simp] theorem exchangedIndex_exchangedIndex (i j k : Nat) :
    exchangedIndex i j (exchangedIndex i j k) = k := by
  unfold exchangedIndex
  split_ifs <;> omega

theorem exchangedIndex_lt {i j k n : Nat} (hi : i < n) (hj : j < n) (hk : k < n) :
    exchangedIndex i j k < n := by
  unfold exchangedIndex
  split_ifs <;> assumption

/-- The last place of the two has the entry of the first. -/
theorem exchangedIndex_eq_right {i j k : Nat} : exchangedIndex i j k = j ↔ k = i := by
  unfold exchangedIndex
  split_ifs <;> omega

/-- The entries of a list with two of them exchanged. -/
theorem getD_exchanged {d : α} {i j k : Nat} {xs : List α} (hi : i < xs.length)
    (hj : j < xs.length) :
    (exchanged d i j xs).getD k d = xs.getD (exchangedIndex i j k) d := by
  rw [exchanged, getD_set (by rwa [List.length_set]), getD_set hi, exchangedIndex]
  split
  · rfl
  · split <;> rfl

/-- Lists of one length with the same entries. -/
theorem eq_of_getD {xs ys : List α} {d : α} (hlength : xs.length = ys.length)
    (h : ∀ k < xs.length, xs.getD k d = ys.getD k d) : xs = ys := by
  refine List.ext_getElem hlength fun k hk hk' => ?_
  rw [← List.getD_eq_getElem xs d hk, ← List.getD_eq_getElem ys d hk', h k hk]

/-- The one entry comes from where the other was. -/
theorem getElem?_exchanged {d : α} {i j : Nat} {xs : List α} (hi : i < xs.length)
    (hj : j < xs.length) : (exchanged d i j xs)[i]? = xs[j]? := by
  have hi' : i < (exchanged d i j xs).length := (length_exchanged ..).symm ▸ hi
  rw [List.getElem?_eq_getElem hi', List.getElem?_eq_getElem hj, ← List.getD_eq_getElem _ d hi',
    getD_exchanged hi hj, exchangedIndex_eq_right.mpr rfl, List.getD_eq_getElem _ d hj]

/-- Exchanged twice, the entries are back. -/
theorem exchanged_exchanged {d : α} {i j : Nat} {xs : List α} (hi : i < xs.length)
    (hj : j < xs.length) : exchanged d i j (exchanged d i j xs) = xs := by
  have hlength : (exchanged d i j xs).length = xs.length := length_exchanged ..
  refine eq_of_getD (d := d) ((length_exchanged ..).trans hlength) fun k _ => ?_
  rw [getD_exchanged (hlength ▸ hi) (hlength ▸ hj), getD_exchanged hi hj,
    exchangedIndex_exchangedIndex]

/-- Setting an entry before the exchange is setting the other one after it. -/
theorem exchanged_set {d : α} {i j : Nat} {xs : List α} (hi : i < xs.length)
    (hj : j < xs.length) (x : α) :
    exchanged d i j (xs.set j x) = (exchanged d i j xs).set i x := by
  have hlength : (xs.set j x).length = xs.length := List.length_set
  have hlength' : (exchanged d i j xs).length = xs.length := length_exchanged ..
  refine eq_of_getD (d := d) (by simp) fun k _ => ?_
  rw [getD_exchanged (hlength ▸ hi) (hlength ▸ hj), getD_set hj, getD_set (hlength' ▸ hi),
    getD_exchanged hi hj]
  simp only [exchangedIndex_eq_right]

end Entries

namespace Shape

/-- **A position is a list of coordinates, each below the extent of its axis.** -/
theorem contains_iff_getD {s : Shape} {p : List Nat} :
    s.Contains p ↔ p.length = s.length ∧ ∀ axis < s.length, p.getD axis 0 < s.getD axis 0 := by
  induction s generalizing p with
  | nil =>
    cases p with
    | nil => exact ⟨fun _ => ⟨rfl, nofun⟩, fun _ => trivial⟩
    | cons c p => exact ⟨False.elim, fun h => absurd h.1 (by simp)⟩
  | cons n s ih =>
    cases p with
    | nil => exact ⟨False.elim, fun h => absurd h.1 (by simp)⟩
    | cons c p =>
      rw [List.length_cons, List.length_cons, Nat.add_right_cancel_iff, Nat.forall_lt_succ_left]
      constructor
      · rintro ⟨hc, hp⟩
        obtain ⟨hlength, hrest⟩ := ih.mp hp
        exact ⟨hlength, hc, hrest⟩
      · rintro ⟨hlength, hc, hrest⟩
        exact ⟨hc, ih.mpr ⟨hlength, hrest⟩⟩

/-- Positions with the same coordinates are the same. -/
theorem eq_of_getD {s : Shape} {p q : List Nat} (hp : s.Contains p) (hq : s.Contains q)
    (h : ∀ axis < s.length, p.getD axis 0 = q.getD axis 0) : p = q := by
  have hlength : p.length = q.length := hp.length_eq.trans hq.length_eq.symm
  exact StridedArray.eq_of_getD hlength fun axis haxis => h axis (hp.length_eq ▸ haxis)

/-- A shape has positions if no axis is empty. -/
theorem count_pos_iff_getD {s : Shape} :
    0 < s.count ↔ ∀ axis < s.length, 0 < s.getD axis 0 := by
  induction s with
  | nil => exact ⟨fun _ => nofun, fun _ => Nat.one_pos⟩
  | cons n s ih =>
    rw [List.length_cons, Nat.forall_lt_succ_left]
    exact ⟨fun h => ⟨Nat.pos_of_mul_pos_right h, ih.mp (Nat.pos_of_mul_pos_left h)⟩,
      fun h => Nat.mul_pos h.1 (ih.mpr h.2)⟩

/-- Whether a shape has positions can be told from its list of extents. -/
theorem count_pos_iff {s : Shape} : 0 < s.count ↔ s.all (0 < ·) = true := by
  induction s with
  | nil => exact ⟨fun _ => rfl, fun _ => Nat.one_pos⟩
  | cons n s ih =>
    rw [List.all_cons, Bool.and_eq_true, ← ih, decide_eq_true_iff]
    exact ⟨fun h => ⟨Nat.pos_of_mul_pos_right h, Nat.pos_of_mul_pos_left h⟩,
      fun h => Nat.mul_pos h.1 h.2⟩

end Shape

namespace Layout

/-- **A displacement after a change of one coordinate.** -/
theorem displacement_set_left {p : List Nat} {strides : List Int} {axis : Nat} (c : Nat)
    (hp : axis < p.length) (hs : axis < strides.length) :
    displacement (p.set axis c) strides
      = displacement p strides + ((c : Int) - (p.getD axis 0 : Nat)) * strides.getD axis 0 := by
  induction axis generalizing p strides with
  | zero =>
    obtain ⟨b, p, rfl⟩ := List.exists_cons_of_length_pos hp
    obtain ⟨s, strides, rfl⟩ := List.exists_cons_of_length_pos hs
    show (c : Int) * s + displacement p strides
      = b * s + displacement p strides + ((c : Int) - b) * s
    ring
  | succ axis ih =>
    obtain ⟨b, p, rfl⟩ := List.exists_cons_of_length_pos (Nat.zero_lt_of_lt hp)
    obtain ⟨s, strides, rfl⟩ := List.exists_cons_of_length_pos (Nat.zero_lt_of_lt hs)
    have hrest := ih (Nat.lt_of_succ_lt_succ hp) (Nat.lt_of_succ_lt_succ hs)
    rw [List.set_cons_succ, displacement_cons, displacement_cons, hrest, List.getD_cons_succ,
      List.getD_cons_succ, Int.add_assoc]

/-- **A displacement after a change of one stride.** -/
theorem displacement_set_right {p : List Nat} {strides : List Int} {axis : Nat} (s : Int)
    (hp : axis < p.length) (hs : axis < strides.length) :
    displacement p (strides.set axis s)
      = displacement p strides + (p.getD axis 0 : Nat) * (s - strides.getD axis 0) := by
  induction axis generalizing p strides with
  | zero =>
    obtain ⟨c, p, rfl⟩ := List.exists_cons_of_length_pos hp
    obtain ⟨t, strides, rfl⟩ := List.exists_cons_of_length_pos hs
    show c * s + displacement p strides = c * t + displacement p strides + (c : Int) * (s - t)
    ring
  | succ axis ih =>
    obtain ⟨c, p, rfl⟩ := List.exists_cons_of_length_pos (Nat.zero_lt_of_lt hp)
    obtain ⟨t, strides, rfl⟩ := List.exists_cons_of_length_pos (Nat.zero_lt_of_lt hs)
    have hrest := ih (Nat.lt_of_succ_lt_succ hp) (Nat.lt_of_succ_lt_succ hs)
    rw [List.set_cons_succ, displacement_cons, displacement_cons, hrest, List.getD_cons_succ,
      List.getD_cons_succ, Int.add_assoc]

/-- **Exchanging two coordinates is exchanging the two strides.** -/
theorem displacement_exchanged {p : List Nat} {strides : List Int} {i j : Nat}
    (hlength : p.length = strides.length) (hi : i < p.length) (hj : j < p.length) :
    displacement p (exchanged 0 i j strides) = displacement (exchanged 0 i j p) strides := by
  have hi' : i < strides.length := hlength ▸ hi
  have hj' : j < strides.length := hlength ▸ hj
  rw [exchanged, exchanged, displacement_set_right _ hj (by rwa [List.length_set]),
    displacement_set_right _ hi hi', displacement_set_left _ (by rwa [List.length_set]) hj',
    displacement_set_left _ hi hi', getD_set hi', getD_set hi]
  by_cases hij : j = i
  · rw [if_pos hij, if_pos hij, hij]
    ring
  · rw [if_neg hij, if_neg hij]
    ring

end Layout

end StridedArray
