import StridedArray.Odometer

/-!
# Positions in row-major order

`unravel` and `ravel` are inverse to each other between the numbers below
the number of positions and the positions of a shape
(`Shape.ravel_unravel`, `Shape.unravel_ravel`), and `succ` goes from one
position to the next (`Shape.succ_unravel`): counting up coordinates with
carries is counting up ranks.
-/

namespace StridedArray.Shape

theorem Contains.length_eq {s : Shape} {p : List Nat} (h : s.Contains p) :
    p.length = s.length := by
  induction s generalizing p with
  | nil =>
    cases p with
    | nil => rfl
    | cons c p => exact h.elim
  | cons n s ih =>
    cases p with
    | nil => exact h.elim
    | cons c p => exact congrArg (· + 1) (ih h.2)

@[simp] theorem origin_cons (n : Nat) (s : Shape) : origin (n :: s) = 0 :: origin s := rfl

/-- The origin has rank 0. -/
@[simp] theorem unravel_zero (s : Shape) : s.unravel 0 = s.origin := by
  induction s with
  | nil => rfl
  | cons n s ih => simp [unravel, ih]

/-- A shape with a position has no empty axis. -/
theorem count_pos_of_contains {s : Shape} {p : List Nat} (h : s.Contains p) : 0 < s.count := by
  induction s generalizing p with
  | nil => exact Nat.one_pos
  | cons n s ih =>
    cases p with
    | nil => exact h.elim
    | cons c p => exact Nat.mul_pos (Nat.zero_lt_of_lt h.1) (ih h.2)

/-- Every number below the number of positions is the rank of a position. -/
theorem contains_unravel {s : Shape} {k : Nat} (h : k < s.count) : s.Contains (s.unravel k) := by
  induction s generalizing k with
  | nil => trivial
  | cons n s ih =>
    have hs : 0 < count s := Nat.pos_of_mul_pos_left (Nat.zero_lt_of_lt h)
    have hn : 0 < n := Nat.pos_of_mul_pos_right (Nat.zero_lt_of_lt h)
    exact ⟨Nat.mod_lt _ hn, ih (Nat.mod_lt _ hs)⟩

/-- A shape without an empty axis contains its origin. -/
theorem contains_origin {s : Shape} (h : 0 < s.count) : s.Contains s.origin := by
  rw [← unravel_zero]
  exact contains_unravel h

theorem ravel_lt {s : Shape} {p : List Nat} (h : s.Contains p) : s.ravel p < s.count := by
  induction s generalizing p with
  | nil =>
    cases p with
    | nil => exact Nat.one_pos
    | cons c p => exact h.elim
  | cons n s ih =>
    cases p with
    | nil => exact h.elim
    | cons c p =>
      calc c * count s + ravel s p
          < c * count s + count s := Nat.add_lt_add_left (ih h.2) _
        _ = (c + 1) * count s := (Nat.succ_mul _ _).symm
        _ ≤ n * count s := Nat.mul_le_mul_right _ h.1

/-- **The rank of a position leads back to it.** -/
theorem unravel_ravel {s : Shape} {p : List Nat} (h : s.Contains p) :
    s.unravel (s.ravel p) = p := by
  induction s generalizing p with
  | nil =>
    cases p with
    | nil => rfl
    | cons c p => exact h.elim
  | cons n s ih =>
    cases p with
    | nil => exact h.elim
    | cons c p =>
      have hlt := ravel_lt h.2
      have hdiv : (c * count s + ravel s p) / count s = c := by
        rw [Nat.mul_comm, Nat.mul_add_div (Nat.zero_lt_of_lt hlt), Nat.div_eq_of_lt hlt,
          Nat.add_zero]
      have hmod : (c * count s + ravel s p) % count s = ravel s p := by
        rw [Nat.mul_comm, Nat.mul_add_mod, Nat.mod_eq_of_lt hlt]
      rw [ravel, unravel, hdiv, hmod, Nat.mod_eq_of_lt h.1, ih h.2]

/-- **The position of a rank has that rank.** -/
theorem ravel_unravel {s : Shape} {k : Nat} (h : k < s.count) : s.ravel (s.unravel k) = k := by
  induction s generalizing k with
  | nil =>
    rw [count_nil, Nat.lt_one_iff] at h
    exact h.symm
  | cons n s ih =>
    have hs : 0 < count s := Nat.pos_of_mul_pos_left (Nat.zero_lt_of_lt h)
    have hdiv : k / count s < n := Nat.div_lt_of_lt_mul (by rwa [Nat.mul_comm])
    rw [unravel, ravel, ih (Nat.mod_lt _ hs), Nat.mod_eq_of_lt hdiv, Nat.mul_comm]
    exact Nat.div_add_mod k (count s)

/-- The positions of a shape are those listed. -/
theorem mem_positions {s : Shape} {p : List Nat} : p ∈ s.positions ↔ s.Contains p := by
  unfold positions
  rw [List.mem_map]
  constructor
  · rintro ⟨k, hk, rfl⟩
    exact contains_unravel (List.mem_range.mp hk)
  · intro hp
    exact ⟨s.ravel p, List.mem_range.mpr (ravel_lt hp), unravel_ravel hp⟩

/-- Two positions of the same rank are the same. -/
theorem ravel_injective {s : Shape} {p q : List Nat} (hp : s.Contains p) (hq : s.Contains q)
    (h : s.ravel p = s.ravel q) : p = q := by
  rw [← unravel_ravel hp, h, unravel_ravel hq]

/-- **Counting up a position is counting up its rank.** From the last position on every coordinate
goes back to zero. -/
theorem succ_unravel {s : Shape} {k : Nat} (h : k < s.count) :
    s.succ (s.unravel k)
      = if k + 1 < s.count then (false, s.unravel (k + 1)) else (true, s.origin) := by
  induction s generalizing k with
  | nil =>
    rw [count_nil, Nat.lt_one_iff] at h
    subst h
    rfl
  | cons n s ih =>
    have hs : 0 < count s := Nat.pos_of_mul_pos_left (Nat.zero_lt_of_lt h)
    have hc : k / count s < n := Nat.div_lt_of_lt_mul (by rwa [Nat.mul_comm])
    have hk := Nat.div_add_mod k (count s)
    rw [unravel, succ, ih (Nat.mod_lt k hs), Nat.mod_eq_of_lt hc, count_cons]
    by_cases hcarry : k % count s + 1 < count s
    · -- the faster axes do not carry, so the slow coordinate stays
      have hsucc : k + 1 = k % count s + 1 + count s * (k / count s) := by omega
      have hdiv : (k + 1) / count s = k / count s := by
        rw [hsucc, Nat.add_mul_div_left _ _ hs, Nat.div_eq_of_lt hcarry, Nat.zero_add]
      have hmod : (k + 1) % count s = k % count s + 1 := by
        rw [hsucc, Nat.add_mul_mod_self_left, Nat.mod_eq_of_lt hcarry]
      have hlast : k + 1 < n * count s := by
        calc k + 1 < count s + count s * (k / count s) := by omega
          _ = count s * (k / count s + 1) := by rw [Nat.mul_add, Nat.mul_one, Nat.add_comm]
          _ ≤ count s * n := Nat.mul_le_mul_left _ hc
          _ = n * count s := Nat.mul_comm _ _
      rw [if_pos hcarry, if_pos hlast, unravel, hdiv, hmod, Nat.mod_eq_of_lt hc]
    · -- the faster axes go back to zero, and the slow coordinate counts up
      have hsucc : k + 1 = count s * (k / count s + 1) := by
        have := Nat.mod_lt k hs
        rw [Nat.mul_add, Nat.mul_one]
        omega
      have hdiv : (k + 1) / count s = k / count s + 1 := by
        rw [hsucc, Nat.mul_div_cancel_left _ hs]
      have hmod : (k + 1) % count s = 0 := by
        rw [hsucc, Nat.mul_mod_right]
      have hiff : k + 1 < n * count s ↔ k / count s + 1 < n := by
        rw [hsucc, Nat.mul_comm]
        exact Nat.mul_lt_mul_right hs
      rw [if_neg hcarry]
      by_cases hlast : k / count s + 1 < n
      · simp only [if_pos hlast, if_pos (hiff.mpr hlast), unravel, hdiv, hmod,
          Nat.mod_eq_of_lt hlast, unravel_zero]
      · simp only [if_neg hlast, if_neg (mt hiff.mp hlast), origin_cons]

/-- A size in machine words is the number of positions. -/
theorem count_of_size {s : Shape} {n : Nat} (h : s.size = .ok n) : n = s.count := by
  have general : ∀ (s : Shape) (m n : Nat),
      s.foldlM (fun product extent => Word.unsigned (product * extent)) m = .ok n →
        n = m * count s := by
    intro s
    induction s with
    | nil =>
      intro m n h
      rw [count_nil, Nat.mul_one]
      exact (Except.ok.inj h).symm
    | cons e s ih =>
      intro m n h
      rw [List.foldlM_cons] at h
      obtain ⟨product, hproduct, hrest⟩ := Outcome.bind_eq_ok.mp h
      obtain ⟨-, rfl⟩ := Word.unsigned_eq_ok.mp hproduct
      rw [ih _ _ hrest, count_cons, Nat.mul_assoc]
  rw [general s 1 n h, Nat.one_mul]

/-- A size in machine words is a word. -/
theorem isUnsigned_of_size {s : Shape} {n : Nat} (h : s.size = .ok n) : Word.IsUnsigned n := by
  have general : ∀ (s : Shape) (m n : Nat), Word.IsUnsigned m →
      s.foldlM (fun product extent => Word.unsigned (product * extent)) m = .ok n →
        Word.IsUnsigned n := by
    intro s
    induction s with
    | nil =>
      intro m n hm h
      exact Except.ok.inj h ▸ hm
    | cons e s ih =>
      intro m n _ h
      rw [List.foldlM_cons] at h
      obtain ⟨product, hproduct, hrest⟩ := Outcome.bind_eq_ok.mp h
      obtain ⟨hunsigned, rfl⟩ := Word.unsigned_eq_ok.mp hproduct
      exact ih _ _ hunsigned hrest
  exact general s 1 n (by decide) h

end StridedArray.Shape
