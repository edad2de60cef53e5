import Mathlib.Tactic.Ring
import StridedArray.Proofs.Outcome
import StridedArray.Proofs.Route

/-!
# How far a layout reaches

Among the positions of a layout without an empty axis one lies lowest and
one highest: `Layout.leastShift` and `Layout.greatestShift` are how far
they are from the origin. Along an axis that moves, extents in the signed
range make the checked words exact, so that `lowest` and `highest` are
these two numbers (`Layout.lowest_eq_ok`, `Layout.highest_eq_ok`). They
exist if no axis is too long to be gone along (`Layout.exists_highest`).

Where every item lies in memory the extents are in range of themselves
(`Layout.steadyAxes_of_inMemory`), and going to a position cannot trap
(`Layout.slotAt_of_inMemory`). Wherever they lie, going to a position traps
or leads to the word of its exact slot (`Layout.slotAt_of_contains`).
-/

namespace StridedArray

namespace Shape

/-- **Every extent is a signed word.** -/
def Signed (s : Shape) : Prop :=
  ∀ n ∈ s, n < 0x8000000000000000

instance (s : Shape) : Decidable s.Signed :=
  inferInstanceAs (Decidable (∀ n ∈ s, n < _))

/-- Every extent of a shape with positions is at most their number. -/
theorem le_count_of_mem {s : Shape} {n : Nat} (hs : 0 < s.count) (hn : n ∈ s) : n ≤ s.count := by
  induction s with
  | nil => exact absurd hn List.not_mem_nil
  | cons m s ih =>
    have hm : 0 < m := Nat.pos_of_mul_pos_right hs
    have hrest : 0 < count s := Nat.pos_of_mul_pos_left hs
    rcases List.mem_cons.mp hn with rfl | hn
    · exact Nat.le_mul_of_pos_right _ hrest
    · exact Nat.le_trans (ih hrest hn) (Nat.le_mul_of_pos_left _ hm)

/-- A shape with few enough positions has signed extents. -/
theorem signed_of_count {s : Shape} (hs : 0 < s.count) (h : s.count < 0x8000000000000000) :
    s.Signed :=
  fun _ hn => Nat.lt_of_le_of_lt (le_count_of_mem hs hn) h

end Shape

namespace Layout

/-! ## The lowest and the highest position -/

/-- **How far below the origin the lowest item lies**, as a displacement. -/
def leastShift : Shape → List Int → Int
  | n :: shape, s :: strides => min (s * (n - 1)) 0 + leastShift shape strides
  | _, _ => 0

/-- **How far above the origin the highest item lies**, as a displacement. -/
def greatestShift : Shape → List Int → Int
  | n :: shape, s :: strides => max (s * (n - 1)) 0 + greatestShift shape strides
  | _, _ => 0

theorem leastShift_nonpos (shape : Shape) (strides : List Int) : leastShift shape strides ≤ 0 := by
  induction shape generalizing strides with
  | nil => exact Int.le_refl 0
  | cons n shape ih =>
    cases strides with
    | nil => exact Int.le_refl 0
    | cons s strides =>
      have := ih strides
      rw [leastShift]
      omega

theorem greatestShift_nonneg (shape : Shape) (strides : List Int) :
    0 ≤ greatestShift shape strides := by
  induction shape generalizing strides with
  | nil => exact Int.le_refl 0
  | cons n shape ih =>
    cases strides with
    | nil => exact Int.le_refl 0
    | cons s strides =>
      have := ih strides
      rw [greatestShift]
      omega

/-- A coordinate moves by no more than the whole axis does, in the same direction. -/
theorem mul_mem_axis {n c : Nat} (s : Int) (hc : c < n) :
    min (s * (n - 1)) 0 ≤ c * s ∧ (c : Int) * s ≤ max (s * (n - 1)) 0 := by
  have hle : (c : Int) ≤ n - 1 := by omega
  rw [Int.mul_comm (c : Int) s]
  rcases Int.le_total 0 s with hs | hs
  · have hlow : 0 ≤ s * (c : Int) := Int.mul_nonneg hs (Int.natCast_nonneg c)
    have hhigh : s * (c : Int) ≤ s * (n - 1) := Int.mul_le_mul_of_nonneg_left hle hs
    omega
  · have hlow : s * (c : Int) ≤ 0 := Int.mul_nonpos_of_nonpos_of_nonneg hs (Int.natCast_nonneg c)
    have hhigh : s * (n - 1) ≤ s * (c : Int) := Int.mul_le_mul_of_nonpos_left hs hle
    omega

/-- **No item lies below the lowest one or above the highest one.** -/
theorem displacement_mem_shift {shape : Shape} {p : List Nat} (strides : List Int)
    (hp : shape.Contains p) :
    leastShift shape strides ≤ displacement p strides
      ∧ displacement p strides ≤ greatestShift shape strides := by
  induction shape generalizing p strides with
  | nil =>
    cases p with
    | nil => exact ⟨Int.le_refl 0, Int.le_refl 0⟩
    | cons c p => exact hp.elim
  | cons n shape ih =>
    cases p with
    | nil => exact hp.elim
    | cons c p =>
      cases strides with
      | nil => exact ⟨Int.le_refl 0, Int.le_refl 0⟩
      | cons s strides =>
        have haxis := mul_mem_axis s hp.1
        have hrest := ih strides hp.2
        rw [leastShift, greatestShift, displacement_cons]
        omega

/-- The lowest item is there. -/
theorem exists_displacement_eq_leastShift {shape : Shape} (strides : List Int)
    (h : 0 < shape.count) :
    ∃ p, shape.Contains p ∧ displacement p strides = leastShift shape strides := by
  induction shape generalizing strides with
  | nil => exact ⟨[], trivial, rfl⟩
  | cons n shape ih =>
    have hn : 0 < n := Nat.pos_of_mul_pos_right h
    have hrest : 0 < Shape.count shape := Nat.pos_of_mul_pos_left h
    cases strides with
    | nil => exact ⟨Shape.origin (n :: shape), Shape.contains_origin h, rfl⟩
    | cons s strides =>
      obtain ⟨p, hp, hshift⟩ := ih strides hrest
      rcases Int.le_total 0 (s * (n - 1)) with hs | hs
      · refine ⟨0 :: p, ⟨hn, hp⟩, ?_⟩
        rw [displacement_cons, leastShift, hshift, Int.min_eq_right hs, Int.natCast_zero,
          Int.zero_mul]
      · refine ⟨(n - 1) :: p, ⟨by omega, hp⟩, ?_⟩
        rw [displacement_cons, leastShift, hshift, Int.min_eq_left hs, Int.natCast_sub hn,
          Int.natCast_one, Int.mul_comm]

/-- The highest item is there. -/
theorem exists_displacement_eq_greatestShift {shape : Shape} (strides : List Int)
    (h : 0 < shape.count) :
    ∃ p, shape.Contains p ∧ displacement p strides = greatestShift shape strides := by
  induction shape generalizing strides with
  | nil => exact ⟨[], trivial, rfl⟩
  | cons n shape ih =>
    have hn : 0 < n := Nat.pos_of_mul_pos_right h
    have hrest : 0 < Shape.count shape := Nat.pos_of_mul_pos_left h
    cases strides with
    | nil => exact ⟨Shape.origin (n :: shape), Shape.contains_origin h, rfl⟩
    | cons s strides =>
      obtain ⟨p, hp, hshift⟩ := ih strides hrest
      rcases Int.le_total 0 (s * (n - 1)) with hs | hs
      · refine ⟨(n - 1) :: p, ⟨by omega, hp⟩, ?_⟩
        rw [displacement_cons, greatestShift, hshift, Int.max_eq_left hs, Int.natCast_sub hn,
          Int.natCast_one, Int.mul_comm]
      · refine ⟨0 :: p, ⟨hn, hp⟩, ?_⟩
        rw [displacement_cons, greatestShift, hshift, Int.max_eq_right hs, Int.natCast_zero,
          Int.zero_mul]

/-! ## In machine words -/

/-- **Every axis that moves has a signed extent.** -/
def SteadyAxes (shape : Shape) (strides : List Int) : Prop :=
  List.Forall₂ (fun (n : Nat) s => n < 0x8000000000000000 ∨ s = 0) shape strides

theorem steadyAxes_of_signed {shape : Shape} {strides : List Int} (h : shape.Signed)
    (hlength : strides.length = shape.length) : SteadyAxes shape strides :=
  List.forall₂_iff_get.mpr ⟨hlength.symm, fun _ _ _ => .inl (h _ (List.get_mem _ _))⟩

/-- The reach of an axis that is steady is exact. -/
theorem mul_toSigned_sub_one {n : Nat} {s : Int} (h : n < 0x8000000000000000 ∨ s = 0) :
    s * (Word.toSigned n - 1) = s * (n - 1) := by
  rcases h with h | rfl
  · rw [Word.toSigned_of_lt h]
  · rw [Int.zero_mul, Int.zero_mul]

/-- **The lowest slot in machine words is the lowest slot.** -/
theorem lowest_eq_ok {shape : Shape} {strides : List Int} {slot low : Int}
    (haxes : SteadyAxes shape strides) (h : lowest shape strides slot = .ok low) :
    low = slot + leastShift shape strides := by
  induction haxes generalizing slot with
  | nil =>
    obtain rfl := Except.ok.inj h
    exact (Int.add_zero slot).symm
  | @cons n s shape strides haxis _ ih =>
    obtain ⟨steps, hsteps, h⟩ := Outcome.bind_eq_ok.mp h
    obtain ⟨-, hsteps⟩ := Word.signed_eq_ok.mp hsteps
    obtain ⟨reach, hreach, h⟩ := Outcome.bind_eq_ok.mp h
    obtain ⟨-, rfl⟩ := Word.signed_eq_ok.mp hreach
    obtain ⟨next, hnext, h⟩ := Outcome.bind_eq_ok.mp h
    obtain ⟨-, rfl⟩ := Word.signed_eq_ok.mp hnext
    rw [ih h, leastShift, hsteps, mul_toSigned_sub_one haxis, Int.add_assoc]

/-- **The highest slot in machine words is the highest slot.** -/
theorem highest_eq_ok {shape : Shape} {strides : List Int} {slot high : Int}
    (haxes : SteadyAxes shape strides) (hpos : 0 < shape.count)
    (h : highest shape strides slot = .ok high) : high = slot + greatestShift shape strides := by
  induction haxes generalizing slot with
  | nil =>
    obtain rfl := Except.ok.inj h
    exact (Int.add_zero slot).symm
  | @cons n s shape strides haxis _ ih =>
    have hn : 0 < n := Nat.pos_of_mul_pos_right hpos
    have hrest : 0 < Shape.count shape := Nat.pos_of_mul_pos_left hpos
    rw [highest] at h
    by_cases hs : 0 < s
    · rw [if_pos hs] at h
      obtain ⟨steps, hsteps, h⟩ := Outcome.bind_eq_ok.mp h
      obtain ⟨-, hsteps⟩ := Word.signed_eq_ok.mp hsteps
      obtain ⟨reach, hreach, h⟩ := Outcome.bind_eq_ok.mp h
      obtain ⟨-, rfl⟩ := Word.signed_eq_ok.mp hreach
      obtain ⟨next, hnext, h⟩ := Outcome.bind_eq_ok.mp h
      obtain ⟨-, rfl⟩ := Word.signed_eq_ok.mp hnext
      have hreach : 0 ≤ s * (n - 1) := Int.mul_nonneg (by omega) (by omega)
      rw [ih hrest h, greatestShift, hsteps, Int.mul_comm (_ - 1), mul_toSigned_sub_one haxis,
        Int.max_eq_left hreach, Int.add_assoc]
    · rw [if_neg hs] at h
      have hreach : s * (n - 1) ≤ 0 :=
        Int.mul_nonpos_of_nonpos_of_nonneg (by omega) (by omega)
      rw [ih hrest h, greatestShift, Int.max_eq_right hreach, Int.zero_add]

/-- **Every axis can be gone along to its end**: its extent is a signed word, and so is the way from
its first coordinate to its last. -/
def Walkable (shape : Shape) (strides : List Int) : Prop :=
  List.Forall₂ (fun (n : Nat) s => n < 0x8000000000000000 ∧ Word.IsSigned (s * (n - 1)))
    shape strides

/-- An axis that can be gone along moves steadily. -/
theorem Walkable.steadyAxes {shape : Shape} {strides : List Int} (h : Walkable shape strides) :
    SteadyAxes shape strides :=
  List.Forall₂.imp (fun _ _ haxis => .inl haxis.1) h

/-- The steps along an axis can be counted. -/
theorem signed_steps {n : Nat} (h : n < 0x8000000000000000) :
    Word.signed (Word.toSigned n - 1) = .ok ((n : Int) - 1) := by
  rw [Word.toSigned_of_lt h]
  exact Word.signed_of_mem (by omega) (by omega)

/-- **The highest slot can be added up** if it is a signed word. -/
theorem exists_highest {shape : Shape} {strides : List Int} {slot : Int}
    (haxes : Walkable shape strides) (hslot : 0 ≤ slot) (hpos : 0 < shape.count)
    (hhigh : slot + greatestShift shape strides < 0x8000000000000000) :
    ∃ high, highest shape strides slot = .ok high := by
  induction haxes generalizing slot with
  | nil => exact ⟨slot, rfl⟩
  | @cons n s shape strides haxis _ ih =>
    have hn : 0 < n := Nat.pos_of_mul_pos_right hpos
    have hrest : 0 < Shape.count shape := Nat.pos_of_mul_pos_left hpos
    have hshift := greatestShift_nonneg shape strides
    rw [greatestShift] at hhigh
    rw [highest]
    by_cases hs : 0 < s
    · rw [if_pos hs]
      have hreach : 0 ≤ s * ((n : Int) - 1) := Int.mul_nonneg (by omega) (by omega)
      have hreached : Word.signed (((n : Int) - 1) * s) = .ok (s * (n - 1)) := by
        rw [Int.mul_comm]
        exact Word.signed_eq_ok.mpr ⟨haxis.2, rfl⟩
      have hnext : Word.signed (slot + s * ((n : Int) - 1)) = .ok (slot + s * (n - 1)) :=
        Word.signed_of_mem (by omega) (by omega)
      obtain ⟨high, hhighest⟩ : ∃ high, highest shape strides (slot + s * (n - 1)) = .ok high :=
        ih (by omega) hrest (by omega)
      exact ⟨high, Outcome.bind_eq_ok.mpr ⟨_, signed_steps haxis.1, Outcome.bind_eq_ok.mpr
        ⟨_, hreached, Outcome.bind_eq_ok.mpr ⟨_, hnext, hhighest⟩⟩⟩⟩
    · rw [if_neg hs]
      exact ih hslot hrest (by omega)

/-! ## Items in memory -/

/-- **Every item lies in memory**: whatever the position, the slot is one that can be addressed. -/
def InMemory (shape : Shape) (strides : List Int) (slot : Int) : Prop :=
  ∀ p, shape.Contains p →
    0 ≤ slot + displacement p strides ∧ slot + displacement p strides < 0x7FFFFFFFFFFFFFFF

/-- One step on along the slowest axis the other items still lie in memory. -/
theorem InMemory.tail {n c : Nat} {shape : Shape} {s slot : Int} {strides : List Int}
    (h : InMemory (n :: shape) (s :: strides) slot) (hc : c < n) :
    InMemory shape strides (slot + c * s) := by
  intro p hp
  have := h (c :: p) ⟨hc, hp⟩
  rwa [displacement_cons, ← Int.add_assoc] at this

/-- **Where every item lies in memory**, every axis that moves has a signed extent. -/
theorem steadyAxes_of_inMemory {shape : Shape} {strides : List Int} {slot : Int}
    (hlength : strides.length = shape.length) (hpos : 0 < shape.count)
    (h : InMemory shape strides slot) : SteadyAxes shape strides := by
  induction shape generalizing strides slot with
  | nil =>
    obtain rfl := List.length_eq_zero_iff.mp hlength
    exact .nil
  | cons n shape ih =>
    obtain ⟨s, strides, rfl⟩ := List.exists_cons_of_length_eq_add_one hlength
    have hn : 0 < n := Nat.pos_of_mul_pos_right hpos
    have hrest : 0 < Shape.count shape := Nat.pos_of_mul_pos_left hpos
    refine .cons ?_ (ih (Nat.succ.inj hlength) hrest (h.tail hn))
    have hfirst := h (0 :: Shape.origin shape) ⟨hn, Shape.contains_origin hrest⟩
    have hlast := h ((n - 1) :: Shape.origin shape) ⟨by omega, Shape.contains_origin hrest⟩
    rw [displacement_cons, displacement_origin] at hfirst hlast
    by_contra hfar
    obtain ⟨hlarge, hs⟩ := not_or.mp hfar
    -- the first and the last item of the axis are further apart than memory reaches
    have hsteps : (0x7FFFFFFFFFFFFFFF : Int) ≤ ((n - 1 : Nat) : Int) := by omega
    rcases Int.lt_or_gt_of_ne hs with hneg | hpos
    · have : ((n - 1 : Nat) : Int) * s ≤ ((n - 1 : Nat) : Int) * (-1) :=
        Int.mul_le_mul_of_nonneg_left (by omega) (by omega)
      omega
    · have : ((n - 1 : Nat) : Int) * 1 ≤ ((n - 1 : Nat) : Int) * s :=
        Int.mul_le_mul_of_nonneg_left (by omega) (by omega)
      omega

/-- **Going to a position where every item lies in memory** neither is refused nor traps. -/
theorem locate_of_inMemory {shape : Shape} {strides : List Int} {slot : Int} {p : List Nat}
    (hlength : strides.length = shape.length) (h : InMemory shape strides slot)
    (hp : shape.Contains p) :
    locate p shape strides slot = .ok (slot + displacement p strides) := by
  induction shape generalizing strides slot p with
  | nil =>
    cases p with
    | nil => exact congrArg Except.ok (Int.add_zero slot).symm
    | cons c p => exact hp.elim
  | cons n shape ih =>
    cases p with
    | nil => exact hp.elim
    | cons c p =>
      obtain ⟨s, strides, rfl⟩ := List.exists_cons_of_length_eq_add_one hlength
      have hc : c < n := hp.1
      have hn : 0 < n := by omega
      have hpos := Shape.count_pos_of_contains hp
      have hrest := Shape.count_pos_of_contains hp.2
      have horigin := Shape.contains_origin hrest
      obtain ⟨haxis, -⟩ := List.forall₂_cons.mp (steadyAxes_of_inMemory hlength hpos h)
      have hstep : Word.toSigned c * s = c * s := by
        rcases haxis with haxis | rfl
        · rw [Word.toSigned_of_lt (Nat.lt_trans hc haxis)]
        · rw [Int.mul_zero, Int.mul_zero]
      -- both ends of the step along this axis are items, so neither leaves the word
      have hfirst := (h.tail hn) (Shape.origin shape) horigin
      have hhere := (h.tail hc) (Shape.origin shape) horigin
      rw [displacement_origin] at hfirst hhere
      have hmove : Word.signed (Word.toSigned c * s) = .ok (c * s) := by
        rw [hstep]
        exact Word.signed_eq_ok.mpr ⟨⟨by omega, by omega⟩, rfl⟩
      have hslot : Word.signed (slot + c * s) = .ok (slot + c * s) :=
        Word.signed_eq_ok.mpr ⟨⟨by omega, by omega⟩, rfl⟩
      rw [locate, if_neg (by omega), displacement_cons, ← Int.add_assoc]
      refine Outcome.bind_eq_ok.mpr ⟨_, hmove, Outcome.bind_eq_ok.mpr ⟨_, hslot, ?_⟩⟩
      exact ih (Nat.succ.inj hlength) (h.tail hc) hp.2

/-- **The slot at which an item starts is its exact slot**, where every item lies in memory. -/
theorem slotAt_of_inMemory {l : Layout} {p : List Nat}
    (hlength : l.strides.length = l.shape.length) (h : InMemory l.shape l.strides l.offset)
    (hp : l.shape.Contains p) : l.slotAt p = .ok (l.address p).toNat := by
  have horigin := h _ (Shape.contains_origin (Shape.count_pos_of_contains hp))
  rw [displacement_origin] at horigin
  have haddress := h p hp
  have hoffset : Word.toSigned l.offset = l.offset := Word.toSigned_of_lt (by omega)
  have hword : Word.toUnsigned (l.address p) = (l.address p).toNat :=
    Word.toUnsigned_of_nonneg haddress.1 (by unfold address; omega)
  have hrank : ¬p.length ≠ l.rank := not_not_intro hp.length_eq
  rw [slotAt, if_neg hrank, hoffset]
  refine Outcome.bind_eq_ok.mpr ⟨_, locate_of_inMemory hlength h hp, ?_⟩
  rw [← hword]
  rfl

/-! ### Positions wherever the items lie -/

/-- Going to a position of the shape is not refused. -/
theorem accepted_locate {shape : Shape} {p : List Nat} (strides : List Int) (slot : Int)
    (hp : shape.Contains p) : (locate p shape strides slot).Accepted := by
  induction shape generalizing strides slot p with
  | nil =>
    cases p with
    | nil => exact Outcome.refusedOnly_ok _
    | cons c p => exact hp.elim
  | cons n shape ih =>
    cases p with
    | nil => exact hp.elim
    | cons c p =>
      cases strides with
      | nil => exact Outcome.refusedOnly_ok _
      | cons s strides =>
        rw [locate, if_neg (Nat.not_le_of_lt hp.1)]
        refine (Outcome.refusedOnly_signed _).bind fun step _ => ?_
        exact (Outcome.refusedOnly_signed _).bind fun next _ => ih strides next hp.2

/-- **Going to a position leads to its exact slot**, as a word, unless arithmetic traps. -/
theorem locate_modEq {shape : Shape} {strides : List Int} {slot found : Int} {p : List Nat}
    (hp : shape.Contains p) (h : locate p shape strides slot = .ok found) :
    found ≡ slot + displacement p strides [ZMOD 0x10000000000000000] := by
  induction shape generalizing strides slot p with
  | nil =>
    cases p with
    | nil =>
      obtain rfl := Except.ok.inj h
      rw [displacement_nil_left, Int.add_zero]
    | cons c p => exact hp.elim
  | cons n shape ih =>
    cases p with
    | nil => exact hp.elim
    | cons c p =>
      cases strides with
      | nil =>
        obtain rfl := Except.ok.inj h
        rw [displacement_nil_right, Int.add_zero]
      | cons s strides =>
        rw [locate, if_neg (Nat.not_le_of_lt hp.1)] at h
        obtain ⟨step, hstep, h⟩ := Outcome.bind_eq_ok.mp h
        obtain ⟨next, hnext, h⟩ := Outcome.bind_eq_ok.mp h
        have hmove : Word.toSigned c * s ≡ c * s [ZMOD 0x10000000000000000] :=
          (Word.toSigned_modEq c).mul_right s
        have hreached : next ≡ slot + c * s [ZMOD 0x10000000000000000] := by
          rw [(Word.signed_eq_ok.mp hnext).2, (Word.signed_eq_ok.mp hstep).2]
          exact hmove.add_left slot
        rw [displacement_cons, ← Int.add_assoc]
        exact (ih hp.2 h).trans (hreached.add_right _)

/-- **The slot at which an item starts is its exact slot**, as a word, or arithmetic traps. -/
theorem slotAt_of_contains {l : Layout} {p : List Nat} (hp : l.shape.Contains p) :
    l.slotAt p = .ok (Word.toUnsigned (l.address p)) ∨ ∃ t, l.slotAt p = trap t := by
  have hrank : ¬p.length ≠ l.rank := not_not_intro hp.length_eq
  have haccepted : (l.slotAt p).Accepted := by
    rw [slotAt, if_neg hrank]
    exact (accepted_locate _ _ hp).bind fun _ _ => Outcome.refusedOnly_pure _
  refine haccepted.isOk_or_trap.imp_left ?_
  rintro ⟨slot, hslot⟩
  rw [hslot]
  rw [slotAt, if_neg hrank] at hslot
  obtain ⟨found, hfound, hslot⟩ := Outcome.bind_eq_ok.mp hslot
  obtain rfl := Except.ok.inj hslot
  have hoffset : Word.toSigned l.offset + displacement p l.strides ≡ l.address p
      [ZMOD 0x10000000000000000] := (Word.toSigned_modEq l.offset).add_right _
  exact congrArg Except.ok (Word.toUnsigned_congr ((locate_modEq hp hfound).trans hoffset))

end Layout

end StridedArray
