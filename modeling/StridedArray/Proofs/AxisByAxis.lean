import StridedArray.Proofs.Join

/-!
# Broadcasting axis by axis

What an axis of the broadcast shape is depends on the extents that the
operands **ask for** there: those other than 1, in the order of the
operands. If no two of them differ their common value is the extent, and 1
if there are none, so that an operand without items makes the broadcast
one without items. If two of them differ on some axis the shapes are
refused, for the first such axis, with the extent asked for first and the
first one that differs from it (`Shape.broadcastAll_axis_by_axis`).

Nothing else can happen. The number of axes put in front of a shape is
never negative, and no shape is padded beyond the longest one.
-/

namespace StridedArray.Shape

/-! ## One axis -/

/-- **The extents other than 1**, in order. -/
def others (ns : List Nat) : List Nat :=
  ns.filter (· ≠ 1)

@[simp] theorem mem_others {n : Nat} {ns : List Nat} : n ∈ others ns ↔ n ∈ ns ∧ n ≠ 1 := by
  simp [others]

theorem others_cons_of_eq {n : Nat} (ns : List Nat) (h : n = 1) : others (n :: ns) = others ns := by
  simp [others, h]

theorem others_cons_of_ne {n : Nat} (ns : List Nat) (h : n ≠ 1) :
    others (n :: ns) = n :: others ns := by
  simp [others, h]

/-- The common extent of an axis never traps. -/
theorem commonExtent_ne_trap (axis : Nat) (found : Option Nat) (ns : List Nat) (t : Trap) :
    commonExtent axis found ns ≠ trap t := by
  induction ns generalizing found with
  | nil => exact (trap_ne_ok t _).symm
  | cons n ns ih =>
    cases found with
    | none =>
      rw [commonExtent]
      split
      · exact ih none
      · exact ih (some n)
    | some m =>
      rw [commonExtent]
      split
      · exact ih (some m)
      · exact Outcome.refuse_ne_trap _ t

/-- **The common extent is there if no two extents other than 1 differ**: it is theirs, or 1. -/
theorem commonExtent_eq_ok_iff_others {axis r : Nat} {ns : List Nat} :
    commonExtent axis none ns = .ok r ↔
      (∀ m ∈ others ns, ∀ n ∈ others ns, m = n) ∧ r = (others ns).headD 1 := by
  rw [commonExtent_eq_ok]
  constructor
  · rintro ⟨hall, hsome⟩
    have hothers : ∀ m ∈ others ns, m = r := fun m hm =>
      (hall m (mem_others.mp hm).1).resolve_left (mem_others.mp hm).2
    refine ⟨fun m hm n hn => (hothers m hm).trans (hothers n hn).symm, ?_⟩
    cases hlist : others ns with
    | nil =>
      by_contra hone
      have hmem : r ∈ others ns := mem_others.mpr ⟨hsome.resolve_left hone, hone⟩
      rw [hlist] at hmem
      exact List.not_mem_nil hmem
    | cons m rest => exact (hothers m (hlist ▸ List.mem_cons_self)).symm
  · rintro ⟨hsame, rfl⟩
    have hothers : ∀ k ∈ ns, k ≠ 1 → k ∈ others ns := fun k hk hone => mem_others.mpr ⟨hk, hone⟩
    cases hlist : others ns with
    | nil =>
      refine ⟨fun k hk => .inl (by_contra fun hone => ?_), .inl rfl⟩
      exact List.not_mem_nil (hlist ▸ hothers k hk hone)
    | cons m rest =>
      have hm : m ∈ others ns := hlist ▸ List.mem_cons_self
      refine ⟨fun k hk => or_iff_not_imp_left.mpr fun hone => hsame k (hothers k hk hone) m hm, ?_⟩
      exact .inr (mem_others.mp hm).1

/-- With an extent found, the first other one that differs from it is in conflict. -/
theorem commonExtent_some_eq_refuse {axis m : Nat} {ns : List Nat} {e : ArrayError} :
    commonExtent axis (some m) ns = refuse e ↔
      ∃ n, (others ns).find? (· ≠ m) = some n ∧ e = .extentConflict axis m n := by
  induction ns with
  | nil =>
    constructor
    · exact fun h => absurd h.symm (refuse_ne_ok _ _)
    · rintro ⟨n, h, -⟩
      exact absurd h.symm (Option.some_ne_none n)
  | cons n ns ih =>
    rw [commonExtent]
    by_cases hone : n = 1
    · rw [if_pos (.inl hone), ih, others_cons_of_eq ns hone]
    rw [others_cons_of_ne ns hone]
    by_cases hm : n = m
    · rw [if_pos (.inr hm), ih, List.find?_cons_of_neg (by simp [hm])]
    · rw [if_neg (not_or.mpr ⟨hone, hm⟩), List.find?_cons_of_pos (by simp [hm])]
      rw [Outcome.refuse_inj]
      constructor
      · exact fun h => ⟨n, rfl, h.symm⟩
      · rintro ⟨n', hn, rfl⟩
        rw [Option.some.inj hn]

/-- **A conflict is one of the first of the other extents** with the first one that differs from
it. -/
theorem commonExtent_eq_refuse {axis : Nat} {ns : List Nat} {e : ArrayError} :
    commonExtent axis none ns = refuse e ↔ ∃ m n, (others ns).head? = some m
      ∧ (others ns).find? (· ≠ m) = some n ∧ e = .extentConflict axis m n := by
  induction ns with
  | nil => exact ⟨fun h => absurd h.symm (refuse_ne_ok _ _), fun ⟨_, _, h, _⟩ => nomatch h⟩
  | cons k ns ih =>
    rw [commonExtent]
    by_cases hone : k = 1
    · rw [if_pos hone, ih, others_cons_of_eq ns hone]
    · rw [if_neg hone, commonExtent_some_eq_refuse, others_cons_of_ne ns hone]
      constructor
      · rintro ⟨n, hn, he⟩
        exact ⟨k, n, rfl, by rwa [List.find?_cons_of_neg (by simp)], he⟩
      · rintro ⟨m, n, hm, hn, he⟩
        obtain rfl := Option.some.inj hm
        rw [List.find?_cons_of_neg (by simp)] at hn
        exact ⟨n, hn, he⟩

/-! ## All axes -/

/-- **What the operands ask for on an axis** of the broadcast shape, in their order. -/
def asked (shapes : List Shape) (axis : Nat) : List Nat :=
  others (shapes.map fun s => (s.padTo (maxRank shapes)).getD axis 1)

/-- **The operands agree on an axis**: they ask for at most one extent. -/
def AgreeOn (shapes : List Shape) (axis : Nat) : Prop :=
  ∀ m ∈ asked shapes axis, ∀ n ∈ asked shapes axis, m = n

instance (shapes : List Shape) (axis : Nat) : Decidable (AgreeOn shapes axis) :=
  inferInstanceAs (Decidable (∀ m ∈ _, ∀ n ∈ _, m = n))

/-- **The first disagreement**: on `axis`, but on no axis before, the operands ask for `m` before
anything else, and `n` is the first of the extents asked for that differs from it. -/
structure Disagreement (shapes : List Shape) (axis m n : Nat) : Prop where
  /-- The axis is one of the broadcast shape. -/
  lt : axis < maxRank shapes
  /-- There is no disagreement before. -/
  before : ∀ d < axis, AgreeOn shapes d
  /-- What is asked for first. -/
  first : (asked shapes axis).head? = some m
  /-- The first that differs from it. -/
  later : (asked shapes axis).find? (· ≠ m) = some n

variable {shapes : List Shape}

/-- A disagreement is one. -/
theorem Disagreement.not_agreeOn {axis m n : Nat} (h : Disagreement shapes axis m n) :
    ¬AgreeOn shapes axis := by
  intro hagree
  have hne : n ≠ m := by simpa using List.find?_some h.later
  exact hne (hagree n (List.mem_of_find?_eq_some h.later) m (List.mem_of_mem_head? h.first))

/-- **The shapes have a broadcast shape exactly if the operands agree on every axis**, and it is
what they ask for. -/
theorem broadcastAll_eq_ok {r : Shape} {padded : List Shape} :
    broadcastAll shapes = .ok (r, padded) ↔ (∀ axis < maxRank shapes, AgreeOn shapes axis)
      ∧ r = (List.range (maxRank shapes)).map (fun axis => (asked shapes axis).headD 1)
      ∧ padded = shapes.map (·.padTo (maxRank shapes)) := by
  have hextents : (List.range (maxRank shapes)).mapM (fun axis =>
        commonExtent axis none (column (shapes.map (·.padTo (maxRank shapes))) axis)) = .ok r ↔
      (∀ axis < maxRank shapes, AgreeOn shapes axis)
        ∧ r = (List.range (maxRank shapes)).map fun axis => (asked shapes axis).headD 1 := by
    rw [Outcome.mapM_range_eq_ok]
    simp only [column, List.map_map, commonExtent_eq_ok_iff_others]
    constructor
    · rintro ⟨hlength, h⟩
      refine ⟨fun axis haxis => (h axis (hlength ▸ haxis)).1, ?_⟩
      refine List.ext_getElem (by simpa using hlength) fun axis haxis _ => ?_
      rw [(h axis haxis).2, List.getElem_map, List.getElem_range]
      rfl
    · rintro ⟨hagree, rfl⟩
      refine ⟨by simp, fun axis haxis => ?_⟩
      have hlt : axis < maxRank shapes := by simpa using haxis
      rw [List.getElem_map, List.getElem_range]
      exact ⟨hagree axis hlt, rfl⟩
  rw [broadcastAll, Outcome.bind_eq_ok, ← and_assoc, ← hextents]
  constructor
  · rintro ⟨shape, hshape, h⟩
    obtain ⟨rfl, rfl⟩ := Prod.mk.inj (Except.ok.inj h)
    exact ⟨hshape, rfl⟩
  · rintro ⟨hshape, rfl⟩
    exact ⟨r, hshape, rfl⟩

/-- Broadcasting fails on the first axis without a common extent. -/
theorem broadcastAll_eq_error {fault : Fault} :
    broadcastAll shapes = .error fault ↔ ∃ axis < maxRank shapes,
      commonExtent axis none (column (shapes.map (·.padTo (maxRank shapes))) axis) = .error fault
        ∧ ∀ d < axis, AgreeOn shapes d := by
  have hagree : ∀ d, (∃ r, commonExtent d none
      (column (shapes.map (·.padTo (maxRank shapes))) d) = .ok r) ↔ AgreeOn shapes d := by
    intro d
    simp only [column, List.map_map, commonExtent_eq_ok_iff_others]
    constructor
    · rintro ⟨r, h, -⟩
      exact h
    · exact fun h => ⟨_, h, rfl⟩
  have hextents : broadcastAll shapes = .error fault ↔ (List.range (maxRank shapes)).mapM
      (fun axis => commonExtent axis none (column (shapes.map (·.padTo (maxRank shapes))) axis))
        = .error fault := by
    rw [broadcastAll, Outcome.bind_eq_error]
    refine or_iff_left ?_
    rintro ⟨shape, -, h⟩
    cases h
  rw [hextents, Outcome.mapM_range_eq_error]
  exact exists_congr fun axis => and_congr_right fun _ => and_congr_right fun _ =>
    forall₂_congr fun d _ => hagree d

/-- **The shapes are refused exactly for their first disagreement.** -/
theorem broadcastAll_eq_refuse {e : ArrayError} :
    broadcastAll shapes = refuse e ↔ ∃ axis m n,
      Disagreement shapes axis m n ∧ e = .extentConflict axis m n := by
  show broadcastAll shapes = .error (.refused e) ↔ _
  rw [broadcastAll_eq_error]
  constructor
  · rintro ⟨axis, haxis, h, hbefore⟩
    rw [column, List.map_map] at h
    obtain ⟨m, n, hm, hn, he⟩ := commonExtent_eq_refuse.mp h
    exact ⟨axis, m, n, ⟨haxis, hbefore, hm, hn⟩, he⟩
  · rintro ⟨axis, m, n, h, he⟩
    refine ⟨axis, h.lt, ?_, h.before⟩
    rw [column, List.map_map]
    exact commonExtent_eq_refuse.mpr ⟨m, n, h.first, h.later, he⟩

/-- **Padding to the largest rank** is neither refused nor traps for shapes that are in memory. -/
theorem pad_maxRank {s : Shape} (hmemory : ∀ s ∈ shapes, 8 * s.length < Word.addressLimit)
    (hs : s ∈ shapes) :
    s.pad ((maxRank shapes : Int) - s.length) = .ok (s.padTo (maxRank shapes)) := by
  have hle := length_le_maxRank hs
  have hlimit : maxRank shapes ≤ 0xFFFFFFFFFFFFFFF := maxRank_le fun x hx => by
    have := hmemory x hx
    unfold Word.addressLimit at this
    omega
  have hpadding : ((maxRank shapes : Int) - s.length).toNat = maxRank shapes - s.length := by omega
  unfold pad padLeftBy padTo
  rw [hpadding, if_neg (by omega), if_neg (by unfold Word.addressLimit; omega)]

/-- **Broadcasting goes axis by axis.** It never traps. It succeeds exactly if on every axis the
operands ask for at most one extent other than 1: that is the extent there, or 1 if there is none,
and every operand is padded with singleton axes in front to the largest rank. It is refused exactly
for the first axis on which they ask for two, with the one asked for first and the first that
differs. Shapes that are in memory can be padded by the difference of the ranks, which is never
negative. -/
theorem broadcastAll_axis_by_axis (shapes : List Shape) :
    (∀ t, broadcastAll shapes ≠ trap t)
      ∧ (∀ r padded, broadcastAll shapes = .ok (r, padded) ↔
          (∀ axis < maxRank shapes, AgreeOn shapes axis)
            ∧ r = (List.range (maxRank shapes)).map (fun axis => (asked shapes axis).headD 1)
            ∧ padded = shapes.map (·.padTo (maxRank shapes)))
      ∧ (∀ e, broadcastAll shapes = refuse e ↔ ∃ axis m n,
          Disagreement shapes axis m n ∧ ¬AgreeOn shapes axis ∧ e = .extentConflict axis m n)
      ∧ ((∀ s ∈ shapes, 8 * s.length < Word.addressLimit) →
          ∀ s ∈ shapes, s.pad ((maxRank shapes : Int) - s.length)
            = .ok (s.padTo (maxRank shapes))) := by
  refine ⟨fun t h => ?_, fun r padded => broadcastAll_eq_ok, fun e => ?_,
    fun hmemory s hs => pad_maxRank hmemory hs⟩
  · obtain ⟨axis, -, hconflict, -⟩ := broadcastAll_eq_error.mp h
    exact commonExtent_ne_trap axis none _ t hconflict
  · rw [broadcastAll_eq_refuse]
    exact ⟨fun ⟨axis, m, n, h, he⟩ => ⟨axis, m, n, h, h.not_agreeOn, he⟩,
      fun ⟨axis, m, n, h, _, he⟩ => ⟨axis, m, n, h, he⟩⟩

/-- A column, an empty row and a scalar agree; with two more rows the second axis is in conflict, by
the row of four and the first of the others that is not one of four. -/
theorem broadcastAll_axis_by_axis_empty :
    broadcastAll [[3, 1], [0], []] = .ok ([3, 0], [[3, 1], [1, 0], [1, 1]])
      ∧ Disagreement [[3, 1], [4], [1], [4], [0], [5]] 1 4 0
      ∧ broadcastAll [[3, 1], [4], [1], [4], [0], [5]] = refuse (.extentConflict 1 4 0)
      ∧ pad [] ((maxRank [[3, 1], [0], []] : Int) - 0) = .ok [1, 1] := by
  obtain ⟨-, hok, -, hpad⟩ := broadcastAll_axis_by_axis [[3, 1], [0], []]
  obtain ⟨-, -, hrefuse, -⟩ := broadcastAll_axis_by_axis [[3, 1], [4], [1], [4], [0], [5]]
  have hconflict : Disagreement [[3, 1], [4], [1], [4], [0], [5]] 1 4 0 :=
    ⟨by decide, by decide, by decide, by decide⟩
  exact ⟨(hok _ _).mpr ⟨by decide, by decide, by decide⟩, hconflict,
    (hrefuse _).mpr ⟨1, 4, 0, hconflict, hconflict.not_agreeOn, rfl⟩,
    hpad (by decide) [] (by decide)⟩

end StridedArray.Shape
