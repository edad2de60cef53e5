import StridedArray.Proofs.Evened
import StridedArray.Proofs.Join

/-!
# The checks of compatibility agree

Whether extents go together is looked at in four places, each with a code of
its own: shapes are broadcast axis by axis, an operand is laid along the
broadcast shape, the output is compared with it, and an array that is to be
repeated is aligned with its target from either side. The four come to the
same verdict (`Shape.compatibility_checks_agree`). An operand has a route
through a target exactly if its shape broadcasts with it to the target, and
what is wrong otherwise is its `Shape.Misfit`: too many axes, or else the
first axis with a conflict. So once shapes have broadcast no operand is
refused any more, and all that a traversal can still be refused for is the
shape of its output.
-/

namespace StridedArray

/-! ## Conflicts -/

namespace Shape

variable {s t extents target : Shape} {axis axis' : Nat} {e e' : ArrayError}

/-- **The first axis with a conflict**: the padded extent there is neither 1 nor the target's, and
on every axis before it is one of the two. -/
structure FirstConflict (extents target : Shape) (axis : Nat) : Prop where
  /-- The axis is one of the target. -/
  lt : axis < target.length
  /-- The extent is not the target's. -/
  ne_target : extents.getD axis 1 ≠ target.getD axis 1
  /-- The extent is not 1. -/
  ne_one : extents.getD axis 1 ≠ 1
  /-- There is no conflict before. -/
  before : ∀ d < axis, extents.getD d 1 = target.getD d 1 ∨ extents.getD d 1 = 1

/-- **Why a shape does not stretch to a target**, as an error says it. -/
inductive Misfit (s t : Shape) : ArrayError → Prop
  /-- The shape has more axes than the target. -/
  | rank : t.length < s.length → Misfit s t (.negativePadding ((t.length : Int) - s.length))
  /-- The padded extent of an axis is neither 1 nor the target's. -/
  | extent (axis : Nat) : s.length ≤ t.length → FirstConflict (s.padTo t.length) t axis →
      Misfit s t (.extentConflict axis ((s.padTo t.length).getD axis 1) (t.getD axis 1))

/-- There is only one first conflict. -/
theorem FirstConflict.unique (h : FirstConflict extents target axis)
    (h' : FirstConflict extents target axis') : axis = axis' := by
  rcases Nat.lt_trichotomy axis axis' with hlt | heq | hgt
  · rcases h'.before axis hlt with hsame | hone
    · exact absurd hsame h.ne_target
    · exact absurd hone h.ne_one
  · exact heq
  · rcases h.before axis' hgt with hsame | hone
    · exact absurd hsame h'.ne_target
    · exact absurd hone h'.ne_one

/-- A conflict on the faster axes is one on all axes, if there is none on the slowest. -/
theorem FirstConflict.cons {m n : Nat} (hmn : m = n ∨ m = 1)
    (h : FirstConflict extents target axis) :
    FirstConflict (m :: extents) (n :: target) (axis + 1) where
  lt := Nat.succ_lt_succ h.lt
  ne_target := h.ne_target
  ne_one := h.ne_one
  before d hd := by
    cases d with
    | zero => exact hmn
    | succ d => exact h.before d (Nat.lt_of_succ_lt_succ hd)

/-- Only one thing is wrong. -/
theorem Misfit.unique (h : Misfit s t e) (h' : Misfit s t e') : e = e' := by
  cases h with
  | rank hrank =>
    cases h' with
    | rank => rfl
    | extent _ hle => exact absurd hrank (Nat.not_lt_of_le hle)
  | extent axis hle hconflict =>
    cases h' with
    | rank hrank => exact absurd hrank (Nat.not_lt_of_le hle)
    | extent axis' _ hconflict' =>
      obtain rfl := hconflict.unique hconflict'
      rfl

/-- **What does not fit does not stretch.** -/
theorem Misfit.not_stretchesTo (h : Misfit s t e) : ¬s.StretchesTo t := by
  intro hstretch
  obtain ⟨hle, hextent⟩ := stretchesTo_iff.mp hstretch
  cases h with
  | rank hrank => exact absurd hrank (Nat.not_lt_of_le hle)
  | extent axis _ hconflict =>
    rcases hextent axis hconflict.lt with hsame | hone
    · exact hconflict.ne_target hsame
    · exact hconflict.ne_one hone

end Shape

/-! ## Routes -/

namespace Route

/-- **A sweep is refused for the first conflict only.** -/
theorem sweep_refusedOnly (axis : Nat) (extents : Shape) (natives : List Int) (target : Shape) :
    (sweep axis extents natives target).RefusedOnly fun e =>
      ∃ d, Shape.FirstConflict extents target d
        ∧ e = .extentConflict (axis + d) (extents.getD d 1) (target.getD d 1) := by
  induction extents generalizing axis natives target with
  | nil => exact Outcome.refusedOnly_ok _
  | cons m extents ih =>
    cases target with
    | nil => exact Outcome.refusedOnly_ok _
    | cons n target =>
      by_cases hagree : m = n ∨ m = 1
      · rw [sweep_cons hagree]
        refine (Outcome.RefusedOnly.ite (fun _ => Outcome.refusedOnly_ok _)
          fun _ => Outcome.refusedOnly_subscript _).bind fun stride _ => ?_
        refine (Outcome.refusedOnly_signed _).bind fun rewind _ => ?_
        refine ((ih (axis + 1) natives.tail target).mono ?_).bind fun rest _ =>
          Outcome.refusedOnly_ok _
        rintro _ ⟨d, hconflict, rfl⟩
        refine ⟨d + 1, hconflict.cons hagree, ?_⟩
        rw [Nat.add_assoc, Nat.add_comm 1 d]
        rfl
      · obtain ⟨hn, hone⟩ := not_or.mp hagree
        rw [sweep, if_pos ⟨hn, hone⟩, Outcome.refusedOnly_refuse]
        exact ⟨0, ⟨Nat.succ_pos _, hn, hone, fun d hd => absurd hd (Nat.not_lt_zero d)⟩, rfl⟩

/-- **A route is refused for the misfit of its layout only.** -/
theorem ofLayout_refusedOnly (l : Layout) (t : Shape) :
    (ofLayout l t).RefusedOnly (l.shape.Misfit t) := by
  unfold ofLayout through
  refine .ite (fun hrank => Outcome.refusedOnly_refuse.mpr (.rank hrank)) fun hrank => ?_
  refine ((sweep_refusedOnly 0 _ _ t).mono ?_).bind fun swept _ => ?_
  · rintro _ ⟨d, hconflict, rfl⟩
    rw [Nat.zero_add]
    exact .extent d (Nat.le_of_not_lt hrank) hconflict
  · exact ((accepted_pastEndOf _ _ _ _ _).mono fun _ h => h.elim).bind fun _ _ =>
      Outcome.refusedOnly_pure _

/-- What has a route stretches to the broadcast shape. -/
theorem stretchesTo_of_ofLayout {l : Layout} {t : Shape} {r : Route}
    (h : ofLayout l t = .ok r) : l.shape.StretchesTo t :=
  (leads_of_ofLayout (Layout.length_evenStrides l.shape l.strides) (ofLayout_evened h)).stretches

/-- **A layout has a route exactly if its shape broadcasts to the target**, and is refused exactly
for its misfit, unless arithmetic traps. -/
theorem ofLayout_verdict {l : Layout} {t : Shape} (h : (ofLayout l t).isTrap = false) :
    ((∃ r, ofLayout l t = .ok r) ↔ Shape.broadcast [l.shape, t] = .ok t)
      ∧ ∀ e, ofLayout l t = refuse e ↔ l.shape.Misfit t e := by
  rw [Shape.broadcast_target_eq_ok]
  match hroute : ofLayout l t with
  | .ok r =>
    have hstretch := stretchesTo_of_ofLayout hroute
    exact ⟨iff_of_true ⟨r, rfl⟩ hstretch,
      fun e => iff_of_false nofun fun hmisfit => hmisfit.not_stretchesTo hstretch⟩
  | .error (.refused e) =>
    have hmisfit := ofLayout_refusedOnly l t e hroute
    refine ⟨iff_of_false nofun hmisfit.not_stretchesTo, fun e' => ⟨fun heq => ?_, fun h' => ?_⟩⟩
    · obtain rfl := Outcome.refuse_inj.mp heq
      exact hmisfit
    · rw [hmisfit.unique h']
      rfl
  | .error (.trapped trap) =>
    rw [hroute] at h
    exact absurd h (by simp [Outcome.isTrap])

end Route

/-! ## Plans and traversals -/

/-- Shapes are refused alike with and without the padded ones. -/
theorem Shape.broadcast_eq_refuse {shapes : List Shape} {e : ArrayError} :
    broadcast shapes = refuse e ↔ broadcastAll shapes = refuse e := by
  rw [broadcast, Outcome.bind_eq_refuse]
  refine or_iff_left ?_
  rintro ⟨_, _, h⟩
  exact refuse_ne_ok _ _ h.symm

/-- **A plan is refused for its shapes only.** -/
theorem Plan.ofLayouts_eq_refuse {ls : List Layout} {e : ArrayError} :
    ofLayouts ls = refuse e ↔ Shape.broadcastAll (ls.map (·.shape)) = refuse e := by
  rw [ofLayouts, Outcome.bind_eq_refuse, Shape.broadcast_eq_refuse]
  refine or_iff_left ?_
  rintro ⟨shape, hshape, h⟩
  have hroutes : (ls.mapM (Route.ofLayout · shape)).Accepted := .mapM fun l hl =>
    Route.accepted_ofLayout (Shape.stretchesTo_of_broadcast hshape (List.mem_map_of_mem hl))
  exact hroutes.bind (fun _ _ => Outcome.refusedOnly_pure _) e h

namespace Odometer

variable {a b : Layout} {target : Target} {e : ArrayError} {r : Shape}

/-- An output of another shape is refused. -/
theorem outputLane_of_ne {l : Layout} (hl : l ∈ target.layout? a b) (hne : l.shape ≠ r) :
    outputLane r a b target = refuse (.outputShape r l.shape) := by
  have hcheck : checkOutput r l.shape = refuse (.outputShape r l.shape) :=
    if_neg (Ne.symm hne)
  cases target with
  | none => exact absurd hl (by simp [Target.layout?])
  | first =>
    obtain rfl := Option.some.inj hl
    rw [outputLane, hcheck]
    rfl
  | second =>
    obtain rfl := Option.some.inj hl
    rw [outputLane, hcheck]
    rfl
  | own layout =>
    obtain rfl := Option.some.inj hl
    rw [outputLane, hcheck]
    rfl

/-- **A traversal is refused for its shapes, or else for the shape of its output.** -/
theorem ofLayouts_eq_refuse :
    ofLayouts a b target = refuse e ↔ Shape.broadcastAll [a.shape, b.shape] = refuse e
      ∨ ∃ r, Shape.broadcast [a.shape, b.shape] = .ok r
        ∧ ∃ l ∈ target.layout? a b, l.shape ≠ r ∧ e = .outputShape r l.shape := by
  constructor
  · intro h
    rcases Outcome.bind_eq_refuse.mp h with hshape | ⟨r, hshape, hrest⟩
    · exact .inl (Shape.broadcast_eq_refuse.mp hshape)
    · refine .inr ⟨r, hshape, ?_⟩
      by_cases hother : ∃ l ∈ target.layout? a b, l.shape ≠ r
      · obtain ⟨l, hl, hne⟩ := hother
        rw [outputLane_of_ne hl hne] at hrest
        refine ⟨l, hl, hne, ?_⟩
        cases hrest
        rfl
      · have hfit : ∀ l ∈ target.layout? a b, l.shape = r := fun l hl =>
          not_not.mp fun hne => hother ⟨l, hl, hne⟩
        exact absurd h (accepted_ofLayouts hshape hfit e)
  · rintro (hshape | ⟨r, hshape, l, hl, hne, rfl⟩)
    · exact Outcome.bind_eq_refuse.mpr (.inl (Shape.broadcast_eq_refuse.mpr hshape))
    · refine Outcome.bind_eq_refuse.mpr (.inr ⟨r, hshape, ?_⟩)
      rw [outputLane_of_ne hl hne]
      rfl

end Odometer

/-! ## Aligning a shape with a target -/

namespace Shape

variable {s t : Shape}

/-- Padding to a rank is padding to the larger of the two. -/
theorem padTo_max (s : Shape) (rank : Nat) : s.padTo (max s.length rank) = s.padTo rank := by
  unfold padTo
  congr 1
  omega

/-- **Extents that go together pairwise have a common target**, and only those. -/
theorem exists_common_iff {xs ys : Shape} :
    (∃ zs, List.Forall₂ (fun m n => m = n ∨ m = 1) xs zs
        ∧ List.Forall₂ (fun m n => m = n ∨ m = 1) ys zs)
      ↔ List.Forall₂ (fun m n => m = n ∨ m = 1 ∨ n = 1) xs ys := by
  constructor
  · rintro ⟨zs, hxs, hys⟩
    induction hxs generalizing ys with
    | nil =>
      cases hys
      exact .nil
    | cons hm _ ih =>
      cases hys with
      | cons hn hrest => exact .cons (by omega) (ih hrest)
  · intro h
    induction h with
    | nil => exact ⟨[], .nil, .nil⟩
    | @cons m n xs ys hmn _ ih =>
      obtain ⟨zs, hxs, hys⟩ := ih
      -- the extent that is not 1, if there is one
      by_cases hm : m = 1
      · exact ⟨n :: zs, .cons (.inr hm) hxs, .cons (.inl rfl) hys⟩
      · exact ⟨m :: zs, .cons (.inl rfl) hxs, .cons (by omega) hys⟩

/-- **Two shapes broadcast exactly if they go together axis by axis** once each is padded to the rank
of the other. -/
theorem broadcastable_iff :
    s.broadcastable t ↔ List.Forall₂ (fun m n => m = n ∨ m = 1 ∨ n = 1)
      (s.padTo t.length) (t.padTo s.length) := by
  have hpadded : ∀ r : Shape, r.length = max s.length t.length →
      ((s.StretchesTo r ↔ List.Forall₂ (fun m n => m = n ∨ m = 1) (s.padTo t.length) r)
        ∧ (t.StretchesTo r ↔ List.Forall₂ (fun m n => m = n ∨ m = 1) (t.padTo s.length) r)) := by
    intro r hr
    unfold StretchesTo
    rw [hr, padTo_max, Nat.max_comm, padTo_max]
    exact ⟨Iff.rfl, Iff.rfl⟩
  unfold broadcastable
  rw [Outcome.isOk_iff, ← exists_common_iff]
  constructor
  · rintro ⟨r, hr⟩
    have hrank : r.length = max s.length t.length := by
      rw [(broadcast_eq_ok.mp hr).1]
      show max s.length (max t.length 0) = _
      rw [Nat.max_zero]
    refine ⟨r, (hpadded r hrank).1.mp (stretchesTo_of_broadcast hr (List.mem_cons_self ..)),
      (hpadded r hrank).2.mp (stretchesTo_of_broadcast hr
        (List.mem_cons_of_mem _ (List.mem_singleton_self _)))⟩
  · rintro ⟨r, hs, ht⟩
    have hrank : r.length = max s.length t.length := by
      rw [← hs.length_eq, length_padTo, Nat.max_comm]
    refine exists_broadcast (t := r) fun x hx => ?_
    rcases List.mem_pair.mp hx with rfl | rfl
    · exact (hpadded r hrank).1.mpr hs
    · exact (hpadded r hrank).2.mpr ht

/-- **Aligning with a target that has axes** succeeds exactly if the shapes broadcast, and pads
both. -/
theorem alignTo_eq (size : Nat) (ht : t ≠ []) :
    s.alignTo size t
      = if s.broadcastable t then some (s.padTo t.length, t.padTo s.length) else none := by
  have hlength : (s.padTo t.length).length = (t.padTo s.length).length := by
    rw [length_padTo, length_padTo, Nat.max_comm]
  have hpairs : s.broadcastable t ↔ ∀ m n,
      (m, n) ∈ List.zip (s.padTo t.length) (t.padTo s.length) → m = n ∨ m = 1 ∨ n = 1 := by
    rw [broadcastable_iff, List.forall₂_iff_zip, and_iff_right hlength]
  unfold alignTo
  rw [if_neg ht]
  by_cases h : s.broadcastable t
  · rw [if_pos h]
    refine if_pos (List.all_eq_true.mpr fun p hp => ?_)
    simpa [or_assoc] using hpairs.mp h p.1 p.2 hp
  · rw [if_neg h]
    refine if_neg fun hall => h (hpairs.mpr fun m n hmn => ?_)
    simpa [or_assoc] using List.all_eq_true.mp hall (m, n) hmn

/-- **The checks of compatibility agree.** A layout has a route through a target exactly if its
shape broadcasts with the target to the target, and is refused exactly for its misfit. A plan is
refused exactly for what its shapes are refused for, and a traversal for that or, once the shapes
have broadcast, exactly if the shape of its output is another. A shape is aligned with a target that
has axes exactly if the two broadcast, both being padded to the larger rank. -/
theorem compatibility_checks_agree :
    (∀ (l : Layout) (t : Shape), (Route.ofLayout l t).isTrap = false →
        ((∃ r, Route.ofLayout l t = .ok r) ↔ broadcast [l.shape, t] = .ok t)
          ∧ ∀ e, Route.ofLayout l t = refuse e ↔ l.shape.Misfit t e)
      ∧ (∀ (ls : List Layout) (e : ArrayError),
          Plan.ofLayouts ls = refuse e ↔ broadcastAll (ls.map (·.shape)) = refuse e)
      ∧ (∀ (a b : Layout) (target : Target) (e : ArrayError),
          Odometer.ofLayouts a b target = refuse e ↔ broadcastAll [a.shape, b.shape] = refuse e
            ∨ ∃ r, broadcast [a.shape, b.shape] = .ok r
              ∧ ∃ l ∈ target.layout? a b, l.shape ≠ r ∧ e = .outputShape r l.shape)
      ∧ ∀ (s t : Shape) (size : Nat), t ≠ [] →
          ((s.alignTo size t).isSome = s.broadcastable t)
            ∧ ∀ u v, s.alignTo size t = some (u, v) →
              u = s.padTo (max s.length t.length) ∧ v = t.padTo (max s.length t.length)
                ∧ u.length = max s.length t.length ∧ v.length = max s.length t.length := by
  refine ⟨fun l t h => Route.ofLayout_verdict h, fun ls e => Plan.ofLayouts_eq_refuse,
    fun a b target e => Odometer.ofLayouts_eq_refuse, fun s t size ht => ?_⟩
  rw [alignTo_eq size ht]
  constructor
  · cases s.broadcastable t <;> rfl
  · intro u v huv
    have hpadded := Option.ite_none_right_eq_some.mp huv
    obtain ⟨rfl, rfl⟩ := Prod.mk.inj (Option.some.inj hpadded.2)
    have hs : s.padTo (max s.length t.length) = s.padTo t.length := padTo_max s t.length
    have ht' : t.padTo (max s.length t.length) = t.padTo s.length := by
      rw [Nat.max_comm, padTo_max]
    rw [hs, ht', length_padTo, length_padTo, Nat.max_comm t.length]
    exact ⟨rfl, rfl, rfl, rfl⟩

/-- A row of three is laid along pairs and conflicts with them on the last axis; along a shape
without axes it has too many; and it is aligned with a column from either side. -/
theorem compatibility_checks_agree_row :
    Route.ofLayout ⟨[3], [1], 0, 1⟩ [4, 2] = refuse (.extentConflict 1 3 2)
      ∧ Misfit [3] [4, 2] (.extentConflict 1 3 2)
      ∧ Misfit [3] [] (.negativePadding (-1))
      ∧ Plan.ofLayouts [⟨[3], [1], 0, 1⟩, ⟨[2], [1], 0, 1⟩] = refuse (.extentConflict 0 3 2)
      ∧ Odometer.ofLayouts ⟨[3], [1], 0, 1⟩ ⟨[2, 1], [1, 1], 0, 1⟩ .first
        = refuse (.outputShape [2, 3] [3])
      ∧ (alignTo [3] 3 [2, 1]).isSome = broadcastable [3] [2, 1] := by
  obtain ⟨hroute, hplan, htraversal, halign⟩ := compatibility_checks_agree
  have hextent : Route.ofLayout ⟨[3], [1], 0, 1⟩ [4, 2] = refuse (.extentConflict 1 3 2) := rfl
  have hrank : Route.ofLayout ⟨[3], [1], 0, 1⟩ [] = refuse (.negativePadding (-1)) := rfl
  refine ⟨hextent, ?_, ?_, (hplan _ _).mpr rfl, ?_, (halign [3] [2, 1] 3 (by decide)).1⟩
  · exact ((hroute ⟨[3], [1], 0, 1⟩ [4, 2] rfl).2 _).mp hextent
  · exact ((hroute ⟨[3], [1], 0, 1⟩ [] rfl).2 _).mp hrank
  · refine (htraversal _ _ _ _).mpr (.inr ⟨[2, 3], by decide +kernel, _, rfl, by decide, rfl⟩)

end Shape

end StridedArray
