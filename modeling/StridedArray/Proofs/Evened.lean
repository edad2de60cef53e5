import StridedArray.Proofs.Walk

/-!
# Layouts with strides missing or left over

Nothing but `Layout.ofStrides` sees to it that a layout has one stride per
axis: one that was read from a text may have fewer or more. Strides left
over are never looked at. A missing one is looked for on every axis other
than a singleton that is repeated, and to look for it traps. So whatever
has a route at all goes where the layout **with its strides evened** goes,
with 0 for the missing ones (`Route.ofLayout_evened`), and what is known of
layouts with one stride per axis carries over to traversals of any layouts
(`Odometer.Tracks.evened`).
-/

namespace StridedArray

namespace Layout

/-- One stride per axis: missing strides are 0, those left over are dropped. -/
def evenStrides : Shape → List Int → List Int
  | [], _ => []
  | _ :: s, strides => strides.headD 0 :: evenStrides s strides.tail

/-- **The layout with one stride per axis.** -/
def evened (l : Layout) : Layout :=
  { l with strides := evenStrides l.shape l.strides }

theorem length_evenStrides (s : Shape) (strides : List Int) :
    (evenStrides s strides).length = s.length := by
  induction s generalizing strides with
  | nil => rfl
  | cons n s ih => exact congrArg (· + 1) (ih strides.tail)

/-- Padding goes in front of the strides as it does in front of the shape. -/
theorem evenStrides_padLeft (padding : Nat) (s : Shape) (strides : List Int) :
    evenStrides (padLeft padding 1 s) (padLeft padding 0 strides)
      = padLeft padding 0 (evenStrides s strides) := by
  induction padding with
  | zero => rfl
  | succ padding ih => exact congrArg (0 :: ·) ih

/-- **Evened strides lead to the same items.** -/
theorem displacement_evenStrides {s : Shape} {p : List Nat} (strides : List Int)
    (hp : s.Contains p) : displacement p (evenStrides s strides) = displacement p strides := by
  induction s generalizing p strides with
  | nil =>
    cases p with
    | nil => rfl
    | cons c p => exact hp.elim
  | cons n s ih =>
    cases p with
    | nil => exact hp.elim
    | cons c p =>
      have hrest := ih strides.tail hp.2
      rw [evenStrides, displacement_cons, hrest]
      cases strides with
      | nil =>
        show (c : Int) * 0 + displacement p [] = 0
        rw [displacement_nil_right, Int.mul_zero, Int.add_zero]
      | cons stride strides => rfl

theorem address_evened {l : Layout} {p : List Nat} (hp : l.shape.Contains p) :
    l.evened.address p = l.address p := by
  rw [address, address, evened, displacement_evenStrides l.strides hp]

end Layout

namespace Route

/-- Where a sweep has a result, it has the same on the evened strides. -/
theorem sweep_evenStrides {axis : Nat} {extents shape : Shape} {natives : List Int}
    {swept : List Int × List Int} (h : sweep axis extents natives shape = .ok swept) :
    sweep axis extents (Layout.evenStrides extents natives) shape = .ok swept := by
  induction extents generalizing axis natives shape swept with
  | nil => exact h
  | cons n extents ih =>
    cases shape with
    | nil => exact h
    | cons target shape =>
      by_cases hagree : n = target ∨ n = 1
      · rw [sweep_cons hagree] at h ⊢
        obtain ⟨stride, hstride, h⟩ := Outcome.bind_eq_ok.mp h
        obtain ⟨rewind, hrewind, h⟩ := Outcome.bind_eq_ok.mp h
        obtain ⟨rest, hrest, h⟩ := Outcome.bind_eq_ok.mp h
        refine Outcome.bind_eq_ok.mpr ⟨stride, ?_, ?_⟩
        · by_cases hrepeat : n = 1 ∧ 1 < target
          · rwa [if_pos hrepeat] at hstride ⊢
          · -- a stride that was looked for was there
            rw [if_neg hrepeat] at hstride ⊢
            obtain ⟨_, rfl⟩ := List.head?_eq_some_iff.mp (Outcome.subscript_eq_ok.mp hstride)
            rfl
        · exact Outcome.bind_eq_ok.mpr ⟨rewind, hrewind,
            Outcome.bind_eq_ok.mpr ⟨rest, ih hrest, h⟩⟩
      · rw [sweep, if_pos (by omega)] at h
        exact (refuse_ne_ok _ _ h).elim

/-- **A route is the route of the evened layout.** -/
theorem ofLayout_evened {l : Layout} {shape : Shape} {r : Route}
    (h : ofLayout l shape = .ok r) : ofLayout l.evened shape = .ok r := by
  obtain ⟨hrank, hsweep, hrest⟩ := ofLayout_eq_ok.mp h
  have heven := sweep_evenStrides hsweep
  rw [Shape.padTo, Layout.evenStrides_padLeft] at heven
  exact ofLayout_eq_ok.mpr ⟨hrank, heven, hrest⟩

end Route

/-- The output through the evened layout, if it has its own. -/
def Target.evened : Target → Target
  | own l => own l.evened
  | other => other

namespace Odometer

variable {a b : Layout} {target : Target} {o : Odometer} {k : Nat}

/-- **A traversal of any layouts is one of the evened layouts.** -/
theorem Tracks.evened (h : o.Tracks a b target) :
    o.Tracks a.evened b.evened target.evened where
  shape := h.shape
  len := h.len
  first := Route.ofLayout_evened h.first
  second := Route.ofLayout_evened h.second
  output_shape l hl := by
    cases target with
    | none => exact absurd hl (by simp [Target.evened, Target.layout?])
    | first => exact Option.some.inj hl ▸ h.output_shape a rfl
    | second => exact Option.some.inj hl ▸ h.output_shape b rfl
    | own layout => exact Option.some.inj hl ▸ h.output_shape layout rfl
  output := by
    cases target with
    | own layout =>
      obtain ⟨lane, hlane, hroute⟩ := h.output
      exact ⟨lane, hlane, Route.ofLayout_evened hroute⟩
    | _ => exact h.output

/-- **The parts of any traversal of layouts fit together.** -/
theorem Tracks.sound_of_any (h : o.Tracks a b target) : o.Sound := by
  have heven : ∀ l : Layout, l.evened.strides.length = l.evened.shape.length :=
    fun l => Layout.length_evenStrides l.shape l.strides
  refine h.evened.sound (heven a) (heven b) fun l hl => ?_
  cases target with
  | none => exact absurd hl (by simp [Target.evened, Target.layout?])
  | first => exact Option.some.inj hl ▸ heven a
  | second => exact Option.some.inj hl ▸ heven b
  | own layout => exact Option.some.inj hl ▸ heven layout

end Odometer

/-- **The slot shown of any operand** at a position is the word of the exact slot of the item that
broadcasting reads. -/
theorem Lane.slot_moveTo_of_any {lane : Lane} {l : Layout} {shape : Shape} {p : List Nat}
    (hroute : Route.ofLayout l shape = .ok lane.route) (hp : shape.Contains p) :
    l.shape.Contains (l.shape.sourceOf p)
      ∧ (lane.moveTo p).slot = Word.toUnsigned (l.address (l.shape.sourceOf p)) := by
  have hleads := Route.leads_of_ofLayout (Layout.length_evenStrides l.shape l.strides)
    (Route.ofLayout_evened hroute)
  have hsource : l.shape.Contains (l.shape.sourceOf p) :=
    Shape.contains_sourceOf hleads.stretches hp
  refine ⟨hsource, ?_⟩
  unfold slot moveTo
  rw [Word.toUnsigned_wrap, hleads.address_eq hp]
  exact congrArg Word.toUnsigned (Layout.address_evened hsource)

end StridedArray
