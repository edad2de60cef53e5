import StridedArray.Proofs.Join
import StridedArray.Proofs.Repeat

/-!
# Stretching in steps

A view can be stretched once more. An axis may be a singleton at first and be
repeated later, it may be added as padding and repeated later, and it may
become empty on the way. What counts is the first and the last extent: a
singleton axis loses its stride when it is repeated, and keeps it, of no use
as it is, when it stays single or becomes empty. So the strides of two steps
are those of one (`Route.stretchStrides_in_steps`), and with them the route,
past the end as well (`Route.Leads.onward`, `Route.Leads.inOneStep`).
Stretching to the own shape changes nothing, and stretching in two steps
comes to the same view of the same storage as stretching in one
(`View.stretches_compose`).
-/

namespace StridedArray

/-- Padding once more is padding once by as much as both times. -/
theorem padLeft_padLeft {α : Type} (m n : Nat) (fill : α) (xs : List α) :
    padLeft m fill (padLeft n fill xs) = padLeft (m + n) fill xs := by
  unfold padLeft
  rw [← List.append_assoc, List.replicate_append_replicate]

namespace Route

/-! ## Strides -/

/-- Axes added by padding have stride 0, repeated or not. -/
theorem stretchStrides_padLeft (padding : Nat) (extents : Shape) (natives : List Int)
    (target : Shape) :
    stretchStrides (padLeft padding 1 extents) (padLeft padding 0 natives)
        (padLeft padding 1 target)
      = padLeft padding 0 (stretchStrides extents natives target) := by
  induction padding with
  | zero => rfl
  | succ padding ih => exact congrArg (0 :: ·) ih

/-- **Strides of strides**: an axis that is repeated in either of two steps is repeated in both of
them together. -/
theorem stretchStrides_stretchStrides {extents between target : Shape} {natives : List Int}
    (hlength : natives.length = extents.length)
    (h : List.Forall₂ (fun m n => m = n ∨ m = 1) extents between)
    (h' : List.Forall₂ (fun m n => m = n ∨ m = 1) between target) :
    stretchStrides between (stretchStrides extents natives between) target
      = stretchStrides extents natives target := by
  induction h generalizing natives target with
  | nil =>
    cases h'
    rfl
  | @cons m k extents between hmk _ ih =>
    obtain ⟨native, natives, rfl⟩ := List.exists_cons_of_length_eq_add_one hlength
    cases h' with
    | @cons _ n _ target hkn hrest =>
      rw [stretchStrides, stretchStrides, stretchStrides, ih (Nat.succ.inj hlength) hrest]
      congr 1
      split_ifs <;> first | rfl | omega

/-- **The strides of two steps are those of one**, whatever axes are added in either. -/
theorem stretchStrides_in_steps {s t u : Shape} {strides : List Int}
    (hlength : strides.length = s.length) (hst : s.StretchesTo t) (htu : t.StretchesTo u) :
    stretchStrides (t.padTo u.length) (padLeft (u.length - t.length) 0
        (stretchStrides (s.padTo t.length) (padLeft (t.length - s.length) 0 strides) t)) u
      = stretchStrides (s.padTo u.length) (padLeft (u.length - s.length) 0 strides) u := by
  have hs := hst.length_le
  have ht := htu.length_le
  -- all that is added in both steps is added in front
  have htotal : u.length - t.length + (t.length - s.length) = u.length - s.length := by omega
  have hpadded : List.Forall₂ (fun m n => m = n ∨ m = 1)
      (padLeft (u.length - t.length) 1 (s.padTo t.length)) (t.padTo u.length) :=
    List.rel_append (List.forall₂_same.mpr fun _ _ => .inl rfl) hst
  rw [Shape.padTo, Shape.padTo] at hpadded
  rw [Shape.padTo, Shape.padTo, Shape.padTo, ← stretchStrides_padLeft,
    stretchStrides_stretchStrides ?_ hpadded htu, padLeft_padLeft, padLeft_padLeft, htotal]
  rw [padLeft_padLeft, padLeft_padLeft, length_padLeft, length_padLeft, hlength]

/-! ## Routes -/

variable {l : Layout} {s t : Shape} {r r' : Route}

/-- **The layout stretched along a route.** -/
def stretchedLayout (r : Route) (s : Shape) : Layout where
  shape := s
  strides := r.strides
  offset := r.start
  itemSlots := r.itemSlots

/-- **A route of the stretched layout is one of the original**, but for the extents kept with it. -/
theorem Leads.inOneStep (h : r.Leads l s) (h' : r'.Leads (r.stretchedLayout s) t) :
    Leads { r' with extents := l.shape.padTo t.length } l t where
  stretches := h.stretches.trans h'.stretches
  length_strides := h.length_strides
  extents_eq := rfl
  strides_eq := by
    refine h'.strides_eq.trans ?_
    show stretchStrides (s.padTo t.length) (padLeft _ 0 r.strides) t = _
    rw [h.strides_eq]
    exact stretchStrides_in_steps h.length_strides h.stretches h'.stretches
  rewinds := h'.rewinds
  start_eq := h'.start_eq.trans h.start_eq
  itemSlots_eq := h'.itemSlots_eq.trans h.itemSlots_eq
  pastEnd_eq := h'.pastEnd_eq

/-- **A route of the original is one of the stretched layout**, but for the extents kept with it, as
far as the shape in between stretches. -/
theorem Leads.onward (h : r.Leads l s) (h' : r'.Leads l t) (hst : s.StretchesTo t) :
    Leads { r' with extents := s.padTo t.length } (r.stretchedLayout s) t where
  stretches := hst
  length_strides := h.fits.length_strides
  extents_eq := rfl
  strides_eq := by
    refine h'.strides_eq.trans ?_
    show _ = stretchStrides (s.padTo t.length) (padLeft _ 0 r.strides) t
    rw [h.strides_eq]
    exact (stretchStrides_in_steps h.length_strides h.stretches hst).symm
  rewinds := h'.rewinds
  start_eq := h'.start_eq.trans h.start_eq.symm
  itemSlots_eq := h'.itemSlots_eq.trans h.itemSlots_eq.symm
  pastEnd_eq := h'.pastEnd_eq

end Route

namespace View

variable {x v z : View} {w : Workspace} {s t : Shape}

/-! ## Views -/

/-- **A stretched view** is the array seen through the layout stretched along its route. -/
theorem stretch_eq_ok_iff (hx : x.layout.strides.length = x.shape.length) :
    x.stretch t = .ok z ↔ ∃ r : Route, r.Leads x.layout t
      ∧ Layout.ofStrides t r.strides x.layout.offset x.layout.itemSlots
        = .ok (r.stretchedLayout t)
      ∧ z = { x with layout := r.stretchedLayout t } := by
  constructor
  · intro h
    obtain ⟨r, hr, h⟩ := Outcome.bind_eq_ok.mp h
    obtain ⟨l, hl, h⟩ := Outcome.bind_eq_ok.mp h
    obtain rfl := Except.ok.inj h
    have hleads := Route.leads_of_ofLayout hx hr
    have hlayout : l = r.stretchedLayout t := by
      obtain ⟨-, -, -, rfl⟩ := Layout.ofStrides_eq_ok.mp hl
      rw [Route.stretchedLayout, hleads.start_eq, hleads.itemSlots_eq]
    exact ⟨r, hleads, hlayout ▸ hl, by rw [hlayout]⟩
  · rintro ⟨r, hr, hl, rfl⟩
    exact Outcome.bind_eq_ok.mpr ⟨r, hr.ofLayout_eq, Outcome.bind_eq_ok.mpr ⟨_, hl, rfl⟩⟩

/-- **Stretching to the own shape** gives the array itself. -/
theorem eq_of_stretch_self (hx : x.layout.strides.length = x.shape.length)
    (h : x.stretch x.shape = .ok z) : z = x := by
  obtain ⟨r, hr, -, rfl⟩ := (stretch_eq_ok_iff hx).mp h
  have hstrides : r.strides = x.layout.strides := by
    refine hr.strides_eq.trans ?_
    show Route.stretchStrides (x.shape.padTo x.shape.length)
      (padLeft (x.shape.length - x.shape.length) 0 x.layout.strides) x.shape = _
    rw [Shape.padTo_length, Nat.sub_self]
    exact Route.stretchStrides_self hx
  show ({ x with layout := ⟨x.layout.shape, r.strides, r.start, r.itemSlots⟩ } : View) = x
  rw [hstrides, hr.start_eq, hr.itemSlots_eq]

/-- **Stretching once more** is stretching in one step. -/
theorem stretch_stretch (hx : x.layout.strides.length = x.shape.length)
    (hv : x.stretch s = .ok v) :
    v.stretch t = .ok z ↔ s.StretchesTo t ∧ x.stretch t = .ok z := by
  obtain ⟨r, hr, -, rfl⟩ := (stretch_eq_ok_iff hx).mp hv
  have hlength : (r.stretchedLayout s).strides.length = s.length := hr.fits.length_strides
  rw [stretch_eq_ok_iff hx, stretch_eq_ok_iff hlength]
  show (∃ r' : Route, _ ∧ Layout.ofStrides t r'.strides r.start r.itemSlots = _ ∧ _) ↔ _
  rw [hr.start_eq, hr.itemSlots_eq]
  constructor
  · rintro ⟨r', hr', hl, rfl⟩
    exact ⟨hr'.stretches, _, hr.inOneStep hr', hl, rfl⟩
  · rintro ⟨hst, r', hr', hl, rfl⟩
    exact ⟨_, hr.onward hr' hst, hl, rfl⟩

/-- **Stretching composes.** Stretching an array in bounds to its own shape gives the array itself,
unless arithmetic traps. A view stretched to a shape can be stretched to another one exactly if the
first shape stretches to it and the array can be stretched there in one step, and either way leads
to the same view: the same storage, and the same layout with all its strides. -/
theorem stretches_compose (hx : x.InBounds w) :
    (x.stretch x.shape).EndsAs (.ok x)
      ∧ ∀ s t v, x.stretch s = .ok v →
        ∀ z, v.stretch t = .ok z ↔ s.StretchesTo t ∧ x.stretch t = .ok z := by
  refine ⟨?_, fun s t v hv z => stretch_stretch hx.length_strides hv⟩
  rcases (hx.accepted_stretch (.refl _)).isOk_or_trap with ⟨z, hz⟩ | htrap
  · exact .inr (hz.trans (congrArg Except.ok (eq_of_stretch_self hx.length_strides hz)))
  · exact .inl htrap

/-- A row of three, run through backwards, under an axis more, and then with the added axis repeated
and its own singleton axis empty. -/
theorem stretches_compose_empty : ∃ (x v z : View) (w : Workspace), x.InBounds w
    ∧ x.layout = ⟨[1, 3], [3, -1], 2, 1⟩
    ∧ x.stretch [1, 3] = .ok x
    ∧ x.stretch [1, 1, 3] = .ok v ∧ v.layout = ⟨[1, 1, 3], [0, 3, -1], 2, 1⟩
    ∧ v.stretch [2, 0, 3] = .ok z ∧ z.layout = ⟨[2, 0, 3], [0, 3, -1], 2, 1⟩
    ∧ x.stretch [2, 0, 3] = .ok z := by
  let w := Workspace.initial.add ⟨.int8, [1, 2, 3]⟩
  let x : View := ⟨0, ⟨[1, 3], [3, -1], 2, 1⟩⟩
  have hmade : ofValuesOfType [.ofInt 1, .ofInt 2, .ofInt 3] [1, 3] .int8 .initial
      = .ok ⟨0, ⟨[1, 3], [3, 1], 0, 1⟩⟩ w := by decide +kernel
  have hflip : View.apply (.flip 1) ⟨0, ⟨[1, 3], [3, 1], 0, 1⟩⟩ = .ok x := rfl
  have hx : x.InBounds w := (inBounds_of_ofValuesOfType hmade).apply hflip
  have hfits : (x.stretch x.shape).isOk := by decide +kernel
  have hv : x.stretch [1, 1, 3] = .ok ⟨0, ⟨[1, 1, 3], [0, 3, -1], 2, 1⟩⟩ := by decide +kernel
  have hz : View.stretch ⟨0, ⟨[1, 1, 3], [0, 3, -1], 2, 1⟩⟩ [2, 0, 3]
      = .ok ⟨0, ⟨[2, 0, 3], [0, 3, -1], 2, 1⟩⟩ := by decide +kernel
  obtain ⟨hself, hsteps⟩ := stretches_compose hx
  refine ⟨x, _, _, w, hx, rfl, hself.eq fun t ht => ?_, hv, rfl, hz, rfl,
    ((hsteps _ _ _ hv _).mp hz).2⟩
  rw [ht] at hfits
  exact absurd hfits Bool.false_ne_true

end View

end StridedArray
