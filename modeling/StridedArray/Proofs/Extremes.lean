import Mathlib.Order.Bounds.Defs
import StridedArray.Proofs.InBounds

/-!
# What is checked of a layout

A layout is checked in two places, each of which adds up one extreme per
axis. `Layout.ofStrides` asks for the lowest slot, and since the lowest
item is there, it accepts a layout exactly if no item starts below the
first slot (`Layout.lowest_nonneg_iff`). `Layout.slotsNeeded` is the end of
the highest item, and that one is there as well
(`Layout.isGreatest_slotsNeeded`). So an array of a storage and a layout
from strides is made exactly if every slot of every item lies in the
storage (`View.checks_exact`).
-/

namespace StridedArray

/-- A shape has an empty axis exactly if it has no position. -/
theorem Shape.zero_notMem_iff {s : Shape} : 0 ∉ s ↔ 0 < s.count := by
  rw [count_pos_iff, List.all_eq_true]
  constructor
  · intro h n hn
    exact decide_eq_true (Nat.pos_of_ne_zero fun hzero => h (hzero ▸ hn))
  · intro h hzero
    exact Nat.lt_irrefl 0 (of_decide_eq_true (h 0 hzero))

namespace Layout

variable {shape : Shape} {strides : List Int}

/-- **The lowest slot is one exactly if every slot is**: no item lies below the lowest one, and that
one is there. -/
theorem lowest_nonneg_iff {slot low : Int} (haxes : SteadyAxes shape strides)
    (hpos : 0 < shape.count) (h : lowest shape strides slot = .ok low) :
    0 ≤ low ↔ ∀ p, shape.Contains p → 0 ≤ slot + displacement p strides := by
  rw [lowest_eq_ok haxes h]
  constructor
  · intro hlow p hp
    have := (displacement_mem_shift strides hp).1
    omega
  · intro hall
    obtain ⟨p, hp, hshift⟩ := exists_displacement_eq_leastShift strides hpos
    rw [← hshift]
    exact hall p hp

/-- The ends of the items of a layout. -/
def ends (l : Layout) : Set Int :=
  {slot | ∃ p, l.shape.Contains p ∧ slot = l.address p + l.itemSlots}

/-- **The slots that a layout needs** are those up to the end of the highest item. -/
theorem isGreatest_slotsNeeded {l : Layout} {required : Nat}
    (hoffset : l.offset < 0x8000000000000000) (hpos : 0 < l.shape.count)
    (haxes : SteadyAxes l.shape l.strides) (h : l.slotsNeeded = .ok required) :
    IsGreatest l.ends required := by
  have hneeded := slotsNeeded_eq_ok hoffset hpos haxes h
  refine ⟨?_, ?_⟩
  · obtain ⟨p, hp, hshift⟩ := exists_displacement_eq_greatestShift l.strides hpos
    refine ⟨p, hp, ?_⟩
    rw [hneeded, address, hshift]
  · rintro slot ⟨p, hp, rfl⟩
    have := (displacement_mem_shift l.strides hp).2
    rw [address]
    omega

end Layout

namespace View

/-- **Every slot of every item of the layout lies in the storage.** -/
def Covers (s : Storage) (l : Layout) : Prop :=
  ∀ p, l.shape.Contains p → ∀ k < l.itemSlots, 0 ≤ l.address p + k ∧ l.address p + k < s.len

variable {s : Storage} {l : Layout} {w : Workspace}

/-- A storage with enough slots covers a layout whose items start at slots, and no other does. -/
theorem covers_iff_of_isGreatest {required : Nat} (hitem : 0 < l.itemSlots)
    (hnonneg : ∀ p, l.shape.Contains p → 0 ≤ l.address p) (h : IsGreatest l.ends required) :
    Covers s l ↔ required ≤ s.len := by
  constructor
  · intro hcovers
    obtain ⟨p, hp, hend⟩ := h.1
    have := (hcovers p hp (l.itemSlots - 1) (by omega)).2
    omega
  · intro hle p hp k hk
    have hfirst := hnonneg p hp
    have hlast : l.address p + l.itemSlots ≤ required := h.2 ⟨p, hp, rfl⟩
    omega

/-- A storage that covers a layout is not refused. -/
theorem accepted_checkFit_of_covers (hitem : l.itemSlots = s.type.itemSlots)
    (hneeded : 0 < l.shape.count → ∀ required, l.slotsNeeded = .ok required →
      (Covers s l ↔ required ≤ s.len))
    (h : Covers s l) : (checkFit s l).Accepted := by
  unfold checkFit
  refine .ite (fun hother => absurd hitem hother) (fun _ => ?_)
  refine (Shape.accepted_size _).bind fun size hsize => ?_
  refine .ite (fun hsize₀ => ?_) (fun _ => Outcome.refusedOnly_pure _)
  refine (Layout.accepted_slotsNeeded _).bind fun required hrequired => ?_
  have hle := (hneeded (Shape.count_of_size hsize ▸ hsize₀) required hrequired).mp h
  exact .ite (fun hbeyond => absurd hle (Nat.not_le_of_lt hbeyond))
    (fun _ => Outcome.refusedOnly_pure _)

/-- **An array is made of a storage and a layout** exactly if the storage covers the layout, unless
arithmetic traps. -/
theorem ofStorage_accepts_iff (hitem : l.itemSlots = s.type.itemSlots)
    (hneeded : 0 < l.shape.count → ∀ required, l.slotsNeeded = .ok required →
      (Covers s l ↔ required ≤ s.len))
    (htrap : ∀ t w', ofStorage s l w ≠ .error (.trapped t) w') :
    (∃ x w', ofStorage s l w = .ok x w') ↔ Covers s l := by
  constructor
  · rintro ⟨x, w', h⟩ p hp
    obtain ⟨-, n, hn, hfit⟩ := checkFit_eq_ok.mp (ofStorage_eq_ok.mp h).1
    have hpos := Shape.count_pos_of_contains hp
    obtain ⟨required, hrequired, hle⟩ := hfit (Shape.count_of_size hn ▸ hpos)
    exact (hneeded hpos required hrequired).mpr hle p hp
  · intro hcovers
    -- a trap of the check is one of the whole
    have hcheck : ∀ t, checkFit s l ≠ trap t := fun t ht =>
      htrap t w (by rw [ofStorage, ht]; rfl)
    obtain ⟨⟨⟩, hfit⟩ := (accepted_checkFit_of_covers hitem hneeded hcovers).exists_ok hcheck
    exact ⟨_, _, ofStorage_eq_ok.mpr ⟨hfit, rfl, rfl⟩⟩

/-- **The checks of a layout are exact.** Let extents and offset be signed words and nothing trap.
Strides are accepted exactly if an item has a slot and no item starts below the first slot. Unless
the layout is empty the slots that it needs then end with its highest item. And of a storage that
counts the slots of an item alike and the layout an array is made exactly if every slot of every
item lies in the storage. -/
theorem checks_exact {shape : Shape} {strides : List Int} {offset itemSlots : Nat}
    (hlength : strides.length = shape.length) (hsigned : shape.Signed)
    (hoffset : offset < 0x8000000000000000)
    (htrap : ∀ t, Layout.ofStrides shape strides offset itemSlots ≠ trap t) :
    (Layout.ofStrides shape strides offset itemSlots = .ok ⟨shape, strides, offset, itemSlots⟩ ↔
        1 ≤ itemSlots
          ∧ (0 ∈ shape ∨ ∀ p, shape.Contains p → 0 ≤ offset + Layout.displacement p strides))
      ∧ ∀ l, Layout.ofStrides shape strides offset itemSlots = .ok l →
        l = ⟨shape, strides, offset, itemSlots⟩
          ∧ (0 ∉ shape → ∀ required, l.slotsNeeded = .ok required → IsGreatest l.ends required)
          ∧ ∀ (s : Storage) (w : Workspace), l.itemSlots = s.type.itemSlots →
            (∀ t w', ofStorage s l w ≠ .error (.trapped t) w') →
            ((∃ x w', ofStorage s l w = .ok x w') ↔ Covers s l) := by
  have haxes := Layout.steadyAxes_of_signed hsigned hlength
  have hlowest : 0 < shape.count → ∀ low,
      Layout.lowest shape strides (Word.toSigned offset) = .ok low →
      (0 ≤ low ↔ ∀ p, shape.Contains p → 0 ≤ offset + Layout.displacement p strides) := by
    intro hpos low hlow
    rw [Layout.lowest_nonneg_iff haxes hpos hlow, Word.toSigned_of_lt hoffset]
  refine ⟨⟨fun h => ?_, fun ⟨hitem, hnonneg⟩ => ?_⟩, fun l h => ?_⟩
  · obtain ⟨-, hitem, hlow, -⟩ := Layout.ofStrides_eq_ok.mp h
    refine ⟨Nat.one_le_iff_ne_zero.mpr hitem, or_iff_not_imp_left.mpr fun hnone => ?_⟩
    have hpos := Shape.zero_notMem_iff.mp hnone
    obtain ⟨low, hok, hlow⟩ := hlow hpos
    exact (hlowest hpos low hok).mp hlow
  · have haccepted := Layout.accepted_ofStrides hlength.symm (Nat.one_le_iff_ne_zero.mp hitem)
      fun hpos low hlow => (hlowest hpos low hlow).mpr
        (hnonneg.resolve_left (Shape.zero_notMem_iff.mpr hpos))
    obtain ⟨l, hl⟩ := haccepted.exists_ok htrap
    obtain ⟨-, -, -, rfl⟩ := Layout.ofStrides_eq_ok.mp hl
    exact hl
  · obtain ⟨-, hitem, hlow, rfl⟩ := Layout.ofStrides_eq_ok.mp h
    have hgreatest : 0 < shape.count → ∀ required,
        (⟨shape, strides, offset, itemSlots⟩ : Layout).slotsNeeded = .ok required →
          IsGreatest (Layout.ends ⟨shape, strides, offset, itemSlots⟩) required :=
      fun hpos _ => Layout.isGreatest_slotsNeeded hoffset hpos haxes
    refine ⟨rfl, fun hnone => hgreatest (Shape.zero_notMem_iff.mp hnone), fun s w hsame htrap => ?_⟩
    refine ofStorage_accepts_iff hsame (fun hpos required hrequired => ?_) htrap
    obtain ⟨low, hok, hlow⟩ := hlow hpos
    exact covers_iff_of_isGreatest (Nat.pos_of_ne_zero hitem) ((hlowest hpos low hok).mp hlow)
      (hgreatest hpos required hrequired)

/-- Two overlapping rows of pairs of slots, each run through backwards. The highest item ends with the
eleventh slot, so that an array is made in eleven slots and not in ten. -/
theorem checks_exact_overlapping : ∃ l : Layout,
    Layout.ofStrides [2, 3] [3, -2] 6 2 = .ok l ∧ l = ⟨[2, 3], [3, -2], 6, 2⟩
      ∧ IsGreatest l.ends 11
      ∧ Covers ⟨.complex64, List.replicate 44 0⟩ l
      ∧ ¬Covers ⟨.complex64, List.replicate 40 0⟩ l := by
  let l : Layout := ⟨[2, 3], [3, -2], 6, 2⟩
  have hmade : Layout.ofStrides [2, 3] [3, -2] 6 2 = .ok l := by decide +kernel
  have htrap : ∀ t, Layout.ofStrides [2, 3] [3, -2] 6 2 ≠ trap t := by
    intro t
    rw [hmade]
    exact (trap_ne_ok t l).symm
  obtain ⟨-, hgreatest, hstorage⟩ :=
    (checks_exact rfl (by decide) (by decide) htrap).2 l hmade
  have hroom : ofStorage ⟨.complex64, List.replicate 44 0⟩ l .initial
      = .ok ⟨0, l⟩ (Workspace.initial.add ⟨.complex64, List.replicate 44 0⟩) := by decide +kernel
  have hnoRoom : ofStorage ⟨.complex64, List.replicate 40 0⟩ l .initial
      = .error (.refused (.outOfBounds 10 10)) .initial := by decide +kernel
  refine ⟨l, hmade, rfl, hgreatest (by decide) 11 (by decide +kernel), ?_, ?_⟩
  · refine (hstorage _ .initial rfl ?_).mp ⟨_, _, hroom⟩
    rw [hroom]
    exact nofun
  · intro hcovers
    have hrefused := (hstorage _ .initial rfl (by rw [hnoRoom]; exact nofun)).mpr hcovers
    rw [hnoRoom] at hrefused
    exact nomatch hrefused

end View

end StridedArray
