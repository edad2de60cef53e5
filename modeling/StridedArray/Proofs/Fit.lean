import StridedArray.Json.Codec
import StridedArray.Proofs.InBounds

/-!
# What the check of a new array leaves open

An array of a storage and a layout is checked against the upper end of the
storage only. If the layout has one stride per axis and signed extents,
the check does keep every item from ending above the last slot, and
whether the array is in bounds is then a matter of the lower end alone
(`View.inBounds_iff_of_ofStorage`). Layouts from strides, from a shape and
from view operations have been checked there. A layout read from text has
not, and neither has its number of strides
(`View.ofStorage_of_text_below`).
-/

namespace StridedArray.View

/-- **What the check of a new array is worth**: no item ends above the last slot, and the array is
in bounds exactly if no item starts below the first one. -/
theorem inBounds_iff_of_ofStorage {s : Storage} {l : Layout} {x : View} {w w' : Workspace}
    (hs : s.bytes.length < Word.addressLimit) (hlength : l.strides.length = l.shape.length)
    (hoffset : l.offset < 0x8000000000000000) (hsigned : l.shape.Signed)
    (h : ofStorage s l w = .ok x w') :
    (∀ p, l.shape.Contains p → l.address p + l.itemSlots ≤ s.len)
      ∧ (x.InBounds w' ↔ ∀ p, l.shape.Contains p → 0 ≤ l.address p) := by
  obtain ⟨hcheck, rfl, rfl⟩ := ofStorage_eq_ok.mp h
  have haxes := Layout.steadyAxes_of_signed hsigned hlength
  refine ⟨fun p hp => address_le_of_checkFit hoffset haxes hcheck hp, fun hx => hx.nonneg,
    fun hnonneg => ?_⟩
  exact inBounds_of_checkFit w hs hlength (fun _ => hoffset) (fun _ => haxes) hnonneg hcheck

/-- Two numbers run through backwards. -/
theorem inBounds_iff_of_ofStorage_reversed : ∃ (x : View) (w' : Workspace),
    ofStorage ⟨.int8, [1, 2]⟩ ⟨[2], [-1], 1, 1⟩ .initial = .ok x w' ∧ x.InBounds w' := by
  have h : ofStorage ⟨.int8, [1, 2]⟩ ⟨[2], [-1], 1, 1⟩ .initial
      = .ok ⟨0, ⟨[2], [-1], 1, 1⟩⟩ (Workspace.initial.add ⟨.int8, [1, 2]⟩) := by decide +kernel
  refine ⟨_, _, h, (inBounds_iff_of_ofStorage (by decide) rfl (by decide) (by decide) h).2.mpr ?_⟩
  intro p hp
  match p, hp with
  | [c], ⟨hc, _⟩ =>
    show (0 : Int) ≤ ((1 : Nat) : Int) + (c * -1 + 0)
    omega

/-- **A layout read from text can reach below its storage**: two numbers run through backwards from
the first one on, and two numbers without a stride. -/
theorem ofStorage_of_text_below : ∃ (l l' : Layout) (x x' : View) (w w' : Workspace),
    Layout.ofText? "\x7b\"shape\":[2],\"strides\":[-1],\"offset\":0,\"elements_per_item\":1\x7d"
        = some l
      ∧ ofStorage ⟨.int8, [1, 2]⟩ l .initial = .ok x w
      ∧ l.shape.Contains [1] ∧ l.address [1] = -1
      ∧ Layout.ofText? "\x7b\"shape\":[2],\"strides\":[],\"offset\":0,\"elements_per_item\":1\x7d"
        = some l'
      ∧ ofStorage ⟨.int8, [1, 2]⟩ l' .initial = .ok x' w' ∧ l'.strides.length ≠ l'.shape.length := by
  refine ⟨⟨[2], [-1], 0, 1⟩, ⟨[2], [], 0, 1⟩, ⟨0, ⟨[2], [-1], 0, 1⟩⟩, ⟨0, ⟨[2], [], 0, 1⟩⟩,
    Workspace.initial.add ⟨.int8, [1, 2]⟩, Workspace.initial.add ⟨.int8, [1, 2]⟩, ?_⟩
  decide +kernel

end StridedArray.View
