import StridedArray.Proofs.Create

/-!
# Repeating an array

An array is repeated by copying its items to a new array or by a view with
strides of zero. The two ways check their arguments differently, but they
accept the same targets, those that the shape stretches to, as long as the
copy has room (`View.repeatTo_achieves`, `View.InBounds.accepted_stretch`).
`View.Repeats` is what either leads to: an array of the target's shape
whose items have, slot for slot, the values of the items that broadcasting
reads.

The copy is made run by run, a run being the slots of one item. What holds
after `k` items is `View.Copied`; `View.copyRun_achieves` is the step.
-/

namespace StridedArray

/-! ## The shape of the result -/

/-- **A shape that stretches is aligned with its target.** -/
theorem Shape.alignTo_of_stretchesTo {s t : Shape} {size : Nat} (h : s.StretchesTo t)
    (hsize : s.size = .ok size) : ∃ padded, s.alignTo size t = some (padded, t) := by
  unfold alignTo
  by_cases ht : t = []
  · have hs : s = [] := by
      have := h.length_le
      rw [ht] at this
      exact List.length_eq_zero_iff.mp (Nat.le_zero.mp this)
    rw [hs] at hsize
    obtain rfl := Except.ok.inj hsize
    rw [if_pos ht, if_pos rfl, ht]
    exact ⟨s, rfl⟩
  · rw [if_neg ht]
    simp only [padTo_of_le h.length_le]
    refine ⟨_, if_pos (List.all_eq_true.mpr ?_)⟩
    rintro ⟨m, n⟩ hmem
    have hextents := List.forall₂_zip h hmem
    simp only [Bool.or_eq_true, decide_eq_true_eq]
    tauto

/-- A target of no lower rank is aligned without padding. -/
theorem Shape.eq_of_alignTo {s t padded goal : Shape} {size : Nat} (hrank : s.length ≤ t.length)
    (h : s.alignTo size t = some (padded, goal)) : goal = t := by
  unfold alignTo at h
  by_cases ht : t = []
  · rw [if_pos ht] at h
    split at h
    · rw [ht, ← (Prod.mk.inj (Option.some.inj h)).2]
    · exact nomatch h
  · rw [if_neg ht] at h
    simp only [padTo_of_le hrank] at h
    split at h
    · exact (Prod.mk.inj (Option.some.inj h)).2.symm
    · exact nomatch h

namespace View

variable {x y z : View} {w w' : Workspace} {t goal : Shape}

/-- **The shape of a repetition is the target**, unless arithmetic traps, if the shape stretches to
it. -/
theorem accepted_repeatedShape (h : x.shape.StretchesTo t) : (x.repeatedShape t).Accepted := by
  refine (Shape.accepted_size x.shape).bind fun size hsize => ?_
  obtain ⟨padded, halign⟩ := Shape.alignTo_of_stretchesTo h hsize
  have hyields : (Shape.broadcast [x.shape, t]).yields t = true := by
    rw [Shape.broadcast_target_eq_ok.mpr h]
    exact decide_eq_true rfl
  rw [halign]
  show Outcome.Accepted (if t = [] ∨ _ then _ else _)
  rw [if_pos (.inr hyields)]
  exact Outcome.refusedOnly_pure _

/-- A repetition to a target of no lower rank has the shape of the target, which the shape stretches
to. -/
theorem repeatedShape_eq_ok (hrank : x.shape.length ≤ t.length)
    (h : x.repeatedShape t = .ok goal) : goal = t ∧ x.shape.StretchesTo t := by
  obtain ⟨size, hsize, h⟩ := Outcome.bind_eq_ok.mp h
  cases halign : Shape.alignTo x.shape size t with
  | none =>
    rw [halign] at h
    exact absurd h (refuse_ne_ok _ _)
  | some aligned =>
    obtain ⟨padded, aligned⟩ := aligned
    obtain rfl := Shape.eq_of_alignTo hrank halign
    rw [halign] at h
    change (if aligned = [] ∨ _ then _ else _ : Outcome Shape) = _ at h
    by_cases hcheck : aligned = []
        ∨ (Shape.broadcast [x.shape, aligned]).yields aligned = true
    · rw [if_pos hcheck] at h
      refine ⟨(Except.ok.inj h).symm, ?_⟩
      rcases hcheck with rfl | hyields
      · rw [List.length_eq_zero_iff.mp (Nat.le_zero.mp hrank)]
        exact .refl _
      · exact Shape.broadcast_target_eq_ok.mp (Outcome.yields_iff.mp hyields)
    · rw [if_neg hcheck] at h
      exact absurd h (refuse_ne_ok _ _)

/-! ## Making the result -/

/-- The copying part of a repetition: every slot of every item goes to the new array. -/
def copyTo (x result : View) (goal : Shape) : Action Unit :=
  if goal = [] then
    copyRun x result x.layout.offset 0 0 x.layout.itemSlots
  else do
    let o ← Odometer.ofLayouts x.layout result.layout .none
    copyWithin x result x.layout.itemSlots (o.len + 1) o

/-- **A repetition makes an array of zeros and copies to it.** -/
theorem repeatTo_eq (x : View) (t : Shape) : x.repeatTo t = (do
    let goal ← x.repeatedShape t
    let w ← get
    let result ← zerosOfType goal (x.elementType w)
    copyTo x result goal
    return result) := by
  unfold repeatTo
  refine bind_congr fun goal => bind_congr fun w => bind_congr fun result => ?_
  unfold copyTo
  split
  · rfl
  · rw [bind_assoc]

/-- What a repetition leads to is an array of zeros that was copied to. -/
theorem repeatTo_eq_ok :
    x.repeatTo t w = .ok y w' ↔ ∃ goal w₁, x.repeatedShape t = .ok goal
      ∧ zerosOfType goal (x.elementType w) w = .ok y w₁ ∧ copyTo x y goal w₁ = .ok () w' := by
  rw [repeatTo_eq, Action.lift_bind_eq_ok]
  constructor
  · rintro ⟨goal, hgoal, h⟩
    obtain ⟨w₁, w₂, hget, h₁⟩ := Action.bind_eq_ok.mp h
    obtain ⟨rfl, rfl⟩ := EStateM.Result.ok.inj hget
    obtain ⟨result, w₃, hresult, h₃⟩ := Action.bind_eq_ok.mp h₁
    obtain ⟨u, w₄, hcopied, hpure⟩ := Action.bind_eq_ok.mp h₃
    obtain ⟨rfl, rfl⟩ := EStateM.Result.ok.inj hpure
    exact ⟨goal, w₃, hgoal, hresult, hcopied⟩
  · rintro ⟨goal, w₁, hgoal, hresult, hcopied⟩
    refine ⟨goal, hgoal, ?_⟩
    refine Action.bind_eq_ok.mpr ⟨w, w, rfl, ?_⟩
    refine Action.bind_eq_ok.mpr ⟨y, w₁, hresult, ?_⟩
    exact Action.bind_eq_ok.mpr ⟨(), w', hcopied, rfl⟩

/-! ## One item -/

/-- **Two arrays of one type in different storages**, neither of them locked. -/
structure Apart (x z : View) (w : Workspace) : Prop where
  /-- The storages are different. -/
  storage_ne : x.storage ≠ z.storage
  /-- The types are the same. -/
  elementType_eq : z.elementType w = x.elementType w
  /-- The first storage is not locked. -/
  unlocked_first : (w.cell x.storage).locked = false
  /-- The second storage is not locked. -/
  unlocked_second : (w.cell z.storage).locked = false

theorem Apart.of_agreesOff {S : Nat → Nat → Prop} (h : x.Apart z w) (hw : w.AgreesOff w' S) :
    x.Apart z w' where
  storage_ne := h.storage_ne
  elementType_eq :=
    ((hw.type_eq z.storage).trans h.elementType_eq).trans (hw.type_eq x.storage).symm
  unlocked_first := (hw.locked_eq x.storage).trans h.unlocked_first
  unlocked_second := (hw.locked_eq z.storage).trans h.unlocked_second

/-- **Copying a run of slots**: they have the values of the slots that they were copied from, and no
other slot has changed. -/
theorem copyRun_achieves {source target done left : Nat} (h : x.Apart z w)
    (hsource : source + done + left ≤ w.slotCount x.storage)
    (htarget : target + done + left ≤ w.slotCount z.storage) :
    Action.Achieves w (copyRun x z source target done left) fun _ w' =>
      w.AgreesOff w' (fun id index => id = z.storage
          ∧ target + done ≤ index ∧ index < target + done + left)
        ∧ ∀ i, done ≤ i → i < done + left →
            w'.content z.storage (target + i) = w.content x.storage (source + i) := by
  induction left generalizing done w with
  | zero => exact .pure ⟨.refl w _, by omega⟩
  | succ left ih =>
    refine .lift_bind (Outcome.refusedOnly_unsigned _) fun slot hslot => ?_
    obtain ⟨-, rfl⟩ := Word.unsigned_eq_ok.mp hslot
    refine .lift_bind (Outcome.refusedOnly_unsigned _) fun origin horigin => ?_
    obtain ⟨-, rfl⟩ := Word.unsigned_eq_ok.mp horigin
    obtain ⟨v, hv, hkind⟩ := Workspace.content_of_lt
      (show source + done < w.slotCount x.storage by omega)
    -- the slot is there, so reading it cannot fail and leaves the workspace as it is
    have hread : x.readSlot (source + done) w = .ok v :=
      (Workspace.readSlot_of_unlocked h.unlocked_first _).trans hv
    refine .bind (.reading (P := fun a w₁ => v = a ∧ w = w₁) hread ⟨rfl, rfl⟩) ?_
    rintro _ _ ⟨rfl, rfl⟩
    obtain ⟨w₁, hwrite⟩ := Workspace.exists_writeSlot h.unlocked_second
      (show target + done < w.slotCount z.storage by omega)
      (hkind.trans (congrArg ElementType.slotKind h.elementType_eq.symm))
    obtain ⟨hagrees, hcontent⟩ := Workspace.agreesOff_writeSlot hwrite
    refine .bind (.changing (P := fun _ w₂ => w₁ = w₂) hwrite rfl) ?_
    rintro _ _ rfl
    refine (ih (h.of_agreesOff hagrees) (by rw [hagrees.slotCount_eq]; omega)
      (by rw [hagrees.slotCount_eq]; omega)).mono fun _ w' ⟨hrest, hcopied⟩ => ⟨?_, ?_⟩
    · refine (hagrees.mono fun id index ⟨hid, hindex⟩ => ⟨hid, by omega, by omega⟩).trans ?_
      exact hrest.mono fun id index ⟨hid, hlow, hhigh⟩ => ⟨hid, by omega, by omega⟩
    · intro i hlow hhigh
      rcases Nat.eq_or_lt_of_le hlow with rfl | hlater
      · -- the slot just written is not written again
        rw [hrest.content_eq _ _ fun hslot => by omega, hcontent, hv]
      · rw [hcopied i hlater (by omega)]
        exact hagrees.content_eq _ _ fun hslot => h.storage_ne hslot.1

/-! ## All items -/

/-- **What holds after `k` items were copied**: their slots have the values that they were copied
from, and every other storage is as it was. -/
structure Copied (x z : View) (shape : Shape) (w : Workspace) (k : Nat) (w' : Workspace) :
    Prop where
  /-- The items so far are copied. -/
  copied : ∀ j < k, ∀ i < x.layout.itemSlots,
    w'.content z.storage (z.sourceSlot (shape.unravel j) + i)
      = w.content x.storage (x.sourceSlot (shape.unravel j) + i)
  /-- Every other storage is as it was. -/
  others : w.AgreesOff w' fun id _ => id = z.storage

/-- **An array and a new one** that takes its items, repeated to a shape. -/
structure Copying (x z : View) (shape : Shape) (w : Workspace) : Prop where
  /-- The array repeated is in bounds. -/
  source : x.InBounds w
  /-- The new array is in bounds. -/
  target : z.InBounds w
  /-- The arrays are apart. -/
  apart : x.Apart z w
  /-- The array repeated stretches to the shape. -/
  stretches : x.shape.StretchesTo shape
  /-- The new array has the shape. -/
  shape_eq : z.shape = shape
  /-- The items of the new array follow each other. -/
  rowMajor : ∀ k < shape.count, z.sourceSlot (shape.unravel k) = x.layout.itemSlots * k

namespace Copying

variable {shape : Shape} {k : Nat}

/-- **One item**: its run is copied, and the runs copied before stay. -/
theorem copyRun_copied (hc : x.Copying z shape w) (h : Copied x z shape w k w')
    (hk : k < shape.count) :
    Action.Achieves w'
      (copyRun x z (x.sourceSlot (shape.unravel k)) (z.sourceSlot (shape.unravel k)) 0
        x.layout.itemSlots)
      fun _ w'' => Copied x z shape w (k + 1) w'' := by
  have hp := Shape.contains_unravel hk
  have hsource := hc.source.sourceSlot_add_le hc.stretches hp
  have htarget := hc.target.sourceSlot_add_le
    (show z.shape.StretchesTo shape from hc.shape_eq ▸ .refl z.shape) hp
  rw [hc.target.itemSlots_eq, hc.apart.elementType_eq, ← hc.source.itemSlots_eq] at htarget
  refine (copyRun_achieves (hc.apart.of_agreesOff h.others)
    (by rwa [h.others.slotCount_eq]) (by rwa [h.others.slotCount_eq])).mono ?_
  rintro _ w'' ⟨hagrees, hrun⟩
  refine ⟨fun j hj i hi => ?_, h.others.trans (hagrees.mono fun _ _ hslot => hslot.1)⟩
  rcases Nat.lt_succ_iff_lt_or_eq.mp hj with hj | rfl
  · rw [← h.copied j hj i hi]
    refine hagrees.content_eq _ _ fun ⟨_, hlow, _⟩ => ?_
    -- the runs of different items do not meet
    rw [hc.rowMajor j (Nat.lt_trans hj hk), hc.rowMajor k hk] at hlow
    have hnext : x.layout.itemSlots * (j + 1) ≤ x.layout.itemSlots * k :=
      Nat.mul_le_mul_left _ hj
    rw [Nat.mul_succ] at hnext
    omega
  · rw [hrun i (Nat.zero_le i) (by omega)]
    exact h.others.content_eq _ _ hc.apart.storage_ne

/-- **All items**, one after the other. -/
theorem copyWithin_copied {o : Odometer} {m : Nat} (hc : x.Copying z o.shape w)
    (ho : o.Tracks x.layout z.layout .none) (hsound : o.Sound)
    (h : Copied x z o.shape w k w') (hk : k + m = o.len) :
    Action.Achieves w' (copyWithin x z x.layout.itemSlots (m + 1) (o.after k))
      fun _ w'' => Copied x z o.shape w o.len w'' := by
  induction m generalizing k w' with
  | zero =>
    obtain rfl : k = o.len := hk
    rcases o.step_trap_or_after hsound o.len with ⟨e, htrap⟩ | hstep
    · exact .lift_trap htrap
    · refine .lift_bind (o.after o.len).accepted_step fun stepped hstepped => ?_
      obtain rfl := Except.ok.inj (hstep.symm.trans hstepped)
      rw [decide_eq_false (Nat.not_succ_le_self o.len)]
      exact .pure h
  | succ m ih =>
    have hlt : k < o.len := by omega
    rcases o.step_trap_or_after hsound k with ⟨e, htrap⟩ | hstep
    · exact .lift_trap htrap
    · refine .lift_bind (o.after k).accepted_step fun stepped hstepped => ?_
      obtain rfl := Except.ok.inj (hstep.symm.trans hstepped)
      have hitem := hc.copyRun_copied h (ho.len ▸ hlt)
      rw [← hc.source.first_slot ho hlt, ← hc.target.second_slot ho hlt] at hitem
      rw [decide_eq_true (Nat.succ_le_of_lt hlt)]
      exact hitem.bind fun _ w'' hnext => ih hnext (by omega)

end Copying

/-- A new array of the type of another one is apart from it. -/
theorem Fresh.apart (hz : z.Fresh t (x.elementType w) w w') (hx : x.storage < w.cells.length)
    (hunlocked : (w.cell x.storage).locked = false) : x.Apart z w' where
  storage_ne := by
    rw [hz.storage_eq]
    exact Nat.ne_of_lt hx
  elementType_eq := by
    rw [hz.elementType_eq, elementType, elementType, hz.preserves.type_eq _ hx]
  unlocked_first := by
    rw [hz.cell_of_lt hx]
    exact hunlocked
  unlocked_second := hz.unlocked

/-- **A new array takes the items** of an array that stretches to its shape. -/
theorem Fresh.copying (hz : z.Fresh t (x.elementType w) w w') (hx : x.InBounds w)
    (hunlocked : (w.cell x.storage).locked = false) (ht : x.shape.StretchesTo t) :
    x.Copying z t w' where
  source := hx.of_extends hz.keeps
  target := hz.inBounds
  apart := hz.apart hx.inUse hunlocked
  stretches := ht
  shape_eq := hz.shape_eq
  rowMajor k hk := by rw [hz.sourceSlot_unravel hk, hx.itemSlots_eq]

/-- **The items are copied.** -/
theorem Copying.copyTo_achieves (hc : x.Copying z t w) :
    Action.Achieves w (copyTo x z t) fun _ w' => Copied x z t w t.count w' := by
  have hstart : Copied x z t w 0 w :=
    ⟨fun j hj => absurd hj (Nat.not_lt_zero j), .refl w _⟩
  unfold copyTo
  by_cases hrank : t = []
  · subst hrank
    have hx : x.shape = [] :=
      List.length_eq_zero_iff.mp (Nat.le_zero.mp hc.stretches.length_le)
    have hsource : x.sourceSlot [] = x.layout.offset := by
      rw [sourceSlot, hx]
      exact congrArg Int.toNat (Int.add_zero _)
    have htarget : z.sourceSlot [] = 0 := hc.rowMajor 0 Nat.zero_lt_one
    -- the only item is the only position of rank 0
    have hitem := hc.copyRun_copied hstart Nat.zero_lt_one
    rw [Shape.unravel, hsource, htarget] at hitem
    rwa [if_pos rfl]
  · have hshape : Shape.broadcast [x.shape, z.shape] = .ok t := by
      rw [hc.shape_eq]
      exact Shape.broadcast_target_eq_ok.mpr hc.stretches
    rw [if_neg hrank]
    have hnone : ∀ l : Layout, l ∉ Target.none.layout? x.layout z.layout := fun l =>
      Option.not_mem_none l
    refine .lift_bind (Odometer.accepted_ofLayouts hshape fun l hl => absurd hl (hnone l))
      fun o ho => ?_
    obtain ⟨htracks, hready⟩ := Odometer.tracks_of_ofLayouts ho
    have hgoal : o.shape = t := Except.ok.inj (htracks.shape.symm.trans hshape)
    have hsound :=
      htracks.sound hc.source.length_strides hc.target.length_strides
        fun l hl => absurd hl (hnone l)
    rw [← hgoal] at hc hstart ⊢
    have hall := hc.copyWithin_copied htracks hsound hstart (Nat.zero_add o.len)
    rw [Odometer.after_zero, hready] at hall
    rwa [← htracks.len]

/-! ## Repetitions -/

/-- **An array repeats another one** to a shape: at every position each slot of its item has the
value of that slot of the item that broadcasting reads. -/
structure Repeats (x : View) (w : Workspace) (t : Shape) (y : View) (w' : Workspace) : Prop where
  /-- The array has the shape. -/
  shape_eq : y.shape = t
  /-- The type is the same. -/
  elementType_eq : y.elementType w' = x.elementType w
  /-- An item has as many slots. -/
  itemSlots_eq : y.layout.itemSlots = x.layout.itemSlots
  /-- Slots have the values of those that broadcasting reads. -/
  readSlot_eq : ∀ p, t.Contains p → ∃ i j, y.layout.slotAt p = .ok i
    ∧ x.layout.slotAt (x.shape.sourceOf p) = .ok j
    ∧ ∀ k < x.layout.itemSlots, ∃ v,
        y.readSlot (i + k) w' = .ok v ∧ x.readSlot (j + k) w = .ok v

/-- **An array repeats another one in a storage of its own**, all else being as it was. -/
structure RepeatsAnew (x : View) (w : Workspace) (t : Shape) (y : View) (w' : Workspace) : Prop
    extends Repeats x w t y w' where
  /-- The storage was not in use before. -/
  storage_eq : y.storage = w.cells.length
  /-- The storage has just the slots of the items. -/
  slotCount_eq : w'.slotCount y.storage = t.count * x.layout.itemSlots
  /-- The items lie in row-major order without gaps. -/
  contiguous : y.layout.isContiguous = .ok true
  /-- The other storages are as they were. -/
  others : w.Preserves w'

/-- A slot of an item in bounds has a value. -/
theorem InBounds.exists_readSlot {p : List Nat} {k : Nat} (hx : x.InBounds w)
    (hunlocked : (w.cell x.storage).locked = false) (hp : x.shape.Contains p)
    (hk : k < x.layout.itemSlots) :
    ∃ v, x.readSlot ((x.layout.address p).toNat + k) w = .ok v := by
  obtain ⟨v, hv, -⟩ := Workspace.content_of_lt (hx.slot_lt hp hk)
  exact ⟨v, (Workspace.readSlot_of_unlocked hunlocked _).trans hv⟩

/-- **A view repeats the array** that it is a view of. -/
theorem InBounds.repeats_of_stretch {v : View} (hx : x.InBounds w)
    (hunlocked : (w.cell x.storage).locked = false) (h : x.stretch t = .ok v) :
    v.storage = x.storage ∧ x.Repeats w t v w := by
  have hbounds := hx.stretch h
  obtain ⟨r, hr, h⟩ := Outcome.bind_eq_ok.mp h
  obtain ⟨l, hl, h⟩ := Outcome.bind_eq_ok.mp h
  obtain rfl := Except.ok.inj h
  obtain ⟨hviews, hshape⟩ := Layout.views_of_stretch hx.grounded hr hl
  refine ⟨rfl, hshape, rfl, hviews.itemSlots_eq, fun p hp => ?_⟩
  have hpl : l.shape.Contains p := hshape ▸ hp
  have hsource := hviews.contains p hpl
  refine ⟨_, _, hbounds.slotAt_eq hpl, hx.slotAt_eq hsource, fun k hk => ?_⟩
  obtain ⟨v, hv⟩ := hx.exists_readSlot hunlocked hsource hk
  refine ⟨v, ?_, hv⟩
  show x.readSlot ((l.address p).toNat + k) w = .ok v
  rw [hviews.address_eq p hpl]
  exact hv

/-- **A copy repeats the array** that its items were copied from. -/
theorem Fresh.repeatsAnew {w₁ : Workspace} (hz : z.Fresh t (x.elementType w) w w₁)
    (hx : x.InBounds w) (hunlocked : (w.cell x.storage).locked = false)
    (ht : x.shape.StretchesTo t) (h : Copied x z t w₁ t.count w') : x.RepeatsAnew w t z w' := by
  have hbounds := hz.inBounds.of_extends h.others.extends
  have htype : z.elementType w' = x.elementType w :=
    (h.others.type_eq z.storage).trans hz.elementType_eq
  have hitem : z.layout.itemSlots = x.layout.itemSlots := by
    rw [hbounds.itemSlots_eq, htype, hx.itemSlots_eq]
  refine
    { shape_eq := hz.shape_eq
      elementType_eq := htype
      itemSlots_eq := hitem
      readSlot_eq := fun p hp => ?_
      storage_eq := hz.storage_eq
      slotCount_eq := by rw [h.others.slotCount_eq, hz.slotCount_eq, hx.itemSlots_eq]
      contiguous := hz.contiguous
      others := hz.preserves.agreesOff h.others fun id _ hslot => by rw [hslot, hz.storage_eq] }
  have hpz : z.shape.Contains p := hz.shape_eq.symm ▸ hp
  have hsource := Shape.contains_sourceOf ht hp
  refine ⟨_, _, hbounds.slotAt_eq hpz, hx.slotAt_eq hsource, fun k hk => ?_⟩
  -- both sides are the value that the array had before the copy was made
  obtain ⟨v, hv⟩ := hx.exists_readSlot hunlocked hsource hk
  refine ⟨v, ?_, hv⟩
  have hcopied := h.copied (t.ravel p) (Shape.ravel_lt hp) k hk
  rw [Shape.unravel_ravel hp, hz.preserves.content_eq _ hx.inUse, sourceSlot,
    Shape.sourceOf_self hpz] at hcopied
  have hunlocked' : (w'.cell z.storage).locked = false :=
    (h.others.locked_eq z.storage).trans hz.unlocked
  rw [readSlot, Workspace.readSlot_of_unlocked hunlocked', hcopied,
    ← Workspace.readSlot_of_unlocked hunlocked]
  exact hv

/-- **A copy is made** of an array in bounds, repeated to a shape that it stretches to, unless
arithmetic traps, if the number of its bytes is an unsigned word. -/
theorem InBounds.repeatTo_achieves (hx : x.InBounds w)
    (hunlocked : (w.cell x.storage).locked = false) (ht : x.shape.StretchesTo t)
    (hroom : Word.IsUnsigned (t.count * x.layout.itemSlots * (x.elementType w).slotBytes)) :
    Action.Achieves w (x.repeatTo t) fun y w' => x.RepeatsAnew w t y w' := by
  rw [hx.itemSlots_eq] at hroom
  rw [repeatTo_eq]
  refine .lift_bind (accepted_repeatedShape ht) fun goal hgoal => ?_
  obtain ⟨rfl, -⟩ := repeatedShape_eq_ok ht.length_le hgoal
  refine .get_bind ?_
  refine (zerosOfType_achieves hroom).bind fun z w₁ hz => ?_
  refine (hz.copying hx hunlocked ht).copyTo_achieves.bind fun _ w' hcopied => ?_
  exact .pure (hz.repeatsAnew hx hunlocked ht hcopied)

/-- **A view is made** of an array in bounds, repeated to a shape that it stretches to, unless
arithmetic traps. -/
theorem InBounds.accepted_stretch (hx : x.InBounds w) (ht : x.shape.StretchesTo t) :
    (x.stretch t).Accepted := by
  refine (Route.accepted_ofLayout ht).bind fun r hr => ?_
  have hleads := Route.leads_of_ofLayout hx.length_strides hr
  have hlength : t.length = r.strides.length := hleads.fits.length_strides.symm
  have hitem := hx.grounded.itemSlots_pos
  refine (Layout.accepted_ofStrides hlength (by omega) fun hpos low hlow => ?_).bind
    fun _ _ => Outcome.refusedOnly_pure _
  have haddress : ∀ p, t.Contains p → (x.layout.offset : Int) + Layout.displacement p r.strides
      = x.layout.address (x.shape.sourceOf p) := by
    intro p hp
    have haddress := hleads.address_eq hp
    rwa [Route.address, hleads.start_eq] at haddress
  have hmemory : Layout.InMemory t r.strides x.layout.offset := by
    intro p hp
    rw [haddress p hp]
    exact hx.inMemory _ (Shape.contains_sourceOf ht hp)
  -- the lowest slot is that of an item
  obtain ⟨p, hp, hlowest⟩ := Layout.exists_displacement_eq_leastShift r.strides hpos
  have hsource := Shape.contains_sourceOf ht hp
  rw [Layout.lowest_eq_ok (Layout.steadyAxes_of_inMemory hlength.symm hpos hmemory) hlow,
    Word.toSigned_of_lt (hx.grounded.offset_lt (Shape.count_pos_of_contains hsource)), ← hlowest,
    haddress p hp]
  exact hx.nonneg _ hsource

/-- **The two ways to repeat an array agree**: unless arithmetic traps, a view is made for exactly
those targets that the shape broadcasts to, and a copy for those of them for which the number of
its bytes is an unsigned word. Either one repeats the array, the view in the storage of the array
and the copy in a storage of its own. -/
theorem repetitions_agree (hx : x.InBounds w) (hunlocked : (w.cell x.storage).locked = false)
    (hrank : x.shape.length ≤ t.length) :
    ((∀ e, x.stretch t ≠ trap e) →
        ((∃ v, x.stretch t = .ok v) ↔ Shape.broadcast [x.shape, t] = .ok t))
      ∧ ((∀ e w', x.repeatTo t w ≠ .error (.trapped e) w') →
        ((∃ y w', x.repeatTo t w = .ok y w') ↔ Shape.broadcast [x.shape, t] = .ok t
          ∧ Word.IsUnsigned (t.count * x.layout.itemSlots * (x.elementType w).slotBytes)))
      ∧ (∀ v, x.stretch t = .ok v → v.storage = x.storage ∧ x.Repeats w t v w)
      ∧ ∀ y w', x.repeatTo t w = .ok y w' → x.RepeatsAnew w t y w' := by
  have hcopy : ∀ y w', x.repeatTo t w = .ok y w' → x.shape.StretchesTo t
      ∧ Word.IsUnsigned (t.count * x.layout.itemSlots * (x.elementType w).slotBytes) := by
    intro y w' h
    obtain ⟨goal, w₁, hgoal, hzeros, -⟩ := repeatTo_eq_ok.mp h
    obtain ⟨rfl, ht⟩ := repeatedShape_eq_ok hrank hgoal
    rw [hx.itemSlots_eq]
    exact ⟨ht, Nat.lt_trans (fresh_of_zerosOfType hzeros).addressable (by decide)⟩
  rw [Shape.broadcast_target_eq_ok]
  refine ⟨fun htrap => ⟨fun ⟨v, hv⟩ => ?_, fun ht => (hx.accepted_stretch ht).exists_ok htrap⟩,
    fun htrap => ⟨fun ⟨y, w', h⟩ => hcopy y w' h, fun ⟨ht, hroom⟩ => ?_⟩,
    fun v hv => hx.repeats_of_stretch hunlocked hv, fun y w' h => ?_⟩
  · obtain ⟨r, hr, -⟩ := Outcome.bind_eq_ok.mp hv
    exact (Route.leads_of_ofLayout hx.length_strides hr).stretches
  · obtain ⟨y, w', h, -⟩ := (hx.repeatTo_achieves hunlocked ht hroom).exists_ok htrap
    exact ⟨y, w', h⟩
  · obtain ⟨ht, hroom⟩ := hcopy y w' h
    exact (hx.repeatTo_achieves hunlocked ht hroom).post h

/-- A row of complex numbers, run through backwards and repeated to two rows. -/
theorem repetitions_agree_complex : ∃ (x v y : View) (w w' : Workspace),
    x.layout = ⟨[1, 3], [6, -2], 4, 2⟩ ∧ x.InBounds w
      ∧ x.stretch [2, 3] = .ok v ∧ v.layout = ⟨[2, 3], [0, -2], 4, 2⟩ ∧ x.Repeats w [2, 3] v w
      ∧ x.repeatTo [2, 3] w = .ok y w' ∧ y.layout = ⟨[2, 3], [6, 2], 0, 2⟩
      ∧ x.RepeatsAnew w [2, 3] y w' := by
  let item (k : Nat) : List UInt8 := (List.range' (8 * k) 8).map .ofNat
  let w := Workspace.initial.add ⟨.complex64, item 0 ++ item 1 ++ item 2⟩
  let w' := w.add ⟨.complex64, item 2 ++ item 1 ++ item 0 ++ item 2 ++ item 1 ++ item 0⟩
  let x : View := ⟨0, ⟨[1, 3], [6, -2], 4, 2⟩⟩
  let v : View := ⟨0, ⟨[2, 3], [0, -2], 4, 2⟩⟩
  let y : View := ⟨1, ⟨[2, 3], [6, 2], 0, 2⟩⟩
  have hmade : ofStorage ⟨.complex64, item 0 ++ item 1 ++ item 2⟩ ⟨[1, 3], [6, 2], 0, 2⟩ .initial
      = .ok ⟨0, ⟨[1, 3], [6, 2], 0, 2⟩⟩ w := by decide +kernel
  have hrow : Layout.ofShape [1, 3] ElementType.complex64.itemSlots
      = .ok ⟨[1, 3], [6, 2], 0, 2⟩ := rfl
  have hflip : View.apply (.flip 1) ⟨0, ⟨[1, 3], [6, 2], 0, 2⟩⟩ = .ok x := rfl
  have hx : x.InBounds w :=
    (inBounds_of_rowMajor hrow (by decide) (by decide) hmade).apply hflip
  have hview : x.stretch [2, 3] = .ok v := by decide +kernel
  have hcopy : x.repeatTo [2, 3] w = .ok y w' := by decide +kernel
  obtain ⟨-, -, hstretch, hrepeat⟩ := repetitions_agree (t := [2, 3]) hx rfl (by decide)
  exact ⟨x, v, y, w, w', rfl, hx, hview, rfl, (hstretch v hview).2, hcopy, rfl, hrepeat y w' hcopy⟩

/-- **A view can have more items than a copy has room for**: a single item repeated to `2 ^ 62`
places. -/
theorem stretch_without_room : ∃ (x : View) (w : Workspace),
    x.InBounds w ∧ (w.cell x.storage).locked = false ∧ x.shape = [1]
      ∧ Shape.broadcast [x.shape, [2 ^ 62]] = .ok [2 ^ 62]
      ∧ (∃ v, x.stretch [2 ^ 62] = .ok v)
      ∧ x.repeatTo [2 ^ 62] w = .error (.refused (.invalidArgument .storageSize)) w := by
  let w := Workspace.initial.add ⟨.float64, List.replicate 8 0⟩
  let x : View := ⟨0, ⟨[1], [1], 0, 1⟩⟩
  have hmade : zerosOfType [1] .float64 .initial = .ok x w := by decide +kernel
  refine ⟨x, w, inBounds_of_zerosOfType hmade, rfl, rfl, ?_, ⟨⟨0, ⟨[2 ^ 62], [0], 0, 1⟩⟩, ?_⟩, ?_⟩
  all_goals decide +kernel

end View

end StridedArray
