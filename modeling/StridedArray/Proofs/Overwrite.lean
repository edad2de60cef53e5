import StridedArray.Proofs.Cursor

/-!
# Writing over what is still being read

An operation writes its output while it is still reading its operands,
which may lie in the same storage. Whether a value is read before or after
its slot is written to is a matter of ranks. An operand is read at the first
of the positions in a row at which it shows the same slot
(`View.readRank`), and by then the output has been written at all positions
before that one. If one of these has the slot, the output has **overtaken**
the operand (`View.Overtakes`), and the value at hand is a result, which the
slot still holds in the end. Otherwise it is the value from the start
(`View.AtHand`).

`Fill.Underway` is what holds of an operation after each position, whatever
it writes and wherever. `Fill.Progress` adds what has been stored, if
distinct positions of the output have distinct slots. Each has its step
lemma, `Fill.Underway.step` and `Fill.Progress.step`, and
`Fill.run_achieves` goes through all positions.
-/

namespace StridedArray

/-! ## Steps that read -/

/-- **A value can be had** if it can be read. -/
theorem Kept.exists_refresh {kept : Kept} {read : Nat → Outcome Double} {slot : Nat}
    {value : Double} (hread : read slot = .ok value) :
    ∃ v, kept.refresh read slot = .ok ⟨v, some slot⟩ := by
  by_cases hslot : kept.slot = some slot
  · exact ⟨kept.value, refresh_eq_ok.mpr (.inl ⟨hslot, by rw [← hslot]⟩)⟩
  · exact ⟨value, refresh_eq_ok.mpr (.inr ⟨hslot, value, hread, rfl⟩)⟩

namespace Cursor

variable {c : Cursor} {o : Odometer} {k : Nat} {readFirst readSecond : Nat → Outcome Double}

/-- **A step to a position** at which both values are at hand. -/
theorem step_of_refresh {first second : Kept} (ho : o.Sound) (hc : c.odometer = o.after k)
    (hk : k < o.len)
    (hfirst : c.first.refresh readFirst (o.after (k + 1)).slots.first = .ok first)
    (hsecond : c.second.refresh readSecond (o.after (k + 1)).slots.second = .ok second) :
    (∃ t, (c.step readFirst readSecond).outcome = trap t)
      ∨ (c.step readFirst readSecond).outcome = .ok true
        ∧ (c.step readFirst readSecond).cursor = ⟨o.after (k + 1), first, second⟩ := by
  unfold step
  rw [hc]
  rcases o.step_trap_or_after ho k with ⟨t, htrap⟩ | hstep
  · rw [htrap]
    exact .inl ⟨t, rfl⟩
  · rw [hstep, decide_eq_true (Nat.succ_le_of_lt hk)]
    change c.first.refresh readFirst (o.after (k + 1)).first.slot = _ at hfirst
    change c.second.refresh readSecond (o.after (k + 1)).second.slot = _ at hsecond
    simp only [load, hfirst, hsecond, if_true]
    exact .inr ⟨trivial, trivial⟩

/-- **The step to the end.** -/
theorem step_at_end (ho : o.Sound) (hc : c.odometer = o.after o.len) :
    (∃ t, (c.step readFirst readSecond).outcome = trap t)
      ∨ (c.step readFirst readSecond).outcome = .ok false := by
  unfold step
  rw [hc]
  rcases o.step_trap_or_after ho o.len with ⟨t, htrap⟩ | hstep
  · rw [htrap]
    exact .inl ⟨t, rfl⟩
  · rw [hstep, decide_eq_false (Nat.not_succ_le_self _)]
    exact .inr rfl

end Cursor

/-! ## Traversals of arrays -/

namespace Traversal

/-- A traversal of arrays exists if the output has the broadcast shape, unless arithmetic traps. -/
theorem accepted_ofViews {x y out : View}
    (hshape : Shape.broadcast [x.shape, y.shape] = .ok out.shape) :
    (ofViews x y (some out)).Accepted := by
  refine (Odometer.accepted_ofLayouts hshape fun l hl => ?_).bind
    fun _ _ => Outcome.refusedOnly_pure _
  -- an output that is an operand has its layout, so it makes no difference
  obtain rfl := Option.some.inj ((Target.layout?_ofView x y (some out)).symm.trans hl)
  rfl

/-- **A new traversal of arrays** has an odometer that is ready. -/
theorem tracks_of_ofViews {x y : View} {output : Option View} {t : Traversal}
    (h : ofViews x y output = .ok t) :
    ∃ o, t = { cursor := .ofOdometer o, first := x, second := y, output }
      ∧ o.Tracks x.layout y.layout (.ofView x y output) ∧ o.Sound ∧ o = o.after 0 := by
  obtain ⟨o, ho, h⟩ := Outcome.bind_eq_ok.mp h
  obtain rfl := Except.ok.inj h
  obtain ⟨htracks, hready⟩ := Odometer.tracks_of_ofLayouts ho
  exact ⟨o, rfl, htracks, htracks.sound_of_any, by rw [Odometer.after_zero, hready]⟩

end Traversal

/-! ## Operands and outputs -/

namespace View

/-- **An array that takes part in arithmetic**: in bounds, unlocked and real. -/
structure Operand (x : View) (w : Workspace) : Prop where
  /-- Every slot of every item lies in the storage. -/
  inBounds : x.InBounds w
  /-- The storage is not locked. -/
  unlocked : (w.cell x.storage).locked = false
  /-- Items are not complex. -/
  real : (x.elementType w).isComplex = false

/-- A slot at which an item of the array starts. -/
def Addresses (x : View) (id index : Nat) : Prop :=
  id = x.storage ∧ ∃ p, x.shape.Contains p ∧ index = (x.layout.address p).toNat

/-- **Distinct positions have distinct slots.** -/
def Injective (x : View) : Prop :=
  ∀ p q, x.shape.Contains p → x.shape.Contains q → x.layout.address p = x.layout.address q → p = q

/-- An item in bounds is the value of its slot. -/
theorem InBounds.itemAt_eq {x : View} {w : Workspace} {p : List Nat} (h : x.InBounds w)
    (hp : x.shape.Contains p) :
    x.itemAt p w = w.readDouble x.storage (x.layout.address p).toNat := by
  unfold itemAt
  rw [h.slotAt_eq hp]
  rfl

/-- An operand is still one after slots were written to. -/
theorem Operand.of_agreesOff {x : View} {w w' : Workspace} {S : Nat → Nat → Prop}
    (h : x.Operand w) (hw : w.AgreesOff w' S) : x.Operand w' where
  inBounds := h.inBounds.of_extends hw.extends
  unlocked := (hw.locked_eq x.storage).trans h.unlocked
  real := (congrArg ElementType.isComplex (hw.type_eq x.storage)).trans h.real

/-- An operand has a value everywhere. -/
theorem Operand.exists_readDouble {x : View} {w : Workspace} {index : Nat} (h : x.Operand w)
    (hindex : index < w.slotCount x.storage) : ∃ v, w.readDouble x.storage index = .ok v := by
  obtain ⟨v, hv, -⟩ := Workspace.content_of_lt hindex
  exact ⟨_, Workspace.readDouble_of_content h.unlocked hv⟩

/-! ## Values at hand -/

variable {a out : View} {r : Shape} {k : Nat}

/-- **The rank of the position at which an operand was read** whose value is at hand at the position
of rank `k`: the first one of the positions in a row up to there that show the same slot. -/
def readRank (a : View) (r : Shape) : Nat → Nat
  | 0 => 0
  | k + 1 =>
    if a.sourceSlot (r.unravel k) = a.sourceSlot (r.unravel (k + 1)) then a.readRank r k else k + 1

theorem readRank_le (a : View) (r : Shape) (k : Nat) : a.readRank r k ≤ k := by
  induction k with
  | zero => exact Nat.le_refl 0
  | succ k ih =>
    rw [readRank]
    split
    · exact Nat.le_succ_of_le ih
    · exact Nat.le_refl _

/-- **The output has overtaken an operand** at a position: it has been written at the slot of the
operand before the operand was read there. -/
def Overtakes (out a : View) (p : List Nat) : Prop :=
  out.storage = a.storage ∧ ∃ q, out.shape.Contains q
    ∧ out.shape.ravel q < a.readRank out.shape (out.shape.ravel p)
    ∧ (out.layout.address q).toNat = a.sourceSlot p

/-- Overtaking in terms of ranks. -/
theorem overtakes_unravel (hr : out.shape = r) (hk : k < r.count) :
    out.Overtakes a (r.unravel k) ↔ out.storage = a.storage ∧ ∃ j < a.readRank r k,
      (out.layout.address (r.unravel j)).toNat = a.sourceSlot (r.unravel k) := by
  subst hr
  unfold Overtakes
  rw [Shape.ravel_unravel hk]
  refine and_congr_right fun _ => ⟨?_, ?_⟩
  · rintro ⟨q, hq, hbefore, hslot⟩
    exact ⟨out.shape.ravel q, hbefore, by rwa [Shape.unravel_ravel hq]⟩
  · rintro ⟨j, hj, hslot⟩
    have hjcount : j < out.shape.count :=
      Nat.lt_of_lt_of_le hj (Nat.le_trans (a.readRank_le _ k) (Nat.le_of_lt hk))
    exact ⟨_, Shape.contains_unravel hjcount, by rwa [Shape.ravel_unravel hjcount], hslot⟩

/-- **The value of an operand at hand at a position** of an operation: the one that the item had at
the start, or has in the end if the output has overtaken the operand. -/
structure AtHand (a out : View) (w w' : Workspace) (p : List Nat) (value : Double) : Prop where
  /-- An operand not overtaken is read as it was. -/
  before : ¬out.Overtakes a p → a.itemAt (a.shape.sourceOf p) w = .ok value
  /-- An operand overtaken is read as it has become. -/
  after : out.Overtakes a p → a.itemAt (a.shape.sourceOf p) w' = .ok value

/-- **The output holds the result of the operation on the values at hand** at a position. -/
def StoredFrom (op : Double → Double → Double) (x y out : View) (w w' : Workspace)
    (p : List Nat) : Prop :=
  ∃ l r, AtHand x out w w' p l ∧ AtHand y out w w' p r
    ∧ w'.content out.storage (out.layout.address p).toNat
      = .ok (.ofDouble (out.elementType w').slotKind (op l r))

/-- **What an operation leaves behind** whose output may overtake its operands: the results on the
values at hand, and every slot that the output does not address as it was. -/
def ComputesFrom (op : Double → Double → Double) (x y out : View) (w w' : Workspace) : Prop :=
  (∀ p, out.shape.Contains p → StoredFrom op x y out w w' p) ∧ w.AgreesOff w' out.Addresses

end View

/-! ## One position after the other -/

namespace Fill

open View

variable {op : Double → Double → Double} {x y out a : View} {w w' w'' : Workspace} {o : Odometer}
  {k : Nat} {t : Traversal} {l r value : Double}

/-- **The traversal that an operation makes.** -/
structure Ready (x y out : View) (w : Workspace) (o : Odometer) : Prop where
  /-- The first operand. -/
  first : x.Operand w
  /-- The second operand. -/
  second : y.Operand w
  /-- The output. -/
  output : out.Operand w
  /-- The odometer keeps track of the layouts. -/
  tracks : o.Tracks x.layout y.layout (.ofView x y (some out))
  /-- The parts of the odometer fit together. -/
  sound : o.Sound
  /-- The output has the shape of the traversal. -/
  shape_eq : out.shape = o.shape

/-- The slots of the output at the first `k` positions. -/
def Written (out : View) (o : Odometer) (k id index : Nat) : Prop :=
  id = out.storage ∧ ∃ j < k, index = (out.layout.address (o.shape.unravel j)).toNat

/-- **What holds after `k` positions**, whatever has been stored: the traversal has got there, and
nothing has changed but slots of the output at these positions. -/
structure Underway (x y out : View) (w : Workspace) (o : Odometer) (k : Nat) (t : Traversal)
    (w' : Workspace) : Prop where
  /-- The first operand is the one given. -/
  first : t.first = x
  /-- The second operand is the one given. -/
  second : t.second = y
  /-- The output is the one given. -/
  output : t.output = some out
  /-- The odometer has taken `k` steps. -/
  odometer : t.cursor.odometer = o.after k
  /-- Every other slot is as it was. -/
  others : w.AgreesOff w' (Written out o k)

/-- **What happens at the next position**: values of both operands are at hand, and the result is
written to the slot of the output. -/
structure Taken (op : Double → Double → Double) (x y out : View) (w : Workspace) (o : Odometer)
    (k : Nat) (t : Traversal) (w' : Workspace) (l r : Double) (w'' : Workspace) : Prop where
  /-- The step comes to a position. -/
  outcome : (t.step w').outcome = .ok true
  /-- The values at hand are kept. -/
  cursor : (t.step w').cursor = ⟨o.after (k + 1), ⟨l, some (x.sourceSlot (o.shape.unravel k))⟩,
    ⟨r, some (y.sourceSlot (o.shape.unravel k))⟩⟩
  /-- The value of the first operand is at hand. -/
  first : t.cursor.first.refresh (x.readDouble · w') (x.sourceSlot (o.shape.unravel k))
    = .ok ⟨l, some (x.sourceSlot (o.shape.unravel k))⟩
  /-- The value of the second operand is at hand. -/
  second : t.cursor.second.refresh (y.readDouble · w') (y.sourceSlot (o.shape.unravel k))
    = .ok ⟨r, some (y.sourceSlot (o.shape.unravel k))⟩
  /-- The result is stored. -/
  store : (t.after (t.step w')).store
    (op (t.after (t.step w')).firstValue (t.after (t.step w')).secondValue) w' = .ok () w''
  /-- The slot of the output holds the result. -/
  content_eq : w''.content out.storage (out.layout.address (o.shape.unravel k)).toNat
    = .ok (.ofDouble (out.elementType w'').slotKind (op l r))
  /-- No other slot has changed. -/
  changed : w'.AgreesOff w'' fun id index =>
    id = out.storage ∧ index = (out.layout.address (o.shape.unravel k)).toNat
  /-- The traversal has got one position further. -/
  underway : Underway x y out w o (k + 1) (t.after (t.step w')) w''

/-- A value of an operand can be had at the next position. -/
theorem Underway.exists_refresh {kept : Kept} (h : Underway x y out w o k t w')
    (hlen : o.len = o.shape.count) (ha : a.Operand w) (hstretch : a.shape.StretchesTo o.shape)
    (hk : k < o.len) :
    ∃ v, kept.refresh (a.readDouble · w') (a.sourceSlot (o.shape.unravel k))
      = .ok ⟨v, some (a.sourceSlot (o.shape.unravel k))⟩ := by
  have hp := Shape.contains_unravel (hlen ▸ hk)
  have ha' := ha.of_agreesOff h.others
  obtain ⟨v, hv⟩ := ha'.exists_readDouble (ha'.inBounds.sourceSlot_lt hstretch hp)
  exact Kept.exists_refresh hv

/-- **The next position is taken**, unless arithmetic traps: neither a read nor the store can be
refused. -/
theorem Underway.step (op : Double → Double → Double) (ho : Ready x y out w o)
    (h : Underway x y out w o k t w') (hk : k < o.len) :
    (∃ e, (t.step w').outcome = trap e) ∨ ∃ l r w'', Taken op x y out w o k t w' l r w'' := by
  obtain ⟨l, hl⟩ := h.exists_refresh ho.tracks.len ho.first ho.tracks.first_stretches hk
  obtain ⟨r, hr⟩ := h.exists_refresh ho.tracks.len ho.second ho.tracks.second_stretches hk
  have hfirst : t.cursor.first.refresh (t.first.readDouble · w') (o.after (k + 1)).slots.first
      = .ok ⟨l, some (x.sourceSlot (o.shape.unravel k))⟩ := by
    rw [ho.first.inBounds.first_slot ho.tracks hk, h.first]
    exact hl
  have hsecond : t.cursor.second.refresh (t.second.readDouble · w') (o.after (k + 1)).slots.second
      = .ok ⟨r, some (y.sourceSlot (o.shape.unravel k))⟩ := by
    rw [ho.second.inBounds.second_slot ho.tracks hk, h.second]
    exact hr
  refine (Cursor.step_of_refresh ho.sound h.odometer hk hfirst hsecond).imp_right ?_
  rintro ⟨houtcome, hcursor⟩
  have hcursor : (t.step w').cursor = _ := hcursor
  -- the step has put the index of the output at the position of the result
  have hp : out.shape.Contains (o.shape.unravel k) := by
    rw [ho.shape_eq]
    exact Shape.contains_unravel (ho.tracks.len ▸ hk)
  have hstore : (t.after (t.step w')).store
        (op (t.after (t.step w')).firstValue (t.after (t.step w')).secondValue)
      = out.writeDouble (out.layout.address (o.shape.unravel k)).toNat (op l r) := by
    unfold Traversal.store Traversal.firstValue Traversal.secondValue Traversal.after
    rw [h.output, hcursor, ho.output.inBounds.output_slot ho.tracks hk]
  have hout := ho.output.of_agreesOff h.others
  obtain ⟨w'', hwrite⟩ := Workspace.exists_writeSlot hout.unlocked
    (hout.inBounds.slot_lt_of_contains hp)
    (SlotValue.kind_ofDouble (w'.elementType out.storage).slotKind (op l r))
  obtain ⟨hchanged, hcontent⟩ := Workspace.agreesOff_writeSlot hwrite
  have htype : out.elementType w'' = w'.elementType out.storage := hchanged.type_eq out.storage
  refine ⟨l, r, w'',
    { outcome := houtcome
      cursor := hcursor
      first := hl
      second := hr
      store := ?_
      content_eq := by rw [hcontent, htype]
      changed := hchanged
      underway :=
        { first := h.first
          second := h.second
          output := h.output
          odometer := by rw [Traversal.after, hcursor]
          others := ?_ } }⟩
  · rw [hstore]
    exact Action.changing_eq_ok.mpr (by rwa [Workspace.writeDouble_eq_writeSlot])
  · refine (h.others.mono fun id index ⟨hid, j, hj, hslot⟩ =>
      ⟨hid, j, Nat.lt_succ_of_lt hj, hslot⟩).trans ?_
    exact hchanged.mono fun id index ⟨hid, hslot⟩ => ⟨hid, k, Nat.lt_succ_self k, hslot⟩

/-- **The rule of the loop**: what every position preserves holds in the end, unless a step
traps. -/
theorem run_achieves {I : Nat → Traversal → Workspace → Prop} {m : Nat} (ho : o.Sound)
    (hodometer : ∀ k t w', I k t w' → t.cursor.odometer = o.after k)
    (hstep : ∀ k t w', k < o.len → I k t w' →
      (∃ e, (t.step w').outcome = trap e)
        ∨ (t.step w').outcome = .ok true ∧ Action.Achieves w'
            ((t.after (t.step w')).store
              (op (t.after (t.step w')).firstValue (t.after (t.step w')).secondValue))
            fun _ w'' => I (k + 1) (t.after (t.step w')) w'')
    (h : I k t w') (hk : k + m = o.len) :
    Action.Achieves w' (t.fillWithin op (m + 1)) fun _ w'' => ∃ t', I o.len t' w'' := by
  induction m generalizing k t w' with
  | zero =>
    obtain rfl : k = o.len := hk
    refine .get_bind ?_
    have hend : (∃ e, (t.step w').outcome = trap e) ∨ (t.step w').outcome = .ok false :=
      Cursor.step_at_end ho (hodometer _ _ _ h)
    rcases hend with ⟨e, htrap⟩ | hend
    · exact .lift_trap htrap
    · refine .lift_bind (by rw [hend]; exact Outcome.refusedOnly_ok _) fun moved hmoved => ?_
      obtain rfl := Except.ok.inj (hend.symm.trans hmoved)
      exact .pure ⟨t, h⟩
  | succ m ih =>
    refine .get_bind ?_
    rcases hstep k t w' (by omega) h with ⟨e, htrap⟩ | ⟨houtcome, hstore⟩
    · exact .lift_trap htrap
    · refine .lift_bind (by rw [houtcome]; exact Outcome.refusedOnly_ok _) fun moved hmoved => ?_
      obtain rfl := Except.ok.inj (houtcome.symm.trans hmoved)
      exact hstore.bind fun _ w'' hnext => ih hnext (by omega)

/-- **All positions are taken**, unless arithmetic traps. -/
theorem run_underway (ho : Ready x y out w o) (h : Underway x y out w o 0 t w') :
    Action.Achieves w' (t.fillWithin op (o.len + 1))
      fun _ w'' => ∃ t', Underway x y out w o o.len t' w'' := by
  refine run_achieves ho.sound (fun _ _ _ h => h.odometer) (fun k t w' hk h => ?_) h
    (Nat.zero_add _)
  rcases h.step op ho hk with htrap | ⟨l, r, w'', htaken⟩
  · exact .inl htrap
  · exact .inr ⟨htaken.outcome, .inl ⟨(), w'', htaken.store, htaken.underway⟩⟩

/-! ## What has been stored -/

/-- **What is kept of an operand** after a number of positions: the value that was at hand at the
last of them, with its slot. -/
def Keeps (a out : View) (w : Workspace) (o : Odometer) (w' : Workspace) (kept : Kept) :
    Nat → Prop
  | 0 => kept.slot = none
  | k + 1 => kept.slot = some (a.sourceSlot (o.shape.unravel k))
    ∧ AtHand a out w w' (o.shape.unravel k) kept.value

/-- **What holds after `k` positions** if distinct positions of the output have distinct slots: the
results there are stored, and the values kept were at hand. -/
structure Progress (op : Double → Double → Double) (x y out : View) (w : Workspace) (o : Odometer)
    (k : Nat) (t : Traversal) (w' : Workspace) : Prop extends Underway x y out w o k t w' where
  /-- The value kept of the first operand. -/
  keptFirst : Keeps x out w o w' t.cursor.first k
  /-- The value kept of the second operand. -/
  keptSecond : Keeps y out w o w' t.cursor.second k
  /-- The results so far are stored. -/
  stored : ∀ j < k, StoredFrom op x y out w w' (o.shape.unravel j)

/-- An item that broadcasting reads is the value of its slot. -/
theorem itemAt_sourceOf (ha : a.InBounds w) (hstretch : a.shape.StretchesTo o.shape)
    (hlen : o.len = o.shape.count) (hk : k < o.len) :
    a.itemAt (a.shape.sourceOf (o.shape.unravel k)) w
      = w.readDouble a.storage (a.sourceSlot (o.shape.unravel k)) :=
  ha.itemAt_eq (Shape.contains_sourceOf hstretch (Shape.contains_unravel (hlen ▸ hk)))

/-- The slots of the output at different positions are different. -/
theorem Ready.slot_injective (ho : Ready x y out w o) (hinjective : out.Injective) {i j : Nat}
    (hi : i < o.len) (hj : j < o.len)
    (h : (out.layout.address (o.shape.unravel i)).toNat
      = (out.layout.address (o.shape.unravel j)).toNat) : i = j := by
  have hcontains : ∀ k < o.len, out.shape.Contains (o.shape.unravel k) := by
    intro k hk
    rw [ho.shape_eq]
    exact Shape.contains_unravel (ho.tracks.len ▸ hk)
  have hnonneg := ho.output.inBounds.nonneg _ (hcontains i hi)
  have hnonneg' := ho.output.inBounds.nonneg _ (hcontains j hj)
  have hsame := congrArg o.shape.ravel
    (hinjective _ _ (hcontains i hi) (hcontains j hj) (by omega))
  rwa [Shape.ravel_unravel (ho.tracks.len ▸ hi), Shape.ravel_unravel (ho.tracks.len ▸ hj)] at hsame

/-- **The value had at the next position is at hand**: one read now has been read after all the
positions before, one kept was at hand at the last of them and has the same slot. -/
theorem Underway.atHand {kept : Kept} (h : Underway x y out w o k t w')
    (hshape : out.shape = o.shape) (hlen : o.len = o.shape.count) (ha : a.Operand w)
    (hstretch : a.shape.StretchesTo o.shape) (hk : k < o.len) (hkept : Keeps a out w o w' kept k)
    (hvalue : kept.refresh (a.readDouble · w') (a.sourceSlot (o.shape.unravel k))
      = .ok ⟨value, some (a.sourceSlot (o.shape.unravel k))⟩) :
    AtHand a out w w' (o.shape.unravel k) value := by
  have ha' := (ha.of_agreesOff h.others).inBounds
  have hcount : ∀ j < o.len, j < o.shape.count := fun j hj => hlen ▸ hj
  have hover := overtakes_unravel (a := a) hshape (hcount k hk)
  rcases Kept.refresh_eq_ok.mp hvalue with ⟨hslot, hsame⟩ | ⟨hslot, v, hread, hsame⟩
  · obtain ⟨rfl, -⟩ := Kept.mk.inj hsame
    cases k with
    | zero => exact absurd (hslot.symm.trans hkept) (Option.some_ne_none _)
    | succ k =>
      obtain ⟨hslot', hathand⟩ := hkept
      have hslots : a.sourceSlot (o.shape.unravel k) = a.sourceSlot (o.shape.unravel (k + 1)) :=
        Option.some.inj (hslot'.symm.trans hslot)
      have hk' : k < o.len := Nat.lt_of_succ_lt hk
      have hover' := overtakes_unravel (a := a) hshape (hcount k hk')
      rw [readRank, if_pos hslots, ← hslots, ← hover'] at hover
      refine ⟨fun hnot => ?_, fun hdone => ?_⟩
      · rw [itemAt_sourceOf ha.inBounds hstretch hlen hk, ← hslots,
          ← itemAt_sourceOf ha.inBounds hstretch hlen hk']
        exact hathand.before fun hdone => hnot (hover.mpr hdone)
      · rw [itemAt_sourceOf ha' hstretch hlen hk, ← hslots,
          ← itemAt_sourceOf ha' hstretch hlen hk']
        exact hathand.after (hover.mp hdone)
  · obtain ⟨rfl, -⟩ := Kept.mk.inj hsame
    have hrank : a.readRank o.shape k = k := by
      cases k with
      | zero => rfl
      | succ k => exact if_neg fun hslots => hslot (hkept.1.trans (congrArg some hslots))
    rw [hrank] at hover
    refine ⟨fun hnot => ?_, fun _ => ?_⟩
    · -- no result has been stored to this slot yet
      rw [itemAt_sourceOf ha.inBounds hstretch hlen hk, ← hread]
      refine (h.others.readDouble_eq ?_).symm
      rintro ⟨hstorage, j, hj, hindex⟩
      exact hnot (hover.mpr ⟨hstorage.symm, j, hj, hindex.symm⟩)
    · rw [itemAt_sourceOf ha' hstretch hlen hk]
      exact hread

/-- **A value that was at hand stays so** when the next result is stored: the slot of an operand
that has been overtaken is not written to again. -/
theorem Taken.atHand {j : Nat} (htaken : Taken op x y out w o k t w' l r w'')
    (ho : Ready x y out w o) (hinjective : out.Injective) (hk : k < o.len) (hj : j ≤ k)
    (h : Underway x y out w o k t w') (ha : a.Operand w) (hstretch : a.shape.StretchesTo o.shape)
    (hathand : AtHand a out w w' (o.shape.unravel j) value) :
    AtHand a out w w'' (o.shape.unravel j) value := by
  have hj' : j < o.len := Nat.lt_of_le_of_lt hj hk
  have hcount : j < o.shape.count := ho.tracks.len ▸ hj'
  refine ⟨hathand.before, fun hdone => ?_⟩
  have ha' := (ha.of_agreesOff h.others).inBounds
  have hold := hathand.after hdone
  rw [itemAt_sourceOf ha' hstretch ho.tracks.len hj'] at hold
  rw [itemAt_sourceOf (ha'.of_extends htaken.changed.extends) hstretch ho.tracks.len hj', ← hold]
  obtain ⟨-, i, hi, hslot⟩ := (overtakes_unravel ho.shape_eq hcount).mp hdone
  have hi' : i < k := Nat.lt_of_lt_of_le hi (Nat.le_trans (a.readRank_le _ j) hj)
  refine htaken.changed.readDouble_eq fun ⟨_, hindex⟩ => ?_
  exact Nat.ne_of_lt hi' (ho.slot_injective hinjective (Nat.lt_trans hi' hk) hk
    (hslot.trans hindex))

/-- **One position of the operation**: both values are at hand, and the result on them is stored. -/
theorem Progress.step (ho : Ready x y out w o) (hinjective : out.Injective)
    (h : Progress op x y out w o k t w') (hk : k < o.len) :
    (∃ e, (t.step w').outcome = trap e)
      ∨ (t.step w').outcome = .ok true ∧ Action.Achieves w'
          ((t.after (t.step w')).store
            (op (t.after (t.step w')).firstValue (t.after (t.step w')).secondValue))
          fun _ w'' => Progress op x y out w o (k + 1) (t.after (t.step w')) w'' := by
  rcases h.toUnderway.step op ho hk with htrap | ⟨l, r, w'', htaken⟩
  · exact .inl htrap
  have hfirst : ∀ {j value}, j ≤ k → AtHand x out w w' (o.shape.unravel j) value →
      AtHand x out w w'' (o.shape.unravel j) value := fun hj =>
    htaken.atHand ho hinjective hk hj h.toUnderway ho.first ho.tracks.first_stretches
  have hsecond : ∀ {j value}, j ≤ k → AtHand y out w w' (o.shape.unravel j) value →
      AtHand y out w w'' (o.shape.unravel j) value := fun hj =>
    htaken.atHand ho hinjective hk hj h.toUnderway ho.second ho.tracks.second_stretches
  have hl := hfirst (Nat.le_refl k) (h.toUnderway.atHand ho.shape_eq ho.tracks.len ho.first
    ho.tracks.first_stretches hk h.keptFirst htaken.first)
  have hr := hsecond (Nat.le_refl k) (h.toUnderway.atHand ho.shape_eq ho.tracks.len ho.second
    ho.tracks.second_stretches hk h.keptSecond htaken.second)
  refine .inr ⟨htaken.outcome, .inl ⟨(), w'', htaken.store,
    { htaken.underway with
      keptFirst := ?_
      keptSecond := ?_
      stored := fun j hj => ?_ }⟩⟩
  · rw [Traversal.after, htaken.cursor]
    exact ⟨rfl, hl⟩
  · rw [Traversal.after, htaken.cursor]
    exact ⟨rfl, hr⟩
  · rcases Nat.lt_succ_iff_lt_or_eq.mp hj with hj | rfl
    · -- a slot written before is another one
      obtain ⟨l', r', hl', hr', hstored⟩ := h.stored j hj
      refine ⟨l', r', hfirst (Nat.le_of_lt hj) hl', hsecond (Nat.le_of_lt hj) hr', ?_⟩
      have htype : out.elementType w'' = out.elementType w' :=
        htaken.changed.type_eq out.storage
      rw [htype, ← hstored]
      refine htaken.changed.content_eq _ _ fun ⟨_, hslot⟩ => ?_
      exact Nat.ne_of_lt hj (ho.slot_injective hinjective (Nat.lt_trans hj hk) hk hslot)
    · exact ⟨l, r, hl, hr, htaken.content_eq⟩

/-- **All positions of the operation**, one after the other. -/
theorem run_progress (ho : Ready x y out w o) (hinjective : out.Injective)
    (h : Progress op x y out w o 0 t w') :
    Action.Achieves w' (t.fillWithin op (o.len + 1))
      fun _ w'' => ∃ t', Progress op x y out w o o.len t' w'' :=
  run_achieves ho.sound (fun _ _ _ h => h.odometer)
    (fun _ _ _ hk h => h.step ho hinjective hk) h (Nat.zero_add _)

/-! ## From the start to the end -/

/-- **At the start** nothing is kept and nothing has been stored. -/
theorem ready_of_ofViews (hx : x.Operand w) (hy : y.Operand w) (hout : out.Operand w)
    (h : Traversal.ofViews x y (some out) = .ok t) :
    ∃ o, t.cursor = .ofOdometer o ∧ Ready x y out w o ∧ Underway x y out w o 0 t w := by
  obtain ⟨o, rfl, htracks, hsound, hready⟩ := Traversal.tracks_of_ofViews h
  have hlayout := Target.layout?_ofView x y (some out)
  refine ⟨o, rfl, ⟨hx, hy, hout, htracks, hsound, htracks.output_shape _ hlayout⟩, ?_⟩
  exact
    { first := rfl
      second := rfl
      output := rfl
      odometer := hready
      others := .refl w _ }

end Fill

/-- **Storing the results of an operation** in an output with distinct slots, which may overtake the
operands. -/
theorem View.Operand.fillFrom {x y out : View} {w : Workspace} (hx : x.Operand w)
    (hy : y.Operand w) (hout : out.Operand w)
    (hshape : Shape.broadcast [x.shape, y.shape] = .ok out.shape) (hinjective : out.Injective)
    (op : Double → Double → Double) :
    Action.Achieves w (out.fillFrom x y op) fun _ w' => ComputesFrom op x y out w w' := by
  have hreal : ¬(out.elementType w).isComplex = true := by
    rw [hout.real]
    exact Bool.false_ne_true
  refine .get_bind ?_
  show Action.Achieves w (if (out.elementType w).isComplex = true then _ else _) _
  rw [if_neg hreal]
  refine .lift_bind (Traversal.accepted_ofViews hshape) fun t ht => ?_
  obtain ⟨o, hcursor, ho, hunderway⟩ := Fill.ready_of_ofViews hx hy hout ht
  have hstart : Fill.Progress op x y out w o 0 t w :=
    { hunderway with
      keptFirst := by rw [hcursor]; rfl
      keptSecond := by rw [hcursor]; rfl
      stored := nofun }
  unfold Traversal.fill
  rw [hcursor]
  refine (Fill.run_progress ho hinjective hstart).mono ?_
  rintro _ w' ⟨t', hend⟩
  refine ⟨fun p hp => ?_, hend.others.mono ?_⟩
  · rw [ho.shape_eq] at hp
    have := hend.stored (o.shape.ravel p) (ho.tracks.len ▸ Shape.ravel_lt hp)
    rwa [Shape.unravel_ravel hp] at this
  · rintro id index ⟨hid, j, hj, hslot⟩
    refine ⟨hid, _, ?_, hslot⟩
    rw [ho.shape_eq]
    exact Shape.contains_unravel (ho.tracks.len ▸ hj)

end StridedArray
