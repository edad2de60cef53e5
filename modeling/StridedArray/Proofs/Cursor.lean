import StridedArray.Proofs.Evened

/-!
# The values at hand

A cursor reads an operand again only when its slot index has moved, and
keeps the value with the slot that it was read from. What is kept is never
stale: whatever reads have failed on the way and however often the cursor
was restarted, the value kept is what its slot holds (`Cursor.Current`),
provided that only other slots are written to. `Cursor.Current.step` is the
step, `Cursor.Runs.current` goes through a whole run.

Nothing is assumed of a read but that a value it gives is the right one
(`TrueRead`): it may fail at any time and for any slot. `Cursor.Runs` is
what can happen to a cursor and to the slots of its operands. The next step
is then faithful (`Cursor.Current.faithful`): the values at the position are
those in the slots there, and no slot is read but that of an item. Traversals of arrays are runs of this kind
(`Traversal.runs_step`, `Traversal.runs_store`).
-/

namespace StridedArray

/-- **A read gives what the slots hold**, or fails. -/
def TrueRead (content : Nat → Double) (read : Nat → Outcome Double) : Prop :=
  ∀ slot value, read slot = .ok value → value = content slot

namespace Kept

variable {k k' : Kept} {content content' : Nat → Double} {read read' : Nat → Outcome Double}
  {slot : Nat}

/-- **The value kept is what its slot holds.** -/
def Current (k : Kept) (content : Nat → Double) : Prop :=
  ∀ slot, k.slot = some slot → k.value = content slot

theorem current_nothing (content : Nat → Double) : nothing.Current content :=
  nofun

theorem current_forget (k : Kept) (content : Nat → Double) : k.forget.Current content :=
  nofun

/-- A value kept stays current while other slots are written to. -/
theorem Current.of_spared (h : k.Current content)
    (hspared : ∀ slot, k.slot = some slot → content' slot = content slot) : k.Current content' :=
  fun slot hslot => (h slot hslot).trans (hspared slot hslot).symm

/-- **The value of a slot at hand** is the one kept with that slot, or else one read now. -/
theorem refresh_eq_ok : k.refresh read slot = .ok k' ↔
    (k.slot = some slot ∧ k' = k)
      ∨ (k.slot ≠ some slot ∧ ∃ value, read slot = .ok value ∧ k' = ⟨value, some slot⟩) := by
  unfold refresh
  by_cases hslot : k.slot = some slot
  · rw [if_pos hslot]
    exact ⟨fun h => .inl ⟨hslot, (Except.ok.inj h).symm⟩,
      fun h => congrArg Except.ok (h.resolve_right fun hread => hread.1 hslot).2.symm⟩
  · rw [if_neg hslot, Outcome.bind_eq_ok]
    constructor
    · rintro ⟨value, hvalue, h⟩
      exact .inr ⟨hslot, value, hvalue, (Except.ok.inj h).symm⟩
    · rintro (⟨hkept, -⟩ | ⟨-, value, hvalue, rfl⟩)
      · exact absurd hkept hslot
      · exact ⟨value, hvalue, rfl⟩

/-- A value at hand goes with the slot that was asked for. -/
theorem slot_of_refresh (h : k.refresh read slot = .ok k') : k'.slot = some slot := by
  rcases refresh_eq_ok.mp h with ⟨hslot, rfl⟩ | ⟨-, value, -, rfl⟩
  · exact hslot
  · rfl

/-- **The value at hand is current**, be it the one kept or one read now, and goes with the slot
that was asked for. -/
theorem Current.refresh (h : k.Current content) (hread : TrueRead content read)
    (hk' : k.refresh read slot = .ok k') : k'.Current content ∧ k'.slot = some slot := by
  refine ⟨?_, slot_of_refresh hk'⟩
  rcases refresh_eq_ok.mp hk' with ⟨-, rfl⟩ | ⟨-, value, hvalue, rfl⟩
  · exact h
  · intro other hother
    obtain rfl : slot = other := Option.some.inj hother
    exact hread slot value hvalue

/-- No other slot is read than the one asked for. -/
theorem eq_of_pending {other : Nat} (h : k.pending slot = some other) : other = slot := by
  unfold pending at h
  split at h
  · exact nomatch h
  · exact (Option.some.inj h).symm

/-- Reads of other slots than the pending one make no difference. -/
theorem refresh_congr (h : ∀ other, k.pending slot = some other → read' other = read other) :
    k.refresh read' slot = k.refresh read slot := by
  unfold refresh
  by_cases hslot : k.slot = some slot
  · rw [if_pos hslot, if_pos hslot]
  · rw [if_neg hslot, if_neg hslot, h slot (if_neg hslot)]

end Kept

/-- **The item at a position starts at a slot**: the exact slot there as a word, which is the one
that addressing the position gives unless arithmetic traps. -/
structure Layout.StartsAt (l : Layout) (p : List Nat) (slot : Nat) : Prop where
  /-- The position is one of the layout. -/
  contains : l.shape.Contains p
  /-- The slot is the exact one, as a word. -/
  slot_eq : slot = Word.toUnsigned (l.address p)
  /-- The slot is the one that addressing gives. -/
  slotAt_eq : l.slotAt p = .ok slot ∨ ∃ t, l.slotAt p = trap t

namespace Cursor

/-- **What the slots of two operands hold.** -/
structure Contents where
  /-- What a slot of the first operand holds. -/
  first : Nat → Double
  /-- What a slot of the second operand holds. -/
  second : Nat → Double

variable {c c₀ : Cursor} {m m' m₀ : Contents}
  {readFirst readSecond readFirst' readSecond' : Nat → Outcome Double}

/-! ## What a step can do -/

/-- **What reading the values comes to**: the first read fails, or the second, or both values are at
hand. -/
theorem load_cases (c : Cursor) (readFirst readSecond : Nat → Outcome Double) :
    (∃ e, c.first.refresh readFirst c.odometer.first.slot = .error e
        ∧ c.load readFirst readSecond
          = { cursor := c, outcome := .error e
              firstRead := c.first.pending c.odometer.first.slot, secondRead := none })
      ∨ (∃ first e, c.first.refresh readFirst c.odometer.first.slot = .ok first
        ∧ c.second.refresh readSecond c.odometer.second.slot = .error e
        ∧ c.load readFirst readSecond
          = { cursor := { c with first }, outcome := .error e
              firstRead := c.first.pending c.odometer.first.slot
              secondRead := c.second.pending c.odometer.second.slot })
      ∨ ∃ first second, c.first.refresh readFirst c.odometer.first.slot = .ok first
        ∧ c.second.refresh readSecond c.odometer.second.slot = .ok second
        ∧ c.load readFirst readSecond
          = { cursor := { c with first, second }, outcome := .ok true
              firstRead := c.first.pending c.odometer.first.slot
              secondRead := c.second.pending c.odometer.second.slot } := by
  cases hfirst : c.first.refresh readFirst c.odometer.first.slot with
  | error e => exact .inl ⟨e, rfl, by simp only [load, hfirst]⟩
  | ok first =>
    cases hsecond : c.second.refresh readSecond c.odometer.second.slot with
    | error e => exact .inr (.inl ⟨first, e, rfl, rfl, by simp only [load, hfirst, hsecond]⟩)
    | ok second =>
      exact .inr (.inr ⟨first, second, rfl, rfl, by simp only [load, hfirst, hsecond]⟩)

/-- **What a step comes to**: the odometer traps, or there is no position left, or the values at the
next position are read. -/
theorem step_cases (c : Cursor) (readFirst readSecond : Nat → Outcome Double) :
    (∃ e, c.odometer.step = .error e
        ∧ c.step readFirst readSecond
          = { cursor := c, outcome := .error e, firstRead := none, secondRead := none })
      ∨ (∃ o, c.odometer.step = .ok (o, false)
        ∧ c.step readFirst readSecond
          = { cursor := { c with odometer := o }, outcome := .ok false
              firstRead := none, secondRead := none })
      ∨ ∃ o, c.odometer.step = .ok (o, true)
        ∧ c.step readFirst readSecond
          = ({ c with odometer := o } : Cursor).load readFirst readSecond := by
  unfold step
  cases hstep : c.odometer.step with
  | error e => exact .inl ⟨e, rfl, rfl⟩
  | ok moved =>
    obtain ⟨o, moved⟩ := moved
    cases moved with
    | false => exact .inr (.inl ⟨o, rfl, rfl⟩)
    | true => exact .inr (.inr ⟨o, rfl, rfl⟩)

/-- **A step that comes to a position** has moved the odometer, read what was pending, and has both
values at hand. -/
theorem step_eq_true (h : (c.step readFirst readSecond).outcome = .ok true) :
    ∃ o first second, c.odometer.step = .ok (o, true)
      ∧ c.first.refresh readFirst o.first.slot = .ok first
      ∧ c.second.refresh readSecond o.second.slot = .ok second
      ∧ c.step readFirst readSecond
        = { cursor := ⟨o, first, second⟩, outcome := .ok true
            firstRead := c.first.pending o.first.slot
            secondRead := c.second.pending o.second.slot } := by
  rcases step_cases c readFirst readSecond with
    ⟨e, -, hstep⟩ | ⟨o, -, hstep⟩ | ⟨o, hodometer, hstep⟩
  · rw [hstep] at h
    exact nomatch h
  · rw [hstep] at h
    exact absurd (Except.ok.inj h) Bool.false_ne_true
  · rcases load_cases { c with odometer := o } readFirst readSecond with
      ⟨e, -, hload⟩ | ⟨first, e, -, -, hload⟩ | ⟨first, second, hfirst, hsecond, hload⟩
    · rw [hstep, hload] at h
      exact nomatch h
    · rw [hstep, hload] at h
      exact nomatch h
    · exact ⟨o, first, second, hodometer, hfirst, hsecond, hstep.trans hload⟩

/-- **A step that comes to the end** has moved the odometer and read nothing. -/
theorem step_eq_false (h : (c.step readFirst readSecond).outcome = .ok false) :
    ∃ o, c.odometer.step = .ok (o, false)
      ∧ c.step readFirst readSecond
        = { cursor := { c with odometer := o }, outcome := .ok false
            firstRead := none, secondRead := none } := by
  rcases step_cases c readFirst readSecond with
    ⟨e, -, hstep⟩ | ⟨o, hodometer, hstep⟩ | ⟨o, -, hstep⟩
  · rw [hstep] at h
    exact nomatch h
  · exact ⟨o, hodometer, hstep⟩
  · rw [hstep] at h
    rcases load_cases { c with odometer := o } readFirst readSecond with
      ⟨e, -, hload⟩ | ⟨first, e, -, -, hload⟩ | ⟨first, second, -, -, hload⟩
    · rw [hload] at h
      exact nomatch h
    · rw [hload] at h
      exact nomatch h
    · rw [hload] at h
      exact absurd (Except.ok.inj h).symm Bool.false_ne_true

/-- Having the values at hand depends on the slots only that it reads. -/
theorem load_congr
    (hfirst : ∀ slot, (c.load readFirst readSecond).firstRead = some slot →
      readFirst' slot = readFirst slot)
    (hsecond : ∀ slot, (c.load readFirst readSecond).secondRead = some slot →
      readSecond' slot = readSecond slot) :
    c.load readFirst' readSecond' = c.load readFirst readSecond := by
  rcases load_cases c readFirst readSecond with
    ⟨e, hfail, hload⟩ | ⟨first, e, hok, hfail, hload⟩ | ⟨first, second, hok, hok', hload⟩
  · rw [hload] at hfirst
    rw [hload, load, Kept.refresh_congr hfirst, hfail]
  · rw [hload] at hfirst hsecond
    rw [hload]
    simp only [load, Kept.refresh_congr hfirst, Kept.refresh_congr hsecond, hok, hfail]
  · rw [hload] at hfirst hsecond
    rw [hload]
    simp only [load, Kept.refresh_congr hfirst, Kept.refresh_congr hsecond, hok, hok']

/-- **A step depends on the slots only that it reads.** -/
theorem step_congr
    (hfirst : ∀ slot, (c.step readFirst readSecond).firstRead = some slot →
      readFirst' slot = readFirst slot)
    (hsecond : ∀ slot, (c.step readFirst readSecond).secondRead = some slot →
      readSecond' slot = readSecond slot) :
    c.step readFirst' readSecond' = c.step readFirst readSecond := by
  rcases step_cases c readFirst readSecond with
    ⟨e, hodometer, hstep⟩ | ⟨o, hodometer, hstep⟩ | ⟨o, hodometer, hstep⟩
  · rw [hstep, step, hodometer]
  · rw [hstep, step, hodometer]
    rfl
  · rw [hstep] at hfirst hsecond ⊢
    rw [step, hodometer]
    exact load_congr hfirst hsecond

/-! ## What is kept is current -/

/-- **Both values kept are what their slots hold.** -/
structure Current (c : Cursor) (m : Contents) : Prop where
  /-- The value of the first operand is current. -/
  first : c.first.Current m.first
  /-- The value of the second operand is current. -/
  second : c.second.Current m.second

/-- **Reading keeps the values current**, also if one of the reads fails. If none does, the values
at hand are those in the slots at the position. -/
theorem Current.load (h : c.Current m) (hfirst : TrueRead m.first readFirst)
    (hsecond : TrueRead m.second readSecond) :
    (c.load readFirst readSecond).cursor.Current m
      ∧ ((c.load readFirst readSecond).outcome = .ok true →
        (c.load readFirst readSecond).cursor.first.value = m.first c.odometer.first.slot
          ∧ (c.load readFirst readSecond).cursor.second.value = m.second c.odometer.second.slot) := by
  rcases load_cases c readFirst readSecond with
    ⟨e, -, hload⟩ | ⟨first, e, hok, -, hload⟩ | ⟨first, second, hok, hok', hload⟩
  · rw [hload]
    exact ⟨h, nofun⟩
  · -- the first value has been renewed although the second could not be
    rw [hload]
    exact ⟨⟨(h.first.refresh hfirst hok).1, h.second⟩, nofun⟩
  · obtain ⟨hcurrent, hslot⟩ := h.first.refresh hfirst hok
    obtain ⟨hcurrent', hslot'⟩ := h.second.refresh hsecond hok'
    rw [hload]
    exact ⟨⟨hcurrent, hcurrent'⟩, fun _ => ⟨hcurrent _ hslot, hcurrent' _ hslot'⟩⟩

/-- **A step keeps the values current**, also a failed one. -/
theorem Current.step (h : c.Current m) (hfirst : TrueRead m.first readFirst)
    (hsecond : TrueRead m.second readSecond) :
    (c.step readFirst readSecond).cursor.Current m := by
  rcases step_cases c readFirst readSecond with
    ⟨e, -, hstep⟩ | ⟨o, -, hstep⟩ | ⟨o, -, hstep⟩
  · rw [hstep]
    exact h
  · rw [hstep]
    exact ⟨h.first, h.second⟩
  · rw [hstep]
    have hmoved : ({ c with odometer := o } : Cursor).Current m := ⟨h.first, h.second⟩
    exact (hmoved.load hfirst hsecond).1

/-! ## Runs -/

/-- **The cursors that come from a new one** by steps and restarts, whatever is read on the way. -/
inductive Used (o : Odometer) : Cursor → Prop where
  /-- The new one. -/
  | new : Used o (.ofOdometer o)
  /-- After a step. -/
  | step {c : Cursor} (readFirst readSecond : Nat → Outcome Double) (h : Used o c) :
    Used o (c.step readFirst readSecond).cursor
  /-- Made ready again. -/
  | restart {c : Cursor} (h : Used o c) : Used o c.restart

/-- **The odometer of a cursor** is where some number of steps leads to. -/
theorem Used.odometer_eq {o : Odometer} (ho : o.Sound) (hready : o.restart = o) (h : Used o c) :
    ∃ k, c.odometer = o.after k := by
  induction h with
  | new => exact ⟨0, hready.symm.trans o.after_zero.symm⟩
  | step _ _ _ ih =>
    obtain ⟨k, hk⟩ := ih
    exact odometer_step ho hk
  | @restart c _ ih =>
    obtain ⟨k, hk⟩ := ih
    refine ⟨0, ?_⟩
    show c.odometer.restart = o.after 0
    rw [hk, o.restart_after, o.after_zero]

/-- **The slots of the values kept have not been written to.** -/
structure Spares (c : Cursor) (m m' : Contents) : Prop where
  /-- The slot of the value kept of the first operand holds what it held. -/
  first : ∀ slot, c.first.slot = some slot → m'.first slot = m.first slot
  /-- The slot of the value kept of the second operand holds what it held. -/
  second : ∀ slot, c.second.slot = some slot → m'.second slot = m.second slot

/-- **What can happen to a cursor**: it takes steps, the reads of which may fail, and is restarted,
in any order, and in between slots are written to from which no value is kept. -/
inductive Runs (c₀ : Cursor) (m₀ : Contents) : Cursor → Contents → Prop where
  /-- Nothing has happened yet. -/
  | start : Runs c₀ m₀ c₀ m₀
  /-- The cursor takes a step. -/
  | step {c : Cursor} {m : Contents} (readFirst readSecond : Nat → Outcome Double)
      (h : Runs c₀ m₀ c m) (hfirst : TrueRead m.first readFirst)
      (hsecond : TrueRead m.second readSecond) : Runs c₀ m₀ (c.step readFirst readSecond).cursor m
  /-- The cursor is made ready again. -/
  | restart {c : Cursor} {m : Contents} (h : Runs c₀ m₀ c m) : Runs c₀ m₀ c.restart m
  /-- Slots are written to. -/
  | write {c : Cursor} {m : Contents} (m' : Contents) (h : Runs c₀ m₀ c m)
      (hspared : c.Spares m m') : Runs c₀ m₀ c m'

/-- **In a run the values kept are current.** -/
theorem Runs.current (h : Runs c₀ m₀ c m) (hc₀ : c₀.Current m₀) : c.Current m := by
  induction h with
  | start => exact hc₀
  | step _ _ _ hfirst hsecond ih => exact ih.step hfirst hsecond
  | restart _ _ => exact ⟨Kept.current_forget _ _, Kept.current_forget _ _⟩
  | write _ _ hspared ih =>
    exact ⟨ih.first.of_spared hspared.first, ih.second.of_spared hspared.second⟩

/-- **In a run the odometer is where some number of steps leads to.** -/
theorem Runs.odometer_eq {o : Odometer} (ho : o.Sound) (hready : o.restart = o)
    (h : Runs (.ofOdometer o) m₀ c m) : ∃ k, c.odometer = o.after k := by
  refine Used.odometer_eq ho hready ?_
  induction h with
  | start => exact .new
  | step _ _ _ _ _ ih => exact .step _ _ ih
  | restart _ ih => exact .restart ih
  | write _ _ _ ih => exact ih

/-! ## What the next step comes to -/

/-- **A step is faithful** to the layouts of the operands and to what their slots hold. -/
structure Step.Faithful (s : Step) (a b : Layout) (m : Contents) : Prop where
  /-- At a position the first value is what the slot of the first operand holds. -/
  first_value : s.outcome = .ok true →
    s.cursor.first.value = m.first s.cursor.odometer.slots.first
  /-- At a position the second value is what the slot of the second operand holds. -/
  second_value : s.outcome = .ok true →
    s.cursor.second.value = m.second s.cursor.odometer.slots.second
  /-- The first operand is read at a position only, and where its item there starts. -/
  first_read : ∀ slot, s.firstRead = some slot → s.cursor.odometer.phase = .active
    ∧ slot = s.cursor.odometer.slots.first
    ∧ a.StartsAt (a.shape.sourceOf s.cursor.odometer.position) slot
  /-- The second operand is read at a position only, and where its item there starts. -/
  second_read : ∀ slot, s.secondRead = some slot → s.cursor.odometer.phase = .active
    ∧ slot = s.cursor.odometer.slots.second
    ∧ b.StartsAt (b.shape.sourceOf s.cursor.odometer.position) slot

/-- Only the slots at the position are read. -/
theorem reads_load (c : Cursor) (readFirst readSecond : Nat → Outcome Double) :
    (∀ slot, (c.load readFirst readSecond).firstRead = some slot → slot = c.odometer.first.slot)
      ∧ ∀ slot, (c.load readFirst readSecond).secondRead = some slot →
        slot = c.odometer.second.slot := by
  rcases load_cases c readFirst readSecond with
    ⟨e, -, hload⟩ | ⟨first, e, -, -, hload⟩ | ⟨first, second, -, -, hload⟩
  · rw [hload]
    exact ⟨fun slot => Kept.eq_of_pending, nofun⟩
  · rw [hload]
    exact ⟨fun slot => Kept.eq_of_pending, fun slot => Kept.eq_of_pending⟩
  · rw [hload]
    exact ⟨fun slot => Kept.eq_of_pending, fun slot => Kept.eq_of_pending⟩

/-- **A step from current values is faithful**, wherever the odometer is. -/
theorem Current.faithful {a b : Layout} {target : Target} {o : Odometer} {k : Nat}
    (h : c.Current m) (ho : o.Tracks a b target) (hc : c.odometer = o.after k)
    (hfirst : TrueRead m.first readFirst) (hsecond : TrueRead m.second readSecond) :
    (c.step readFirst readSecond).Faithful a b m := by
  rcases step_cases c readFirst readSecond with
    ⟨e, -, hstep⟩ | ⟨o', -, hstep⟩ | ⟨o', hodometer, hstep⟩
  · rw [hstep]
    exact ⟨nofun, nofun, nofun, nofun⟩
  · rw [hstep]
    exact ⟨nofun, nofun, nofun, nofun⟩
  · -- the odometer has come to a position
    rw [hc] at hodometer
    obtain ⟨rfl, hmoved⟩ := Odometer.step_after ho.sound_of_any hodometer
    have hk : k < o.len := of_decide_eq_true hmoved.symm
    have hp := Shape.contains_unravel (ho.len ▸ hk)
    have hafter := Odometer.after_of_le hk
    rw [hstep]
    have hmoved : ({ c with odometer := o.after (k + 1) } : Cursor).Current m :=
      ⟨h.first, h.second⟩
    obtain ⟨hreadFirst, hreadSecond⟩ :=
      reads_load { c with odometer := o.after (k + 1) } readFirst readSecond
    have hvalues := (hmoved.load hfirst hsecond).2
    refine ⟨fun hok => ?_, fun hok => ?_, fun slot hslot => ?_, fun slot hslot => ?_⟩
    · rw [odometer_load]
      exact (hvalues hok).1
    · rw [odometer_load]
      exact (hvalues hok).2
    · rw [odometer_load, hreadFirst slot hslot, hafter]
      obtain ⟨hcontains, hexact⟩ := Lane.slot_moveTo_of_any ho.first hp
      exact ⟨rfl, rfl, hcontains, hexact, hexact ▸ Layout.slotAt_of_contains hcontains⟩
    · rw [odometer_load, hreadSecond slot hslot, hafter]
      obtain ⟨hcontains, hexact⟩ := Lane.slot_moveTo_of_any ho.second hp
      exact ⟨rfl, rfl, hcontains, hexact, hexact ▸ Layout.slotAt_of_contains hcontains⟩

/-- **No value at hand is stale, and no slot is read in vain.** Whatever has happened to the cursor
of two operands, after a step that comes to a position the values are what the slots there hold.
Operands are read at positions only, at the slots where their items start, and what their other
slots hold makes no difference. -/
theorem Runs.step_faithful {a b : Layout} {target : Target} {o : Odometer}
    (ho : Odometer.ofLayouts a b target = .ok o) (h : Runs (.ofOdometer o) m₀ c m)
    (hfirst : TrueRead m.first readFirst) (hsecond : TrueRead m.second readSecond) :
    (c.step readFirst readSecond).Faithful a b m
      ∧ ∀ readFirst' readSecond' : Nat → Outcome Double,
        (∀ slot, (c.step readFirst readSecond).firstRead = some slot →
          readFirst' slot = readFirst slot) →
        (∀ slot, (c.step readFirst readSecond).secondRead = some slot →
          readSecond' slot = readSecond slot) →
        c.step readFirst' readSecond' = c.step readFirst readSecond := by
  obtain ⟨htracks, hready⟩ := Odometer.tracks_of_ofLayouts ho
  obtain ⟨k, hk⟩ := h.odometer_eq htracks.sound_of_any hready
  have hcurrent := h.current ⟨Kept.current_nothing _, Kept.current_nothing _⟩
  exact ⟨hcurrent.faithful htracks hk hfirst hsecond, fun _ _ => step_congr⟩

/-- Two items and one repeated along them: the first read of the second operand fails, the cursor is
restarted and comes to the first position, and the slot of the second item is written to. -/
theorem Runs.step_faithful_renewed :
    ∃ (o : Odometer) (c : Cursor) (m₀ m : Contents),
      Odometer.ofLayouts ⟨[2], [1], 0, 1⟩ ⟨[1], [1], 0, 1⟩ .none = .ok o
        ∧ Runs (.ofOdometer o) m₀ c m ∧ m.first 1 ≠ m₀.first 1
        ∧ (c.step (.ok <| m.first ·) (.ok <| m.second ·)).outcome = .ok true
        ∧ (c.step (.ok <| m.first ·) (.ok <| m.second ·)).secondRead = none
        ∧ (c.step (.ok <| m.first ·) (.ok <| m.second ·)).Faithful
          ⟨[2], [1], 0, 1⟩ ⟨[1], [1], 0, 1⟩ m := by
  let m₀ : Contents := ⟨fun i => .ofInt (i + 1), fun _ => .ofInt 10⟩
  let m : Contents := ⟨fun i => if i = 1 then .ofInt 7 else .ofInt (i + 1), fun _ => .ofInt 10⟩
  let o : Odometer :=
    { shape := [2], len := 2, position := [0]
      first := ⟨⟨[2], [1], [2], 0, 2, 1⟩, 0⟩
      second := ⟨⟨[1], [0], [0], 0, 1, 1⟩, 0⟩
      output := .none, phase := .ready }
  let failed : Cursor :=
    ((Cursor.ofOdometer o).step (.ok <| m₀.first ·) fun _ => refuse .locked).cursor
  let c : Cursor := (failed.restart.step (.ok <| m₀.first ·) (.ok <| m₀.second ·)).cursor
  have ho : Odometer.ofLayouts ⟨[2], [1], 0, 1⟩ ⟨[1], [1], 0, 1⟩ .none = .ok o := by
    decide +kernel
  have htrue : ∀ content : Nat → Double, TrueRead content (.ok <| content ·) :=
    fun content slot value h => (Except.ok.inj h).symm
  have hfailed : Runs (.ofOdometer o) m₀ failed m₀ :=
    .step _ _ .start (htrue m₀.first) nofun
  have hread : Runs (.ofOdometer o) m₀ c m₀ :=
    .step _ _ hfailed.restart (htrue m₀.first) (htrue m₀.second)
  have hspared : c.Spares m₀ m := by
    refine ⟨fun slot hslot => ?_, fun slot hslot => rfl⟩
    obtain rfl : 0 = slot := Option.some.inj ((show c.first.slot = some 0 by decide +kernel) ▸ hslot)
    rfl
  have hrun : Runs (.ofOdometer o) m₀ c m := .write m hread hspared
  exact ⟨o, c, m₀, m, ho, hrun, by decide +kernel, by decide +kernel, by decide +kernel,
    (Runs.step_faithful ho hrun (htrue m.first) (htrue m.second)).1⟩

end Cursor

/-! ## Traversals of arrays -/

/-- What a slot of the storage of an array holds as a double, zero if there is no such slot. -/
def View.held (x : View) (w : Workspace) (slot : Nat) : Double :=
  match w.content x.storage slot with
  | .ok v => v.toDouble
  | .error _ => .zero

/-- Reading a slot of an array gives what the slot holds, or fails. -/
theorem View.trueRead_held (x : View) (w : Workspace) : TrueRead (x.held w) (x.readDouble · w) := by
  intro slot value hread
  change w.readDouble x.storage slot = .ok value at hread
  rw [Workspace.readDouble_eq] at hread
  split at hread
  · exact (refuse_ne_ok _ _ hread).elim
  · obtain ⟨v, hv, hread⟩ := Outcome.bind_eq_ok.mp hread
    rw [held, hv]
    exact (Except.ok.inj hread).symm

namespace Traversal

variable {t : Traversal} {w w' : Workspace} {c₀ : Cursor} {m₀ : Cursor.Contents}

/-- What the slots of the operands hold in a workspace. -/
def contents (t : Traversal) (w : Workspace) : Cursor.Contents where
  first := t.first.held w
  second := t.second.held w

/-- **A step of a traversal of arrays** is one of a cursor. -/
theorem runs_step (h : Cursor.Runs c₀ m₀ t.cursor (t.contents w)) :
    Cursor.Runs c₀ m₀ (t.after (t.step w)).cursor ((t.after (t.step w)).contents w) :=
  .step _ _ h (t.first.trueRead_held w) (t.second.trueRead_held w)

/-- A store changes the slot of the output only. -/
theorem agreesOff_store {value : Double} {u : Unit} (h : t.store value w = .ok u w') :
    w.AgreesOff w' fun id index => t.cursor.odometer.slots.output = some index
      ∧ ∃ out, t.output = some out ∧ id = out.storage := by
  unfold store at h
  cases hout : t.output with
  | none =>
    rw [hout] at h
    exact nomatch h
  | some out =>
    cases hslot : t.cursor.odometer.slots.output with
    | none =>
      rw [hout, hslot] at h
      exact nomatch h
    | some slot =>
      rw [hout, hslot] at h
      have hwrite := Action.changing_eq_ok.mp h
      rw [Workspace.writeDouble_eq_writeSlot] at hwrite
      refine (Workspace.agreesOff_writeSlot hwrite).1.mono fun id index hchanged => ?_
      exact ⟨congrArg some hchanged.2.symm, out, rfl, hchanged.1⟩

/-- **A store of a traversal of arrays** next to the values kept leaves these current. -/
theorem runs_store {value : Double} {u : Unit}
    (h : Cursor.Runs c₀ m₀ t.cursor (t.contents w)) (hstore : t.store value w = .ok u w')
    (hfirst : ∀ out slot, t.output = some out → t.cursor.odometer.slots.output = some slot →
      out.storage = t.first.storage → t.cursor.first.slot ≠ some slot)
    (hsecond : ∀ out slot, t.output = some out → t.cursor.odometer.slots.output = some slot →
      out.storage = t.second.storage → t.cursor.second.slot ≠ some slot) :
    Cursor.Runs c₀ m₀ t.cursor (t.contents w') := by
  have hagrees := agreesOff_store hstore
  refine .write _ h ⟨fun slot hslot => ?_, fun slot hslot => ?_⟩
  · have hsame := hagrees.content_eq t.first.storage slot fun ⟨hindex, out, hout, hid⟩ =>
      hfirst out slot hout hindex hid.symm hslot
    simp only [contents, View.held, hsame]
  · have hsame := hagrees.content_eq t.second.storage slot fun ⟨hindex, out, hout, hid⟩ =>
      hsecond out slot hout hindex hid.symm hslot
    simp only [contents, View.held, hsame]

end Traversal

end StridedArray
