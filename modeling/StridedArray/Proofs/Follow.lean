import StridedArray.Proofs.Conflict
import StridedArray.Proofs.Display

/-!
# An output that follows an operand

An output that is one of the operands has no index of its own. The
alternative would be to let it move by itself, by the route of the same
layout. Both ways show the same after any calls, at the positions as well as
before the first and after the last one
(`Odometer.following_output_agrees`): giving an output that follows an
operand an index of its own (`Odometer.detach`) is a change that is not seen.

A layout that addresses the same slots as the operand's, whatever its strides
along singleton axes, makes no difference at the positions either
(`Odometer.Tracks.display_after_own`). Past the end it may make one, since the
slot shown there is computed from the strides.
-/

namespace StridedArray

/-- **The output follows an operand**, which has the given layout. -/
inductive Target.Follows (a b : Layout) : Target → Layout → Prop
  /-- It follows the first operand. -/
  | first : Follows a b .first a
  /-- It follows the second operand. -/
  | second : Follows a b .second b

/-- The output is written through the layout of the operand. -/
theorem Target.Follows.layout?_eq {a b l : Layout} {target : Target} (h : Follows a b target l) :
    target.layout? a b = some l := by
  cases h <;> rfl

/-- **The index of an operand up to the last position** depends on the slots addressed only. -/
theorem Lane.slot_after_congr {lane lane' : Lane} {l l' : Layout} {shape : Shape} {k : Nat}
    (hroute : Route.ofLayout l shape = .ok lane.route)
    (hroute' : Route.ofLayout l' shape = .ok lane'.route) (hshape : l'.shape = l.shape)
    (haddress : ∀ p, l.shape.Contains p → l'.address p ≡ l.address p [ZMOD 0x10000000000000000])
    (hpos : 0 < shape.count) (hk : k ≤ shape.count) :
    (lane'.after shape k).slot = (lane.after shape k).slot := by
  have hmove : ∀ p, shape.Contains p → (lane'.moveTo p).slot = (lane.moveTo p).slot := by
    intro p hp
    obtain ⟨hsource, hslot⟩ := Lane.slot_moveTo_of_any hroute hp
    rw [hslot, (Lane.slot_moveTo_of_any hroute' hp).2, hshape]
    exact Word.toUnsigned_congr (haddress _ hsource)
  unfold after
  by_cases hready : k = 0
  · rw [if_pos hready, if_pos hready, ← Lane.moveTo_origin lane shape,
      ← Lane.moveTo_origin lane' shape]
    exact hmove _ (Shape.contains_origin hpos)
  · rw [if_neg hready, if_neg hready, if_pos hk, if_pos hk]
    exact hmove _ (Shape.contains_unravel (by omega))

/-! ## An index of its own -/

namespace OutputLane

/-- The output with an index of its own, if it follows one of the given operands. -/
def detach (first second : Lane) : OutputLane → OutputLane
  | .first => own first
  | .second => own second
  | other => other

/-- **A step of the output with an index of its own** is the step of what it followed. -/
theorem step_detach {shape : Shape} {p : List Nat} {first first' second second' : Lane}
    (hfirst : first.step shape p = .ok first') (hsecond : second.step shape p = .ok second')
    (out : OutputLane) :
    (out.detach first second).step shape p
      = out.step shape p >>= fun out' => .ok (out'.detach first' second') := by
  cases out with
  | none => rfl
  | first =>
    show (first.step shape p >>= fun lane => .ok (own lane)) = .ok (own first')
    rw [hfirst]
    rfl
  | second =>
    show (second.step shape p >>= fun lane => .ok (own lane)) = .ok (own second')
    rw [hsecond]
    rfl
  | own lane =>
    show (lane.step shape p >>= _) = (lane.step shape p >>= _) >>= _
    rw [bind_assoc]
    rfl

end OutputLane

namespace Odometer

variable {a b l l₀ : Layout} {target : Target} {o o' : Odometer} {calls : List Call}

/-- **The traversal with an index for the output**: an output that follows an operand moves by
itself from where the operand stands. -/
def detach (o : Odometer) : Odometer :=
  { o with output := o.output.detach o.first o.second }

/-- **An index of its own for the output is not seen.** -/
theorem unseen_detach : Unseen detach where
  shape _ := rfl
  len _ := rfl
  enter _ _ := rfl
  display o := by
    unfold display slots detach
    cases o.output <;> rfl
  exhaust o := by
    unfold exhaust detach
    cases o.output <;> rfl
  restart o := by
    unfold restart detach
    cases o.output <;> rfl
  moved o := by
    unfold moved
    show (o.first.step o.shape o.position >>= fun _ => o.second.step o.shape o.position >>= fun _ =>
      (o.output.detach o.first o.second).step o.shape o.position >>= _) = _
    cases hfirst : o.first.step o.shape o.position with
    | error e => rfl
    | ok first =>
      cases hsecond : o.second.step o.shape o.position with
      | error e => rfl
      | ok second =>
        rw [OutputLane.step_detach hfirst hsecond]
        cases o.output.step o.shape o.position <;> rfl

/-! ## Two ways to make a traversal -/

/-- **An output by the layout of an operand** makes the traversal in which the output that follows
the operand has an index of its own. -/
theorem ofLayouts_own_eq_ok (h : Target.Follows a b target l₀) :
    ofLayouts a b (.own l₀) = .ok o' ↔ ∃ o, ofLayouts a b target = .ok o ∧ o' = o.detach := by
  constructor
  · intro ho
    obtain ⟨first, second, hshape, houtput, hfirst, hsecond, hlen, hposition, hone, htwo, hphase⟩ :=
      ofLayouts_eq_ok.mp ho
    obtain ⟨hfit, route, hroute, hown⟩ := outputLane_eq_ok.mp houtput
    have hmade : ∀ out : OutputLane, out.StartsTo o'.shape target →
        ofLayouts a b target = .ok { o' with output := out } := fun out hout =>
      ofLayouts_eq_ok.mpr ⟨first, second, hshape,
        outputLane_eq_ok.mpr ⟨by rw [h.layout?_eq]; exact hfit, hout⟩, hfirst, hsecond, hlen,
        hposition, hone, htwo, hphase⟩
    -- the output goes by the route of the operand, and so stands where the operand does
    cases h with
    | first =>
      obtain rfl := Except.ok.inj (hfirst.symm.trans hroute)
      refine ⟨_, hmade .first rfl, ?_⟩
      show o' = { o' with output := .own o'.first }
      rw [hone, ← hown, ← hone]
    | second =>
      obtain rfl := Except.ok.inj (hsecond.symm.trans hroute)
      refine ⟨_, hmade .second rfl, ?_⟩
      show o' = { o' with output := .own o'.second }
      rw [htwo, ← hown, ← htwo]
  · rintro ⟨o, ho, rfl⟩
    obtain ⟨first, second, hshape, houtput, hfirst, hsecond, hlen, hposition, hone, htwo, hphase⟩ :=
      ofLayouts_eq_ok.mp ho
    obtain ⟨hfit, hstarts⟩ := outputLane_eq_ok.mp houtput
    rw [h.layout?_eq] at hfit
    refine ofLayouts_eq_ok.mpr ⟨first, second, hshape, outputLane_eq_ok.mpr ⟨hfit, ?_⟩,
      hfirst, hsecond, hlen, hposition, hone, htwo, hphase⟩
    show ∃ route, _ ∧ o.output.detach o.first o.second = _
    cases h with
    | first =>
      rw [show o.output = .first from hstarts]
      exact ⟨first, hfirst, congrArg OutputLane.own hone⟩
    | second =>
      rw [show o.output = .second from hstarts]
      exact ⟨second, hsecond, congrArg OutputLane.own htwo⟩

/-- **Following an operand and moving along its layout show the same**, after any calls. -/
theorem displayAfter_own_eq_ok {d : Display} (h : Target.Follows a b target l₀) :
    displayAfter a b (.own l₀) calls = .ok d ↔ displayAfter a b target calls = .ok d := by
  unfold displayAfter
  rw [Outcome.bind_eq_ok, Outcome.bind_eq_ok]
  constructor
  · rintro ⟨_, hown, hd⟩
    obtain ⟨o, ho, rfl⟩ := (ofLayouts_own_eq_ok h).mp hown
    exact ⟨o, ho, (unseen_detach.display_run o calls).symm.trans hd⟩
  · rintro ⟨o, ho, hd⟩
    exact ⟨o.detach, (ofLayouts_own_eq_ok h).mpr ⟨o, ho, rfl⟩,
      (unseen_detach.display_run o calls).trans hd⟩

/-! ## Layouts that address the same slots -/

/-- What a traversal shows after some calls depends on the number of steps only. -/
theorem displayAfter_eq_ok {d : Display} (h : displayAfter a b target calls = .ok d) :
    ∃ o, ofLayouts a b target = .ok o ∧ o.Tracks a b target
      ∧ d = (o.after (Call.steps calls)).display := by
  obtain ⟨o, ho, h⟩ := Outcome.bind_eq_ok.mp h
  obtain ⟨o', hrun, h⟩ := Outcome.bind_eq_ok.mp h
  obtain rfl := Except.ok.inj h
  obtain ⟨htracks, hready⟩ := tracks_of_ofLayouts ho
  rw [← hready, ← o.after_zero] at hrun
  rw [run_after htracks.sound_of_any hrun]
  exact ⟨o, ho, htracks, rfl⟩

/-- **Outputs that address the same slots show the same** up to the last position. -/
theorem Tracks.display_after_own (h : o.Tracks a b (.own l₀)) (h' : o'.Tracks a b (.own l))
    (hpos : 0 < l.shape.count)
    (haddress : ∀ p, l.shape.Contains p →
      l.address p ≡ l₀.address p [ZMOD 0x10000000000000000]) (k : Nat) :
    (o'.after k).position = (o.after k).position ∧ (o'.after k).phase = (o.after k).phase
      ∧ ((o.after k).phase ≠ .exhausted → (o'.after k).display = (o.after k).display) := by
  have hshape : o'.shape = o.shape := Except.ok.inj (h'.shape.symm.trans h.shape)
  have hlen : o'.len = o.len := by rw [h'.len, h.len, hshape]
  have hl : l.shape = o.shape := (h'.output_shape l rfl).trans hshape
  have hl₀ : l₀.shape = o.shape := h.output_shape l₀ rfl
  have hposition : (o'.after k).position = (o.after k).position := by
    rw [position_after, position_after, hshape, hlen]
  have hphase : (o'.after k).phase = (o.after k).phase := by
    rw [phase_after, phase_after, hlen]
  refine ⟨hposition, hphase, fun hactive => ?_⟩
  have hk : k ≤ o.shape.count := by
    rw [phase_after] at hactive
    by_contra hover
    rw [if_neg (by omega), if_neg (by rw [h.len]; exact hover)] at hactive
    exact hactive rfl
  have hcount : 0 < o.shape.count := hl ▸ hpos
  have hsame : ∀ (m : Layout) (p : List Nat), m.shape.Contains p →
      m.address p ≡ m.address p [ZMOD 0x10000000000000000] := fun m p _ => Int.ModEq.refl _
  obtain ⟨lane, hlane, hroute⟩ := h.output
  obtain ⟨lane', hlane', hroute'⟩ := h'.output
  have hfirst : (o'.after k).first.slot = (o.after k).first.slot := by
    rw [h.first_after, h'.first_after, hshape]
    exact Lane.slot_after_congr h.first (hshape ▸ h'.first) rfl (hsame a) hcount hk
  have hsecond : (o'.after k).second.slot = (o.after k).second.slot := by
    rw [h.second_after, h'.second_after, hshape]
    exact Lane.slot_after_congr h.second (hshape ▸ h'.second) rfl (hsame b) hcount hk
  have houtput : (lane'.after o.shape k).slot = (lane.after o.shape k).slot :=
    Lane.slot_after_congr hroute (hshape ▸ hroute') (hl.trans hl₀.symm)
      (fun p hp => haddress p (hl.trans hl₀.symm ▸ hp)) hcount hk
  have hout : (o.after k).output = .own (lane.after o.shape k) := by
    rw [h.output_after, hlane]
    rfl
  have hout' : (o'.after k).output = .own (lane'.after o.shape k) := by
    rw [h'.output_after, hlane', hshape]
    rfl
  unfold display slots
  rw [hposition, hphase, hfirst, hsecond, hout, hout']
  simp only [houtput]

/-- **An output that follows an operand agrees with one that moves along the operand's layout**: they
are refused alike and made alike, and after any calls they show the same. An output that moves along
another layout, which addresses the same slots at every position of the same shape, shows the same
until the traversal is exhausted, and the same position and phase even then, unless it traps. -/
theorem following_output_agrees (h : Target.Follows a b target l₀) :
    (∀ e, ofLayouts a b target = refuse e ↔ ofLayouts a b (.own l₀) = refuse e)
      ∧ ((∃ o, ofLayouts a b target = .ok o) ↔ ∃ o, ofLayouts a b (.own l₀) = .ok o)
      ∧ (∀ calls d, displayAfter a b target calls = .ok d ↔
          displayAfter a b (.own l₀) calls = .ok d)
      ∧ ∀ l : Layout, l.shape = l₀.shape → 0 < l.shape.count →
          (∀ p, l.shape.Contains p →
            l.address p ≡ l₀.address p [ZMOD 0x10000000000000000]) →
          ∀ calls d, displayAfter a b target calls = .ok d →
            (∃ t, displayAfter a b (.own l) calls = trap t)
              ∨ ∃ d', displayAfter a b (.own l) calls = .ok d'
                ∧ d'.position = d.position ∧ d'.phase = d.phase
                ∧ (d.phase ≠ .exhausted → d' = d) := by
  refine ⟨fun e => ?_, ?_, fun calls d => (displayAfter_own_eq_ok h).symm,
    fun l hshape hpos haddress calls d hd => ?_⟩
  · rw [ofLayouts_eq_refuse, ofLayouts_eq_refuse]
    cases h with
    | first => exact Iff.rfl
    | second => exact Iff.rfl
  · constructor
    · rintro ⟨o, ho⟩
      exact ⟨o.detach, (ofLayouts_own_eq_ok h).mpr ⟨o, ho, rfl⟩⟩
    · rintro ⟨_, hown⟩
      obtain ⟨o, ho, -⟩ := (ofLayouts_own_eq_ok h).mp hown
      exact ⟨o, ho⟩
  · obtain ⟨o, -, htracks, rfl⟩ := displayAfter_eq_ok ((displayAfter_own_eq_ok h).mpr hd)
    have hfit : ∀ m ∈ (Target.own l).layout? a b, m.shape = o.shape := by
      intro m hm
      obtain rfl := Option.some.inj hm
      exact hshape.trans (htracks.output_shape l₀ rfl)
    have haccepted : (displayAfter a b (.own l) calls).Accepted :=
      (accepted_ofLayouts htracks.shape hfit).bind fun o' _ =>
        (accepted_run o' calls).bind fun _ _ => Outcome.refusedOnly_pure _
    rcases haccepted.isOk_or_trap with ⟨d', hd'⟩ | htrap
    · obtain ⟨o', -, htracks', rfl⟩ := displayAfter_eq_ok hd'
      exact .inr ⟨_, hd', htracks.display_after_own htracks' hpos haddress _⟩
    · exact .inl htrap

/-- A reversed row below a singleton axis, added to a row in place: with an index of its own the
output shows the same to the end, and along a layout without the stride of the singleton axis it
shows the same up to the last position, but another slot past the end. -/
theorem following_output_agrees_singleton :
    ∃ (a b l : Layout) (last ended : Display), a = ⟨[1, 3], [7, -2], 4, 1⟩ ∧ b = ⟨[3], [1], 0, 1⟩
      ∧ l = ⟨[1, 3], [0, -2], 4, 1⟩
      ∧ displayAfter a b .first [.step, .next, .restart, .step, .step, .next] = .ok last
      ∧ last = ⟨[0, 2], .active, ⟨0, 2, some 0⟩⟩
      ∧ displayAfter a b (.own l) [.step, .next, .restart, .step, .step, .next] = .ok last
      ∧ displayAfter a b .first [.step, .step, .step, .step] = .ok ended
      ∧ ended = ⟨[0, 0], .exhausted, ⟨11, 3, some 11⟩⟩
      ∧ displayAfter a b (.own a) [.step, .step, .step, .step] = .ok ended
      ∧ displayAfter a b (.own l) [.step, .step, .step, .step] ≠ .ok ended := by
  let a : Layout := ⟨[1, 3], [7, -2], 4, 1⟩
  let b : Layout := ⟨[3], [1], 0, 1⟩
  let l : Layout := ⟨[1, 3], [0, -2], 4, 1⟩
  have haddress : ∀ p, l.shape.Contains p →
      l.address p ≡ a.address p [ZMOD 0x10000000000000000] := by
    intro p hp
    match p, hp with
    | [i, j], hp =>
      obtain rfl : i = 0 := Nat.lt_one_iff.mp hp.1
      exact congrArg (· % _) (by simp [a, l, Layout.address])
  obtain ⟨-, -, hown, hother⟩ := following_output_agrees (.first : Target.Follows a b .first a)
  have hlast : displayAfter a b .first [.step, .next, .restart, .step, .step, .next]
      = .ok ⟨[0, 2], .active, ⟨0, 2, some 0⟩⟩ := by decide +kernel
  have hover : displayAfter a b .first [.step, .step, .step, .step]
      = .ok ⟨[0, 0], .exhausted, ⟨11, 3, some 11⟩⟩ := by decide +kernel
  have hsame : displayAfter a b (.own l) [.step, .next, .restart, .step, .step, .next]
      = .ok ⟨[0, 2], .active, ⟨0, 2, some 0⟩⟩ := by
    rcases hother l rfl (by decide) haddress _ _ hlast with ⟨t, ht⟩ | ⟨d', hd', -, -, hactive⟩
    · have hok : (displayAfter a b (.own l)
          [.step, .next, .restart, .step, .step, .next]).isOk := by decide +kernel
      rw [ht] at hok
      exact absurd hok Bool.false_ne_true
    · rw [hd', hactive (by decide)]
  exact ⟨a, b, l, _, _, rfl, rfl, rfl, hlast, rfl, hsame, hover, rfl, (hown _ _).mp hover,
    by decide +kernel⟩

end Odometer

end StridedArray
