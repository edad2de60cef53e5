import StridedArray.Proofs.Lawful

/-!
# The text form is read back

The text form of a layout, a route or a plan is read back as what it was
written for, whatever its fields are, as long as they are machine words;
and whatever is read from a text has words for its fields
(`text_round_trips`). Nothing is asked of the fields together: a layout
may have more strides than axes. The library that writes and reads the
texts may be any that is lawful.

A type with a text form has a form as a value. `Json.Faithful` says of that
what makes the text form be read back, and goes from the items to the list
and from the fields to the record.
-/

namespace StridedArray

namespace Json

/-- **The form as a value is faithful** to what satisfies the condition: it is a plain value, nested
at most `depth` deep, it is read back, and nothing else is ever read. -/
structure Faithful {α : Type} (depth : Nat) (toJson : α → Json) (ofJson? : Json → Option α)
    (Fits : α → Prop) : Prop where
  /-- The form is a plain value. -/
  plain : ∀ x, Fits x → (toJson x).Plain depth
  /-- The form is read back. -/
  read_form : ∀ x, Fits x → ofJson? (toJson x) = some x
  /-- What is read from a value satisfies the condition. -/
  fits_of_read : ∀ j x, ofJson? j = some x → Fits x

/-- **The text form is read back.** What satisfies the condition is read from its text. What is read
from any text satisfies the condition and is read from its own text, too, which is then written
again as it is. -/
def RoundTrips {α : Type} (text : α → String) (ofText? : String → Option α) (Fits : α → Prop) :
    Prop :=
  (∀ x, Fits x → ofText? (text x) = some x)
    ∧ ∀ t x, ofText? t = some x →
        Fits x ∧ ofText? (text x) = some x ∧ (ofText? (text x)).map text = some (text x)

variable {lib : Library} {α : Type} {depth : Nat} {toJson : α → Json} {ofJson? : Json → Option α}
  {Fits : α → Prop}

/-- **A text form is read back if the form as a value is faithful** and not nested too deep. -/
theorem Faithful.roundTrips (hlib : lib.Lawful) (h : Faithful depth toJson ofJson? Fits)
    (hdepth : depth ≤ nestingLimit) :
    RoundTrips (lib.write toJson) (lib.read? ofJson?) Fits := by
  have hread : ∀ x, Fits x → lib.read? ofJson? (lib.write toJson x) = some x := fun x hx => by
    rw [Library.read?, Library.write, hlib.parse?_render hdepth (h.plain x hx)]
    exact h.read_form x hx
  refine ⟨hread, fun t x hx => ?_⟩
  obtain ⟨j, -, hj⟩ := Option.bind_eq_some_iff.mp hx
  have hfits := h.fits_of_read j x hj
  exact ⟨hfits, hread x hfits, congrArg (Option.map _) (hread x hfits)⟩

/-! ## Numbers and lists -/

/-- **Unsigned words.** -/
theorem faithful_unsigned (hlib : lib.Lawful) :
    Faithful depth ofNat lib.unsigned? Word.IsUnsigned where
  plain _ h := .unsigned h
  read_form _ h := hlib.unsigned?_ofNat h
  fits_of_read _ _ h := hlib.isUnsigned_of_unsigned? h

/-- **Signed words.** -/
theorem faithful_signed (hlib : lib.Lawful) : Faithful depth ofInt lib.signed? Word.IsSigned where
  plain _ h := .signed h
  read_form _ h := hlib.signed?_ofInt h
  fits_of_read _ _ h := hlib.isSigned_of_signed? h

/-- **Lists**, of whose items the form is faithful. -/
theorem Faithful.list (hlib : lib.Lawful) (h : Faithful depth toJson ofJson? Fits) :
    Faithful (depth + 1) (fun xs => array (xs.map toJson)) (lib.list? ofJson?)
      (fun xs => ∀ x ∈ xs, Fits x) where
  plain xs hxs := .array (List.forall_mem_map.mpr fun x hx => h.plain x (hxs x hx))
  read_form xs hxs := by
    rw [Library.list?, hlib.entries?_array]
    show (xs.map toJson).mapM ofJson? = some xs
    rw [mapM_eq_some, List.forall₂_map_left_iff, List.forall₂_same]
    exact fun x hx => h.read_form x (hxs x hx)
  fits_of_read j xs hread := by
    obtain ⟨entries, -, hentries⟩ := Option.bind_eq_some_iff.mp hread
    have hall := mapM_eq_some.mp hentries
    clear hread hentries
    induction hall with
    | nil => exact nofun
    | cons hentry _ ih => exact List.forall_mem_cons.mpr ⟨h.fits_of_read _ _ hentry, ih⟩

/-- Lists of unsigned words. -/
theorem faithful_unsigneds (hlib : lib.Lawful) (depth : Nat) : Faithful (depth + 1) ofNats
    (lib.list? lib.unsigned?) (fun ns => ∀ n ∈ ns, Word.IsUnsigned n) :=
  (faithful_unsigned hlib).list hlib

/-- Lists of signed words. -/
theorem faithful_signeds (hlib : lib.Lawful) (depth : Nat) : Faithful (depth + 1) ofInts
    (lib.list? lib.signed?) (fun is => ∀ i ∈ is, Word.IsSigned i) :=
  (faithful_signed hlib).list hlib

/-! ## Records -/

section

variable {names : List String} {values : List Json}

/-- **A record of plain values** is a plain value, if no two fields have the same name. -/
theorem plain_record (hnames : names.Nodup) (hlength : names.length = values.length)
    (h : values.Forall (Plain depth)) : (ofMembers (names.zip values)).Plain (depth + 1) := by
  refine .object ?_ fun m hm => List.forall_iff_forall_mem.mp h _ (List.of_mem_zip hm).2
  rwa [List.map_fst_zip (Nat.le_of_eq hlength)]

/-- **The fields of a record are read back**, if no two have the same name. -/
theorem fields?_record (hlib : lib.Lawful) (hnames : names.Nodup)
    (hlength : names.length = values.length) :
    lib.fields? names (ofMembers (names.zip values)) = some values := by
  refine hlib.fields?_ofMembers hnames ?_ (List.forall₂_iff_zip.mpr ⟨hlength, id⟩)
  rwa [List.map_fst_zip (Nat.le_of_eq hlength)]

end

end Json

variable {lib : Json.Library} {depth : Nat}

/-- **Element types.** -/
theorem ElementType.faithful (hlib : lib.Lawful) :
    Json.Faithful depth toJson (ofJson? lib) fun _ => True where
  plain _ _ := .text _
  read_form t _ := by
    rw [ofJson?, toJson, hlib.name?_ofString]
    cases t <;> decide
  fits_of_read _ _ _ := trivial

/-- **The text form of an element type is read back.** -/
theorem ElementType.roundTrips (hlib : lib.Lawful) :
    Json.RoundTrips (lib.write toJson) (lib.read? (ofJson? lib)) fun _ => True :=
  (faithful hlib).roundTrips hlib (Nat.zero_le _)

/-! ## Layouts, routes and plans -/

/-- **The fields of a layout are machine words.** -/
structure Layout.InWords (l : Layout) : Prop where
  shape : ∀ n ∈ l.shape, Word.IsUnsigned n
  strides : ∀ s ∈ l.strides, Word.IsSigned s
  offset : Word.IsUnsigned l.offset
  itemSlots : Word.IsUnsigned l.itemSlots

/-- **The fields of a route are machine words.** -/
structure Route.InWords (r : Route) : Prop where
  extents : ∀ n ∈ r.extents, Word.IsUnsigned n
  strides : ∀ s ∈ r.strides, Word.IsSigned s
  rewinds : ∀ s ∈ r.rewinds, Word.IsSigned s
  start : Word.IsUnsigned r.start
  pastEnd : Word.IsUnsigned r.pastEnd
  itemSlots : Word.IsUnsigned r.itemSlots

/-- **The numbers in a plan are machine words.** -/
structure Plan.InWords (plan : Plan) : Prop where
  shape : ∀ n ∈ plan.shape, Word.IsUnsigned n
  routes : ∀ r ∈ plan.routes, r.InWords

open Json

/-- What a layout is read from. -/
theorem Layout.ofJson?_eq_some {j : Json} {l : Layout} :
    ofJson? lib j = some l ↔ ∃ shape strides offset itemSlots,
      lib.fields? fieldNames j = some [shape, strides, offset, itemSlots]
        ∧ lib.list? lib.unsigned? shape = some l.shape
        ∧ lib.list? lib.signed? strides = some l.strides
        ∧ lib.unsigned? offset = some l.offset ∧ lib.unsigned? itemSlots = some l.itemSlots := by
  unfold ofJson?
  simp only [Option.bind_eq_bind, Option.bind_eq_some_iff]
  constructor
  · rintro ⟨fields, hfields, h⟩
    split at h
    · simp only [Option.bind_eq_some_iff] at h
      obtain ⟨shape, hshape, strides, hstrides, offset, hoffset, itemSlots, hitem, h⟩ := h
      obtain rfl := Option.some.inj h
      exact ⟨_, _, _, _, hfields, hshape, hstrides, hoffset, hitem⟩
    · exact nomatch h
  · rintro ⟨shape, strides, offset, itemSlots, hfields, hshape, hstrides, hoffset, hitem⟩
    refine ⟨_, hfields, ?_⟩
    simp only [hshape, hstrides, hoffset, hitem, Option.bind_some]
    rfl

/-- **Layouts.** -/
theorem Layout.faithful (hlib : lib.Lawful) (depth : Nat) :
    Faithful (depth + 2) toJson (ofJson? lib) InWords where
  plain l hl := plain_record (by decide) rfl
    ⟨(faithful_unsigneds hlib depth).plain _ hl.shape,
      (faithful_signeds hlib depth).plain _ hl.strides, .unsigned hl.offset, .unsigned hl.itemSlots⟩
  read_form l hl := by
    refine ofJson?_eq_some.mpr ⟨_, _, _, _, fields?_record hlib (by decide) rfl, ?_⟩
    exact ⟨(faithful_unsigneds hlib depth).read_form _ hl.shape,
      (faithful_signeds hlib depth).read_form _ hl.strides, hlib.unsigned?_ofNat hl.offset,
      hlib.unsigned?_ofNat hl.itemSlots⟩
  fits_of_read j l h := by
    obtain ⟨_, _, _, _, -, hshape, hstrides, hoffset, hitem⟩ := ofJson?_eq_some.mp h
    exact ⟨(faithful_unsigneds hlib depth).fits_of_read _ _ hshape,
      (faithful_signeds hlib depth).fits_of_read _ _ hstrides,
      hlib.isUnsigned_of_unsigned? hoffset, hlib.isUnsigned_of_unsigned? hitem⟩

/-- What a route is read from. -/
theorem Route.ofJson?_eq_some {j : Json} {r : Route} :
    ofJson? lib j = some r ↔ ∃ extents strides rewinds start pastEnd itemSlots,
      lib.fields? fieldNames j = some [extents, strides, rewinds, start, pastEnd, itemSlots]
        ∧ lib.list? lib.unsigned? extents = some r.extents
        ∧ lib.list? lib.signed? strides = some r.strides
        ∧ lib.list? lib.signed? rewinds = some r.rewinds ∧ lib.unsigned? start = some r.start
        ∧ lib.unsigned? pastEnd = some r.pastEnd ∧ lib.unsigned? itemSlots = some r.itemSlots := by
  unfold ofJson?
  simp only [Option.bind_eq_bind, Option.bind_eq_some_iff]
  constructor
  · rintro ⟨fields, hfields, h⟩
    split at h
    · simp only [Option.bind_eq_some_iff] at h
      obtain ⟨extents, hextents, strides, hstrides, rewinds, hrewinds, start, hstart, pastEnd,
        hpast, itemSlots, hitem, h⟩ := h
      obtain rfl := Option.some.inj h
      exact ⟨_, _, _, _, _, _, hfields, hextents, hstrides, hrewinds, hstart, hpast, hitem⟩
    · exact nomatch h
  · rintro ⟨extents, strides, rewinds, start, pastEnd, itemSlots, hfields, hextents, hstrides,
      hrewinds, hstart, hpast, hitem⟩
    refine ⟨_, hfields, ?_⟩
    simp only [hextents, hstrides, hrewinds, hstart, hpast, hitem, Option.bind_some]
    rfl

/-- **Routes.** -/
theorem Route.faithful (hlib : lib.Lawful) (depth : Nat) :
    Faithful (depth + 2) toJson (ofJson? lib) InWords where
  plain r hr := plain_record (by decide) rfl
    ⟨(faithful_unsigneds hlib depth).plain _ hr.extents,
      (faithful_signeds hlib depth).plain _ hr.strides,
      (faithful_signeds hlib depth).plain _ hr.rewinds, .unsigned hr.start, .unsigned hr.pastEnd,
      .unsigned hr.itemSlots⟩
  read_form r hr := by
    refine ofJson?_eq_some.mpr ⟨_, _, _, _, _, _, fields?_record hlib (by decide) rfl, ?_⟩
    exact ⟨(faithful_unsigneds hlib depth).read_form _ hr.extents,
      (faithful_signeds hlib depth).read_form _ hr.strides,
      (faithful_signeds hlib depth).read_form _ hr.rewinds, hlib.unsigned?_ofNat hr.start,
      hlib.unsigned?_ofNat hr.pastEnd, hlib.unsigned?_ofNat hr.itemSlots⟩
  fits_of_read j r h := by
    obtain ⟨_, _, _, _, _, _, -, hextents, hstrides, hrewinds, hstart, hpast, hitem⟩ :=
      ofJson?_eq_some.mp h
    exact ⟨(faithful_unsigneds hlib depth).fits_of_read _ _ hextents,
      (faithful_signeds hlib depth).fits_of_read _ _ hstrides,
      (faithful_signeds hlib depth).fits_of_read _ _ hrewinds,
      hlib.isUnsigned_of_unsigned? hstart, hlib.isUnsigned_of_unsigned? hpast,
      hlib.isUnsigned_of_unsigned? hitem⟩

/-- What a plan is read from. -/
theorem Plan.ofJson?_eq_some {j : Json} {plan : Plan} :
    ofJson? lib j = some plan ↔ ∃ shape routes, lib.fields? fieldNames j = some [shape, routes]
      ∧ lib.list? lib.unsigned? shape = some plan.shape
      ∧ lib.list? (Route.ofJson? lib) routes = some plan.routes := by
  unfold ofJson?
  simp only [Option.bind_eq_bind, Option.bind_eq_some_iff]
  constructor
  · rintro ⟨fields, hfields, h⟩
    split at h
    · simp only [Option.bind_eq_some_iff] at h
      obtain ⟨shape, hshape, routes, hroutes, h⟩ := h
      obtain rfl := Option.some.inj h
      exact ⟨_, _, hfields, hshape, hroutes⟩
    · exact nomatch h
  · rintro ⟨shape, routes, hfields, hshape, hroutes⟩
    refine ⟨_, hfields, ?_⟩
    simp only [hshape, hroutes, Option.bind_some]
    rfl

/-- **Plans.** -/
theorem Plan.faithful (hlib : lib.Lawful) (depth : Nat) :
    Faithful (depth + 4) toJson (ofJson? lib) InWords where
  plain plan hplan := plain_record (by decide) rfl
    ⟨(faithful_unsigneds hlib (depth + 2)).plain _ hplan.shape,
      ((Route.faithful hlib depth).list hlib).plain _ hplan.routes⟩
  read_form plan hplan := by
    refine ofJson?_eq_some.mpr ⟨_, _, fields?_record hlib (by decide) rfl, ?_⟩
    exact ⟨(faithful_unsigneds hlib depth).read_form _ hplan.shape,
      ((Route.faithful hlib depth).list hlib).read_form _ hplan.routes⟩
  fits_of_read j plan h := by
    obtain ⟨_, _, -, hshape, hroutes⟩ := ofJson?_eq_some.mp h
    exact ⟨(faithful_unsigneds hlib depth).fits_of_read _ _ hshape,
      ((Route.faithful hlib depth).list hlib).fits_of_read _ _ hroutes⟩

/-- **The text forms of layouts, routes and plans are read back** by any lawful library, if their
fields are machine words each for itself, which the fields of what is read from a text are. -/
theorem text_round_trips (hlib : lib.Lawful) :
    RoundTrips (lib.write Layout.toJson) (lib.read? (Layout.ofJson? lib)) Layout.InWords
      ∧ RoundTrips (lib.write Route.toJson) (lib.read? (Route.ofJson? lib)) Route.InWords
      ∧ RoundTrips (lib.write Plan.toJson) (lib.read? (Plan.ofJson? lib)) Plan.InWords :=
  ⟨(Layout.faithful hlib 0).roundTrips hlib (by decide),
    (Route.faithful hlib 0).roundTrips hlib (by decide),
    (Plan.faithful hlib 0).roundTrips hlib (by decide)⟩

/-- A layout with one stride too many, at the ends of the ranges; and a plan read from a text with
blanks, a member that means nothing, the fields in another order and the route as an array. -/
theorem text_round_trips_extremes : ∃ (l : Layout) (t : String) (plan : Plan),
    l = ⟨[0], [-0x8000000000000000, 0x7FFFFFFFFFFFFFFF], 0xFFFFFFFFFFFFFFFF, 0⟩
      ∧ Layout.ofText? l.text = some l
      ∧ t = "\x7b \"operands\":\n[[[3], [-9223372036854775808], [], 18446744073709551615, 0, 1]], "
        ++ "\"note\": [1.5e3, \"\\u00e9\"], \"shape\": [3] \x7d\n"
      ∧ plan = ⟨[3], [⟨[3], [-0x8000000000000000], [], 0xFFFFFFFFFFFFFFFF, 0, 1⟩]⟩
      ∧ Plan.ofText? t = some plan
      ∧ Plan.ofText? plan.text = some plan
      ∧ (Plan.ofText? plan.text).map Plan.text = some plan.text := by
  let t : String :=
    "\x7b \"operands\":\n[[[3], [-9223372036854775808], [], 18446744073709551615, 0, 1]], "
      ++ "\"note\": [1.5e3, \"\\u00e9\"], \"shape\": [3] \x7d\n"
  let plan : Plan := ⟨[3], [⟨[3], [-0x8000000000000000], [], 0xFFFFFFFFFFFFFFFF, 0, 1⟩]⟩
  have hread : Plan.ofText? t = some plan := by decide +kernel
  obtain ⟨hlayout, -, hplan⟩ := text_round_trips Library.standard_lawful
  exact ⟨_, t, plan, rfl, hlayout.1 _ ⟨by decide, by decide, by decide, by decide⟩, rfl, rfl, hread,
    (hplan.2 t plan hread).2⟩

end StridedArray
