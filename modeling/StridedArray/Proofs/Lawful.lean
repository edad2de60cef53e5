import Mathlib.Data.List.Forall2
import StridedArray.Json.Codec
import StridedArray.Proofs.Rendered

/-!
# Lawful libraries

What is assumed of a library for JSON texts: a value of the usual kind is
parsed from its own text, numbers are read as the words they are and never
as anything out of range, and a record is read from an object by the names
of its fields (`Json.Library.Lawful`). A library need not read texts that
are nested without end (`Json.nestingLimit`), and nothing is assumed about
numbers that are no words, strings that are no text and repeated keys
(`Json.Plain`).

The standard library is lawful (`Json.Library.standard_lawful`).
-/

namespace StridedArray.Json

/-- **A plain value**, with at most `depth` brackets and braces open at a time: numbers are machine
words, and no two members of an object have the same key. -/
inductive Plain : (depth : Nat) → Json → Prop
  | null {depth : Nat} : Plain depth null
  | bool {depth : Nat} (b : Bool) : Plain depth (bool b)
  | unsigned {depth n : Nat} (h : Word.IsUnsigned n) : Plain depth (ofNat n)
  | signed {depth : Nat} {i : Int} (h : Word.IsSigned i) : Plain depth (ofInt i)
  | text {depth : Nat} (s : String) : Plain depth (ofString s)
  | array {depth : Nat} {items : List Json} (h : ∀ item ∈ items, Plain depth item) :
    Plain (depth + 1) (array items)
  | object {depth : Nat} {members : List (String × Json)} (hkeys : (members.map Prod.fst).Nodup)
    (h : ∀ m ∈ members, Plain depth m.2) : Plain (depth + 1) (ofMembers members)

/-- The number of brackets and braces open at a time up to which every library reads a text. -/
def nestingLimit : Nat :=
  127

/-- **What a library for JSON texts is assumed to do.** -/
structure Library.Lawful (lib : Library) : Prop where
  /-- A plain value is parsed from its own text, unless it is nested too deep. -/
  parse?_render : ∀ {depth : Nat} {j : Json}, depth ≤ nestingLimit → j.Plain depth →
    lib.parse? (lib.render j) = some j
  /-- A number in range is read as an unsigned word. -/
  unsigned?_ofNat : ∀ {n : Nat}, Word.IsUnsigned n → lib.unsigned? (ofNat n) = some n
  /-- No other number is read as an unsigned word. -/
  isUnsigned_of_unsigned? : ∀ {j : Json} {n : Nat}, lib.unsigned? j = some n → Word.IsUnsigned n
  /-- A number in range is read as a signed word. -/
  signed?_ofInt : ∀ {i : Int}, Word.IsSigned i → lib.signed? (ofInt i) = some i
  /-- No other number is read as a signed word. -/
  isSigned_of_signed? : ∀ {j : Json} {i : Int}, lib.signed? j = some i → Word.IsSigned i
  /-- A list is read from an array. -/
  entries?_array : ∀ items : List Json, lib.entries? (array items) = some items
  /-- A name is read from a string. -/
  name?_ofString : ∀ s : String, lib.name? (ofString s) = some s
  /-- The fields of a record are read from the members of an object that have their names, in
  whatever order these are and whatever else there is. -/
  fields?_ofMembers : ∀ {names : List String} {members : List (String × Json)} {values : List Json},
    names.Nodup → (members.map Prod.fst).Nodup →
    List.Forall₂ (fun name value => (name, value) ∈ members) names values →
    lib.fields? names (ofMembers members) = some values

/-! ## Numbers and lists -/

theorem unsigned?_eq_some {j : Json} {n : Nat} :
    j.unsigned? = some n ↔ j.int? = some (n : Int) ∧ Word.IsUnsigned n := by
  constructor
  · intro h
    obtain ⟨i, hi, h⟩ := Option.bind_eq_some_iff.mp h
    obtain ⟨⟨hnonneg, hword⟩, h⟩ := Option.ite_none_right_eq_some.mp h
    obtain rfl := Option.some.inj h
    exact ⟨by rw [Int.toNat_of_nonneg hnonneg, hi], hword⟩
  · rintro ⟨hi, hword⟩
    refine Option.bind_eq_some_iff.mpr ⟨n, hi, ?_⟩
    rw [Int.toNat_natCast, if_pos ⟨Int.natCast_nonneg n, hword⟩]

theorem signed?_eq_some {j : Json} {i : Int} :
    j.signed? = some i ↔ j.int? = some i ∧ Word.IsSigned i := by
  constructor
  · intro h
    obtain ⟨i', hi, h⟩ := Option.bind_eq_some_iff.mp h
    obtain ⟨hword, h⟩ := Option.ite_none_right_eq_some.mp h
    obtain rfl := Option.some.inj h
    exact ⟨hi, hword⟩
  · rintro ⟨hi, hword⟩
    exact Option.bind_eq_some_iff.mpr ⟨i, hi, if_pos hword⟩

/-- Reading every entry of a list. -/
theorem mapM_eq_some {β γ : Type} {f : β → Option γ} {xs : List β} {ys : List γ} :
    xs.mapM f = some ys ↔ List.Forall₂ (fun x y => f x = some y) xs ys := by
  induction xs generalizing ys with
  | nil =>
    rw [List.mapM_nil, List.forall₂_nil_left_iff]
    exact ⟨fun h => (Option.some.inj h).symm, fun h => h ▸ rfl⟩
  | cons x xs ih =>
    rw [List.mapM_cons, List.forall₂_cons_left_iff]
    constructor
    · intro h
      obtain ⟨y, hy, h⟩ := Option.bind_eq_some_iff.mp h
      obtain ⟨rest, hrest, h⟩ := Option.bind_eq_some_iff.mp h
      exact ⟨y, rest, hy, ih.mp hrest, (Option.some.inj h).symm⟩
    · rintro ⟨y, rest, hy, hrest, rfl⟩
      exact Option.bind_eq_some_iff.mpr
        ⟨y, hy, Option.bind_eq_some_iff.mpr ⟨rest, ih.mpr hrest, rfl⟩⟩

/-! ## Records -/

/-- Members with different keys are found by their keys. -/
theorem only?_of_mem {members : List (String × Json)} {key : String} {value : Json}
    (hkeys : (members.map Prod.fst).Nodup) (h : (key, value) ∈ members) :
    only? members key = some value := by
  have hfilter : members.filter (·.1 == key) = [(key, value)] := by
    induction members with
    | nil => exact absurd h List.not_mem_nil
    | cons m members ih =>
      obtain ⟨hfresh, hkeys⟩ := List.nodup_cons.mp hkeys
      rcases List.mem_cons.mp h with rfl | h
      · have hnone : members.filter (·.1 == key) = [] := by
          rw [List.filter_eq_nil_iff]
          rintro m hm heq
          exact hfresh (List.mem_map.mpr ⟨m, hm, eq_of_beq heq⟩)
        rw [List.filter_cons_of_pos (by exact beq_self_eq_true key), hnone]
      · have hne : m.1 ≠ key := fun heq =>
          hfresh (List.mem_map.mpr ⟨(key, value), h, heq.symm⟩)
        rw [List.filter_cons_of_neg (by simpa using hne), ih hkeys h]
  rw [only?, hfilter]

/-- **The fields of a record are read** from an object with these among its members, as long as no
two have the same key. -/
theorem fields?_ofMembers {names : List String} {members : List (String × Json)}
    {values : List Json} (hkeys : (members.map Prod.fst).Nodup)
    (h : List.Forall₂ (fun name value => (name, value) ∈ members) names values) :
    (ofMembers members).fields? names = some values := by
  have htext : (ofMembers members).textMembers? = some members := by
    show (members.map _).mapM _ = _
    rw [mapM_eq_some, List.forall₂_map_left_iff, List.forall₂_same]
    exact fun _ _ => rfl
  show ((ofMembers members).textMembers? >>= fun members => names.mapM (only? members))
    = some values
  rw [htext]
  show names.mapM (only? members) = some values
  rw [mapM_eq_some]
  exact h.imp fun _ _ hmem => only?_of_mem hkeys hmem

/-! ## The standard library -/

/-- Everything in a plain value is kept. -/
theorem Plain.kept {depth : Nat} {j : Json} (h : j.Plain depth) : j.Kept := by
  induction h with
  | null => trivial
  | bool => trivial
  | unsigned => rfl
  | signed => rfl
  | text => rfl
  | array _ ih => exact keptItems_iff.mpr ih
  | object _ _ ih =>
    exact keptMembers_iff.mpr (List.forall_mem_map.mpr fun m hm => ⟨rfl, ih m hm⟩)

/-- **The standard library is lawful.** It reads texts nested as deep as they come. -/
theorem Library.standard_lawful : standard.Lawful where
  parse?_render _ h := Json.parse?_render h.kept
  unsigned?_ofNat h := unsigned?_eq_some.mpr ⟨rfl, h⟩
  isUnsigned_of_unsigned? h := (unsigned?_eq_some.mp h).2
  signed?_ofInt h := signed?_eq_some.mpr ⟨rfl, h⟩
  isSigned_of_signed? h := (signed?_eq_some.mp h).2
  entries?_array _ := rfl
  name?_ofString _ := rfl
  fields?_ofMembers _ hkeys h := Json.fields?_ofMembers hkeys h

end StridedArray.Json
