import StridedArray.Json.Library
import StridedArray.Json.Parse
import StridedArray.Route

/-!
# Text forms

Element types, layouts, routes and plans have a **text form**, a JSON
text. A record is written as an object with its fields in order. An
element type is written as its tag. Reading is up to the library: it finds
the fields of a record, and numbers have to be integers in the range of
their machine word. Nothing else is checked: the text form of a layout can
have any strides.

`Json.Library.standard` is a library that keeps to the format. `text` and
`ofText?` are the text forms that it writes and reads.
-/

namespace StridedArray

namespace Json

/-- The unsigned word that the value is. -/
def unsigned? (j : Json) : Option Nat := do
  let i ← j.int?
  if 0 ≤ i ∧ Word.IsUnsigned i.toNat then some i.toNat else none

/-- The signed word that the value is. -/
def signed? (j : Json) : Option Int := do
  let i ← j.int?
  if Word.IsSigned i then some i else none

/-- The name that the value is: a text, or the key of an object whose only member holds null. -/
def name? : Json → Option String
  | string value => value
  | object [(key, null)] => key
  | _ => none

/-- **The library that keeps to the format.** Numbers that are out of range and fields that are
missing or repeated are refused, and a text may be nested as deep as it likes. -/
def Library.standard : Library where
  render := Json.render
  parse? := Json.parse?
  unsigned? := Json.unsigned?
  signed? := Json.signed?
  entries? := Json.items?
  name? := Json.name?
  fields? := Json.fields?

/-- A list of unsigned words as a value. -/
def ofNats (ns : List Nat) : Json :=
  array (ns.map ofNat)

/-- A list of signed words as a value. -/
def ofInts (is : List Int) : Json :=
  array (is.map ofInt)

end Json

namespace ElementType

/-- The element type as a value: its tag. -/
def toJson (t : ElementType) : Json :=
  .ofString t.tag

/-- **The element type that a value stands for**, given its tag as a name. -/
def ofJson? (lib : Json.Library) (j : Json) : Option ElementType := do
  let tag ← lib.name? j
  ofTag? tag

/-- The text form of an element type. -/
def text : ElementType → String :=
  Json.Library.standard.write toJson

/-- The element type with the given text form. -/
def ofText? : String → Option ElementType :=
  Json.Library.standard.read? (ofJson? .standard)

end ElementType

namespace Layout

/-- The names of the fields in the text form. -/
def fieldNames : List String :=
  ["shape", "strides", "offset", "elements_per_item"]

/-- The layout as a value. -/
def toJson (l : Layout) : Json :=
  .ofMembers (fieldNames.zip
    [.ofNats l.shape, .ofInts l.strides, .ofNat l.offset, .ofNat l.itemSlots])

/-- **The layout that a value stands for.** -/
def ofJson? (lib : Json.Library) (j : Json) : Option Layout := do
  let [shape, strides, offset, itemSlots] ← lib.fields? fieldNames j | none
  return {
    shape := ← lib.list? lib.unsigned? shape
    strides := ← lib.list? lib.signed? strides
    offset := ← lib.unsigned? offset
    itemSlots := ← lib.unsigned? itemSlots }

/-- The text form of a layout. -/
def text : Layout → String :=
  Json.Library.standard.write toJson

/-- The layout with the given text form. -/
def ofText? : String → Option Layout :=
  Json.Library.standard.read? (ofJson? .standard)

end Layout

namespace Route

/-- The names of the fields in the text form. -/
def fieldNames : List String :=
  ["padded_shape", "strides", "deltas", "start", "max_index", "elements_per_item"]

/-- The route as a value. -/
def toJson (r : Route) : Json :=
  .ofMembers (fieldNames.zip
    [.ofNats r.extents, .ofInts r.strides, .ofInts r.rewinds, .ofNat r.start, .ofNat r.pastEnd,
      .ofNat r.itemSlots])

/-- **The route that a value stands for.** -/
def ofJson? (lib : Json.Library) (j : Json) : Option Route := do
  let [extents, strides, rewinds, start, pastEnd, itemSlots] ← lib.fields? fieldNames j | none
  return {
    extents := ← lib.list? lib.unsigned? extents
    strides := ← lib.list? lib.signed? strides
    rewinds := ← lib.list? lib.signed? rewinds
    start := ← lib.unsigned? start
    pastEnd := ← lib.unsigned? pastEnd
    itemSlots := ← lib.unsigned? itemSlots }

/-- The text form of a route. -/
def text : Route → String :=
  Json.Library.standard.write toJson

/-- The route with the given text form. -/
def ofText? : String → Option Route :=
  Json.Library.standard.read? (ofJson? .standard)

end Route

namespace Plan

/-- The names of the fields in the text form. -/
def fieldNames : List String :=
  ["shape", "operands"]

/-- The plan as a value. -/
def toJson (plan : Plan) : Json :=
  .ofMembers (fieldNames.zip [.ofNats plan.shape, .array (plan.routes.map Route.toJson)])

/-- **The plan that a value stands for.** -/
def ofJson? (lib : Json.Library) (j : Json) : Option Plan := do
  let [shape, routes] ← lib.fields? fieldNames j | none
  return {
    shape := ← lib.list? lib.unsigned? shape
    routes := ← lib.list? (Route.ofJson? lib) routes }

/-- The text form of a plan. -/
def text : Plan → String :=
  Json.Library.standard.write toJson

/-- The plan with the given text form. -/
def ofText? : String → Option Plan :=
  Json.Library.standard.read? (ofJson? .standard)

end Plan

end StridedArray
