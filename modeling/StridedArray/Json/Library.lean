import StridedArray.Json

/-!
# Libraries for JSON texts

Writing and reading texts is left to a **library**. It renders values and
parses texts, and it says how a value is read where something of a given
kind is wanted: a machine word, a list, a name out of several, or a
record of named fields.

What has a form as a value is written by rendering the form
(`Library.write`), and read by parsing the text and then reading the value
(`Library.read?`).
-/

namespace StridedArray.Json

/-- **A library for JSON texts.** -/
structure Library where
  /-- The text of a value. -/
  render : Json → String
  /-- The value of a text. -/
  parse? : String → Option Json
  /-- The unsigned word that a value is. -/
  unsigned? : Json → Option Nat
  /-- The signed word that a value is. -/
  signed? : Json → Option Int
  /-- The entries of the list that a value is. -/
  entries? : Json → Option (List Json)
  /-- The name that a value is, where one out of several is wanted. -/
  name? : Json → Option String
  /-- The values of the fields of the record that a value is, in the order of the names given. -/
  fields? : List String → Json → Option (List Json)

namespace Library

variable (lib : Library) {α : Type}

/-- The list that a value is, given how its entries are read. -/
def list? (item? : Json → Option α) (j : Json) : Option (List α) := do
  let entries ← lib.entries? j
  entries.mapM item?

/-- **The text of what has a form as a value.** -/
def write (toJson : α → Json) (x : α) : String :=
  lib.render (toJson x)

/-- **What a text stands for**, given how it is read from a value. -/
def read? (ofJson? : Json → Option α) (text : String) : Option α := do
  let j ← lib.parse? text
  ofJson? j

end Library

end StridedArray.Json
