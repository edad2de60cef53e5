/-!
# JSON values

A **value** of the JSON data format. Two things are not kept. A number
is kept only if it is written as an integer; any other one is
`number none`, and so is the integer minus zero, whose sign an integer
could not hold. A string is kept only if it is text; one with half of a
surrogate pair in an escape is `string none`.

`render` writes a value without blanks. Numbers and strings that were
not kept have no text and are written as `null`. This and the functions
that read a value make up the standard library for texts
(`Json.Library.standard`).
-/

namespace StridedArray

/-- **A JSON value.** -/
inductive Json where
  | null
  | bool (value : Bool)
  /-- A number, with its value if it is written as an integer. -/
  | number (value : Option Int)
  /-- A string, with its value if it is text. -/
  | string (value : Option String)
  | array (items : List Json)
  /-- The members in the order of the text, repeated keys included. -/
  | object (members : List (Option String × Json))

namespace Json

/-- The integer `i` as a value. -/
def ofInt (i : Int) : Json :=
  number (some i)

/-- The natural number `n` as a value. -/
def ofNat (n : Nat) : Json :=
  number (some n)

/-- The text `s` as a value. -/
def ofString (s : String) : Json :=
  string (some s)

/-- The object with the given members. -/
def ofMembers (members : List (String × Json)) : Json :=
  object (members.map fun (key, value) => (some key, value))

/-! ## Reading parts of a value -/

/-- The integer that the value is. -/
def int? : Json → Option Int
  | number value => value
  | _ => none

/-- The items of the array that the value is. -/
def items? : Json → Option (List Json)
  | array items => some items
  | _ => none

/-- The members of an object, all of whose keys have to be text. -/
def textMembers? : Json → Option (List (String × Json))
  | object members => members.mapM fun (key, value) => key.map (·, value)
  | _ => none

/-- The one value under a key. A key that is missing or repeated has none. -/
def only? (members : List (String × Json)) (key : String) : Option Json :=
  match members.filter (·.1 == key) with
  | [(_, value)] => some value
  | _ => none

/-- **The values of the fields of a record**, in the order of `names`. A record is written as an
object, with further members of any kind allowed, or as an array of exactly its fields in order. -/
def fields? (names : List String) : Json → Option (List Json)
  | array items => if items.length = names.length then some items else none
  | other => do
    let members ← other.textMembers?
    names.mapM (only? members)

/-! ## Writing -/

/-- The hexadecimal digit of a number below 16. -/
def hexDigit (n : Nat) : Char :=
  Nat.digitChar n

/-- A character of a string: quotation mark and backslash get a backslash in front, and control
characters are written by their number. -/
def escape (c : Char) : List Char :=
  if c = '"' then ['\\', '"']
  else if c = '\\' then ['\\', '\\']
  else if c.toNat < 32 then
    ['\\', 'u', '0', '0', hexDigit (c.toNat / 16), hexDigit (c.toNat % 16)]
  else [c]

/-- A string between quotation marks. -/
def quote (s : String) : List Char :=
  '"' :: s.toList.flatMap escape ++ ['"']

/-- An integer in decimal digits, with a minus sign if it is negative. -/
def decimal : Int → List Char
  | .ofNat n => Nat.toDigits 10 n
  | .negSucc n => '-' :: Nat.toDigits 10 (n + 1)

mutual

/-- **The characters of a value**, without blanks. -/
def chars : Json → List Char
  | null | number none | string none => "null".toList
  | bool b => if b then "true".toList else "false".toList
  | number (some i) => decimal i
  | string (some s) => quote s
  | array items => '[' :: itemChars items
  | object members => '\x7b' :: memberChars members

/-- The characters of the items of an array, and of the bracket after them. -/
def itemChars : List Json → List Char
  | [] => [']']
  | [last] => last.chars ++ [']']
  | item :: rest => item.chars ++ ',' :: itemChars rest

/-- The characters of the members of an object, and of the brace after them. -/
def memberChars : List (Option String × Json) → List Char
  | [] => ['\x7d']
  | [(key, value)] => quote (key.getD "") ++ ':' :: value.chars ++ ['\x7d']
  | (key, value) :: rest => quote (key.getD "") ++ ':' :: value.chars ++ ',' :: memberChars rest

end

/-- **The text of a value**, without blanks. -/
def render (j : Json) : String :=
  String.ofList j.chars

end Json

end StridedArray
