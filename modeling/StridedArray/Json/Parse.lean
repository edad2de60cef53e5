import StridedArray.Json.Token

/-!
# Reading JSON texts

`Json.parse?` is the value of a text. A text holds one value and nothing
else besides blanks. Items and members are separated by single commas,
with no comma after the last.

The parser goes down one level of its fuel with every item, member and
bracket. A text has fewer of these than twice its tokens.
-/

namespace StridedArray.Json

mutual

/-- The value at the front of the tokens, and the tokens after it. -/
def parseValue : (fuel : Nat) → List Token → Option (Json × List Token)
  | _ + 1, .null :: rest => some (null, rest)
  | _ + 1, .bool b :: rest => some (bool b, rest)
  | _ + 1, .number n :: rest => some (number n, rest)
  | _ + 1, .string s :: rest => some (string s, rest)
  | _ + 1, .openBracket :: .closeBracket :: rest => some (array [], rest)
  | fuel + 1, .openBracket :: rest => do
    let (items, rest) ← parseItems fuel rest
    return (array items, rest)
  | _ + 1, .openBrace :: .closeBrace :: rest => some (object [], rest)
  | fuel + 1, .openBrace :: rest => do
    let (members, rest) ← parseMembers fuel rest
    return (object members, rest)
  | _, _ => none

/-- The items of an array, of which there is at least one, up to the closing bracket. -/
def parseItems : (fuel : Nat) → List Token → Option (List Json × List Token)
  | fuel + 1, tokens => do
    let (item, rest) ← parseValue fuel tokens
    match rest with
    | .comma :: rest =>
      let (items, rest) ← parseItems fuel rest
      return (item :: items, rest)
    | .closeBracket :: rest => return ([item], rest)
    | _ => none
  | 0, _ => none

/-- The members of an object, of which there is at least one, up to the closing brace. -/
def parseMembers : (fuel : Nat) → List Token → Option (List (Option String × Json) × List Token)
  | fuel + 1, .string key :: .colon :: rest => do
    let (value, rest) ← parseValue fuel rest
    match rest with
    | .comma :: rest =>
      let (members, rest) ← parseMembers fuel rest
      return ((key, value) :: members, rest)
    | .closeBrace :: rest => return ([(key, value)], rest)
    | _ => none
  | _, _ => none

end

/-- The value that the tokens make up. -/
def ofTokens? (tokens : List Token) : Option Json :=
  match parseValue (2 * tokens.length + 1) tokens with
  | some (value, []) => some value
  | _ => none

/-- **The value of a text.** -/
def parse? (text : String) : Option Json := do
  let tokens ← Token.scan text.toList
  ofTokens? tokens

end StridedArray.Json
