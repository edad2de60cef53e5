import StridedArray.Json

/-!
# JSON tokens

The text of a JSON value is a sequence of **tokens** with blanks between
them. `Token.scan` splits a text into its tokens, if it has any such
sequence. Blanks are the space, the tab, the line feed and the carriage
return, and no others.

A number has an integer part without superfluous zeros, and then perhaps
a fraction and an exponent, each with at least one digit. A string holds
no control characters; its escapes are the eight of one letter and the
four hexadecimal digits of a UTF-16 code unit. Two such code units in a
row that form a surrogate pair are one character; half a pair is no text
at all.
-/

namespace StridedArray.Json

/-- **A token** of the text of a value. -/
inductive Token where
  | openBrace
  | closeBrace
  | openBracket
  | closeBracket
  | comma
  | colon
  | null
  | bool (value : Bool)
  | number (value : Option Int)
  | string (value : Option String)
deriving DecidableEq, Repr

namespace Token

/-! ## Numbers -/

/-- The digits at the front of a text and what comes after them. -/
def digits (cs : List Char) : List Char × List Char :=
  (cs.takeWhile Char.isDigit, cs.dropWhile Char.isDigit)

/-- The integer part at the front of a text: a zero or digits that do not start with one. A zero
with a digit after it is no number. -/
def integerPart (cs : List Char) : Option (List Char × List Char) :=
  match digits cs with
  | ([], _) => none
  | (['0'], rest) => some (['0'], rest)
  | ('0' :: _, _) => none
  | (ds, rest) => some (ds, rest)

/-- What comes after at least one digit. -/
def skipDigits (cs : List Char) : Option (List Char) :=
  match digits cs with
  | ([], _) => none
  | (_, rest) => some rest

/-- What comes after a fraction, if there is one, and whether there is one. -/
def skipFraction : List Char → Option (Bool × List Char)
  | '.' :: rest => (skipDigits rest).map (true, ·)
  | cs => some (false, cs)

/-- What comes after the sign of an exponent, if there is one. -/
def skipSign : List Char → List Char
  | '+' :: rest | '-' :: rest => rest
  | cs => cs

/-- What comes after an exponent, if there is one, and whether there is one. -/
def skipExponent : List Char → Option (Bool × List Char)
  | 'e' :: rest | 'E' :: rest => (skipDigits (skipSign rest)).map (true, ·)
  | cs => some (false, cs)

/-- The integer with a sign and digits. There is no integer for minus zero. -/
def signedValue (negative : Bool) (ds : List Char) : Option Int :=
  let n := Nat.ofDigitChars 10 ds 0
  if negative then if n = 0 then none else some (-n) else some n

/-- **The number at the front of a text**, after its sign, and what comes after it. -/
def scanNumber (negative : Bool) (cs : List Char) : Option (Option Int × List Char) := do
  let (ds, rest) ← integerPart cs
  let (hasFraction, rest) ← skipFraction rest
  let (hasExponent, rest) ← skipExponent rest
  return (if hasFraction || hasExponent then none else signedValue negative ds, rest)

/-! ## Strings -/

/-- **What a string is made of**: characters that stand for themselves, and escaped UTF-16 code
units. -/
inductive StringUnit where
  | char (c : Char)
  | codeUnit (u : Nat)
deriving DecidableEq, Repr

/-- The value of a hexadecimal digit. -/
def hexValue (c : Char) : Option Nat :=
  if '0' ≤ c ∧ c ≤ '9' then some (c.toNat - '0'.toNat)
  else if 'a' ≤ c ∧ c ≤ 'f' then some (c.toNat - 'a'.toNat + 10)
  else if 'A' ≤ c ∧ c ≤ 'F' then some (c.toNat - 'A'.toNat + 10)
  else none

/-- The number written by four hexadecimal digits. -/
def hexUnit (a b c d : Char) : Option Nat := do
  let a ← hexValue a
  let b ← hexValue b
  let c ← hexValue c
  let d ← hexValue d
  return ((a * 16 + b) * 16 + c) * 16 + d

/-- The character that a letter after a backslash stands for. -/
def unescape : Char → Option Char
  | '"' => some '"'
  | '\\' => some '\\'
  | '/' => some '/'
  | 'b' => some '\x08'
  | 'f' => some '\x0c'
  | 'n' => some '\n'
  | 'r' => some '\r'
  | 't' => some '\t'
  | _ => none

/-- The units of a string up to its closing quotation mark, and what comes after that. -/
def stringUnits : List Char → Option (List StringUnit × List Char)
  | '"' :: rest => some ([], rest)
  | '\\' :: 'u' :: a :: b :: c :: d :: rest => do
    let u ← hexUnit a b c d
    let (units, rest) ← stringUnits rest
    return (.codeUnit u :: units, rest)
  | '\\' :: letter :: rest => do
    let c ← unescape letter
    let (units, rest) ← stringUnits rest
    return (.char c :: units, rest)
  | c :: rest =>
    if c = '\\' ∨ c.toNat < 32 then none
    else do
      let (units, rest) ← stringUnits rest
      return (.char c :: units, rest)
  | [] => none

/-- Whether a code unit is the first half of a surrogate pair. -/
def isHighSurrogate (u : Nat) : Bool :=
  0xD800 ≤ u && u < 0xDC00

/-- Whether a code unit is the second half of a surrogate pair. -/
def isLowSurrogate (u : Nat) : Bool :=
  0xDC00 ≤ u && u < 0xE000

/-- The text of the units, if they have no surrogate without its other half. -/
def joinUnits : List StringUnit → Option (List Char)
  | [] => some []
  | .char c :: rest => (joinUnits rest).map (c :: ·)
  | .codeUnit u :: rest =>
    if isHighSurrogate u then
      match rest with
      | .codeUnit v :: rest =>
        if isLowSurrogate v then
          (joinUnits rest).map
            (Char.ofNat (0x10000 + (u - 0xD800) * 0x400 + (v - 0xDC00)) :: ·)
        else none
      | _ => none
    else if isLowSurrogate u then none
    else (joinUnits rest).map (Char.ofNat u :: ·)

/-- **The string at the front of a text**, after its opening quotation mark, and what comes after
it. -/
def scanString (cs : List Char) : Option (Option String × List Char) := do
  let (units, rest) ← stringUnits cs
  return ((joinUnits units).map String.ofList, rest)

/-! ## Texts -/

/-- Whether a character is a blank between tokens. -/
def isBlank (c : Char) : Bool :=
  c = ' ' || c = '\t' || c = '\n' || c = '\r'

/-- **The token at the front of a text** that does not start with a blank, and what comes after
it. -/
def scanOne : List Char → Option (Token × List Char)
  | '\x7b' :: rest => some (openBrace, rest)
  | '\x7d' :: rest => some (closeBrace, rest)
  | '[' :: rest => some (openBracket, rest)
  | ']' :: rest => some (closeBracket, rest)
  | ',' :: rest => some (comma, rest)
  | ':' :: rest => some (colon, rest)
  | 'n' :: 'u' :: 'l' :: 'l' :: rest => some (null, rest)
  | 't' :: 'r' :: 'u' :: 'e' :: rest => some (bool true, rest)
  | 'f' :: 'a' :: 'l' :: 's' :: 'e' :: rest => some (bool false, rest)
  | '"' :: rest => (scanString rest).map fun (s, rest) => (string s, rest)
  | '-' :: rest => (scanNumber true rest).map fun (n, rest) => (number n, rest)
  | cs => (scanNumber false cs).map fun (n, rest) => (number n, rest)

/-- The tokens of a text, looking at no more than `fuel` tokens and blanks. -/
def scanWithin : (fuel : Nat) → List Char → Option (List Token)
  | _, [] => some []
  | 0, _ :: _ => none
  | fuel + 1, c :: rest =>
    if isBlank c then scanWithin fuel rest
    else do
      let (token, rest) ← scanOne (c :: rest)
      let tokens ← scanWithin fuel rest
      return token :: tokens

/-- **The tokens of a text.** There are no more tokens and blanks than characters. -/
def scan (cs : List Char) : Option (List Token) :=
  scanWithin cs.length cs

end Token

end StridedArray.Json
