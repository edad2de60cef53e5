import StridedArray.Json.Token

/-!
# The tokens of a rendered value

What is written for a value is read back as the tokens of the value
(`Json.scan_chars`), as long as everything in it is kept. Integers come
back with their sign, from any number of digits, and strings with every
character, however it was escaped. A number has no mark at its end, so what
is said of it is said of a text in which it does not go on
(`Json.Token.Ends`).
-/

namespace StridedArray.Json

namespace Token

/-! ## Numbers -/

/-- **No number goes on here.** -/
def Ends (cs : List Char) : Prop :=
  ∀ c ∈ cs.head?, c.isDigit = false ∧ c ≠ '.' ∧ c ≠ 'e' ∧ c ≠ 'E'

theorem ends_cons {c : Char} {cs : List Char}
    (h : c.isDigit = false ∧ c ≠ '.' ∧ c ≠ 'e' ∧ c ≠ 'E') : Ends (c :: cs) :=
  fun _ hd => Option.some.inj hd ▸ h

/-- The digits of a number are read up to its end. -/
theorem digits_append {ds rest : List Char} (hds : ∀ c ∈ ds, c.isDigit) (hrest : Ends rest) :
    digits (ds ++ rest) = (ds, rest) := by
  have hstop : rest.takeWhile Char.isDigit = [] ∧ rest.dropWhile Char.isDigit = rest := by
    cases rest with
    | nil => exact ⟨rfl, rfl⟩
    | cons c rest =>
      have hc := (hrest c rfl).1
      exact ⟨List.takeWhile_cons_of_neg (by simp [hc]), List.dropWhile_cons_of_neg (by simp [hc])⟩
  rw [digits, List.takeWhile_append_of_pos hds, List.dropWhile_append_of_pos hds, hstop.1, hstop.2,
    List.append_nil]

/-- A number has digits, of which the first is no zero if the number is positive. -/
theorem exists_toDigits_eq_cons (n : Nat) :
    ∃ d ds, Nat.toDigits 10 n = d :: ds ∧ d.isDigit ∧ (0 < n → d ≠ '0') := by
  have hsmall : ∀ n < 10, (Nat.digitChar n).isDigit ∧ (0 < n → Nat.digitChar n ≠ '0') := by decide
  induction n using Nat.strongRecOn with
  | ind n ih =>
    rcases Nat.lt_or_ge n 10 with hn | hn
    · exact ⟨_, [], Nat.toDigits_of_lt_base hn, hsmall n hn⟩
    · obtain ⟨d, ds, hdigits, hd, hzero⟩ := ih (n / 10) (by omega)
      exact ⟨d, _, by rw [Nat.toDigits_of_base_le (by decide) hn, hdigits, List.cons_append], hd,
        fun _ => hzero (by omega)⟩

/-- **A natural number is an integer part.** -/
theorem integerPart_toDigits (n : Nat) {rest : List Char} (hrest : Ends rest) :
    integerPart (Nat.toDigits 10 n ++ rest) = some (Nat.toDigits 10 n, rest) := by
  have hds : ∀ c ∈ Nat.toDigits 10 n, c.isDigit := fun c hc =>
    Nat.isDigit_of_mem_toDigits (by decide) (by decide) hc
  rw [integerPart, digits_append hds hrest]
  rcases Nat.eq_zero_or_pos n with rfl | hn
  · rfl
  · obtain ⟨d, ds, hdigits, -, hzero⟩ := exists_toDigits_eq_cons n
    rw [hdigits]
    cases ds <;> simp [hzero hn]

/-- No fraction and no exponent follows the end of a number. -/
theorem skip_of_ends {rest : List Char} (h : Ends rest) :
    skipFraction rest = some (false, rest) ∧ skipExponent rest = some (false, rest) := by
  cases rest with
  | nil => exact ⟨rfl, rfl⟩
  | cons c rest =>
    obtain ⟨-, hpoint, he, hE⟩ := h c rfl
    constructor
    · rw [skipFraction]
      simp [hpoint]
    · rw [skipExponent]
      · simp [he]
      · simp [hE]

/-- **The digits of a natural number are read as that number**, with the sign before them. -/
theorem scanNumber_toDigits (negative : Bool) (n : Nat) {rest : List Char} (hrest : Ends rest) :
    scanNumber negative (Nat.toDigits 10 n ++ rest)
      = some (if negative then if n = 0 then none else some (-(n : Int)) else some (n : Int),
        rest) := by
  obtain ⟨hfraction, hexponent⟩ := skip_of_ends hrest
  rw [scanNumber, integerPart_toDigits n hrest]
  show (skipFraction rest >>= _) = _
  rw [hfraction]
  show (skipExponent rest >>= _) = _
  rw [hexponent]
  show some (signedValue negative (Nat.toDigits 10 n), rest) = _
  rw [signedValue, Nat.ofDigitChars_toDigits (by decide) (by decide)]

/-- What starts with a digit is a number. -/
theorem scanOne_of_isDigit {d : Char} {cs : List Char} (hd : d.isDigit) :
    scanOne (d :: cs) = (scanNumber false (d :: cs)).map fun (n, rest) => (number n, rest) := by
  unfold scanOne
  split
  case h_12 => rfl
  -- no other token starts with a digit
  all_goals
    next heq =>
      obtain ⟨rfl, -⟩ := List.cons.inj heq
      exact absurd hd (by decide)

/-- **An integer is read as itself**: its digits, after its sign. -/
theorem scanOne_decimal (i : Int) {rest : List Char} (hrest : Ends rest) :
    scanOne (decimal i ++ rest) = some (number (some i), rest) := by
  cases i with
  | ofNat n =>
    obtain ⟨d, ds, hdigits, hd, -⟩ := exists_toDigits_eq_cons n
    have hscan := scanNumber_toDigits false n hrest
    rw [decimal, hdigits, List.cons_append, scanOne_of_isDigit hd, ← List.cons_append, ← hdigits,
      hscan]
    rfl
  | negSucc n =>
    show (scanNumber true (Nat.toDigits 10 (n + 1) ++ rest)).map _ = _
    rw [scanNumber_toDigits true (n + 1) hrest]
    rfl

/-! ## Strings -/

/-- The unit that a character of a string is written as. -/
def unitOf (c : Char) : StringUnit :=
  if c.toNat < 32 then .codeUnit c.toNat else .char c

/-- Two hexadecimal digits are enough for a control character. -/
theorem hexUnit_hexDigit {n : Nat} (h : n < 32) :
    hexUnit '0' '0' (hexDigit (n / 16)) (hexDigit (n % 16)) = some n := by
  revert n
  decide

/-- **An escaped character is read as its unit.** -/
theorem stringUnits_escape (c : Char) (cs : List Char) :
    stringUnits (escape c ++ cs)
      = (stringUnits cs).map fun (units, rest) => (unitOf c :: units, rest) := by
  by_cases hquote : c = '"'
  · subst hquote
    show stringUnits ('\\' :: '"' :: cs) = _
    rw [stringUnits]
    · cases stringUnits cs <;> rfl
    · exact nofun
  by_cases hbackslash : c = '\\'
  · subst hbackslash
    show stringUnits ('\\' :: '\\' :: cs) = _
    rw [stringUnits]
    · cases stringUnits cs <;> rfl
    · exact nofun
  rw [escape, if_neg hquote, if_neg hbackslash]
  by_cases hcontrol : c.toNat < 32
  · rw [if_pos hcontrol]
    show stringUnits ('\\' :: 'u' :: '0' :: '0' :: hexDigit (c.toNat / 16)
      :: hexDigit (c.toNat % 16) :: cs) = _
    rw [stringUnits, hexUnit_hexDigit hcontrol, unitOf, if_pos hcontrol]
    cases stringUnits cs <;> rfl
  · rw [if_neg hcontrol, unitOf, if_neg hcontrol, List.singleton_append, stringUnits]
    · rw [if_neg (not_or.mpr ⟨hbackslash, hcontrol⟩)]
      cases stringUnits cs <;> rfl
    · exact hquote
    · exact fun _ _ _ _ _ h => absurd h hbackslash
    · exact fun _ _ h => absurd h hbackslash

/-- A code unit that is no half of a surrogate pair is a character. -/
theorem joinUnits_codeUnit {u : Nat} (h : u < 0xD800) (rest : List StringUnit) :
    joinUnits (.codeUnit u :: rest) = (joinUnits rest).map (Char.ofNat u :: ·) := by
  have hhigh : isHighSurrogate u = false := by
    rw [isHighSurrogate, decide_eq_false (by omega), Bool.false_and]
  have hlow : isLowSurrogate u = false := by
    rw [isLowSurrogate, decide_eq_false (by omega), Bool.false_and]
  rw [joinUnits.eq_def]
  simp only [hhigh, hlow, Bool.false_eq_true, if_false]

/-- **The characters of a string come back from its units.** -/
theorem joinUnits_map_unitOf (cs : List Char) : joinUnits (cs.map unitOf) = some cs := by
  induction cs with
  | nil => rfl
  | cons c cs ih =>
    rw [List.map_cons, unitOf]
    split
    · rw [joinUnits_codeUnit (by omega), ih, Char.ofNat_toNat]
      rfl
    · rw [joinUnits, ih]
      rfl

/-- **A string is read as itself.** -/
theorem scanOne_quote (s : String) (rest : List Char) :
    scanOne (quote s ++ rest) = some (string (some s), rest) := by
  have hunits : ∀ cs : List Char, stringUnits (cs.flatMap escape ++ '"' :: rest)
      = some (cs.map unitOf, rest) := by
    intro cs
    induction cs with
    | nil => rfl
    | cons c cs ih =>
      rw [List.flatMap_cons, List.append_assoc, stringUnits_escape, ih]
      rfl
  rw [quote, List.cons_append, List.cons_append, List.append_assoc]
  show (scanString (s.toList.flatMap escape ++ '"' :: rest)).map _ = _
  rw [scanString, hunits]
  show some (string ((joinUnits (s.toList.map unitOf)).map String.ofList), rest) = _
  rw [joinUnits_map_unitOf, Option.map_some, String.ofList_toList]

/-! ## Texts -/

/-- A digit is no blank. -/
theorem isBlank_of_isDigit {c : Char} (hc : c.isDigit) : isBlank c = false := by
  simp only [isBlank, Bool.or_eq_false_iff, decide_eq_false_iff_not]
  refine ⟨⟨⟨?_, ?_⟩, ?_⟩, ?_⟩ <;>
    · rintro rfl
      exact absurd hc (by decide)

/-- **The characters spell the tokens** one after the other, without blanks between them. -/
inductive Spelled : List Char → List Token → Prop
  /-- Nothing spells no token. -/
  | nil : Spelled [] []
  /-- A token in front of others. -/
  | cons {c : Char} {front cs : List Char} {t : Token} {ts : List Token} (hc : isBlank c = false)
    (ht : scanOne (c :: (front ++ cs)) = some (t, cs)) (hcs : Spelled cs ts) :
    Spelled (c :: (front ++ cs)) (t :: ts)

namespace Spelled

variable {cs : List Char} {ts : List Token}

/-- **What is spelled is scanned.** -/
theorem scan_eq (h : Spelled cs ts) : scan cs = some ts := by
  have hwithin : ∀ fuel, cs.length ≤ fuel → scanWithin fuel cs = some ts := by
    induction h with
    | nil =>
      intro fuel _
      rw [scanWithin]
    | @cons c front cs t ts hc ht _ ih =>
      intro fuel hfuel
      rw [List.length_cons, List.length_append] at hfuel
      obtain ⟨fuel, rfl⟩ : ∃ n, fuel = n + 1 := ⟨fuel - 1, by omega⟩
      rw [scanWithin, if_neg (by simp [hc]), ht]
      show (scanWithin fuel cs >>= _) = _
      rw [ih fuel (by omega)]
      rfl
  exact hwithin _ (Nat.le_refl _)

/-- A token of one character. -/
theorem mark {c : Char} {t : Token} (hc : isBlank c = false)
    (ht : ∀ rest, scanOne (c :: rest) = some (t, rest)) (h : Spelled cs ts) :
    Spelled (c :: cs) (t :: ts) :=
  @cons c [] cs t ts hc (ht cs) h

/-- An integer, where no number goes on after it. -/
theorem decimal (i : Int) (hends : Ends cs) (h : Spelled cs ts) :
    Spelled (decimal i ++ cs) (number (some i) :: ts) := by
  have hscan := scanOne_decimal i hends
  have hfront : ∃ c front, Json.decimal i = c :: front ∧ isBlank c = false := by
    cases i with
    | ofNat n =>
      obtain ⟨d, ds, hdigits, hd, -⟩ := exists_toDigits_eq_cons n
      exact ⟨d, ds, hdigits, isBlank_of_isDigit hd⟩
    | negSucc n => exact ⟨'-', _, rfl, rfl⟩
  obtain ⟨c, front, hfront, hc⟩ := hfront
  rw [hfront, List.cons_append] at hscan ⊢
  exact .cons hc hscan h

/-- A string. -/
theorem quote (s : String) (h : Spelled cs ts) : Spelled (quote s ++ cs) (string (some s) :: ts) :=
  .cons rfl (scanOne_quote s cs) h

end Spelled

end Token

/-! ## Values -/

mutual

/-- **The tokens of a value.** -/
def tokens : Json → List Token
  | null => [.null]
  | bool b => [.bool b]
  | number value => [.number value]
  | string value => [.string value]
  | array items => .openBracket :: itemTokens items
  | object members => .openBrace :: memberTokens members

/-- The tokens of the items of an array, and of the bracket after them. -/
def itemTokens : List Json → List Token
  | [] => [.closeBracket]
  | [last] => last.tokens ++ [.closeBracket]
  | item :: rest => item.tokens ++ .comma :: itemTokens rest

/-- The tokens of the members of an object, and of the brace after them. -/
def memberTokens : List (Option String × Json) → List Token
  | [] => [.closeBrace]
  | [(key, value)] => .string key :: .colon :: value.tokens ++ [.closeBrace]
  | (key, value) :: rest => .string key :: .colon :: value.tokens ++ .comma :: memberTokens rest

end

/-- Items with more than one left. -/
theorem itemTokens_cons_cons (item next : Json) (rest : List Json) :
    itemTokens (item :: next :: rest) = item.tokens ++ .comma :: itemTokens (next :: rest) := by
  rw [itemTokens]
  exact nofun

/-- Members with more than one left. -/
theorem memberTokens_cons_cons (key : Option String) (value : Json) (next : Option String × Json)
    (rest : List (Option String × Json)) :
    memberTokens ((key, value) :: next :: rest)
      = .string key :: .colon :: value.tokens ++ .comma :: memberTokens (next :: rest) := by
  rw [memberTokens]
  exact nofun

/-- There is a token of a value, and it is no closing bracket. -/
theorem exists_tokens_eq_cons (j : Json) :
    ∃ t ts, j.tokens = t :: ts ∧ t ≠ .closeBracket := by
  cases j <;> (rw [tokens]; exact ⟨_, _, rfl, nofun⟩)

/-- Neither do the tokens of items start with a closing bracket, if there are items. -/
theorem exists_itemTokens_eq_cons (item : Json) (items : List Json) :
    ∃ t ts, itemTokens (item :: items) = t :: ts ∧ t ≠ .closeBracket := by
  obtain ⟨t, ts, htokens, ht⟩ := exists_tokens_eq_cons item
  cases items with
  | nil => exact ⟨t, _, by rw [itemTokens, htokens, List.cons_append], ht⟩
  | cons next items => exact ⟨t, _, by rw [itemTokens_cons_cons, htokens, List.cons_append], ht⟩

/-- The tokens of members start with the key of the first one. -/
theorem exists_memberTokens_eq_cons (member : Option String × Json)
    (members : List (Option String × Json)) :
    ∃ ts, memberTokens (member :: members) = .string member.1 :: ts := by
  cases members with
  | nil => exact ⟨_, by rw [memberTokens]; rfl⟩
  | cons next members => exact ⟨_, by rw [memberTokens_cons_cons]; rfl⟩

mutual

/-- **Whether everything in the value is kept**, so that its text says all of it. -/
def Kept : Json → Prop
  | null | bool _ => True
  | number value => value.isSome
  | string value => value.isSome
  | array items => KeptItems items
  | object members => KeptMembers members

/-- Whether everything in the items is kept. -/
def KeptItems : List Json → Prop
  | [] => True
  | item :: rest => item.Kept ∧ KeptItems rest

/-- Whether everything in the members is kept. -/
def KeptMembers : List (Option String × Json) → Prop
  | [] => True
  | (key, value) :: rest => key.isSome ∧ value.Kept ∧ KeptMembers rest

end

theorem keptItems_iff {items : List Json} : KeptItems items ↔ ∀ j ∈ items, j.Kept := by
  induction items with
  | nil => exact ⟨fun _ => nofun, fun _ => trivial⟩
  | cons item items ih => rw [KeptItems, ih, List.forall_mem_cons]

theorem keptMembers_iff {members : List (Option String × Json)} :
    KeptMembers members ↔ ∀ m ∈ members, m.1.isSome ∧ m.2.Kept := by
  induction members with
  | nil => exact ⟨fun _ => nofun, fun _ => trivial⟩
  | cons member members ih => rw [KeptMembers, ih, List.forall_mem_cons, and_assoc]

open Token

mutual

/-- **The text of a value spells its tokens**, in front of a text that spells others. Only after a
number does it matter how that text starts. -/
theorem spelled_chars : ∀ (j : Json) {cs : List Char} {ts : List Token}, j.Kept → Ends cs →
    Spelled cs ts → Spelled (j.chars ++ cs) (j.tokens ++ ts)
  | null, cs, ts, _, _, h => by
    rw [chars, tokens]
    exact @Spelled.cons 'n' ['u', 'l', 'l'] cs _ ts rfl rfl h
  | bool true, cs, ts, _, _, h => by
    rw [chars, tokens]
    exact @Spelled.cons 't' ['r', 'u', 'e'] cs _ ts rfl rfl h
  | bool false, cs, ts, _, _, h => by
    rw [chars, tokens]
    exact @Spelled.cons 'f' ['a', 'l', 's', 'e'] cs _ ts rfl rfl h
  | number (some i), cs, ts, _, hends, h => by
    rw [chars, tokens]
    exact .decimal i hends h
  | string (some s), cs, ts, _, _, h => by
    rw [chars, tokens]
    exact .quote s h
  | array items, cs, ts, hkept, _, h => by
    rw [chars, tokens]
    exact .mark rfl (fun _ => rfl) (spelled_itemChars items hkept h)
  | object members, cs, ts, hkept, _, h => by
    rw [chars, tokens]
    exact .mark rfl (fun _ => rfl) (spelled_memberChars members hkept h)

/-- The text of items spells their tokens. Every item has a comma or a bracket after it. -/
theorem spelled_itemChars : ∀ (items : List Json) {cs : List Char} {ts : List Token},
    KeptItems items → Spelled cs ts → Spelled (itemChars items ++ cs) (itemTokens items ++ ts)
  | [], cs, ts, _, h => by
    rw [itemChars, itemTokens]
    exact .mark rfl (fun _ => rfl) h
  | [last], cs, ts, hkept, h => by
    rw [itemChars, itemTokens, List.append_assoc, List.append_assoc]
    exact spelled_chars last hkept.1 (ends_cons (by decide)) (.mark rfl (fun _ => rfl) h)
  | item :: next :: rest, cs, ts, hkept, h => by
    have hrest := spelled_itemChars (next :: rest) hkept.2 h
    rw [itemChars, itemTokens, List.append_assoc, List.append_assoc]
    · exact spelled_chars item hkept.1 (ends_cons (by decide)) (.mark rfl (fun _ => rfl) hrest)
    all_goals exact nofun

/-- The text of members spells their tokens. Every member has a comma or a brace after it. -/
theorem spelled_memberChars : ∀ (members : List (Option String × Json)) {cs : List Char}
    {ts : List Token}, KeptMembers members → Spelled cs ts →
    Spelled (memberChars members ++ cs) (memberTokens members ++ ts)
  | [], cs, ts, _, h => by
    rw [memberChars, memberTokens]
    exact .mark rfl (fun _ => rfl) h
  | [(some key, value)], cs, ts, hkept, h => by
    rw [memberChars, memberTokens]
    simp only [List.append_assoc, List.cons_append]
    refine .quote key (.mark rfl (fun _ => rfl) ?_)
    exact spelled_chars value hkept.2.1 (ends_cons (by decide)) (.mark rfl (fun _ => rfl) h)
  | (some key, value) :: next :: rest, cs, ts, hkept, h => by
    have hrest := spelled_memberChars (next :: rest) hkept.2.2 h
    rw [memberChars, memberTokens]
    · simp only [List.append_assoc, List.cons_append]
      refine .quote key (.mark rfl (fun _ => rfl) ?_)
      exact spelled_chars value hkept.2.1 (ends_cons (by decide)) (.mark rfl (fun _ => rfl) hrest)
    all_goals exact nofun

end

/-- **The text of a value is scanned as its tokens**, if everything in the value is kept. -/
theorem scan_chars {j : Json} (h : j.Kept) : scan j.chars = some j.tokens := by
  have hspelled := @spelled_chars j [] [] h nofun .nil
  rw [List.append_nil, List.append_nil] at hspelled
  exact hspelled.scan_eq

end StridedArray.Json
