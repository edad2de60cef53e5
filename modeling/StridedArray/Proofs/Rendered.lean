import StridedArray.Json.Parse
import StridedArray.Proofs.Tokens

/-!
# Reading back what was rendered

The text of a value is parsed as the value (`Json.parse?_render`), if
everything in it is kept. The tokens of a value are parsed as the value
whether it is kept or not, and any fuel from twice their number on is
enough for it.
-/

namespace StridedArray.Json

section

variable {fuel : Nat} {tokens between rest : List Token} {item : Json} {items : List Json}
  {key : Option String} {value : Json} {members : List (Option String × Json)}

/-- An opening bracket with anything but a closing one after it starts an array with items. -/
theorem parseValue_openBracket {t : Token} {ts : List Token} (ht : t ≠ .closeBracket)
    (h : parseItems fuel (t :: ts) = some (items, rest)) :
    parseValue (fuel + 1) (.openBracket :: t :: ts) = some (array items, rest) := by
  rw [parseValue, h]
  · rfl
  · exact fun _ heq => ht (List.cons.inj heq).1

/-- An item with the closing bracket after it is the last one. -/
theorem parseItems_last (h : parseValue fuel tokens = some (item, .closeBracket :: rest)) :
    parseItems (fuel + 1) tokens = some ([item], rest) := by
  rw [parseItems, h]
  rfl

/-- An item with a comma after it is followed by more. -/
theorem parseItems_more (h : parseValue fuel tokens = some (item, .comma :: between))
    (hmore : parseItems fuel between = some (items, rest)) :
    parseItems (fuel + 1) tokens = some (item :: items, rest) := by
  rw [parseItems, h]
  show (parseItems fuel between >>= _) = _
  rw [hmore]
  rfl

/-- An opening brace with a key after it starts an object with members. -/
theorem parseValue_openBrace
    (h : parseMembers fuel (.string key :: tokens) = some (members, rest)) :
    parseValue (fuel + 1) (.openBrace :: .string key :: tokens) = some (object members, rest) := by
  rw [parseValue, h]
  · rfl
  · exact nofun

/-- A member with the closing brace after it is the last one. -/
theorem parseMembers_last (h : parseValue fuel tokens = some (value, .closeBrace :: rest)) :
    parseMembers (fuel + 1) (.string key :: .colon :: tokens) = some ([(key, value)], rest) := by
  rw [parseMembers, h]
  rfl

/-- A member with a comma after it is followed by more. -/
theorem parseMembers_more (h : parseValue fuel tokens = some (value, .comma :: between))
    (hmore : parseMembers fuel between = some (members, rest)) :
    parseMembers (fuel + 1) (.string key :: .colon :: tokens)
      = some ((key, value) :: members, rest) := by
  rw [parseMembers, h]
  show (parseMembers fuel between >>= _) = _
  rw [hmore]
  rfl

end

mutual

/-- **The tokens of a value are parsed as the value**, whatever comes after them. -/
theorem parseValue_tokens : ∀ (j : Json) (fuel : Nat) (rest : List Token),
    2 * j.tokens.length ≤ fuel → parseValue fuel (j.tokens ++ rest) = some (j, rest)
  | j, 0, _, h => by
    obtain ⟨t, ts, htokens, -⟩ := exists_tokens_eq_cons j
    rw [htokens, List.length_cons] at h
    omega
  | null, _ + 1, _, _ => by
    rw [tokens]
    rfl
  | bool _, _ + 1, _, _ => by
    rw [tokens]
    rfl
  | number _, _ + 1, _, _ => by
    rw [tokens]
    rfl
  | string _, _ + 1, _, _ => by
    rw [tokens]
    rfl
  | array [], _ + 1, _, _ => by
    rw [tokens, itemTokens]
    rfl
  | array (item :: items), fuel + 1, rest, h => by
    rw [tokens, List.length_cons] at h
    have hitems := parseItems_tokens item items fuel rest (by omega)
    obtain ⟨t, ts, htokens, ht⟩ := exists_itemTokens_eq_cons item items
    rw [tokens]
    rw [htokens] at hitems ⊢
    exact parseValue_openBracket ht hitems
  | object [], _ + 1, _, _ => by
    rw [tokens, memberTokens]
    rfl
  | object (member :: members), fuel + 1, rest, h => by
    rw [tokens, List.length_cons] at h
    have hmembers := parseMembers_tokens member members fuel rest (by omega)
    obtain ⟨ts, htokens⟩ := exists_memberTokens_eq_cons member members
    rw [tokens]
    rw [htokens] at hmembers ⊢
    exact parseValue_openBrace hmembers

/-- The tokens of items are parsed as these, up to the bracket after them. -/
theorem parseItems_tokens : ∀ (item : Json) (items : List Json) (fuel : Nat) (rest : List Token),
    2 * (itemTokens (item :: items)).length ≤ fuel →
    parseItems fuel (itemTokens (item :: items) ++ rest) = some (item :: items, rest)
  | last, [], fuel, rest, h => by
    rw [itemTokens, List.length_append, List.length_singleton] at h
    obtain ⟨fuel, rfl⟩ : ∃ n, fuel = n + 1 := ⟨fuel - 1, by omega⟩
    rw [itemTokens, List.append_assoc]
    exact parseItems_last (parseValue_tokens last fuel _ (by omega))
  | item, next :: items, fuel, rest, h => by
    rw [itemTokens_cons_cons, List.length_append, List.length_cons] at h
    obtain ⟨fuel, rfl⟩ : ∃ n, fuel = n + 1 := ⟨fuel - 1, by omega⟩
    rw [itemTokens_cons_cons, List.append_assoc]
    exact parseItems_more (parseValue_tokens item fuel _ (by omega))
      (parseItems_tokens next items fuel rest (by omega))

/-- The tokens of members are parsed as these, up to the brace after them. -/
theorem parseMembers_tokens : ∀ (member : Option String × Json)
    (members : List (Option String × Json)) (fuel : Nat) (rest : List Token),
    2 * (memberTokens (member :: members)).length ≤ fuel →
    parseMembers fuel (memberTokens (member :: members) ++ rest) = some (member :: members, rest)
  | (key, value), [], fuel, rest, h => by
    rw [memberTokens] at h ⊢
    simp only [List.length_append, List.length_cons, List.length_nil] at h
    obtain ⟨fuel, rfl⟩ : ∃ n, fuel = n + 1 := ⟨fuel - 1, by omega⟩
    simp only [List.cons_append, List.append_assoc]
    exact parseMembers_last (parseValue_tokens value fuel _ (by omega))
  | (key, value), next :: members, fuel, rest, h => by
    rw [memberTokens_cons_cons] at h ⊢
    simp only [List.length_append, List.length_cons] at h
    obtain ⟨fuel, rfl⟩ : ∃ n, fuel = n + 1 := ⟨fuel - 1, by omega⟩
    simp only [List.cons_append, List.append_assoc]
    exact parseMembers_more (parseValue_tokens value fuel _ (by omega))
      (parseMembers_tokens next members fuel rest (by omega))

end

/-- **The text of a value is parsed as the value**, if everything in the value is kept. -/
theorem parse?_render {j : Json} (h : j.Kept) : parse? j.render = some j := by
  have hparse := parseValue_tokens j (2 * j.tokens.length + 1) [] (Nat.le_succ _)
  rw [List.append_nil] at hparse
  rw [parse?, render, String.toList_ofList, scan_chars h]
  show ofTokens? j.tokens = some j
  rw [ofTokens?, hparse]

end StridedArray.Json
