import SyntaxTree.Json.Value
import SyntaxTree.Proofs.Spelling

/-!
# What JSON documents look like

A value has one row of tokens (`tokens`), and a text is the document of a value if it is made of these tokens
(`Written`). So a value has many documents, which differ in blanks and escapes, but a text is the document of one value
at most, and the reader finds it: `parse?_eq_some_iff` says that it reads a value off a text exactly if the text is a
document of the value.

The limits on values that are held in memory are three conditions in one (`fits_iff`): all strings spell text, all
numbers are in range, and arrays and objects do not nest too deep.
-/

namespace SyntaxTree.Json

/-! ## Tokens of values -/

mutual

/-- The tokens of a value. -/
def tokens : Json → List Token
  | null => [.null]
  | boolean value => [.boolean value]
  | number value => [.number value]
  | string text => [.string text]
  | array items => .openBracket :: itemsTokens items
  | object members => .openBrace :: membersTokens members

/-- The tokens of the items of an array, up to the closing bracket. -/
def itemsTokens : List Json → List Token
  | [] => [.closeBracket]
  | [item] => item.tokens ++ [.closeBracket]
  | item :: next :: items => item.tokens ++ .comma :: itemsTokens (next :: items)

/-- The tokens of the members of an object, up to the closing brace. -/
def membersTokens : List (Option String × Json) → List Token
  | [] => [.closeBrace]
  | [(name, value)] => .string name :: .colon :: (value.tokens ++ [.closeBrace])
  | (name, value) :: next :: members =>
    .string name :: .colon :: (value.tokens ++ .comma :: membersTokens (next :: members))

end

/-- The text is made of the tokens of the value, with any blanks between them and any way to write each of them. -/
def Written (json : Json) (text : String) : Prop :=
  Row json.tokens text.toList

/-- A value does not begin with what ends an array. -/
theorem exists_tokens_eq (json : Json) : ∃ token rest, json.tokens = token :: rest ∧ token ≠ .closeBracket := by
  cases json <;> exact ⟨_, _, by rw [tokens], by simp⟩

theorem exists_itemsTokens_eq (item : Json) (items : List Json) :
    ∃ token rest, itemsTokens (item :: items) = token :: rest ∧ token ≠ .closeBracket := by
  obtain ⟨token, rest, hitem, htoken⟩ := exists_tokens_eq item
  cases items with
  | nil => exact ⟨token, _, by rw [itemsTokens, hitem]; rfl, htoken⟩
  | cons next items => exact ⟨token, _, by rw [itemsTokens, hitem]; rfl, htoken⟩

theorem exists_membersTokens_eq (member : Option String × Json) (members : List (Option String × Json)) :
    ∃ name rest, membersTokens (member :: members) = .string name :: rest := by
  obtain ⟨name, value⟩ := member
  cases members with
  | nil => exact ⟨name, _, by rw [membersTokens]⟩
  | cons next members => exact ⟨name, _, by rw [membersTokens]⟩

/-! ## The tokens of a value are read as that value -/

theorem valueWithin_openBracket {steps : Nat} {token : Token} {rest after : List Token} {items : List Json}
    (htoken : token ≠ .closeBracket) (hitems : itemsWithin steps (token :: rest) = some (items, after)) :
    valueWithin (steps + 1) (.openBracket :: token :: rest) = some (.array items, after) := by
  rw [valueWithin, hitems]
  · rfl
  · intro tail he
    exact htoken (List.cons.inj he).1

theorem valueWithin_openBrace {steps : Nat} {name : Option String} {rest after : List Token}
    {members : List (Option String × Json)}
    (hmembers : membersWithin steps (.string name :: rest) = some (members, after)) :
    valueWithin (steps + 1) (.openBrace :: .string name :: rest) = some (.object members, after) := by
  rw [valueWithin, hmembers]
  · rfl
  · intro tail he
    cases (List.cons.inj he).1

mutual

theorem valueWithin_tokens : ∀ (json : Json) (steps : Nat) (rest : List Token), 2 * json.tokens.length ≤ steps →
    valueWithin steps (json.tokens ++ rest) = some (json, rest)
  | json, 0, rest, h => by
    obtain ⟨token, tail, htokens, -⟩ := exists_tokens_eq json
    rw [htokens, List.length_cons] at h
    omega
  | null, steps + 1, rest, _ => rfl
  | boolean value, steps + 1, rest, _ => rfl
  | number value, steps + 1, rest, _ => rfl
  | string text, steps + 1, rest, _ => rfl
  | array [], steps + 1, rest, _ => rfl
  | array (item :: items), steps + 1, rest, h => by
    rw [tokens, List.length_cons] at h
    have hread := itemsWithin_tokens item items steps rest (by omega)
    obtain ⟨token, tail, htokens, htoken⟩ := exists_itemsTokens_eq item items
    rw [htokens] at hread
    rw [tokens, htokens]
    exact valueWithin_openBracket htoken hread
  | object [], steps + 1, rest, _ => rfl
  | object (member :: members), steps + 1, rest, h => by
    rw [tokens, List.length_cons] at h
    have hread := membersWithin_tokens member members steps rest (by omega)
    obtain ⟨name, tail, htokens⟩ := exists_membersTokens_eq member members
    rw [htokens] at hread
    rw [tokens, htokens]
    exact valueWithin_openBrace hread

theorem itemsWithin_tokens : ∀ (item : Json) (items : List Json) (steps : Nat) (rest : List Token),
    2 * (itemsTokens (item :: items)).length ≤ steps →
      itemsWithin steps (itemsTokens (item :: items) ++ rest) = some (item :: items, rest)
  | item, items, 0, rest, h => by
    obtain ⟨token, tail, htokens, -⟩ := exists_itemsTokens_eq item items
    rw [htokens, List.length_cons] at h
    omega
  | item, [], steps + 1, rest, h => by
    rw [itemsTokens, List.length_append, List.length_singleton] at h
    rw [itemsTokens, List.append_assoc, itemsWithin, valueWithin_tokens item steps _ (by omega)]
    rfl
  | item, next :: items, steps + 1, rest, h => by
    rw [itemsTokens, List.length_append, List.length_cons] at h
    rw [itemsTokens, List.append_assoc, itemsWithin, valueWithin_tokens item steps _ (by omega)]
    simp only [Option.bind_eq_bind, Option.bind_some, List.cons_append]
    rw [itemsWithin_tokens next items steps rest (by omega)]
    rfl

theorem membersWithin_tokens : ∀ (member : Option String × Json) (members : List (Option String × Json)) (steps : Nat)
    (rest : List Token), 2 * (membersTokens (member :: members)).length ≤ steps →
      membersWithin steps (membersTokens (member :: members) ++ rest) = some (member :: members, rest)
  | member, members, 0, rest, h => by
    obtain ⟨name, tail, htokens⟩ := exists_membersTokens_eq member members
    rw [htokens, List.length_cons] at h
    omega
  | (name, value), [], steps + 1, rest, h => by
    rw [membersTokens, List.length_cons, List.length_cons, List.length_append] at h
    rw [membersTokens, List.cons_append, List.cons_append, List.append_assoc, membersWithin,
      valueWithin_tokens value steps _ (by omega)]
    rfl
  | (name, value), next :: members, steps + 1, rest, h => by
    rw [membersTokens, List.length_cons, List.length_cons, List.length_append, List.length_cons] at h
    rw [membersTokens, List.cons_append, List.cons_append, List.append_assoc, membersWithin,
      valueWithin_tokens value steps _ (by omega)]
    simp only [Option.bind_eq_bind, Option.bind_some, List.cons_append]
    rw [membersWithin_tokens next members steps rest (by omega)]
    rfl

end

/-! ## What is read has the tokens of a value -/

theorem itemsTokens_cons {items : List Json} (h : items ≠ []) (item : Json) :
    itemsTokens (item :: items) = item.tokens ++ .comma :: itemsTokens items := by
  obtain ⟨next, items, rfl⟩ := List.exists_cons_of_ne_nil h
  rw [itemsTokens]

theorem membersTokens_cons {members : List (Option String × Json)} (h : members ≠ []) (name : Option String)
    (value : Json) : membersTokens ((name, value) :: members)
      = .string name :: .colon :: (value.tokens ++ .comma :: membersTokens members) := by
  obtain ⟨next, members, rfl⟩ := List.exists_cons_of_ne_nil h
  rw [membersTokens]

/-- The induction is on the steps that are left. -/
theorem tokens_of_within (steps : Nat) :
    (∀ {row rest : List Token} {json : Json}, valueWithin steps row = some (json, rest) → row = json.tokens ++ rest) ∧
    (∀ {row rest : List Token} {items : List Json}, itemsWithin steps row = some (items, rest) →
      items ≠ [] ∧ row = itemsTokens items ++ rest) ∧
    (∀ {row rest : List Token} {members : List (Option String × Json)}, membersWithin steps row = some (members, rest) →
      members ≠ [] ∧ row = membersTokens members ++ rest) := by
  induction steps with
  | zero => exact ⟨nofun, nofun, nofun⟩
  | succ steps ih =>
    obtain ⟨hvalue, hitems, hmembers⟩ := ih
    refine ⟨fun {row rest json} h => ?_, fun {row rest items} h => ?_, fun {row rest members} h => ?_⟩
    · unfold valueWithin at h
      split at h
      case h_1 | h_10 => cases h
      case h_7 heq =>
        obtain rfl := Nat.succ.inj heq
        obtain ⟨⟨items, after⟩, hread, h⟩ := Option.bind_eq_some_iff.1 h
        obtain ⟨rfl, rfl⟩ := Prod.mk.inj (Option.some.inj h)
        rw [(hitems hread).2, tokens, List.cons_append]
      case h_9 heq =>
        obtain rfl := Nat.succ.inj heq
        obtain ⟨⟨members, after⟩, hread, h⟩ := Option.bind_eq_some_iff.1 h
        obtain ⟨rfl, rfl⟩ := Prod.mk.inj (Option.some.inj h)
        rw [(hmembers hread).2, tokens, List.cons_append]
      all_goals
        obtain ⟨rfl, rfl⟩ := Prod.mk.inj (Option.some.inj h)
        rfl
    · unfold itemsWithin at h
      obtain ⟨⟨item, after⟩, hitem, h⟩ := Option.bind_eq_some_iff.1 h
      replace hitem := hvalue hitem
      dsimp only at h
      split at h
      · obtain ⟨rfl, rfl⟩ := Prod.mk.inj (Option.some.inj h)
        exact ⟨List.cons_ne_nil _ _, by rw [hitem, itemsTokens, List.append_assoc]; rfl⟩
      · obtain ⟨⟨more, after⟩, hmore, h⟩ := Option.bind_eq_some_iff.1 h
        obtain ⟨rfl, rfl⟩ := Prod.mk.inj (Option.some.inj h)
        obtain ⟨hne, hmore⟩ := hitems hmore
        exact ⟨List.cons_ne_nil _ _, by rw [hitem, hmore, itemsTokens_cons hne, List.append_assoc]; rfl⟩
      · cases h
    · unfold membersWithin at h
      split at h
      case h_1 | h_3 => cases h
      case h_2 heq =>
        obtain rfl := Nat.succ.inj heq
        obtain ⟨⟨value, after⟩, hread, h⟩ := Option.bind_eq_some_iff.1 h
        replace hread := hvalue hread
        dsimp only at h
        split at h
        · obtain ⟨rfl, rfl⟩ := Prod.mk.inj (Option.some.inj h)
          exact ⟨List.cons_ne_nil _ _, by rw [hread, membersTokens]; simp⟩
        · obtain ⟨⟨more, after⟩, hmore, h⟩ := Option.bind_eq_some_iff.1 h
          obtain ⟨rfl, rfl⟩ := Prod.mk.inj (Option.some.inj h)
          obtain ⟨hne, hmore⟩ := hmembers hmore
          exact ⟨List.cons_ne_nil _ _, by rw [hread, hmore, membersTokens_cons hne]; simp⟩
        · cases h

theorem ofTokens?_eq_some_iff {row : List Token} {json : Json} : ofTokens? row = some json ↔ row = json.tokens := by
  constructor
  · intro h
    unfold ofTokens? at h
    split at h
    · next value hread =>
      obtain rfl := Option.some.inj h
      rw [(tokens_of_within _).1 hread, List.append_nil]
    · cases h
  · rintro rfl
    have hread := valueWithin_tokens json (2 * json.tokens.length) [] (Nat.le_refl _)
    rw [List.append_nil] at hread
    rw [ofTokens?, hread]

/-! ## Documents -/

theorem Spaced.cons {token : Token} {row : List Token} (htoken : token.isNumber = false) (h : Spaced row) :
    Spaced (token :: row) :=
  List.isChain_cons.2 ⟨fun _ _ hnumber => absurd hnumber (by simp [htoken]), h⟩

theorem Spaced.append_cons {token : Token} {row row' : List Token} (h : Spaced row) (htoken : token.isNumber = false)
    (h' : Spaced (token :: row')) : Spaced (row ++ token :: row') := by
  refine List.isChain_append.2 ⟨h, h', fun _ _ next hnext _ => ?_⟩
  obtain rfl := Option.some.inj hnext
  exact htoken

mutual

/-- Between two numbers of a value stands a comma. -/
theorem spaced_tokens : ∀ json : Json, Spaced json.tokens
  | null | boolean _ | number _ | string _ => List.isChain_singleton _
  | array items => (spaced_itemsTokens items).cons rfl
  | object members => (spaced_membersTokens members).cons rfl

theorem spaced_itemsTokens : ∀ items : List Json, Spaced (itemsTokens items)
  | [] => List.isChain_singleton _
  | [item] => (spaced_tokens item).append_cons rfl (List.isChain_singleton _)
  | item :: next :: items => (spaced_tokens item).append_cons rfl ((spaced_itemsTokens (next :: items)).cons rfl)

theorem spaced_membersTokens : ∀ members : List (Option String × Json), Spaced (membersTokens members)
  | [] => List.isChain_singleton _
  | [(_, value)] => .cons rfl (.cons rfl ((spaced_tokens value).append_cons rfl (List.isChain_singleton _)))
  | (_, value) :: next :: members =>
    .cons rfl (.cons rfl ((spaced_tokens value).append_cons rfl ((spaced_membersTokens (next :: members)).cons rfl)))

end

/-- A text is read as a value exactly if it is made of the value's tokens. -/
theorem parse?_eq_some_iff {text : String} {json : Json} : parse? text = some json ↔ json.Written text := by
  rw [parse?, Option.bind_eq_bind, Option.bind_eq_some_iff]
  constructor
  · rintro ⟨row, hrow, hjson⟩
    obtain rfl := ofTokens?_eq_some_iff.1 hjson
    exact row_of_tokens? hrow
  · intro h
    exact ⟨json.tokens, tokens?_of_row h (spaced_tokens json), ofTokens?_eq_some_iff.2 rfl⟩

/-! ## Limits -/

mutual

/-- How many arrays and objects stand inside each other at the deepest place of a value. -/
def nesting : Json → Nat
  | null | boolean _ | number _ | string _ => 0
  | array items => itemsNesting items + 1
  | object members => membersNesting members + 1

def itemsNesting : List Json → Nat
  | [] => 0
  | item :: items => max item.nesting (itemsNesting items)

def membersNesting : List (Option String × Json) → Nat
  | [] => 0
  | (_, value) :: members => max value.nesting (membersNesting members)

end

mutual

/-- The values in a value that are neither arrays nor objects, and the names of all members as strings. -/
def scalars : Json → List Json
  | array items => itemsScalars items
  | object members => membersScalars members
  | scalar => [scalar]

def itemsScalars : List Json → List Json
  | [] => []
  | item :: items => item.scalars ++ itemsScalars items

def membersScalars : List (Option String × Json) → List Json
  | [] => []
  | (name, value) :: members => string name :: (value.scalars ++ membersScalars members)

end

/-- All strings spell text, and all numbers are in the range of a double. -/
def AllDecoded (found : List Json) : Prop :=
  string none ∉ found ∧ ∀ value, number value ∈ found → value.isFinite = true

theorem allDecoded_append {found found' : List Json} :
    AllDecoded (found ++ found') ↔ AllDecoded found ∧ AllDecoded found' := by
  simp only [AllDecoded, List.mem_append, not_or, or_imp, forall_and]
  tauto

theorem allDecoded_cons_string {name : Option String} {found : List Json} :
    AllDecoded (string name :: found) ↔ name.isSome = true ∧ AllDecoded found := by
  cases name <;> simp [AllDecoded]

mutual

/-- A value can be held in memory if it does not nest too deep, its strings spell text and its numbers are in range. -/
theorem fits_iff : ∀ (json : Json) (room : Nat), fits room json = true ↔ json.nesting ≤ room ∧ AllDecoded json.scalars
  | null, room => by simp [fits, nesting, scalars, AllDecoded]
  | boolean _, room => by simp [fits, nesting, scalars, AllDecoded]
  | number value, room => by simp [fits, nesting, scalars, AllDecoded]
  | string text, room => by cases text <;> simp [fits, nesting, scalars, AllDecoded]
  | array items, 0 => by simp [fits, nesting]
  | array items, room + 1 => by rw [fits, itemsFit_iff items room, nesting, scalars, Nat.add_le_add_iff_right]
  | object members, 0 => by simp [fits, nesting]
  | object members, room + 1 => by rw [fits, membersFit_iff members room, nesting, scalars, Nat.add_le_add_iff_right]

theorem itemsFit_iff : ∀ (items : List Json) (room : Nat),
    itemsFit room items = true ↔ itemsNesting items ≤ room ∧ AllDecoded (itemsScalars items)
  | [], room => by simp [itemsFit, itemsNesting, itemsScalars, AllDecoded]
  | item :: items, room => by
    rw [itemsFit, Bool.and_eq_true, fits_iff item room, itemsFit_iff items room, itemsNesting, itemsScalars,
      Nat.max_le, allDecoded_append]
    tauto

theorem membersFit_iff : ∀ (members : List (Option String × Json)) (room : Nat),
    membersFit room members = true ↔ membersNesting members ≤ room ∧ AllDecoded (membersScalars members)
  | [], room => by simp [membersFit, membersNesting, membersScalars, AllDecoded]
  | (name, value) :: members, room => by
    rw [membersFit, Bool.and_eq_true, Bool.and_eq_true, fits_iff value room, membersFit_iff members room,
      membersNesting, membersScalars, Nat.max_le, allDecoded_cons_string, allDecoded_append]
    tauto

end

end SyntaxTree.Json
