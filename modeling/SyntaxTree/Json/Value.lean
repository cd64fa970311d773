import SyntaxTree.Json.Token

/-!
# JSON values

A value is read from a row of tokens. Objects keep all their members in the order of the text,
repeated names included, since what a repeated name means is for the reader of the object to say.
-/

namespace SyntaxTree

/-- A JSON value as it is written. A string, or the name of a member, that spells no text because
half a surrogate pair stands alone is `none`. -/
inductive Json where
  | null
  | boolean (value : Bool)
  | number (value : Json.Number)
  | string (text : Option String)
  | array (items : List Json)
  | object (members : List (Option String × Json))

namespace Json

/-! ## Reading tokens -/

mutual

/-- The value at the front of a row of tokens, and the tokens after it. -/
def valueWithin : Nat → List Token → Option (Json × List Token)
  | 0, _ => none
  | _ + 1, .null :: rest => some (.null, rest)
  | _ + 1, .boolean value :: rest => some (.boolean value, rest)
  | _ + 1, .number value :: rest => some (.number value, rest)
  | _ + 1, .string text :: rest => some (.string text, rest)
  | _ + 1, .openBracket :: .closeBracket :: rest => some (.array [], rest)
  | steps + 1, .openBracket :: rest => do
    let (items, rest) ← itemsWithin steps rest
    return (.array items, rest)
  | _ + 1, .openBrace :: .closeBrace :: rest => some (.object [], rest)
  | steps + 1, .openBrace :: rest => do
    let (members, rest) ← membersWithin steps rest
    return (.object members, rest)
  | _ + 1, _ => none

/-- At least one item of an array, up to the closing bracket. -/
def itemsWithin : Nat → List Token → Option (List Json × List Token)
  | 0, _ => none
  | steps + 1, tokens => do
    let (item, rest) ← valueWithin steps tokens
    match rest with
    | .closeBracket :: rest => return ([item], rest)
    | .comma :: rest =>
      let (items, rest) ← itemsWithin steps rest
      return (item :: items, rest)
    | _ => none

/-- At least one member of an object, up to the closing brace. -/
def membersWithin : Nat → List Token → Option (List (Option String × Json) × List Token)
  | 0, _ => none
  | steps + 1, .string name :: .colon :: tokens => do
    let (value, rest) ← valueWithin steps tokens
    match rest with
    | .closeBrace :: rest => return ([(name, value)], rest)
    | .comma :: rest =>
      let (members, rest) ← membersWithin steps rest
      return ((name, value) :: members, rest)
    | _ => none
  | _ + 1, _ => none

end

/-- The value that a row of tokens spells. A value takes at least one token, and each token is looked
at in at most two steps. -/
def ofTokens? (tokens : List Token) : Option Json :=
  match valueWithin (2 * tokens.length) tokens with
  | some (value, []) => some value
  | _ => none

/-- The value that a text spells, with blanks around it and between its tokens. -/
def parse? (text : String) : Option Json := do
  ofTokens? (← tokens? text.toList)

/-! ## Limits -/

mutual

/-- Whether a value can be held in memory: all its strings spell text, all its numbers are in the
range of a double, and it nests at most `room` arrays and objects. -/
def fits : Nat → Json → Bool
  | _, .null => true
  | _, .boolean _ => true
  | _, .number value => value.isFinite
  | _, .string text => text.isSome
  | 0, .array _ => false
  | room + 1, .array items => itemsFit room items
  | 0, .object _ => false
  | room + 1, .object members => membersFit room members

/-- Whether all items of an array can be held in memory. -/
def itemsFit : Nat → List Json → Bool
  | _, [] => true
  | room, item :: items => fits room item && itemsFit room items

/-- Whether all members of an object can be held in memory, their names included. -/
def membersFit : Nat → List (Option String × Json) → Bool
  | _, [] => true
  | room, (name, value) :: members => name.isSome && fits room value && membersFit room members

end

/-! ## Reading values -/

/-- The text of a string. -/
def text? : Json → Option String
  | .string text => text
  | _ => none

/-- The truth value. -/
def boolean? : Json → Option Bool
  | .boolean value => some value
  | _ => none

/-- The 32-bit word. -/
def word? : Json → Option UInt32
  | .number value => value.word?
  | _ => none

/-- The texts of an array of strings. -/
def texts? : Json → Option (List String)
  | .array items => items.mapM text?
  | _ => none

/-- A value that may be `null`. -/
def nullable? {α : Type} (read : Json → Option α) : Json → Option (Option α)
  | .null => some none
  | value => (read value).map some

/-- The members of an object with their names. Every name must spell text. -/
def named? (members : List (Option String × Json)) : Option (List (String × Json)) :=
  members.mapM fun (name, value) => name.map (·, value)

/-- The member of a name, which may be missing. A repeated name is refused. -/
def member? (name : String) (members : List (String × Json)) : Option (Option Json) :=
  match members.filter (·.1 == name) with
  | [] => some none
  | [(_, value)] => some (some value)
  | _ => none

end Json

end SyntaxTree
