import SyntaxTree.Json.Number

/-!
# JSON tokens

A JSON text is read as a row of tokens with blanks between them. A string token keeps the text it
spells; a string with half a surrogate pair is grammatical but spells no text, and that is kept too,
since whether it matters depends on where it stands.
-/

namespace SyntaxTree.Json

/-- The words and marks of JSON. -/
inductive Token where
  | openBrace
  | closeBrace
  | openBracket
  | closeBracket
  | comma
  | colon
  | null
  | boolean (value : Bool)
  | number (value : Number)
  | string (text : Option String)
deriving DecidableEq, Repr

/-! ## Strings -/

/-- An element of a string: a character, or a code unit of UTF-16 given by its number. -/
inductive StringItem where
  | char (c : Char)
  | unit (code : Nat)
deriving DecidableEq, Repr

/-- The value of a hexadecimal digit. -/
def hexValue? (c : Char) : Option Nat :=
  if '0' ≤ c ∧ c ≤ '9' then some (c.toNat - '0'.toNat)
  else if 'a' ≤ c ∧ c ≤ 'f' then some (c.toNat - 'a'.toNat + 10)
  else if 'A' ≤ c ∧ c ≤ 'F' then some (c.toNat - 'A'.toNat + 10)
  else none

/-- The code unit of four hexadecimal digits. -/
def hexUnit? (a b c d : Char) : Option Nat := do
  return ((((← hexValue? a) * 16 + (← hexValue? b)) * 16 + (← hexValue? c)) * 16 + (← hexValue? d))

/-- The character of an escape of two characters. -/
def shortEscape? : Char → Option Char
  | '"' => some '"'
  | '\\' => some '\\'
  | '/' => some '/'
  | 'b' => some '\x08'
  | 'f' => some '\x0c'
  | 'n' => some '\n'
  | 'r' => some '\r'
  | 't' => some '\t'
  | _ => none

/-- Puts an element in front of what was read of a string. -/
def StringItem.before (item : StringItem) :
    List StringItem × List Char → List StringItem × List Char
  | (items, rest) => (item :: items, rest)

/-- The rest of a string after its opening quote, and what follows the closing one. -/
def stringItems? : List Char → Option (List StringItem × List Char)
  | [] => none
  | '"' :: rest => some ([], rest)
  | '\\' :: 'u' :: a :: b :: c :: d :: rest =>
    match hexUnit? a b c d with
    | none => none
    | some code => (stringItems? rest).map (StringItem.unit code).before
  | '\\' :: escape :: rest =>
    match shortEscape? escape with
    | none => none
    | some c => (stringItems? rest).map (StringItem.char c).before
  | c :: rest =>
    if c < ' ' || c == '\\' then none else (stringItems? rest).map (StringItem.char c).before

/-- Whether a code unit is the first half of a surrogate pair. -/
def isHighSurrogate (code : Nat) : Bool :=
  0xD800 ≤ code && code < 0xDC00

/-- Whether a code unit is the second half of a surrogate pair. -/
def isLowSurrogate (code : Nat) : Bool :=
  0xDC00 ≤ code && code < 0xE000

/-- The characters that the elements of a string spell; none if half a pair stands alone. -/
def spelled? : List StringItem → Option (List Char)
  | [] => some []
  | .char c :: items => (spelled? items).map (c :: ·)
  | .unit high :: .unit low :: items =>
    if isHighSurrogate high then
      if isLowSurrogate low then
        let code := 0x10000 + (high - 0xD800) * 0x400 + (low - 0xDC00)
        (spelled? items).map (Char.ofNat code :: ·)
      else
        none
    else if isLowSurrogate high then
      none
    else
      (spelled? (.unit low :: items)).map (Char.ofNat high :: ·)
  | .unit code :: items =>
    if isHighSurrogate code || isLowSurrogate code then
      none
    else
      (spelled? items).map (Char.ofNat code :: ·)

/-- A string token, its opening quote already read. -/
def string? (cs : List Char) : Option (Token × List Char) := do
  let (items, rest) ← stringItems? cs
  return (.string ((spelled? items).map String.ofList), rest)

/-! ## Numbers -/

/-- The whole digits of a number: a single zero, or digits that do not start with one. -/
def wholeDigits? : List Char → Option (List Char × List Char)
  | '0' :: rest => some (['0'], rest)
  | c :: rest =>
    if c.isDigit then some (c :: rest.takeWhile Char.isDigit, rest.dropWhile Char.isDigit) else none
  | [] => none

/-- At least one digit. -/
def someDigits? (cs : List Char) : Option (List Char × List Char) :=
  match cs.takeWhile Char.isDigit with
  | [] => none
  | digits => some (digits, cs.dropWhile Char.isDigit)

/-- The decimal point and the digits after it, if there is a point. -/
def fraction? : List Char → Option (List Char × List Char)
  | '.' :: rest => someDigits? rest
  | cs => some ([], cs)

/-- The exponent's sign and digits, its mark already read. -/
def exponentDigits? : List Char → Option ((Bool × List Char) × List Char)
  | '+' :: rest => (someDigits? rest).map fun (digits, rest) => ((false, digits), rest)
  | '-' :: rest => (someDigits? rest).map fun (digits, rest) => ((true, digits), rest)
  | cs => (someDigits? cs).map fun (digits, rest) => ((false, digits), rest)

/-- The exponent, if there is one. -/
def exponent? : List Char → Option (Option (Bool × List Char) × List Char)
  | 'e' :: rest | 'E' :: rest => (exponentDigits? rest).map fun (found, rest) => (some found, rest)
  | cs => some (none, cs)

/-- A number token, its sign already read. -/
def number? (negative : Bool) (cs : List Char) : Option (Token × List Char) := do
  let (whole, rest) ← wholeDigits? cs
  let (fraction, rest) ← fraction? rest
  let (exponent, rest) ← exponent? rest
  return (.number ⟨negative, whole, fraction, exponent⟩, rest)

/-! ## The row of tokens -/

/-- Whether a character may stand between tokens. -/
def isBlank (c : Char) : Bool :=
  c == ' ' || c == '\t' || c == '\n' || c == '\r'

/-- The token that starts with character `c`. -/
def token? (c : Char) (rest : List Char) : Option (Token × List Char) :=
  match c, rest with
  | '\x7b', rest => some (.openBrace, rest)
  | '\x7d', rest => some (.closeBrace, rest)
  | '[', rest => some (.openBracket, rest)
  | ']', rest => some (.closeBracket, rest)
  | ',', rest => some (.comma, rest)
  | ':', rest => some (.colon, rest)
  | '"', rest => string? rest
  | 'n', 'u' :: 'l' :: 'l' :: rest => some (.null, rest)
  | 't', 'r' :: 'u' :: 'e' :: rest => some (.boolean true, rest)
  | 'f', 'a' :: 'l' :: 's' :: 'e' :: rest => some (.boolean false, rest)
  | '-', rest => number? true rest
  | c, rest => if c.isDigit then number? false (c :: rest) else none

/-! Every token takes at least one character, so reading the row comes to an end. -/

theorem length_of_stringItems? {cs rest : List Char} {items : List StringItem}
    (h : stringItems? cs = some (items, rest)) : rest.length < cs.length := by
  fun_induction stringItems? cs generalizing items rest with
  | case1 | case3 | case5 | case7 => simp at h
  | case2 => grind
  | case4 _ _ _ _ _ _ _ ih | case6 _ _ _ _ _ ih | case8 _ _ _ _ _ _ ih =>
    obtain ⟨⟨items', rest'⟩, hread, heq⟩ := Option.map_eq_some_iff.1 h
    obtain ⟨-, rfl⟩ : _ ∧ rest' = rest := by simpa [StringItem.before] using heq
    have := ih hread
    simp only [List.length_cons]
    omega

theorem length_of_string? {cs rest : List Char} {token : Token}
    (h : string? cs = some (token, rest)) : rest.length < cs.length := by
  simp only [string?, Option.bind_eq_bind, Option.bind_eq_some_iff, Prod.exists] at h
  obtain ⟨items, tail, hitems, heq⟩ := h
  have := length_of_stringItems? hitems
  grind

theorem length_dropWhile_le (p : Char → Bool) (cs : List Char) :
    (cs.dropWhile p).length ≤ cs.length :=
  (List.dropWhile_sublist p).length_le

theorem length_of_wholeDigits? {cs rest digits : List Char}
    (h : wholeDigits? cs = some (digits, rest)) : rest.length < cs.length := by
  unfold wholeDigits? at h
  split at h
  · grind
  · next c tail _ =>
    have := length_dropWhile_le Char.isDigit tail
    grind
  · simp at h

theorem length_of_someDigits? {cs rest digits : List Char}
    (h : someDigits? cs = some (digits, rest)) : rest.length ≤ cs.length := by
  unfold someDigits? at h
  have := length_dropWhile_le Char.isDigit cs
  grind

theorem length_of_fraction? {cs rest digits : List Char}
    (h : fraction? cs = some (digits, rest)) : rest.length ≤ cs.length := by
  unfold fraction? at h
  split at h
  · next tail =>
    have := length_of_someDigits? h
    grind
  · grind

theorem length_of_exponentDigits? {cs rest : List Char} {found : Bool × List Char}
    (h : exponentDigits? cs = some (found, rest)) : rest.length ≤ cs.length := by
  unfold exponentDigits? at h
  split at h <;> simp only [Option.map_eq_some_iff, Prod.exists] at h <;>
    obtain ⟨digits, tail, hdigits, heq⟩ := h <;>
    have := length_of_someDigits? hdigits <;> grind

theorem length_of_exponent? {cs rest : List Char} {found : Option (Bool × List Char)}
    (h : exponent? cs = some (found, rest)) : rest.length ≤ cs.length := by
  unfold exponent? at h
  split at h
  · simp only [Option.map_eq_some_iff, Prod.exists] at h
    obtain ⟨sign, digits, tail, hdigits, heq⟩ := h
    have := length_of_exponentDigits? hdigits
    grind
  · simp only [Option.map_eq_some_iff, Prod.exists] at h
    obtain ⟨sign, digits, tail, hdigits, heq⟩ := h
    have := length_of_exponentDigits? hdigits
    grind
  · grind

theorem length_of_number? {negative : Bool} {cs rest : List Char} {token : Token}
    (h : number? negative cs = some (token, rest)) : rest.length < cs.length := by
  simp only [number?, Option.bind_eq_bind, Option.bind_eq_some_iff, Prod.exists] at h
  obtain ⟨whole, rest₁, hwhole, fraction, rest₂, hfraction, exponent, rest₃, hexponent, heq⟩ := h
  have := length_of_wholeDigits? hwhole
  have := length_of_fraction? hfraction
  have := length_of_exponent? hexponent
  grind

theorem length_of_token? {c : Char} {cs rest : List Char} {token : Token}
    (h : token? c cs = some (token, rest)) : rest.length ≤ cs.length := by
  unfold token? at h
  split at h
  case h_7 =>
    have := length_of_string? h
    omega
  case h_11 =>
    have := length_of_number? h
    omega
  case h_12 =>
    split at h
    · have := length_of_number? h
      simp only [List.length_cons] at this
      omega
    · simp at h
  all_goals grind

/-- All tokens of a text. -/
def tokens? : List Char → Option (List Token)
  | [] => some []
  | c :: cs =>
    if isBlank c then
      tokens? cs
    else
      match _h : token? c cs with
      | none => none
      | some (token, rest) => (tokens? rest).map (token :: ·)
termination_by cs => cs.length
decreasing_by
  · simp
  · have := length_of_token? _h
    simp
    omega

end SyntaxTree.Json
