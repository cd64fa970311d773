/-!
# JSON numbers

A number is kept as it is written: sign, whole digits, fraction digits, exponent. Two questions are
asked of it. Is it a 32-bit word? Then it is written without sign, fraction and exponent. Is it in
the range of a double? That question is answered the way readers answer it that scan a number once:
as many leading digits as fit into 64 bits form a significand, the others only move the decimal
exponent, and the product of significand and power of ten must not round to infinity.
-/

namespace SyntaxTree.Json

/-- A number as it is written. The fraction is empty if there is no decimal point, and an exponent
comes with its sign, `true` for minus. -/
structure Number where
  negative : Bool
  whole : List Char
  fraction : List Char
  exponent : Option (Bool × List Char)
deriving DecidableEq, Repr

/-- The value of a decimal digit. -/
def digitValue (c : Char) : Nat :=
  c.toNat - '0'.toNat

/-- The number that decimal digits spell. -/
def digitsValue (digits : List Char) : Nat :=
  digits.foldl (fun n c => 10 * n + digitValue c) 0

/-- The nearest number with 53 significant bits, the one with the even significand on a tie. -/
def roundToDouble (n : Nat) : Nat :=
  let unit := Nat.pow 2 (n.log2 - 52)
  let quotient := n / unit
  let remainder := n % unit
  if unit < 2 * remainder || (2 * remainder == unit && quotient % 2 == 1) then
    (quotient + 1) * unit
  else
    quotient * unit

/-- Whether a whole number rounds to a finite double. -/
def belowDoubleLimit (n : Nat) : Bool :=
  n < Nat.pow 2 1024 - Nat.pow 2 970

/-- Appends digits to a significand for as long as it fits into 64 bits. The answer is the
significand and how many digits are left. -/
def appendDigits : Nat → List Char → Nat × Nat
  | significand, [] => (significand, 0)
  | significand, digit :: digits =>
    let longer := 10 * significand + digitValue digit
    if longer < UInt64.size then appendDigits longer digits else (significand, digits.length + 1)

namespace Number

/-- The significand and the decimal exponent that stand for the number. -/
def scaled (number : Number) : Nat × Int :=
  let (significand, extra) := appendDigits 0 number.whole
  let (significand, unread) := appendDigits significand number.fraction
  let exponent : Int := match number.exponent with
    | none => 0
    | some (false, digits) => digitsValue digits
    | some (true, digits) => -(digitsValue digits : Int)
  (significand, (extra : Int) - ((number.fraction.length - unread : Nat) : Int) + exponent)

/-- Whether the number is in the range of a double. -/
def isFinite (number : Number) : Bool :=
  match number.scaled with
  | (significand, .ofNat exponent) =>
    if exponent ≤ 308 then
      belowDoubleLimit (roundToDouble significand * roundToDouble (Nat.pow 10 exponent))
    else
      significand == 0
  | (_, .negSucc _) => true

/-- The number as a 32-bit word, if it is written as one. -/
def word? (number : Number) : Option UInt32 :=
  if number.negative || !number.fraction.isEmpty || number.exponent.isSome then
    none
  else
    let value := digitsValue number.whole
    if value < UInt32.size then some (UInt32.ofNat value) else none

end Number

end SyntaxTree.Json
