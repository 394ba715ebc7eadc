/-
  TokenMachine.Decimal.Numeral — decimal numerals and the floats they denote.

  A numeral is an optional sign, digits with an optional fraction (`3`, `3.`, `3.5`
  or `.5`), and an optional exponent: `e` or `E`, an optional sign, digits. It
  denotes the float nearest to its exact value, of two equally near the one with an
  even last bit.
-/

namespace TokenMachine

/-- The exact value `± digits · 10 ^ exponent`. -/
structure Decimal where
  negative : Bool
  digits : Nat
  exponent : Int
  deriving DecidableEq, Repr

namespace Decimal

/-- A sign, if there is one, and the rest; `true` is minus. -/
def splitSign : List Char → Bool × List Char
  | '-' :: rest => (true, rest)
  | '+' :: rest => (false, rest)
  | cs => (false, cs)

/-- The leading digits and the rest. -/
def splitDigits (cs : List Char) : List Char × List Char :=
  (cs.takeWhile Char.isDigit, cs.dropWhile Char.isDigit)

/-- The digits after a leading point and the rest. -/
def splitFraction : List Char → List Char × List Char
  | '.' :: rest => splitDigits rest
  | cs => ([], cs)

/-- The number that the digits spell. -/
def ofDigits (ds : List Char) : Nat :=
  ds.foldl (fun n d => 10 * n + (d.toNat - '0'.toNat)) 0

/-- The exponent that is all of the text; no text is exponent zero. -/
def parseExponent? : List Char → Option Int
  | [] => some 0
  | e :: rest =>
    let (negative, ds) := splitSign rest
    if (e = 'e' ∨ e = 'E') ∧ ds ≠ [] ∧ ds.all Char.isDigit then
      some (if negative then -(ofDigits ds : Int) else ofDigits ds)
    else none

/-- The numeral that is all of the text. -/
def parse? (cs : List Char) : Option Decimal :=
  let (negative, unsigned) := splitSign cs
  let (whole, afterWhole) := splitDigits unsigned
  let (fraction, afterFraction) := splitFraction afterWhole
  if whole = [] ∧ fraction = [] then none
  else
    (parseExponent? afterFraction).map fun e =>
      ⟨negative, ofDigits (whole ++ fraction), e - fraction.length⟩

/-- The nearest float to `digits · 10 ^ exponent`. Past 10 ^ 330 that is infinity and below
10 ^ -330 it is zero, so no power of ten outside these bounds is ever computed. -/
def magnitude (digits : Nat) (exponent : Int) : Float :=
  if digits = 0 then 0.0
  else if 330 < exponent then 1.0 / 0.0
  else if exponent + digits.log2 + 331 < 0 then 0.0
  else Float.ofScientific digits (exponent < 0) exponent.natAbs

def toFloat (d : Decimal) : Float :=
  if d.negative then -(magnitude d.digits d.exponent) else magnitude d.digits d.exponent

/-- The spellings, in lower case, of the floats that no numeral denotes. -/
def special? (name : String) : Option Float :=
  if name = "inf" ∨ name = "infinity" then some (1.0 / 0.0)
  else if name = "nan" then some (0.0 / 0.0)
  else none

/-- The float that a text spells: a numeral, or an infinity or NaN in any case of letters. -/
def floatOfText? (text : String) : Option Float :=
  match parse? text.toList with
  | some d => some d.toFloat
  | none =>
    let (negative, name) := splitSign text.toList
    (special? (String.ofList (name.map Char.toLower))).map fun x => if negative then -x else x

/-- The characters of numerals that are no digits. -/
def numeralMarks : List Char := ['+', '-', '.', 'e', 'E']

/-- Whether a word of source is a number and not a symbol. After a sign, if there is one, it begins
with a digit or a point and has the characters of numerals only; and all of it spells a float
that is finite. -/
def isNumeral (cs : List Char) : Bool :=
  let (_, unsigned) := splitSign cs
  unsigned.head?.any (fun c => c.isDigit || c = '.') &&
    unsigned.all (fun c => c.isDigit || c ∈ numeralMarks) &&
    (floatOfText? (String.ofList cs)).any Float.isFinite

end Decimal

end TokenMachine
