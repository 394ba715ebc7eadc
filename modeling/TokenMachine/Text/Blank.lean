/-
  TokenMachine.Text.Blank — code point ranges, and the characters that are white space.

  A property of characters is a list of inclusive ranges of code points, in
  increasing order. `isBlank` is the property White_Space of the Unicode standard:
  25 code points, of which `Char.isWhitespace` knows only the ASCII ones.
-/

namespace TokenMachine.Text

/-- Inclusive ranges of code points, in increasing order. -/
abbrev CodeRanges := List (Nat × Nat)

def CodeRanges.contains (ranges : CodeRanges) (c : Char) : Bool :=
  ranges.any fun range => range.1 ≤ c.toNat && c.toNat ≤ range.2

def blankRanges : CodeRanges :=
  [(0x09, 0x0D), (0x20, 0x20), (0x85, 0x85), (0xA0, 0xA0), (0x1680, 0x1680), (0x2000, 0x200A),
   (0x2028, 0x2029), (0x202F, 0x202F), (0x205F, 0x205F), (0x3000, 0x3000)]

/-- White_Space. -/
def isBlank (c : Char) : Bool := blankRanges.contains c

/-- The number of bytes that the characters take in UTF-8. -/
def byteLength : List Char → Nat
  | [] => 0
  | c :: rest => c.utf8Size + byteLength rest

end TokenMachine.Text
