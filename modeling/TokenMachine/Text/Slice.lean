/-
  TokenMachine.Text.Slice — the parts of a text, by the bytes that they take.

  A range of bytes has characters only if it begins and ends between characters of the
  text. A reversed range is empty.
-/

import TokenMachine.Text.Blank

namespace TokenMachine.Text

/-- The characters after the first `n` bytes; none if that is inside a character or past the
end. -/
def dropBytes? (n : Nat) : List Char → Option (List Char)
  | [] => if n = 0 then some [] else none
  | c :: rest =>
    if n = 0 then some (c :: rest)
    else if c.utf8Size ≤ n then dropBytes? (n - c.utf8Size) rest
    else none

/-- The characters that the first `n` bytes hold, likewise. -/
def takeBytes? (n : Nat) : List Char → Option (List Char)
  | [] => if n = 0 then some [] else none
  | c :: rest =>
    if n = 0 then some []
    else if c.utf8Size ≤ n then (takeBytes? (n - c.utf8Size) rest).map (c :: ·)
    else none

/-- The characters from byte `start` up to byte `stop`. -/
def slice? (cs : List Char) (start stop : Nat) : Option (List Char) :=
  (dropBytes? start cs).bind (takeBytes? (stop - start))

end TokenMachine.Text
