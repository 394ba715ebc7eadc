/-
  TokenMachine.Diagnostic.LineTable — lines and columns of byte offsets.

  A line table holds the byte offset of each line start, and finds the line of an offset
  by halving. Lines and columns count from one, columns in characters. An offset inside
  a character has column one. Offsets, lines and columns are 32-bit numbers: a text
  shorter than `Span.maxOffset - 1` bytes has no others.
-/

import TokenMachine.Span
import TokenMachine.Text.Slice

namespace TokenMachine

/-- The byte offsets at which the lines of a text start, in increasing order. -/
structure LineTable where
  starts : Array Nat
  deriving DecidableEq, Repr

namespace LineTable

/-- The starts of the lines that begin after the first `offset` bytes. -/
def startsFrom (offset : Nat) : List Char → List Nat
  | [] => []
  | c :: rest =>
    let next := offset + c.utf8Size
    if c = '\n' then next :: startsFrom next rest else startsFrom next rest

/-- Starts past `Span.maxOffset` are clamped to it. -/
def ofText (text : List Char) : LineTable where
  starts := (0 :: (startsFrom 0 text).map (min · Span.maxOffset)).toArray

/-- Halve the `size` keys from `base` on until one is left. What stays is the half from the middle
on, unless the key sought is before it. -/
def narrow (keys : Array Nat) (key base size : Nat) (hsize : base + size ≤ keys.size)
    (hpos : 0 < size) : Fin keys.size :=
  if hone : size = 1 then ⟨base, by omega⟩
  else
    have hmid : base + size / 2 < keys.size := by omega
    if key < keys[base + size / 2] then
      narrow keys key base (size - size / 2) (by omega) (by omega)
    else
      narrow keys key (base + size / 2) (size - size / 2) (by omega) (by omega)
termination_by size

/-- The key is the one that is left, or would be inserted after it or before it. -/
def place (keys : Array Nat) (key : Nat) (i : Fin keys.size) : Except Nat Nat :=
  if keys[i] = key then .ok i else .error (if keys[i] < key then i + 1 else i)

/-- Where a key is among keys in increasing order; or else where it would be inserted. -/
def search (keys : Array Nat) (key : Nat) : Except Nat Nat :=
  if h : 0 < keys.size then place keys key (narrow keys key 0 keys.size (by omega) h)
  else .error 0

/-- The number of what is counted from zero, counted from one in 32-bit arithmetic: a count that
does not fit stands for the last but one, and the last of all wraps around. -/
def ordinal (index : Nat) : Nat :=
  let fitted := if index ≤ Span.maxOffset then index else Span.maxOffset - 1
  (fitted + 1) % (Span.maxOffset + 1)

/-- The line that holds the offset, counted from zero; the last one, for an offset past the end. -/
def index (t : LineTable) (offset : Nat) : Nat :=
  match search t.starts offset with
  | .ok found => found
  | .error inserted => inserted - 1

def lineOf (t : LineTable) (offset : Nat) : Nat := ordinal (t.index offset)

def lineStart? (t : LineTable) (line : Nat) : Option Nat :=
  if line = 0 then none else t.starts[line - 1]?

/-- The line and the column of an offset. An offset past the end counts as the end. -/
def lineCol (t : LineTable) (text : List Char) (offset : Nat) : Nat × Nat :=
  let line := t.lineOf offset
  let start := (t.lineStart? line).getD 0
  let stop := max (min offset (Text.byteLength text)) start
  (line, ordinal (((Text.slice? text start stop).map List.length).getD 0))

/-- A line without the run of carriage returns and line feeds that ends it. -/
def trimLineEnd (line : List Char) : List Char :=
  (line.reverse.dropWhile fun c => c = '\n' || c = '\r').reverse

def lineText? (t : LineTable) (text : List Char) (line : Nat) : Option (List Char) := do
  let start ← t.lineStart? line
  let next := (line + 1) % (Span.maxOffset + 1)
  let stop := (t.lineStart? next).getD (Text.byteLength text)
  (Text.slice? text start stop).map trimLineEnd

end LineTable

end TokenMachine
