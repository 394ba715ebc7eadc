/-
  TokenMachine.Text.Escape — the five backslash escapes of quoted text.

  Quoted text writes a quote, a backslash, a line feed, a tab and a carriage
  return as a backslash and a letter (`quoted`); all else stands for itself. Reading
  takes a backslash and the character after it together, and refuses a letter that
  is none of the five (`decode`).
-/

import TokenMachine.Span

namespace TokenMachine.Text

/-- The letter that stands for `c` after a backslash. -/
def escapeLetter? : Char → Option Char
  | '"' => some '"'
  | '\\' => some '\\'
  | '\n' => some 'n'
  | '\t' => some 't'
  | '\r' => some 'r'
  | _ => none

/-- The character that a backslash and `letter` stand for. -/
def unescape? : Char → Option Char
  | '"' => some '"'
  | '\\' => some '\\'
  | 'n' => some '\n'
  | 't' => some '\t'
  | 'r' => some '\r'
  | _ => none

def escapeChar (c : Char) : List Char :=
  match escapeLetter? c with
  | some letter => ['\\', letter]
  | none => [c]

/-- The text between its quotes. -/
def escape (cs : List Char) : List Char := cs.flatMap escapeChar

def quoted (cs : List Char) : List Char := '"' :: (escape cs ++ ['"'])

/-- A backslash before a letter that is no escape, and where both stand. -/
structure BadEscape where
  letter : Char
  span : Span
  deriving DecidableEq, Repr

/-- The text that a body between quotes stands for; `offset` is where the body begins. -/
def decode (offset : Nat) : List Char → Except BadEscape (List Char)
  | [] => .ok []
  | '\\' :: letter :: rest =>
    let next := offset + 1 + letter.utf8Size
    match unescape? letter with
    | some c => (decode next rest).map (c :: ·)
    | none => .error ⟨letter, ⟨offset, next⟩⟩
  | c :: rest => (decode (offset + c.utf8Size) rest).map (c :: ·)

theorem unescape?_of_escapeLetter? {c letter : Char} (h : escapeLetter? c = some letter) :
    unescape? letter = some c := by
  unfold escapeLetter? at h
  split at h <;> simp_all [unescape?] <;> subst h <;> rfl

theorem escapeLetter?_of_unescape? {c letter : Char} (h : unescape? letter = some c) :
    escapeLetter? c = some letter := by
  unfold unescape? at h
  split at h <;> simp_all [escapeLetter?] <;> subst h <;> rfl

theorem escape_cons (c : Char) (cs : List Char) :
    escape (c :: cs) = escapeChar c ++ escape cs := rfl

theorem escapeLetter?_eq_none {c : Char} (h : escapeLetter? c = none) : c ≠ '"' ∧ c ≠ '\\' := by
  constructor <;> rintro rfl <;> cases h

end TokenMachine.Text
