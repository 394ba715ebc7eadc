/-
  TokenMachine.Form.Reader — the forms of a source text.

  Reading takes the lexemes one by one and keeps the lists that are still open, the
  innermost first. An opening parenthesis opens a list and a closing one closes the
  innermost; anything else is an item. The first lexeme that does not fit is the
  error; a list left open is one only at the end of the text.
-/

import TokenMachine.Decimal.Numeral
import TokenMachine.Diagnostic.Basic
import TokenMachine.Form.Basic
import TokenMachine.Form.Lexeme
import TokenMachine.Text.Literal

namespace TokenMachine

inductive ReadError where
  | unterminatedString (span : Span)
  | invalidEscape (escape : Char) (span : Span)
  | unexpectedCloseParen (span : Span)
  | unclosedParen (span : Span)
  | unrecognizedCharacter (c : Char) (span : Span)
  | nestingTooDeep (limit : Nat) (span : Span)
  deriving DecidableEq, Repr

namespace ReadError

def span : ReadError → Span
  | unterminatedString span | invalidEscape _ span | unexpectedCloseParen span
  | unclosedParen span | unrecognizedCharacter _ span | nestingTooDeep _ span => span

def message : ReadError → String
  | unterminatedString _ => "unterminated string literal"
  | invalidEscape escape _ => s!"invalid escape sequence `\\{escape}`"
  | unexpectedCloseParen _ => "unexpected `)`"
  | unclosedParen _ => "unclosed `(`"
  | unrecognizedCharacter c _ => "unrecognized character " ++ Text.Literal.ofChar c
  | nestingTooDeep limit _ => s!"forms nested deeper than {limit} levels"

def code : ReadError → ErrorCode
  | unterminatedString _ => .unterminatedString
  | invalidEscape _ _ => .invalidEscape
  | unexpectedCloseParen _ => .unexpectedClose
  | unclosedParen _ => .unclosedOpen
  | unrecognizedCharacter _ _ => .strayCharacter
  | nestingTooDeep _ _ => .nestingTooDeep

def toDiagnostic (e : ReadError) : Diagnostic :=
  let base := Diagnostic.error e.code e.message
  match e with
  | unterminatedString span =>
    (base.label span "string starts here").suggest "add a closing `\"`"
  | invalidEscape _ span =>
    (base.label span "unknown escape").note "valid escapes are \\\" \\\\ \\n \\t \\r"
  | unexpectedCloseParen span => base.label span "no matching `(`"
  | unclosedParen span => (base.label span "this `(` is never closed").suggest "add a closing `)`"
  | unrecognizedCharacter _ span => base.label span "not part of any token"
  | nestingTooDeep _ span => base.label span "nesting limit reached here"

end ReadError

namespace Form

/-- The number of lists that may be open at once. -/
def maxNesting : Nat := 256

/-- A list whose end was not read yet. -/
structure OpenList where
  /-- The opening parenthesis. -/
  start : Span
  /-- The items read so far, the last one first. -/
  items : List Form

/-- The forms read so far. -/
structure Pending where
  /-- The open lists, innermost first. -/
  lists : List OpenList
  /-- The finished top-level forms, the last one first. -/
  forms : List Form

namespace Pending

def empty : Pending := ⟨[], []⟩

/-- Add a finished form to the innermost open list, or to the top level. -/
def add (p : Pending) (form : Form) : Pending :=
  match p.lists with
  | [] => { p with forms := form :: p.forms }
  | innermost :: outer => { p with lists := { innermost with items := form :: innermost.items } :: outer }

end Pending

/-- An atom is a number if it spells a finite one, and a symbol if not. -/
def ofAtom (chars : List Char) (span : Span) : Form :=
  if Decimal.isNumeral chars then .number (String.ofList chars) span
  else .symbol (String.ofList chars) span

def takeLexeme (p : Pending) : Lexeme → Except ReadError Pending
  | .opening span =>
    if maxNesting ≤ p.lists.length then .error (.nestingTooDeep maxNesting span)
    else .ok { p with lists := ⟨span, []⟩ :: p.lists }
  | .closing span =>
    match p.lists with
    | [] => .error (.unexpectedCloseParen span)
    | innermost :: outer =>
      .ok (Pending.add { p with lists := outer } (.list innermost.items.reverse (innermost.start.merge span)))
  | .quoted body span =>
    match Text.decode (span.start + 1) body with
    | .ok chars => .ok (p.add (.text (String.ofList chars) span))
    | .error bad => .error (.invalidEscape bad.letter bad.span)
  | .unterminated span => .error (.unterminatedString span)
  | .atom chars span => .ok (p.add (ofAtom chars span))
  | .stray c span => .error (.unrecognizedCharacter c span)

/-- The forms, if every list was closed. -/
def finish (p : Pending) : Except ReadError (List Form) :=
  match p.lists with
  | [] => .ok p.forms.reverse
  | innermost :: _ => .error (.unclosedParen innermost.start)

def ofLexemes (lexemes : List Lexeme) : Except ReadError (List Form) := do
  finish (← lexemes.foldlM takeLexeme .empty)

/-- Read every top-level form of a source text. -/
def read (source : String) : Except ReadError (List Form) := ofLexemes (Lexeme.ofSource source)

end Form

end TokenMachine
