/-
  TokenMachine.Form.Basic — the parse tree of source text, and its printed form.

  A form is a number (kept as it was written), a text, a symbol, or a list of forms,
  with the span it was read from. Printing puts single spaces between the items of a
  list and the five escapes into texts.
-/

import TokenMachine.Span
import TokenMachine.Text.Escape

namespace TokenMachine

inductive Form where
  | number (raw : String) (span : Span)
  | text (value : String) (span : Span)
  | symbol (name : String) (span : Span)
  | list (items : List Form) (span : Span)
  deriving BEq, Repr, Inhabited

namespace Form

def span : Form → Span
  | number _ span | text _ span | symbol _ span | list _ span => span

/-- The same form at another span. -/
def withSpan (form : Form) (span : Span) : Form :=
  match form with
  | number raw _ => .number raw span
  | text value _ => .text value span
  | symbol name _ => .symbol name span
  | list items _ => .list items span

def symbol? : Form → Option String
  | symbol name _ => some name
  | _ => none

/-- The symbol that a list begins with. -/
def head? : Form → Option String
  | list (first :: _) _ => first.symbol?
  | _ => none

mutual

/-- The printed form. -/
def chars : Form → List Char
  | number raw _ => raw.toList
  | text value _ => Text.quoted value.toList
  | symbol name _ => name.toList
  | list items _ => '(' :: (itemChars items ++ [')'])

/-- The printed items, with single spaces between them. -/
def itemChars : List Form → List Char
  | [] => []
  | [item] => item.chars
  | item :: rest => item.chars ++ ' ' :: itemChars rest

end

def render (form : Form) : String := String.ofList form.chars

end Form

end TokenMachine
