/-
  TokenMachine.Diagnostic.Render — diagnostics as terminal text.

  A diagnostic is laid out as pieces, some of them styled. Painting the pieces writes
  their text alone, or puts each styled piece between its escape sequence and the one
  that ends it; so colour adds escape sequences and changes nothing else. With a source
  attached a label shows its line with carets below, and without one its span.
-/

import TokenMachine.Diagnostic.Basic
import TokenMachine.Diagnostic.LineTable

namespace TokenMachine

/-! ## Pieces of text -/

inductive Style where
  | error
  | note
  | help
  | bold
  | secondary
  deriving DecidableEq, Repr

namespace Style

/-- The escape sequence that turns the style on. -/
def escape : Style → String
  | error => "\x1b[1;31m"
  | note => "\x1b[1;36m"
  | help => "\x1b[1;32m"
  | bold => "\x1b[1m"
  | secondary => "\x1b[1;34m"

/-- The escape sequence that turns every style off. -/
def reset : String := "\x1b[0m"

end Style

structure Piece where
  text : String
  style : Option Style
  deriving DecidableEq, Repr

namespace Piece

def plain (text : String) : Piece := ⟨text, none⟩

def styled (style : Style) (text : String) : Piece := ⟨text, some style⟩

def paint (colors : Bool) (p : Piece) : String :=
  match p.style with
  | some style => if colors then style.escape ++ p.text ++ Style.reset else p.text
  | none => p.text

end Piece

/-- When to write colour. -/
inductive ColorMode where
  /-- When the output is a terminal. -/
  | auto
  | always
  | never
  deriving DecidableEq, Repr, Inhabited

/-- Whether to write colour, to a terminal or not. -/
def ColorMode.enabled (mode : ColorMode) (terminal : Bool) : Bool :=
  match mode with
  | auto => terminal
  | always => true
  | never => false

/-! ## Layout -/

/-- A text to show labels on, and the path it is reported under. -/
structure SourceView where
  path : String
  text : List Char
  lines : LineTable

def SourceView.ofText (path text : String) : SourceView :=
  ⟨path, text.toList, .ofText text.toList⟩

def spaces (n : Nat) : String := "".pushn ' ' n

/-- Spaces up to the column, then as many carets as the span has bytes: at least one, and none
past the end of the line. -/
def underline (line : List Char) (column : Nat) (span : Span) : String :=
  let lead := column - 1
  spaces lead ++ "".pushn '^' (max (min span.length (line.length - lead)) 1)

namespace Label

def style (label : Label) : Style := if label.primary then .error else .secondary

/-- The line under a label's arrow. -/
def snippet (label : Label) (number : String) (line : List Char) (column : Nat) : List Piece :=
  let pad := spaces number.length
  [.plain s!" {pad} |\n {number} | {String.ofList line}\n {pad} | ",
   .styled label.style (underline line column label.span)] ++
  (if label.message.isEmpty then [] else [.plain " ", .styled label.style label.message]) ++
  [.plain "\n"]

def pieces (view : Option SourceView) (label : Label) : List Piece :=
  let arrow := [.plain "  ", .styled .secondary "-->"]
  match view with
  | none =>
    arrow ++ [.plain s!" {label.span.render}: ", .styled label.style label.message, .plain "\n"]
  | some view =>
    let (line, column) := view.lines.lineCol view.text label.span.start
    arrow ++ [.plain s!" {view.path}:{line}:{column}\n"] ++
      match view.lines.lineText? view.text line with
      | some text => label.snippet (toString line) text column
      | none => []

end Label

/-- A line of its own below the labels. -/
def remark (style : Style) (kind text : String) : List Piece :=
  [.plain "  = ", .styled style kind, .plain s!": {text}\n"]

namespace Diagnostic

def pieces (view : Option SourceView) (d : Diagnostic) : List Piece :=
  [.styled .error "error", .styled .bold s!"[{d.code.text}]", .plain s!": {d.message}\n"] ++
  d.labels.flatMap (Label.pieces view) ++
  d.notes.flatMap (remark .note "note") ++
  d.suggestions.flatMap (remark .help "help") ++
  [.plain "\n"]

def render (colors : Bool) (view : Option SourceView) (d : Diagnostic) : String :=
  String.join ((d.pieces view).map (Piece.paint colors))

end Diagnostic

end TokenMachine
