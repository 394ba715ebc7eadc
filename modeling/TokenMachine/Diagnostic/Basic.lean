/-
  TokenMachine.Diagnostic.Basic — a problem as it is told to a person.

  A diagnostic has a code, a message, labels on spans of the text (a primary one
  marks the cause, a secondary one adds context), notes and suggestions.
-/

import TokenMachine.Diagnostic.Code
import TokenMachine.Span

namespace TokenMachine

structure Label where
  span : Span
  message : String
  primary : Bool
  deriving DecidableEq, Repr

structure Diagnostic where
  code : ErrorCode
  message : String
  labels : List Label
  notes : List String
  suggestions : List String
  deriving DecidableEq, Repr

namespace Diagnostic

def error (code : ErrorCode) (message : String) : Diagnostic := ⟨code, message, [], [], []⟩

def label (d : Diagnostic) (span : Span) (message : String) : Diagnostic :=
  { d with labels := d.labels ++ [⟨span, message, true⟩] }

def secondary (d : Diagnostic) (span : Span) (message : String) : Diagnostic :=
  { d with labels := d.labels ++ [⟨span, message, false⟩] }

def note (d : Diagnostic) (text : String) : Diagnostic := { d with notes := d.notes ++ [text] }

def suggest (d : Diagnostic) (text : String) : Diagnostic :=
  { d with suggestions := d.suggestions ++ [text] }

/-- The diagnostic in one line. -/
def headline (d : Diagnostic) : String := s!"error [{d.code.text}]: {d.message}"

end Diagnostic

end TokenMachine
