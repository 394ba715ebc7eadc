/-
  TokenMachine.Verify — the structure of token streams.

  A stream is well formed if every tag is known, every literal has its operand, every
  `else` and `end` belongs to an open `if`, no `if` has two `else`, and every `if` is
  closed. The first fault from the left is the error; an `if` left open is one only at
  the end of the stream, and then the innermost is named.
-/

import TokenMachine.Diagnostic.Basic
import TokenMachine.Program

namespace TokenMachine

/-- A stream of a program. -/
inductive StreamName where
  | main
  | function (name : String)
  deriving DecidableEq, Repr

def StreamName.render : StreamName → String
  | main => "the main stream"
  | function name => s!"function `{name}`"

inductive VerifyError where
  | unknownOpcode (tag : String) (position : Nat) (stream : StreamName) (span : Span)
  | missingOperand (kind : Literal) (position : Nat) (stream : StreamName) (span : Span)
  | strayMarker (marker : Marker) (stream : StreamName) (span : Span)
  | duplicateElse (stream : StreamName) (span : Span)
  | unclosedIf (stream : StreamName) (span : Span)
  deriving DecidableEq, Repr

namespace VerifyError

def span : VerifyError → Span
  | unknownOpcode _ _ _ span | missingOperand _ _ _ span | strayMarker _ _ span
  | duplicateElse _ span | unclosedIf _ span => span

def stream : VerifyError → StreamName
  | unknownOpcode _ _ stream _ | missingOperand _ _ stream _ | strayMarker _ stream _
  | duplicateElse stream _ | unclosedIf stream _ => stream

def message : VerifyError → String
  | unknownOpcode tag position stream _ =>
    s!"unknown opcode `{tag}` at token {position} of {stream.render}"
  | missingOperand kind position stream _ =>
    s!"`{kind.tag}` at token {position} of {stream.render} is missing its operand"
  | strayMarker marker stream _ =>
    s!"`{marker.action.tag}` without a matching `if` in {stream.render}"
  | duplicateElse stream _ => s!"second `else` for the same `if` in {stream.render}"
  | unclosedIf stream _ => s!"`if` is never closed by `end` in {stream.render}"

def code : VerifyError → ErrorCode
  | unknownOpcode _ _ _ _ => .unknownTag
  | missingOperand _ _ _ _ => .missingOperand
  | strayMarker _ _ _ | duplicateElse _ _ => .strayMarker
  | unclosedIf _ _ => .unclosedIf

def toDiagnostic (e : VerifyError) : Diagnostic :=
  (Diagnostic.error e.code e.message).label e.span ""

end VerifyError

/-- An `if` that is not closed yet. -/
structure OpenIf where
  span : Span
  seenElse : Bool
  deriving DecidableEq, Repr

/-- Check what remains of a stream in which `blocks` are open, the innermost first. -/
def Cursor.verify (stream : StreamName) (blocks : List OpenIf) (c : Cursor) :
    Except VerifyError Unit :=
  match _h : c.fetch with
  | .exhausted =>
    match blocks with
    | [] => .ok ()
    | innermost :: _ => .error (.unclosedIf stream innermost.span)
  | .unknown tag => .error (.unknownOpcode tag.text c.position stream tag.span)
  | .truncated kind tag => .error (.missingOperand kind c.position stream tag.span)
  | .ready (.action .branch) tag next => next.verify stream (⟨tag.span, false⟩ :: blocks)
  | .ready (.action .otherwise) tag next =>
    match blocks with
    | [] => .error (.strayMarker .otherwise stream tag.span)
    | innermost :: outer =>
      if innermost.seenElse then .error (.duplicateElse stream tag.span)
      else next.verify stream ({ innermost with seenElse := true } :: outer)
  | .ready (.action .close) tag next =>
    match blocks with
    | [] => .error (.strayMarker .close stream tag.span)
    | _ :: outer => next.verify stream outer
  | .ready _ _ next => next.verify stream blocks
termination_by c.rest.length
decreasing_by all_goals exact Cursor.length_lt_of_fetch (by assumption)

/-- Check the main stream, then every function's body in the order of the names. -/
def Program.verify (p : Program) : Except VerifyError Unit := do
  (Cursor.start p.main).verify .main []
  p.functions.sorted.forM fun f => (Cursor.start f.body).verify (.function f.name) []

end TokenMachine
