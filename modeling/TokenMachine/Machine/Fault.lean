/-
  TokenMachine.Machine.Fault — what can go wrong while a program runs.

  A fault is a cause. A run error is a fault together with the token it arose at and
  the calls that were open, the most recent first. Every fault ends its run.
-/

import TokenMachine.Diagnostic.Basic

namespace TokenMachine

inductive Fault where
  | streamUnderflow
  | stackUnderflow
  | unboundName (name : String)
  | undefinedFunction (name : String)
  | returnOutsideCall
  | unknownOpcode (tag : String)
  | typeMismatch (operation expected found : String)
  | recursionLimitExceeded (limit : Nat)
  | malformedLiteral (tag text : String)
  | structuralError (reason : String)
  | depthInvariantViolated (openBlocks openCalls : Nat)
  deriving DecidableEq, Repr

namespace Fault

def message : Fault → String
  | streamUnderflow => "read past the end of the opcode stream"
  | stackUnderflow => "evaluation stack is empty"
  | unboundName name => s!"unbound variable `{name}`"
  | undefinedFunction name => s!"undefined function `{name}`"
  | returnOutsideCall => "`return` outside of any call"
  | unknownOpcode tag => s!"unknown opcode `{tag}`"
  | typeMismatch operation expected found => s!"`{operation}` expected {expected}, found {found}"
  | recursionLimitExceeded limit => s!"recursion limit of {limit} calls exceeded"
  | malformedLiteral tag text => s!"malformed `{tag}` literal `{text}`"
  | structuralError reason => s!"structural error: {reason}"
  | depthInvariantViolated openBlocks openCalls =>
    s!"frame bookkeeping did not balance: {openBlocks} open block(s), {openCalls} open call(s)"

def code : Fault → ErrorCode
  | streamUnderflow => .streamUnderflow
  | stackUnderflow => .stackUnderflow
  | unboundName _ => .unboundName
  | undefinedFunction _ => .undefinedFunction
  | returnOutsideCall => .returnOutsideCall
  | unknownOpcode _ => .unknownOpcode
  | typeMismatch _ _ _ => .typeMismatch
  | recursionLimitExceeded _ => .recursionLimit
  | malformedLiteral _ _ => .malformedLiteral
  | structuralError _ => .misplacedMarker
  | depthInvariantViolated _ _ => .unbalancedFrames

end Fault

/-- A function that was called, and where. -/
structure CallSite where
  function : String
  span : Span
  deriving DecidableEq, Repr

/-- The open calls, most recent first. -/
abbrev Backtrace := List CallSite

def Backtrace.render (calls : Backtrace) : String :=
  let line (call : CallSite) (i : Nat) : String :=
    s!"  {i}: {call.function} called at {call.span.render}\n"
  if calls.isEmpty then ""
  else "call backtrace:\n" ++ String.join (calls.zipIdx.map fun (call, i) => line call i)

structure RunError where
  fault : Fault
  /-- The place of the token in its stream. -/
  position : Nat
  /-- The tag that was at fault; none when a stream ran out. -/
  opcode : Option String
  /-- The source of the token; none for generated code. -/
  span : Option Span
  backtrace : Backtrace
  deriving DecidableEq, Repr

namespace RunError

/-- The span itself, or none for the dummy span. -/
def spanOf (span : Span) : Option Span := if span = .dummy then none else some span

/-- Where the machine was, in words. -/
def location (e : RunError) : String :=
  match e.opcode with
  | some tag => s!"while executing `{tag}` (token {e.position})"
  | none => s!"at token {e.position}"

/-- A label on each place that is known, a note for each that is not. -/
def toDiagnostic (e : RunError) : Diagnostic :=
  let context (call : CallSite) : String := s!"in call to `{call.function}`"
  let (unplaced, placed) := e.backtrace.partition (·.span = .dummy)
  { code := e.fault.code
    message := e.fault.message
    labels := (e.span.toList.map fun span => ⟨span, e.location, true⟩) ++
      placed.map fun call => ⟨call.span, context call, false⟩
    notes := (if e.span.isNone then [e.location] else []) ++ unplaced.map context
    suggestions := match e.fault with
      | .recursionLimitExceeded _ => ["raise the limit with `--max-depth=N`"]
      | _ => [] }

end RunError

end TokenMachine
