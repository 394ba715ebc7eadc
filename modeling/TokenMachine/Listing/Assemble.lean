/-
  TokenMachine.Listing.Assemble — the program that a listing spells.

  A function is a block of words: `.fn`, its name, its parameters, `:`, its body and
  `.endfn`. Every other word is a token of the main stream. Only unquoted words are
  directives, and the word after `.fn` is a name whatever it is, `:` aside. No
  instruction is looked at: see `TokenMachine.Verify`.
-/

import TokenMachine.Diagnostic.Basic
import TokenMachine.Listing.Word
import TokenMachine.Program

namespace TokenMachine.Listing

/-- What is wrong with a function block. -/
inductive BlockFault where
  | endWithoutStart
  | missingName
  | openParams
  | nested
  | missingEnd
  deriving DecidableEq, Repr

def BlockFault.reason : BlockFault → String
  | endWithoutStart => "`.endfn` without `.fn`"
  | missingName => "expected a function name after `.fn`"
  | openParams => "parameter list must end with `:`"
  | nested => "function blocks cannot nest"
  | missingEnd => "missing `.endfn`"

inductive AssembleError where
  | unterminatedQuote (span : Span)
  | invalidEscape (escape : Char) (span : Span)
  | malformedFunction (fault : BlockFault) (span : Span)
  | duplicateFunction (name : String) (span : Span)
  deriving DecidableEq, Repr

namespace AssembleError

def ofWordError : WordError → AssembleError
  | .unterminatedQuote span => .unterminatedQuote span
  | .invalidEscape bad => .invalidEscape bad.letter bad.span

def span : AssembleError → Span
  | unterminatedQuote span | invalidEscape _ span | malformedFunction _ span
  | duplicateFunction _ span => span

def message : AssembleError → String
  | unterminatedQuote _ => "unterminated quoted word"
  | invalidEscape escape _ => s!"invalid escape sequence `\\{escape}` in quoted word"
  | malformedFunction fault _ => s!"malformed function block: {fault.reason}"
  | duplicateFunction name _ => s!"function `{name}` is defined more than once"

def code : AssembleError → ErrorCode
  | unterminatedQuote _ | invalidEscape _ _ => .malformedWord
  | malformedFunction _ _ => .malformedBlock
  | duplicateFunction _ _ => .duplicateFunction

def toDiagnostic (e : AssembleError) : Diagnostic :=
  (Diagnostic.error e.code e.message).label e.span ""

end AssembleError

/-! ## Directives -/

def fnDirective : String := ".fn"
def endDirective : String := ".endfn"
def paramsEnd : String := ":"

def Word.isDirective (w : Word) (directive : String) : Bool := !w.quoted && w.text == directive

def Word.token (w : Word) : Token := ⟨w.text, w.span⟩

/-! ## Blocks -/

/-- The function block being read; lists hold their last element first. -/
inductive OpenBlock where
  | unnamed (start : Span)
  | inParams (start : Span) (name : String) (params : List String)
  | inBody (start : Span) (name : String) (params : List String) (body : List Token)

structure Assembly where
  /-- The tokens of the main stream, the last one first. -/
  main : List Token
  functions : FunctionTable
  block : Option OpenBlock

namespace Assembly

def empty : Assembly := ⟨[], .empty, none⟩

def takeWord (a : Assembly) (w : Word) : Except AssembleError Assembly :=
  match a.block with
  | none =>
    if w.isDirective endDirective then .error (.malformedFunction .endWithoutStart w.span)
    else if w.isDirective fnDirective then .ok { a with block := some (.unnamed w.span) }
    else .ok { a with main := w.token :: a.main }
  | some (.unnamed start) =>
    if w.isDirective paramsEnd then .error (.malformedFunction .missingName start)
    else .ok { a with block := some (.inParams start w.text []) }
  | some (.inParams start name params) =>
    if w.isDirective paramsEnd then
      .ok { a with block := some (.inBody start name params.reverse []) }
    else if w.isDirective fnDirective || w.isDirective endDirective then
      .error (.malformedFunction .openParams w.span)
    else .ok { a with block := some (.inParams start name (w.text :: params)) }
  | some (.inBody start name params body) =>
    if w.isDirective endDirective then
      match a.functions.define ⟨name, params, body.reverse, start.merge w.span⟩ with
      | .ok functions => .ok { a with functions, block := none }
      | .error rejected => .error (.duplicateFunction rejected.name rejected.span)
    else if w.isDirective fnDirective then .error (.malformedFunction .nested w.span)
    else .ok { a with block := some (.inBody start name params (w.token :: body)) }

/-- The program, if every block was closed. -/
def finish (a : Assembly) : Except AssembleError Program :=
  match a.block with
  | none => .ok ⟨a.main.reverse, a.functions⟩
  | some (.unnamed start) => .error (.malformedFunction .missingName start)
  | some (.inParams start _ _) | some (.inBody start _ _ _) =>
    .error (.malformedFunction .missingEnd start)

end Assembly

def ofWords (words : List Word) : Except AssembleError Program := do
  (← words.foldlM Assembly.takeWord .empty).finish

/-- The program that a listing spells. -/
def assemble (listing : String) : Except AssembleError Program := do
  ofWords (← (Word.ofListing listing).mapError .ofWordError)

end TokenMachine.Listing
