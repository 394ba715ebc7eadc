/-
  TokenMachine.Script.CompileError — what is wrong with a form that is not part of the
  language.
-/

import TokenMachine.Diagnostic.Basic

namespace TokenMachine

/-- What a name is for. -/
inductive NameRole where
  | ofVariable
  | ofFunction
  | ofParameter
  deriving DecidableEq, Repr

def NameRole.text : NameRole → String
  | ofVariable => "variable"
  | ofFunction => "function"
  | ofParameter => "parameter"

inductive CompileError where
  | emptyForm (span : Span)
  | wrongArity (form expected : String) (found : Nat) (span : Span)
  | expectedName (role : NameRole) (span : Span)
  | reservedName (name : String) (role : NameRole) (span : Span)
  | unquotedString (span : Span)
  | nestedFunction (span : Span)
  | malformedParams (span : Span)
  | duplicateFunction (name : String) (span first : Span)
  | duplicateParameter (name : String) (span : Span)
  | returnOutsideFunction (span : Span)
  | nonSymbolHead (span : Span)
  | statementAsValue (form : String) (span : Span)
  | invalidQuote (span : Span)
  deriving DecidableEq, Repr

namespace CompileError

def span : CompileError → Span
  | emptyForm span | wrongArity _ _ _ span | expectedName _ span | reservedName _ _ span
  | unquotedString span | nestedFunction span | malformedParams span
  | duplicateFunction _ span _ | duplicateParameter _ span | returnOutsideFunction span
  | nonSymbolHead span | statementAsValue _ span | invalidQuote span => span

def message : CompileError → String
  | emptyForm _ => "empty form"
  | wrongArity form expected found _ => s!"`{form}` expects {expected}, found {found} argument(s)"
  | expectedName role _ => s!"expected a {role.text} name"
  | reservedName name role _ => s!"`{name}` is reserved and cannot name a {role.text}"
  | unquotedString _ => "string literal was not quoted"
  | nestedFunction _ => "`fn` is only allowed at the top level"
  | malformedParams _ => "malformed parameter list"
  | duplicateFunction name _ _ => s!"function `{name}` is defined more than once"
  | duplicateParameter name _ => s!"parameter `{name}` is declared more than once"
  | returnOutsideFunction _ => "`return` outside of a function"
  | nonSymbolHead _ => "the head of a form must be a name"
  | statementAsValue form _ => s!"`{form}` does not produce a value"
  | invalidQuote _ => "`quote` expects a string literal"

def code : CompileError → ErrorCode
  | emptyForm _ => .emptyForm
  | wrongArity _ _ _ _ => .wrongArity
  | expectedName _ _ | reservedName _ _ _ => .nameExpected
  | unquotedString _ => .unquotedString
  | nestedFunction _ => .nestedFunction
  | malformedParams _ => .malformedParams
  | duplicateFunction _ _ _ => .duplicateFunction
  | duplicateParameter _ _ => .duplicateParameter
  | returnOutsideFunction _ => .returnOutsideFunction
  | nonSymbolHead _ => .nonSymbolHead
  | statementAsValue _ _ => .statementAsValue
  | invalidQuote _ => .invalidQuote

def toDiagnostic (e : CompileError) : Diagnostic :=
  let base := Diagnostic.error e.code e.message
  match e with
  | duplicateFunction _ span first =>
    (base.label span "redefined here").secondary first "first defined here"
  | unquotedString span =>
    (base.label span "bare string").note "run the desugaring pass before compiling"
  | statementAsValue _ span =>
    (base.label span "used as a value here").note
      "only expressions and function calls leave a value on the stack"
  | returnOutsideFunction span => base.label span "not inside a `fn` body"
  | other => base.label other.span ""

end CompileError

end TokenMachine
