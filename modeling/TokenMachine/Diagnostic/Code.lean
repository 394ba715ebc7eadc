/-
  TokenMachine.Diagnostic.Code — the codes of all diagnostics.

  A code is `E` and four digits, of which the first names the phase: 0 reading,
  1 compiling, 2 listings and their verification, 6 running, 9 the machine's own
  bookkeeping.
-/

namespace TokenMachine

inductive ErrorCode where
  | unterminatedString
  | strayCharacter
  | invalidEscape
  | unexpectedClose
  | unclosedOpen
  | nestingTooDeep
  | emptyForm
  | wrongArity
  | nameExpected
  | unquotedString
  | nestedFunction
  | malformedParams
  | duplicateFunction
  | duplicateParameter
  | returnOutsideFunction
  | nonSymbolHead
  | statementAsValue
  | invalidQuote
  | unknownTag
  | missingOperand
  | strayMarker
  | unclosedIf
  | malformedBlock
  | malformedWord
  | streamUnderflow
  | stackUnderflow
  | unboundName
  | undefinedFunction
  | returnOutsideCall
  | unknownOpcode
  | typeMismatch
  | recursionLimit
  | misplacedMarker
  | malformedLiteral
  | unbalancedFrames
  deriving DecidableEq, Repr

namespace ErrorCode

/-- Every code, in the order of their numbers. -/
def all : List ErrorCode :=
  [unterminatedString, strayCharacter, invalidEscape, unexpectedClose, unclosedOpen,
   nestingTooDeep, emptyForm, wrongArity, nameExpected, unquotedString, nestedFunction,
   malformedParams, duplicateFunction, duplicateParameter, returnOutsideFunction, nonSymbolHead,
   statementAsValue, invalidQuote, unknownTag, missingOperand, strayMarker, unclosedIf,
   malformedBlock, malformedWord, streamUnderflow, stackUnderflow, unboundName,
   undefinedFunction, returnOutsideCall, unknownOpcode, typeMismatch, recursionLimit,
   misplacedMarker, malformedLiteral, unbalancedFrames]

def text : ErrorCode → String
  | unterminatedString => "E0001"
  | strayCharacter => "E0002"
  | invalidEscape => "E0003"
  | unexpectedClose => "E0004"
  | unclosedOpen => "E0005"
  | nestingTooDeep => "E0006"
  | emptyForm => "E1001"
  | wrongArity => "E1002"
  | nameExpected => "E1003"
  | unquotedString => "E1004"
  | nestedFunction => "E1005"
  | malformedParams => "E1006"
  | duplicateFunction => "E1007"
  | duplicateParameter => "E1008"
  | returnOutsideFunction => "E1009"
  | nonSymbolHead => "E1010"
  | statementAsValue => "E1011"
  | invalidQuote => "E1012"
  | unknownTag => "E2001"
  | missingOperand => "E2002"
  | strayMarker => "E2003"
  | unclosedIf => "E2004"
  | malformedBlock => "E2005"
  | malformedWord => "E2006"
  | streamUnderflow => "E6001"
  | stackUnderflow => "E6002"
  | unboundName => "E6003"
  | undefinedFunction => "E6004"
  | returnOutsideCall => "E6005"
  | unknownOpcode => "E6006"
  | typeMismatch => "E6007"
  | recursionLimit => "E6008"
  | misplacedMarker => "E6009"
  | malformedLiteral => "E6010"
  | unbalancedFrames => "E9001"

/-- The code with this text, in any case of letters. -/
def ofText? (text : String) : Option ErrorCode :=
  all.find? fun code => code.text.toList == text.toList.map Char.toUpper

/-- One line of explanation. -/
def description : ErrorCode → String
  | unterminatedString => "a string literal is missing its closing quote"
  | strayCharacter => "the source contains a character the reader does not accept"
  | invalidEscape => "a string literal contains an unknown escape sequence"
  | unexpectedClose => "a `)` appears with no matching `(`"
  | unclosedOpen => "a `(` is never closed"
  | nestingTooDeep => "lists are nested deeper than the reader allows"
  | emptyForm => "an empty list `()` cannot be compiled"
  | wrongArity => "a special form was given the wrong number of arguments"
  | nameExpected => "a name was expected (variable, function or parameter)"
  | unquotedString => "a string literal reached the compiler without being quoted"
  | nestedFunction => "`fn` definitions are only allowed at the top level"
  | malformedParams => "a function's parameter list must be a list of names"
  | duplicateFunction => "two functions share the same name"
  | duplicateParameter => "a function declares the same parameter twice"
  | returnOutsideFunction => "`return` can only be used inside a function body"
  | nonSymbolHead => "the head of a form must be a name"
  | statementAsValue =>
    "a statement (`let`, `print`, `if`, `do`, `return`) was used as a value"
  | invalidQuote => "`quote` only wraps string literals"
  | unknownTag => "the opcode listing contains an unknown instruction tag"
  | missingOperand => "a literal instruction is missing its operand"
  | strayMarker => "an `else` or `end` has no matching `if`"
  | unclosedIf => "an `if` is never closed by `end`"
  | malformedBlock => "a `.fn` block is malformed or never closed by `.endfn`"
  | malformedWord => "a quoted token is unterminated or contains an unknown escape"
  | streamUnderflow => "an instruction needed a token past the end of the stream"
  | stackUnderflow => "an instruction popped an empty evaluation stack"
  | unboundName => "a variable was read before anything was bound to it"
  | undefinedFunction => "a call names a function that is not defined"
  | returnOutsideCall => "`return` executed with no enclosing call"
  | unknownOpcode => "the stream contains an instruction tag the machine does not know"
  | typeMismatch => "an instruction received a value of the wrong kind"
  | recursionLimit => "calls nested deeper than the configured limit"
  | misplacedMarker => "an `else` or `end` was reached outside its `if`"
  | malformedLiteral => "a literal operand could not be parsed"
  | unbalancedFrames => "frame bookkeeping did not balance when evaluation finished"

theorem ofText?_text (code : ErrorCode) : ofText? code.text = some code := by
  cases code <;> decide

end ErrorCode

end TokenMachine
