/-
  TokenMachine.Output — where printed lines go.

  A buffer keeps every line, each followed by a line feed, until it is cleared; a
  silent output keeps nothing. One output can serve many runs.
-/

namespace TokenMachine

inductive Output where
  | buffer (text : String)
  | silent
  deriving DecidableEq, Repr

namespace Output

def empty : Output := buffer ""

def println (out : Output) (line : String) : Output :=
  match out with
  | buffer text => buffer (text ++ line ++ "\n")
  | silent => silent

def printLines (out : Output) (lines : List String) : Output := lines.foldl println out

/-- What was kept so far. -/
def text : Output → String
  | buffer text => text
  | silent => ""

def clear : Output → Output
  | buffer _ => empty
  | silent => silent

end Output

end TokenMachine
