/-
  TokenMachine.Listing.Render — programs as listings.

  The functions come first, in the order of their names, then the main stream. Each
  instruction has its own line, a literal's operand on the line of its tag. A word is
  quoted when it would not be read back as itself.
-/

import TokenMachine.Listing.Assemble

namespace TokenMachine.Listing

/-- One instruction per line. -/
def streamLines (indent : List Char) : List Token → List Char
  | [] => []
  | [tag] => indent ++ written tag.text.toList ++ ['\n']
  | tag :: next :: rest =>
    match Opcode.ofTag? tag.text with
    | some (.literal _) =>
      indent ++ written tag.text.toList ++ ' ' :: written next.text.toList ++
        '\n' :: streamLines indent rest
    | _ => indent ++ written tag.text.toList ++ '\n' :: streamLines indent (next :: rest)

/-- The words of a function's head line. -/
def headWords (f : FunctionDef) : List Char :=
  (f.name :: f.params).flatMap fun word => ' ' :: written word.toList

def functionBlock (f : FunctionDef) : List Char :=
  fnDirective.toList ++ headWords f ++ ' ' :: paramsEnd.toList ++ '\n' ::
    streamLines [' ', ' ', ' ', ' '] f.body ++ endDirective.toList ++ ['\n', '\n']

/-- The listing of a program. -/
def render (p : Program) : String :=
  String.ofList (p.functions.sorted.flatMap functionBlock ++ streamLines [] p.main)

end TokenMachine.Listing
