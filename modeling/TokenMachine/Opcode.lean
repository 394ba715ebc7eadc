/-
  TokenMachine.Opcode — the instruction tags of a token stream.

  A tag is a word. Four tags are literals: the token after them is their operand,
  whatever it spells. Every other tag is an action and stands alone. The ten
  binary operators are actions whose tag is the operator's own symbol.
  No two opcodes have one tag (`ofTag?_eq_some_iff`).
-/

namespace TokenMachine

inductive BinaryOp where
  | add
  | sub
  | mul
  | div
  | eq
  | notEq
  | gt
  | lt
  | ltEq
  | gtEq
  deriving DecidableEq, Repr

namespace BinaryOp

def all : List BinaryOp := [add, sub, mul, div, eq, notEq, gt, lt, ltEq, gtEq]

/-- The spelling in source text and in token streams. -/
def symbol : BinaryOp → String
  | add => "+"
  | sub => "-"
  | mul => "*"
  | div => "/"
  | eq => "=="
  | notEq => "!="
  | gt => ">"
  | lt => "<"
  | ltEq => "<="
  | gtEq => ">="

def ofSymbol? (symbol : String) : Option BinaryOp := all.find? (·.symbol == symbol)

/-- The four operators that take any number of operands in source text. -/
def isArithmetic : BinaryOp → Bool
  | add | sub | mul | div => true
  | eq | notEq | gt | lt | ltEq | gtEq => false

theorem ofSymbol?_symbol (op : BinaryOp) : ofSymbol? op.symbol = some op := by
  cases op <;> decide

theorem symbol_of_ofSymbol? {s : String} {op : BinaryOp} (h : ofSymbol? s = some op) :
    op.symbol = s := by
  simpa using List.find?_some h

theorem ofSymbol?_eq_some_iff {s : String} {op : BinaryOp} :
    ofSymbol? s = some op ↔ s = op.symbol :=
  ⟨fun h => (symbol_of_ofSymbol? h).symm, fun h => h ▸ ofSymbol?_symbol op⟩

end BinaryOp

/-- The instructions that push their operand. -/
inductive Literal where
  | number
  | text
  | boolean
  | name
  deriving DecidableEq, Repr

def Literal.tag : Literal → String
  | number => "number"
  | text => "string"
  | boolean => "bool"
  | name => "ident"

/-- The instructions without operand. -/
inductive Action where
  /-- Pop a name and push the value bound to it. -/
  | load
  /-- Pop a name, then a value, and bind the one to the other. -/
  | bind
  /-- Pop the left operand, then the right one, and push the result. -/
  | binary (op : BinaryOp)
  /-- Pop a value and print it on a line. -/
  | print
  /-- Pop a boolean and choose a branch by it. -/
  | branch
  /-- Divides the branch for true from the branch for false. -/
  | otherwise
  /-- Ends the innermost `branch`. -/
  | close
  /-- Pop a name and invoke the function it names. -/
  | call
  /-- Pop a value and leave the innermost call with it. -/
  | ret
  deriving DecidableEq, Repr

def Action.tag : Action → String
  | load => "var"
  | bind => "let"
  | binary op => op.symbol
  | print => "print"
  | branch => "if"
  | otherwise => "else"
  | close => "end"
  | call => "call"
  | ret => "return"

/-- The actions that end a branch. -/
inductive Marker where
  | otherwise
  | close
  deriving DecidableEq, Repr

def Marker.action : Marker → Action
  | otherwise => .otherwise
  | close => .close

inductive Opcode where
  | literal (kind : Literal)
  | action (act : Action)
  deriving DecidableEq, Repr

namespace Opcode

/-- Every opcode, in the order in which they are listed to users. -/
def all : List Opcode :=
  [.literal .number, .literal .text, .literal .boolean, .literal .name, .action .load,
   .action .bind] ++ BinaryOp.all.map (fun op => .action (.binary op)) ++
  [.action .print, .action .branch, .action .otherwise, .action .close, .action .call,
   .action .ret]

def tag : Opcode → String
  | literal kind => kind.tag
  | action act => act.tag

def ofTag? (tag : String) : Option Opcode := all.find? (·.tag == tag)

/-- Whether the next token is an operand. -/
def takesOperand : Opcode → Bool
  | literal _ => true
  | action _ => false

theorem ofTag?_tag (op : Opcode) : ofTag? op.tag = some op := by
  rcases op with (_ | _ | _ | _) | (_ | _ | (_ | _ | _ | _ | _ | _ | _ | _ | _ | _) | _ | _ | _ | _ | _ | _) <;>
    decide

theorem tag_of_ofTag? {t : String} {op : Opcode} (h : ofTag? t = some op) : op.tag = t := by
  simpa using List.find?_some h

theorem ofTag?_eq_some_iff {t : String} {op : Opcode} : ofTag? t = some op ↔ t = op.tag :=
  ⟨fun h => (tag_of_ofTag? h).symm, fun h => h ▸ ofTag?_tag op⟩

end Opcode

end TokenMachine
