/-
  TokenMachine.Value — the values that a machine computes with.

  A value is a number, a text, a boolean, or a name that waits for the instruction
  that consumes it. Numbers are 64-bit floating point: `==` on values holds for the
  two zeros and fails for a NaN. Texts are joined, compared and ordered, the order
  being that of their code points.
-/

import TokenMachine.Decimal.Shortest
import TokenMachine.Opcode

namespace TokenMachine

inductive Value where
  | number (x : Float)
  | text (s : String)
  | boolean (b : Bool)
  | name (s : String)
  deriving BEq, Repr

namespace Value

def typeName : Value → String
  | number _ => "number"
  | text _ => "text"
  | boolean _ => "boolean"
  | name _ => "name"

/-- The text that `print` writes. Both zeros are written `0`. -/
def render : Value → String
  | number x => Decimal.shortest (x + 0.0)
  | text s => s
  | boolean b => if b then "true" else "false"
  | name s => s!"<name {s}>"

end Value

namespace BinaryOp

/-- What an operator takes, as a type mismatch says it. -/
def operands : BinaryOp → String
  | sub | mul | div => "two numbers"
  | eq | notEq => "two values of the same kind"
  | add | lt | gt | ltEq | gtEq => "two numbers or two texts"

/-- An operator on numbers. -/
def onNumbers (op : BinaryOp) (x y : Float) : Value :=
  match op with
  | add => .number (x + y)
  | sub => .number (x - y)
  | mul => .number (x * y)
  | div => .number (x / y)
  | eq => .boolean (x == y)
  | notEq => .boolean (x != y)
  | gt => .boolean (x > y)
  | lt => .boolean (x < y)
  | ltEq => .boolean (x ≤ y)
  | gtEq => .boolean (x ≥ y)

/-- An operator on texts: joining, equality and order. -/
def onTexts? (op : BinaryOp) (s t : String) : Option Value :=
  match op with
  | add => some (.text (s ++ t))
  | sub | mul | div => none
  | eq => some (.boolean (s == t))
  | notEq => some (.boolean (s != t))
  | gt => some (.boolean (t < s))
  | lt => some (.boolean (s < t))
  | ltEq => some (.boolean (s ≤ t))
  | gtEq => some (.boolean (t ≤ s))

/-- An operator on booleans: equality alone. -/
def onBooleans? (op : BinaryOp) (a b : Bool) : Option Value :=
  match op with
  | eq => some (.boolean (a == b))
  | notEq => some (.boolean (a != b))
  | add | sub | mul | div | gt | lt | ltEq | gtEq => none

/-- `lhs op rhs`, if the operator takes two values of these kinds. -/
def result? (op : BinaryOp) (lhs rhs : Value) : Option Value :=
  match lhs, rhs with
  | .number x, .number y => some (op.onNumbers x y)
  | .text s, .text t => op.onTexts? s t
  | .boolean a, .boolean b => op.onBooleans? a b
  | _, _ => none

end BinaryOp

end TokenMachine
