/-
  TokenMachine.Script.Basic — expressions, statements and function definitions.

  A script is a sequence of statements and the functions they may call. Names in it
  are never reserved, a function's parameters are distinct, and `return` stands only
  inside functions: elaborating a form (`TokenMachine.Script.Elaborate`) checks this.
  Each node keeps the span of the form it stands for.
-/

import TokenMachine.Opcode
import TokenMachine.Span

namespace TokenMachine

inductive Expr where
  | number (raw : String) (span : Span)
  | boolean (value : Bool) (span : Span)
  | text (value : String) (span : Span)
  | var (name : String) (span : Span)
  | binary (op : BinaryOp) (lhs rhs : Expr) (span : Span)
  | call (callee : String) (calleeSpan : Span) (args : List Expr) (span : Span)
  deriving Repr, Inhabited

inductive Stmt where
  | expr (e : Expr)
  | bind (name : String) (nameSpan : Span) (value : Expr) (span : Span)
  | print (value : Expr) (span : Span)
  | ifThen (condition : Expr) (thenStmt : Stmt) (span : Span)
  | ifElse (condition : Expr) (thenStmt : Stmt) (elseSpan : Span) (elseStmt : Stmt) (span : Span)
  | block (body : List Stmt)
  | ret (value : Expr) (span : Span)
  deriving Repr, Inhabited

structure Definition where
  name : String
  params : List String
  body : List Stmt
  span : Span
  deriving Repr

structure Script where
  main : List Stmt
  /-- In the order in which they were defined, no two of one name. -/
  definitions : List Definition
  deriving Repr

end TokenMachine
