/-
  TokenMachine.Script.Lower — the token streams of a script.

  Operands come before their instruction, the last operand first, so the machine pops
  them in the order in which they were written:

    (let x e)        e  ident x  let
    (print e)        e  print
    (if c t f)       c  if  t  else  f  end
    (return e)       e  return
    (op a b)         b  a  op
    (f a1 … an)      an  …  a1  ident f  call
-/

import TokenMachine.Program
import TokenMachine.Script.Basic

namespace TokenMachine

def Action.token (act : Action) (span : Span) : Token := ⟨act.tag, span⟩

/-- A literal instruction: its tag and its operand. -/
def Literal.tokens (kind : Literal) (operand : String) (span : Span) : List Token :=
  [⟨kind.tag, span⟩, ⟨operand, span⟩]

mutual

/-- Tokens that push the value of the expression. -/
def Expr.tokens : Expr → List Token
  | .number raw span => Literal.number.tokens raw span
  | .boolean value span => Literal.boolean.tokens (if value then "true" else "false") span
  | .text value span => Literal.text.tokens value span
  | .var name span => Literal.name.tokens name span ++ [Action.load.token span]
  | .binary op lhs rhs span => rhs.tokens ++ lhs.tokens ++ [(Action.binary op).token span]
  | .call callee calleeSpan args span =>
    Expr.argTokens args ++ Literal.name.tokens callee calleeSpan ++ [Action.call.token span]

/-- Tokens that push the arguments, the last one first. -/
def Expr.argTokens : List Expr → List Token
  | [] => []
  | arg :: rest => Expr.argTokens rest ++ arg.tokens

end

mutual

def Stmt.tokens : Stmt → List Token
  | .expr e => e.tokens
  | .bind name nameSpan value span =>
    value.tokens ++ Literal.name.tokens name nameSpan ++ [Action.bind.token span]
  | .print value span => value.tokens ++ [Action.print.token span]
  | .ifThen condition thenStmt span =>
    condition.tokens ++ [Action.branch.token span] ++ thenStmt.tokens ++ [Action.close.token span]
  | .ifElse condition thenStmt elseSpan elseStmt span =>
    condition.tokens ++ [Action.branch.token span] ++ thenStmt.tokens ++
      [Action.otherwise.token elseSpan] ++ elseStmt.tokens ++ [Action.close.token span]
  | .block body => Stmt.blockTokens body
  | .ret value span => value.tokens ++ [Action.ret.token span]

def Stmt.blockTokens : List Stmt → List Token
  | [] => []
  | stmt :: rest => stmt.tokens ++ Stmt.blockTokens rest

end

def Definition.lower (d : Definition) : FunctionDef :=
  ⟨d.name, d.params, Stmt.blockTokens d.body, d.span⟩

/-- The table of the definitions; of two with one name the first is kept. -/
def FunctionTable.ofDefinitions (ds : List Definition) : FunctionTable :=
  ds.foldl (fun table d =>
    match table.define d.lower with
    | .ok table => table
    | .error _ => table) .empty

def Script.lower (s : Script) : Program :=
  ⟨Stmt.blockTokens s.main, .ofDefinitions s.definitions⟩

end TokenMachine
