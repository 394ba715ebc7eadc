/-
  TokenMachine.Form.Desugar — the two simplifications between reading and compiling.

  An application of `+`, `-`, `*` or `/` to more than two operands nests to the
  right: `(+ 1 2 3)` becomes `(+ 1 (+ 2 3))`. A text becomes `(quote text)`. A list
  that is `(quote x)` already is left as it is.
-/

import TokenMachine.Form.Basic
import TokenMachine.Opcode

namespace TokenMachine.Form

/-- The operators whose applications nest. -/
def variadicOperators : List String :=
  (BinaryOp.all.filter BinaryOp.isArithmetic).map BinaryOp.symbol

/-- Whether the items are those of `(quote x)`. -/
def isQuoteList : List Form → Bool
  | [head, _] => head.symbol? == some "quote"
  | _ => false

/-- `(quote leaf)`, all of it at the leaf's span. -/
def quote (leaf : Form) : Form := .list [.symbol "quote" leaf.span, leaf] leaf.span

/-- Apply the head to all operands, two at a time, from the right. Each application but the
outermost spans its operands. -/
def nestRight (head : Form) (first : Form) : List Form → Form
  | [] => first
  | second :: rest =>
    let nested := nestRight head second rest
    .list [head, first, nested] (first.span.merge nested.span)

/-- The list of these items, nested if it applies a variadic operator to more than two. -/
def nestVariadic (items : List Form) (span : Span) : Form :=
  match items with
  | head :: first :: second :: third :: rest =>
    match head.symbol? with
    | some name =>
      if variadicOperators.contains name then
        (nestRight head first (second :: third :: rest)).withSpan span
      else .list items span
    | none => .list items span
  | _ => .list items span

mutual

def desugar : Form → Form
  | .text value span => quote (.text value span)
  | .list items span =>
    if isQuoteList items then .list items span else nestVariadic (desugarItems items) span
  | .number raw span => .number raw span
  | .symbol name span => .symbol name span

def desugarItems : List Form → List Form
  | [] => []
  | item :: rest => item.desugar :: desugarItems rest

end

end TokenMachine.Form
