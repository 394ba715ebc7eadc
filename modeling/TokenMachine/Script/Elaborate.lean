/-
  TokenMachine.Script.Elaborate — the script that forms spell.

  A form headed by `fn` at the top level defines a function; every other form is a
  statement. Operands and arguments are elaborated in the order in which the machine
  will evaluate them, the last one first; all else from left to right. The first
  fault met in that order is the error.
-/

import TokenMachine.Form.Basic
import TokenMachine.Script.Basic
import TokenMachine.Script.CompileError

namespace TokenMachine

/-- The symbols with a meaning of their own. -/
inductive Keyword where
  | letForm
  | printForm
  | ifForm
  | doForm
  | returnForm
  | fnForm
  | quoteForm
  | trueAtom
  | falseAtom
  deriving DecidableEq, Repr

namespace Keyword

def all : List Keyword :=
  [letForm, printForm, ifForm, doForm, returnForm, fnForm, quoteForm, trueAtom, falseAtom]

def text : Keyword → String
  | letForm => "let"
  | printForm => "print"
  | ifForm => "if"
  | doForm => "do"
  | returnForm => "return"
  | fnForm => "fn"
  | quoteForm => "quote"
  | trueAtom => "true"
  | falseAtom => "false"

def ofText? (text : String) : Option Keyword := all.find? (·.text == text)

theorem ofText?_text (k : Keyword) : ofText? k.text = some k := by
  cases k <;> decide

theorem text_of_ofText? {s : String} {k : Keyword} (h : ofText? s = some k) : k.text = s := by
  simpa using List.find?_some h

theorem ofText?_eq_some_iff {s : String} {k : Keyword} : ofText? s = some k ↔ s = k.text :=
  ⟨fun h => (text_of_ofText? h).symm, fun h => h ▸ ofText?_text k⟩

end Keyword

/-- Whether a symbol can name nothing: it is a keyword or an operator. -/
def isReserved (name : String) : Bool :=
  (Keyword.ofText? name).isSome || (BinaryOp.ofSymbol? name).isSome

/-- The name that a form is. -/
def nameOf (role : NameRole) (form : Form) : Except CompileError String :=
  match form.symbol? with
  | none => .error (.expectedName role form.span)
  | some name =>
    if isReserved name then .error (.reservedName name role form.span) else .ok name

mutual

def exprOf : Form → Except CompileError Expr
  | .number raw span => .ok (.number raw span)
  | .text _ span => .error (.unquotedString span)
  | .symbol name span =>
    match Keyword.ofText? name with
    | some .trueAtom => .ok (.boolean true span)
    | some .falseAtom => .ok (.boolean false span)
    | _ => (nameOf .ofVariable (.symbol name span)).map (.var · span)
  | .list [] span => .error (.emptyForm span)
  | .list (head :: args) span =>
    match head.symbol? with
    | none => .error (.nonSymbolHead head.span)
    | some name =>
      match Keyword.ofText? name with
      | some .quoteForm =>
        match args with
        | [.text value _] => .ok (.text value span)
        | [other] => .error (.invalidQuote other.span)
        | _ => .error (.wrongArity name "one string literal" args.length span)
      | some .fnForm => .error (.nestedFunction span)
      | some .letForm | some .printForm | some .ifForm | some .doForm | some .returnForm =>
        .error (.statementAsValue name span)
      | some .trueAtom | some .falseAtom | none =>
        match BinaryOp.ofSymbol? name with
        | some op => operationOf op args span
        | none => do
          let callee ← nameOf .ofFunction head
          .ok (.call callee head.span (← argsOf args) span)

/-- An operator applied to two operands, or an arithmetic one to one: `(- a)` is `0 - a`,
`(/ a)` is `1 / a`, and `(+ a)` and `(* a)` are `a`. -/
def operationOf (op : BinaryOp) (args : List Form) (span : Span) : Except CompileError Expr :=
  match op, args with
  | op, [lhs, rhs] => do
    let right ← exprOf rhs
    let left ← exprOf lhs
    .ok (.binary op left right span)
  | .sub, [operand] => do .ok (.binary .sub (.number "0" span) (← exprOf operand) span)
  | .div, [operand] => do .ok (.binary .div (.number "1" span) (← exprOf operand) span)
  | .add, [operand] | .mul, [operand] => exprOf operand
  | op, args =>
    let expected := if op.isArithmetic then "one or two operands" else "two operands"
    .error (.wrongArity op.symbol expected args.length span)

/-- The arguments of a call, elaborated from the last to the first. -/
def argsOf : List Form → Except CompileError (List Expr)
  | [] => .ok []
  | arg :: rest => do
    let rest ← argsOf rest
    .ok ((← exprOf arg) :: rest)

end

mutual

def stmtOf (inFunction : Bool) : Form → Except CompileError Stmt
  | .list (head :: args) span =>
    match head.symbol?.bind Keyword.ofText? with
    | some .letForm =>
      match args with
      | [target, value] => do
        let name ← nameOf .ofVariable target
        .ok (.bind name target.span (← exprOf value) span)
      | _ => .error (.wrongArity "let" "a name and a value" args.length span)
    | some .printForm =>
      match args with
      | [value] => do .ok (.print (← exprOf value) span)
      | _ => .error (.wrongArity "print" "one value" args.length span)
    | some .ifForm =>
      match args with
      | [condition, thenForm] => do
        let condition ← exprOf condition
        .ok (.ifThen condition (← stmtOf inFunction thenForm) span)
      | [condition, thenForm, elseForm] => do
        let condition ← exprOf condition
        let thenStmt ← stmtOf inFunction thenForm
        .ok (.ifElse condition thenStmt elseForm.span (← stmtOf inFunction elseForm) span)
      | _ =>
        .error (.wrongArity "if" "a condition, a then-branch and an optional else-branch"
          args.length span)
    | some .doForm => (stmtsOf inFunction args).map .block
    | some .returnForm =>
      if inFunction then
        match args with
        | [value] => do .ok (.ret (← exprOf value) span)
        | _ => .error (.wrongArity "return" "one value" args.length span)
      else .error (.returnOutsideFunction span)
    | some .fnForm => .error (.nestedFunction span)
    | _ => (exprOf (.list (head :: args) span)).map .expr
  | form => (exprOf form).map .expr

def stmtsOf (inFunction : Bool) : List Form → Except CompileError (List Stmt)
  | [] => .ok []
  | form :: rest => do
    let stmt ← stmtOf inFunction form
    .ok (stmt :: (← stmtsOf inFunction rest))

end

/-- The parameter names, after those in `seen`. -/
def paramsOf (seen : List String) : List Form → Except CompileError (List String)
  | [] => .ok []
  | form :: rest =>
    match form.symbol? with
    | none => .error (.malformedParams form.span)
    | some _ => do
      let name ← nameOf .ofParameter form
      if seen.contains name then .error (.duplicateParameter name form.span)
      else .ok (name :: (← paramsOf (name :: seen) rest))

/-- The definition that the items of an `fn` form make, the head aside. -/
def definitionOf (args : List Form) (span : Span) : Except CompileError Definition :=
  match args with
  | nameForm :: paramsForm :: bodyForms => do
    let name ← nameOf .ofFunction nameForm
    match paramsForm with
    | .list paramForms _ => do
      let params ← paramsOf [] paramForms
      .ok ⟨name, params, ← stmtsOf true bodyForms, span⟩
    | other => .error (.malformedParams other.span)
  | _ => .error (.wrongArity "fn" "a name, a parameter list and a body" args.length span)

namespace Script

def empty : Script := ⟨[], []⟩

/-- Add what one top-level form says. -/
def addForm (s : Script) (form : Form) : Except CompileError Script :=
  match form with
  | .list (head :: args) span =>
    if head.symbol? = some Keyword.fnForm.text then do
      let d ← definitionOf args span
      match s.definitions.find? (·.name == d.name) with
      | some first => .error (.duplicateFunction d.name d.span first.span)
      | none => .ok { s with definitions := s.definitions ++ [d] }
    else do .ok { s with main := s.main ++ [← stmtOf false form] }
  | _ => do .ok { s with main := s.main ++ [← stmtOf false form] }

def ofForms (forms : List Form) : Except CompileError Script := forms.foldlM addForm empty

end Script

end TokenMachine
