/-
  TokenMachine.Proofs.Semantics.Interpreter — what forms mean, without tokens.

  Forms are interpreted by their structure, over one stack of values that all calls
  share. An expression runs its operands from the last to the first and takes their
  values off the stack; a statement hands on the bindings, or returns out of the function
  around it; a call runs the body of its function over a copy of the caller's bindings.
  There are no tokens, cursors, frames or skips here, and forms outside the language do
  nothing.
-/

import TokenMachine.Machine.Step
import TokenMachine.Proofs.Script.Grammar

namespace TokenMachine.Semantics

/-! ## Evaluations -/

structure Memory where
  /-- Top first. -/
  stack : Stack
  /-- The lines printed so far, most recent first. -/
  printed : List String

structure Failure where
  fault : Fault
  /-- The calls that were open, most recent first. -/
  calls : Backtrace
  deriving DecidableEq, Repr

/-- A computation over the memory. One that fails keeps what was printed. -/
abbrev Eval := EStateM Failure Memory

namespace Eval

def fail {α : Type} (fault : Fault) : Eval α := fun m => .error ⟨fault, []⟩ m

def check {α : Type} : Except Fault α → Eval α
  | .ok a => pure a
  | .error fault => fail fault

def push (v : Value) : Eval Unit := fun m => .ok () { m with stack := v :: m.stack }

def pop : Eval Value := fun m =>
  match m.stack with
  | [] => .error ⟨.stackUnderflow, []⟩ m
  | v :: rest => .ok v { m with stack := rest }

/-- Print a value on a line. A name is none. -/
def print (v : Value) : Eval Unit := fun m =>
  match v with
  | .name _ => fail (.typeMismatch Action.print.tag "a number, text or boolean" v.typeName) m
  | _ => .ok () { m with printed := v.render :: m.printed }

def operate (op : BinaryOp) (l r : Value) : Eval Unit :=
  match op.result? l r with
  | some v => push v
  | none => fail (.typeMismatch op.symbol op.operands s!"{l.typeName} and {r.typeName}")

def decision : Value → Eval Bool
  | .boolean b => pure b
  | v => fail (.typeMismatch Action.branch.tag "a boolean" v.typeName)

def popArgs (env : Env) : List String → Eval Env
  | [] => pure env
  | param :: params => do popArgs (env.bind param (← pop)) params

/-- Run the body of a call made at `site`: what fails in it fails with that call open. -/
def within {α : Type} (site : CallSite) (x : Eval α) : Eval α := fun m =>
  match x m with
  | .ok a m => .ok a m
  | .error e m => .error { e with calls := e.calls ++ [site] } m

end Eval

open Eval

/-! ## Forms -/

inductive Flow where
  | next (env : Env)
  | returned (v : Value)

section

-- What calling a function does, over the caller's bindings.
variable (call : Env → CallSite → Eval Unit)

mutual

/-- Run an expression, which leaves its value on the stack. -/
def eval (env : Env) : Form → Eval Unit
  | .number raw _ => do push (← check (Literal.number.value raw))
  | .symbol name _ =>
    match Keyword.ofText? name with
    | some .trueAtom => push (.boolean true)
    | some .falseAtom => push (.boolean false)
    | _ =>
      match env.lookup name with
      | some v => push v
      | none => fail (.unboundName name)
  | .list (.symbol head _ :: args) span =>
    match BinaryOp.ofSymbol? head, args with
    | some op, [lhs, rhs] => do
      eval env rhs
      eval env lhs
      let l ← pop
      let r ← pop
      operate op l r
    | some .sub, [operand] => do
      eval env operand
      operate .sub (← check (Literal.number.value "0")) (← pop)
    | some .div, [operand] => do
      eval env operand
      operate .div (← check (Literal.number.value "1")) (← pop)
    | some .add, [operand] | some .mul, [operand] => eval env operand
    | some _, _ => pure ()
    | none, args =>
      match Keyword.ofText? head, args with
      | some .quoteForm, [.text value _] => push (.text value)
      | _, args => do
        evalArgs env args
        call env ⟨head, span⟩
  | _ => pure ()

/-- Run the arguments of a call, from the last to the first. -/
def evalArgs (env : Env) : List Form → Eval Unit
  | [] => pure ()
  | arg :: rest => do
    evalArgs env rest
    eval env arg

end

mutual

def exec (env : Env) : Form → Eval Flow
  | .list (.symbol head at_ :: args) span =>
    match Keyword.ofText? head, args with
    | some .letForm, [.symbol name _, value] => do
      eval call env value
      return .next (env.bind name (← pop))
    | some .printForm, [value] => do
      eval call env value
      print (← pop)
      return .next env
    | some .ifForm, [condition, thenForm] => do
      eval call env condition
      if ← decision (← pop) then exec env thenForm else return .next env
    | some .ifForm, [condition, thenForm, elseForm] => do
      eval call env condition
      if ← decision (← pop) then exec env thenForm else exec env elseForm
    | some .doForm, forms => execAll env forms
    | some .returnForm, [value] => do
      eval call env value
      return .returned (← pop)
    | _, args => do
      eval call env (.list (.symbol head at_ :: args) span)
      return .next env
  | form => do
    eval call env form
    return .next env

/-- Run statements in their order, up to the first that returns. -/
def execAll (env : Env) : List Form → Eval Flow
  | [] => return .next env
  | form :: rest => do
    match ← exec env form with
    | .next env => execAll env rest
    | .returned v => return .returned v

end

/-! ## The forms of the language -/

variable {call} {env : Env} {span head at_ : Span}

theorem eval_boolean (b : Bool) :
    eval call env (.symbol (if b then Keyword.trueAtom else Keyword.falseAtom).text span) =
      push (.boolean b) := by
  cases b <;> rfl

theorem eval_var {name : String} (h : isReserved name = false) :
    eval call env (.symbol name span) =
      match env.lookup name with
      | some v => push v
      | none => fail (.unboundName name) := by
  simp [eval, (ofText?_of_isReserved h).1]

theorem eval_quote (value : String) :
    eval call env (.list [.symbol Keyword.quoteForm.text head, .text value at_] span) =
      push (.text value) :=
  rfl

theorem eval_binary (op : BinaryOp) (lhs rhs : Form) :
    eval call env (.list [.symbol op.symbol head, lhs, rhs] span) = (do
      eval call env rhs
      eval call env lhs
      let l ← pop
      let r ← pop
      operate op l r) := by
  cases op <;> rfl

theorem eval_negate (operand : Form) :
    eval call env (.list [.symbol BinaryOp.sub.symbol head, operand] span) = (do
      eval call env operand
      operate .sub (← check (Literal.number.value "0")) (← pop)) :=
  rfl

theorem eval_invert (operand : Form) :
    eval call env (.list [.symbol BinaryOp.div.symbol head, operand] span) = (do
      eval call env operand
      operate .div (← check (Literal.number.value "1")) (← pop)) :=
  rfl

theorem eval_same {op : BinaryOp} (h : op = .add ∨ op = .mul) (operand : Form) :
    eval call env (.list [.symbol op.symbol head, operand] span) = eval call env operand := by
  rcases h with rfl | rfl <;> rfl

theorem eval_call {callee : String} (h : isReserved callee = false) (args : List Form) :
    eval call env (.list (.symbol callee head :: args) span) = (do
      evalArgs call env args
      call env ⟨callee, span⟩) := by
  simp [eval, ofText?_of_isReserved h]

/-- A statement that is an expression is run for what it leaves on the stack. -/
theorem exec_expr {form : Form} {e : Expr} (h : form.SpellsExpr e) :
    exec call env form = (do eval call env form; return .next env) := by
  cases h with
  | binary | negate | invert | same => simp [exec, ofText?_symbol]
  | quote => simp [exec, Keyword.ofText?_text]
  | call hres => simp [exec, (ofText?_of_isReserved hres).1]
  | _ => simp [exec]

theorem exec_let (name : String) (value : Form) :
    exec call env (.list [.symbol Keyword.letForm.text head, .symbol name at_, value] span) = (do
      eval call env value
      return .next (env.bind name (← pop))) :=
  rfl

theorem exec_print (value : Form) :
    exec call env (.list [.symbol Keyword.printForm.text head, value] span) = (do
      eval call env value
      print (← pop)
      return .next env) :=
  rfl

theorem exec_ifThen (condition thenForm : Form) :
    exec call env (.list [.symbol Keyword.ifForm.text head, condition, thenForm] span) = (do
      eval call env condition
      if ← decision (← pop) then exec call env thenForm else return .next env) :=
  rfl

theorem exec_ifElse (condition thenForm elseForm : Form) :
    exec call env (.list [.symbol Keyword.ifForm.text head, condition, thenForm, elseForm] span) =
      (do
        eval call env condition
        if ← decision (← pop) then exec call env thenForm else exec call env elseForm) :=
  rfl

theorem exec_block (forms : List Form) :
    exec call env (.list (.symbol Keyword.doForm.text head :: forms) span) =
      execAll call env forms :=
  rfl

theorem exec_ret (value : Form) :
    exec call env (.list [.symbol Keyword.returnForm.text head, value] span) = (do
      eval call env value
      return .returned (← pop)) :=
  rfl

end

/-! ## Functions -/

structure Procedure where
  name : String
  params : List String
  body : List Form

def Procedure.ofForm? : Form → Option Procedure
  | .list (_ :: .symbol name _ :: .list params _ :: body) _ =>
    some ⟨name, params.filterMap Form.symbol?, body⟩
  | _ => none

/-- What a body leaves on the stack: the value that it returned, and nothing if it did not. -/
def Flow.yield : Flow → Eval Unit
  | .next _ => pure ()
  | .returned v => push v

def call (procedures : List Procedure) (limit : Nat) (room : Nat) (env : Env) (site : CallSite) :
    Eval Unit :=
  match procedures.find? (·.name == site.function) with
  | none => fail (.undefinedFunction site.function)
  | some f =>
    match room with
    | 0 => fail (.recursionLimitExceeded limit)
    | room + 1 => do
      let env ← popArgs env f.params
      let flow ← within site (execAll (call procedures limit room) env f.body)
      flow.yield

/-! ## Whole programs -/

structure Behaviour where
  /-- The lines printed, in order. -/
  printed : List String
  /-- The values left on the stack, bottom first. -/
  result : Except Failure (List Value)

def Behaviour.ofResult {α : Type} : EStateM.Result Failure Memory α → Behaviour
  | .ok _ m => ⟨m.printed.reverse, .ok m.stack.reverse⟩
  | .error e m => ⟨m.printed.reverse, .error e⟩

/-- What the forms do when at most `limit` calls may be open: those headed by `fn` define the
functions, all others are run. -/
def interpret (limit : Nat) (forms : List Form) : Behaviour :=
  let procedures := (forms.filter (·.isDefinition)).filterMap Procedure.ofForm?
  let main := forms.filter (!·.isDefinition)
  .ofResult (execAll (call procedures limit limit) .empty main ⟨[], []⟩)

end TokenMachine.Semantics
