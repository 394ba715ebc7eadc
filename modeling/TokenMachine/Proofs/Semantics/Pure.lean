/-
  TokenMachine.Proofs.Semantics.Pure — expressions without calls have a value, and nothing else.

  `Form.value` evaluates an expression by its structure, with the bindings of its variables and
  no stack: an operator's right operand first, then the left one, then the operator. Running a
  call-free expression on the shared stack comes to the same (`Yields`): it pushes that value,
  or fails as the evaluation does, and prints nothing (`yields_eval`). The machine does what
  running the form does, so in whatever state it executes the tokens of the expression, all
  that changes is the value on top of the stack (`State.steps_value`).
-/

import TokenMachine.Proofs.Semantics.Compilation

namespace TokenMachine

/-! ## Direct evaluation -/

def BinaryOp.apply (op : BinaryOp) (l r : Value) : Except Fault Value :=
  match op.result? l r with
  | some v => .ok v
  | none => .error (.typeMismatch op.symbol op.operands s!"{l.typeName} and {r.typeName}")

/-- What stands for the value of a form that has none: a statement, a call or a bare text. -/
def Fault.noValue : Fault := .structuralError "not an expression without calls"

namespace Form

mutual

/-- The value of an expression without calls, where `env` binds its variables. -/
def value (env : Env) : Form → Except Fault Value
  | .number raw _ => Literal.number.value raw
  | .symbol name _ =>
    match Keyword.ofText? name with
    | some .trueAtom => .ok (.boolean true)
    | some .falseAtom => .ok (.boolean false)
    | _ =>
      match env.lookup name with
      | some v => .ok v
      | none => .error (.unboundName name)
  | .list (.symbol head _ :: args) _ =>
    match BinaryOp.ofSymbol? head with
    | some op => operation env op args
    | none =>
      match Keyword.ofText? head, args with
      | some .quoteForm, [.text content _] => .ok (.text content)
      | _, _ => .error .noValue
  | _ => .error .noValue

/-- An operator applied to its operands, of which the right one is evaluated first. With one
operand, `-` takes it from zero and `/` divides one by it; `+` and `*` leave it as it is. -/
def operation (env : Env) (op : BinaryOp) : List Form → Except Fault Value
  | [lhs, rhs] => do
    let r ← rhs.value env
    let l ← lhs.value env
    op.apply l r
  | [operand] => do
    let v ← operand.value env
    match op with
    | .sub => op.apply (.number 0) v
    | .div => op.apply (.number 1) v
    | .add | .mul => .ok v
    | _ => .error .noValue
  | _ => .error .noValue

end

variable {env : Env} {span head at_ : Span}

theorem value_boolean (b : Bool) :
    value env (.symbol (if b then Keyword.trueAtom else Keyword.falseAtom).text span) =
      .ok (.boolean b) := by
  cases b <;> rfl

theorem value_var {name : String} (h : isReserved name = false) :
    value env (.symbol name span) =
      match env.lookup name with
      | some v => .ok v
      | none => .error (.unboundName name) := by
  simp [value, (ofText?_of_isReserved h).1]

theorem value_quote (text : String) :
    value env (.list [.symbol Keyword.quoteForm.text head, .text text at_] span) =
      .ok (.text text) :=
  rfl

theorem value_operation (op : BinaryOp) (operands : List Form) :
    value env (.list (.symbol op.symbol head :: operands) span) = operation env op operands := by
  simp only [value, BinaryOp.ofSymbol?_symbol]

end Form

/-! ## Running an expression on the shared stack -/

namespace Semantics

open Eval

variable {α β : Type} {m m' : Memory} {x y : Eval Unit} {r l : Except Fault Value}
  {call : Env → CallSite → Eval Unit} {env : Env} {form : Form} {e : Expr}

theorem bind_of_ok {x : Eval α} {f : α → Eval β} {a : α} (h : x m = .ok a m') :
    (x >>= f) m = f a m' := by
  show EStateM.bind x f m = _
  rw [EStateM.bind, h]

theorem bind_of_error {x : Eval α} {f : α → Eval β} {e : Failure} (h : x m = .error e m') :
    (x >>= f) m = .error e m' := by
  show EStateM.bind x f m = _
  rw [EStateM.bind, h]

/-- In the memory `m`, `x` pushes the value that `r` is, or fails as `r` does. It prints nothing,
and opens no call in which it could fail. -/
inductive Yields (x : Eval Unit) (m : Memory) : Except Fault Value → Prop
  | pushed {v : Value} : x m = .ok () { m with stack := v :: m.stack } → Yields x m (.ok v)
  | failed {fault : Fault} {stack : Stack} :
      x m = .error ⟨fault, []⟩ { m with stack } → Yields x m (.error fault)

theorem Yields.of_eq (hx : Yields x m r) (h : y m = x m) : Yields y m r := by
  cases hx with
  | pushed hx => exact .pushed (h.trans hx)
  | failed hx => exact .failed (h.trans hx)

theorem yields_check (r : Except Fault Value) : Yields (do push (← check r)) m r := by
  cases r with
  | ok v => exact .pushed rfl
  | error fault => exact .failed rfl

theorem yields_operate (op : BinaryOp) (l r : Value) :
    Yields (operate op l r) m (op.apply l r) := by
  unfold operate BinaryOp.apply
  cases op.result? l r with
  | some v => exact .pushed rfl
  | none => exact .failed rfl

/-- The right operand is run first, and its value waits on the stack under that of the left. -/
theorem Yields.binary (hx : ∀ m, Yields x m r) (hy : ∀ m, Yields y m l) (op : BinaryOp) :
    Yields (do x; y; let l ← pop; let r ← pop; operate op l r) m
      (do let r ← r; let l ← l; op.apply l r) := by
  cases hx m with
  | failed hright => exact .failed (bind_of_error hright)
  | @pushed r hright =>
    cases hy { m with stack := r :: m.stack } with
    | failed hleft => exact .failed ((bind_of_ok hright).trans (bind_of_error hleft))
    | @pushed l hleft =>
      exact (yields_operate op l r).of_eq ((bind_of_ok hright).trans (bind_of_ok hleft))

theorem Yields.unary {raw : String} {v : Value} (hx : ∀ m, Yields x m r) (op : BinaryOp)
    (hv : Literal.number.value raw = .ok v) :
    Yields (do x; operate op (← check (Literal.number.value raw)) (← pop)) m
      (do let r ← r; op.apply v r) := by
  rw [hv]
  cases hx m with
  | failed hoperand => exact .failed (bind_of_error hoperand)
  | @pushed r hoperand => exact (yields_operate op v r).of_eq (bind_of_ok hoperand)

theorem value_zero : Literal.number.value "0" = .ok (.number 0) := by
  have hnumeral : Decimal.parse? "0".toList = some ⟨false, 0, 0⟩ := by decide
  have hfloat : Decimal.toFloat ⟨false, 0, 0⟩ = 0 := by
    simp only [Decimal.toFloat, Decimal.magnitude, Bool.false_eq_true, if_false, if_true]
    rfl
  rw [Literal.value, Decimal.floatOfText?, hnumeral]
  exact congrArg (fun x => Except.ok (Value.number x)) hfloat

theorem value_one : Literal.number.value "1" = .ok (.number 1) := by
  have hnumeral : Decimal.parse? "1".toList = some ⟨false, 1, 0⟩ := by decide
  have hfloat : Decimal.toFloat ⟨false, 1, 0⟩ = 1 := by
    simp [Decimal.toFloat, Decimal.magnitude]
    rfl
  rw [Literal.value, Decimal.floatOfText?, hnumeral]
  exact congrArg (fun x => Except.ok (Value.number x)) hfloat

/-- Running an expression without calls pushes its value, or fails as its evaluation does. -/
theorem yields_eval (hf : form.SpellsExpr e) (hfree : form.callFree = true) :
    Yields (eval call env form) m (form.value env) := by
  induction hf generalizing m with
  | number => exact yields_check _
  | @boolean b k span hk =>
    subst hk
    rw [eval_boolean, Form.value_boolean]
    exact .pushed rfl
  | quote => exact .pushed rfl
  | @var name span hres =>
    rw [eval_var hres, Form.value_var hres]
    cases env.lookup name with
    | some v => exact .pushed rfl
    | none => exact .failed rfl
  | @binary op lhs rhs _ _ _ _ _ _ ihl ihr =>
    have hlhs : lhs.callFree = true := Form.callFree_of_mem (by simp) hfree
    have hrhs : rhs.callFree = true := Form.callFree_of_mem (by simp) hfree
    rw [eval_binary, Form.value_operation, Form.operation]
    exact .binary (fun _ => ihr hrhs) (fun _ => ihl hlhs) op
  | @negate operand _ _ _ _ ih =>
    have hoperand : operand.callFree = true := Form.callFree_of_mem (by simp) hfree
    rw [eval_negate, Form.value_operation, Form.operation]
    exact .unary (fun _ => ih hoperand) .sub value_zero
  | @invert operand _ _ _ _ ih =>
    have hoperand : operand.callFree = true := Form.callFree_of_mem (by simp) hfree
    rw [eval_invert, Form.value_operation, Form.operation]
    exact .unary (fun _ => ih hoperand) .div value_one
  | @same op operand _ _ _ hop _ ih =>
    have hoperand : operand.callFree = true := Form.callFree_of_mem (by simp) hfree
    have hsame : Form.operation env op [operand] = operand.value env := by
      rcases hop with rfl | rfl <;> exact bind_pure (operand.value env)
    rw [eval_same hop, Form.value_operation, hsame]
    exact ih hoperand
  | call hres =>
    have hcalled := (Form.callFree_list_iff.mp hfree).1
    simp [Form.isCall, Form.head?, Form.symbol?, hres] at hcalled

end Semantics

/-! ## On the machine -/

namespace State

open Semantics

/-- Executing the tokens of an expression without calls, in whatever state of whatever program,
does one of two things. If the form has a value in the bindings of the current frame, that value
is pushed, and the frame stands after the tokens; the stack beneath, the bindings and open branches
of the frame, the frames of the calls and the lines printed are what they were. Otherwise the run
ends with the fault of the evaluation, in the calls that were open and with nothing more printed. -/
theorem steps_value (p : Program) (s : State) (form : Form) {e : Expr} {rest : List Token}
    (he : exprOf form = .ok e) (hfree : form.callFree = true)
    (hrest : s.frames.current.cursor.rest = e.tokens ++ rest) :
    match form.value s.frames.current.env with
    | .ok v => ∃ t pos, Steps p s t ∧ t.stack = v :: s.stack ∧ t.printed = s.printed ∧
        t.frames = s.frames.setCurrent { s.frames.current with cursor := ⟨pos, rest⟩ }
    | .error fault => ∃ err, s.run p = ⟨s.printed.reverse, .error err⟩ ∧ err.fault = fault ∧
        err.backtrace = s.frames.backtrace := by
  have hform := spellsExpr_of_exprOf he
  have hat : At s.frames (e.tokens ++ rest) s.frames.current.env s.frames.current.blocks
      ⟨s.stack, s.printed⟩ s := by
    refine ⟨⟨s.frames.current.cursor.position, ?_⟩, rfl, rfl⟩
    exact hrest ▸ (CallStack.setCurrent_current s.frames).symm
  -- There are no calls, so it does not matter what they do.
  have hrun : Realizes p s.frames.backtrace s _
      (eval (fun _ _ => pure ()) s.frames.current.env form ⟨s.stack, s.printed⟩) :=
    exprRealized_of_calls hform (.inl hfree) hat
  have hyields : Yields (eval (fun _ _ => pure ()) s.frames.current.env form)
      ⟨s.stack, s.printed⟩ (form.value s.frames.current.env) :=
    yields_eval hform hfree
  generalize form.value s.frames.current.env = r at hyields ⊢
  cases hyields with
  | pushed hpushed =>
    rw [hpushed] at hrun
    obtain ⟨t, ht, ⟨pos, hframes⟩, hstack, hprinted⟩ := hrun
    exact ⟨t, pos, ht, hstack, hprinted, hframes⟩
  | failed hfailed =>
    rw [hfailed] at hrun
    obtain ⟨t, err, ht, hend, hfault, hback, hprinted⟩ := hrun
    refine ⟨err, ?_, hfault, hback⟩
    rw [run_of_steps ht, run_of_failed hend, hprinted]

/-- A state within a branch, where `x` is bound and `tokens` are next. -/
def midway (tokens : List Token) : State where
  stack := [.boolean true]
  frames := (CallStack.start [] 1).setCurrent
    ⟨⟨7, tokens⟩, Env.empty.bind "x" (.text "b"), [.whenTrue]⟩
  counters := {}
  printed := ["before"]

/-- `(+ lhs rhs)`, as it is read. -/
def sumForm (lhs rhs : Form) : Form := .list [.symbol "+" .dummy, lhs, rhs] .dummy

/-- `(- true)`, as it is read. -/
def negatedForm : Form := .list [.symbol "-" .dummy, .symbol "true" .dummy] .dummy

/-- Two texts are joined on top of what was on the stack. Of two operands that fail, the right one
fails first: `y` is not bound, but `true` has no negative. -/
theorem midway_value :
    (∃ e, exprOf (sumForm (.symbol "x" .dummy) (.symbol "x" .dummy)) = .ok e ∧
      ∃ t pos, Steps ⟨[], .empty⟩ (midway (e.tokens ++ [⟨"print", .dummy⟩])) t ∧
        t.stack = [.text "bb", .boolean true] ∧ t.printed = ["before"] ∧
        t.frames.current =
          ⟨⟨pos, [⟨"print", .dummy⟩]⟩, Env.empty.bind "x" (.text "b"), [.whenTrue]⟩) ∧
    ∃ e, exprOf (sumForm (.symbol "y" .dummy) negatedForm) = .ok e ∧
      ∃ err, (midway e.tokens).run ⟨[], .empty⟩ = ⟨["before"], .error err⟩ ∧
        err.fault = .typeMismatch "-" "two numbers" "number and boolean" ∧ err.backtrace = [] := by
  refine ⟨⟨_, rfl, ?_⟩, ⟨_, rfl, ?_⟩⟩
  · obtain ⟨t, pos, ht, hstack, hprinted, hframes⟩ := steps_value ⟨[], .empty⟩ (midway (_ ++ [_]))
      (sumForm (.symbol "x" .dummy) (.symbol "x" .dummy)) rfl (by decide) rfl
    exact ⟨t, pos, ht, hstack, hprinted, by rw [hframes]; rfl⟩
  · exact steps_value ⟨[], .empty⟩ (midway _) (sumForm (.symbol "y" .dummy) negatedForm) rfl
      (by decide) (List.append_nil _).symm

end State

end TokenMachine
