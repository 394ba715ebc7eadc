/-
  TokenMachine.Machine.Step — one iteration of the dispatch loop.

  A step decodes the instruction at the current frame's cursor and executes it. At
  the end of a stream it leaves the frame: the whole run if that is the top-level
  frame, which is an error while a branch is open in it. An instruction that fails
  changes nothing: the error is reported on the state before it.
-/

import TokenMachine.Decimal.Numeral
import TokenMachine.Machine.Skip
import TokenMachine.Machine.State

namespace TokenMachine

/-- The value that a literal pushes. A number's operand has to spell a float; a boolean is true
iff its operand is exactly `true`. -/
def Literal.value (kind : Literal) (operand : String) : Except Fault Value :=
  match kind with
  | .number =>
    match Decimal.floatOfText? operand with
    | some x => .ok (.number x)
    | none => .error (.malformedLiteral kind.tag operand)
  | .text => .ok (.text operand)
  | .boolean => .ok (.boolean (operand == "true"))
  | .name => .ok (.name operand)

namespace State

/-- A fault of the instruction being executed. -/
def atInstruction {α : Type} : Except Fault α → Except Trap α
  | .ok a => .ok a
  | .error fault => .error ⟨fault, none⟩

def load (s : State) : Except Fault State := do
  let (name, stack) ← s.stack.popName Action.load.tag
  match s.frames.current.env.lookup name with
  | some value => .ok { s with stack := value :: stack }
  | none => .error (.unboundName name)

def bind (s : State) : Except Fault State := do
  let (name, stack) ← s.stack.popName Action.bind.tag
  let (value, stack) ← stack.pop
  let frame := s.frames.current
  .ok { s with stack, frames := s.frames.setCurrent { frame with env := frame.env.bind name value } }

def binary (s : State) (op : BinaryOp) : Except Fault State := do
  let (lhs, stack) ← s.stack.pop
  let (rhs, stack) ← stack.pop
  match op.result? lhs rhs with
  | some value => .ok { s with stack := value :: stack }
  | none =>
    .error (.typeMismatch op.symbol op.operands s!"{lhs.typeName} and {rhs.typeName}")

/-- A name is never printed. -/
def print (s : State) : Except Fault State := do
  let (value, stack) ← s.stack.pop
  match value with
  | .name _ =>
    .error (.typeMismatch Action.print.tag "a number, text or boolean" value.typeName)
  | _ => .ok { s with stack, printed := value.render :: s.printed }

/-- Move the current frame past the rest of a branch and open the blocks `opened` says. -/
def skipTo (s : State) (allowElse : Bool) (opened : Marker → List Block) : Except Trap State := do
  let frame := s.frames.current
  let (marker, next, skipped) ← frame.cursor.skip allowElse 0 0
  .ok { s with
    frames := s.frames.setCurrent { frame with cursor := next, blocks := opened marker }
    counters := { s.counters with skippedTokens := s.counters.skippedTokens + skipped } }

/-- A true condition opens the branch that follows; a false one skips it and opens the branch
after its `else`, if there is one. -/
def branch (s : State) : Except Trap State := do
  let (condition, stack) ← atInstruction s.stack.pop
  let s := { s with stack }
  let frame := s.frames.current
  match condition with
  | .boolean true =>
    .ok { s with frames := s.frames.setCurrent { frame with blocks := .whenTrue :: frame.blocks } }
  | .boolean false =>
    s.skipTo true fun
      | .otherwise => .whenFalse :: frame.blocks
      | .close => frame.blocks
  | other =>
    .error ⟨.typeMismatch Action.branch.tag "a boolean" other.typeName, none⟩

/-- The branch for true ends here: skip the one for false. -/
def otherwise (s : State) : Except Trap State :=
  match s.frames.current.blocks with
  | .whenTrue :: outer => s.skipTo false fun _ => outer
  | _ => .error ⟨.structuralError "`else` without an open then-block", none⟩

def close (s : State) : Except Fault State :=
  let frame := s.frames.current
  match frame.blocks with
  | _ :: outer => .ok { s with frames := s.frames.setCurrent { frame with blocks := outer } }
  | [] => .error (.structuralError "`end` without an open block")

/-- Pop the function's name, then its arguments into a copy of the caller's environment. The
depth is checked before any argument is popped. -/
def call (s : State) (program : Program) (span : Span) : Except Fault State := do
  let (name, stack) ← s.stack.popName Action.call.tag
  match program.functions.get? name with
  | none => .error (.undefinedFunction name)
  | some f =>
    s.frames.checkDepth
    let (env, stack) ← stack.popArgs s.frames.current.env f.params
    let frames ← s.frames.push ⟨⟨name, span⟩, .start f.body env⟩
    .ok { s with
      stack, frames
      counters := { s.counters with
        calls := s.counters.calls + 1
        maxCallDepth := max s.counters.maxCallDepth frames.depth } }

/-- Leave the innermost call, whatever branches are open in it, with the value popped. -/
def ret (s : State) : Except Fault State :=
  match s.frames.pop? with
  | none => .error .returnOutsideCall
  | some (_, frames) => do
    let (value, stack) ← s.stack.pop
    .ok { s with
      stack := value :: stack, frames
      counters := { s.counters with returns := s.counters.returns + 1 } }

/-- Execute one instruction; `span` is that of its tag. The current frame's cursor is already
past the instruction. -/
def exec (s : State) (program : Program) (span : Span) : Instr → Except Trap State
  | .literal kind operand =>
    atInstruction do
      let value ← kind.value operand
      .ok { s with stack := value :: s.stack }
  | .action .load => atInstruction s.load
  | .action .bind => atInstruction s.bind
  | .action (.binary op) => atInstruction (s.binary op)
  | .action .print => atInstruction s.print
  | .action .branch => s.branch
  | .action .otherwise => s.otherwise
  | .action .close => atInstruction s.close
  | .action .call => atInstruction (s.call program span)
  | .action .ret => atInstruction s.ret

/-- The error for a fault at a site, with the calls that are open now. -/
def error (s : State) (fault : Fault) (site : Site) : RunError where
  fault
  position := site.position
  opcode := site.token.map (·.text)
  span := site.token.bind fun token => RunError.spanOf token.span
  backtrace := s.frames.backtrace

end State

/-- What one step comes to. -/
inductive Transition where
  | next (s : State)
  | halted
  | failed (e : RunError)

namespace State

/-- Leave the current frame, whose stream is exhausted. Falling off the end of a call pushes
nothing. -/
def finish (s : State) : Transition :=
  let frame := s.frames.current
  if frame.blocks.isEmpty then
    match s.frames.pop? with
    | none => .halted
    | some (_, frames) => .next { s with frames }
  else
    .failed (s.error (.depthInvariantViolated frame.blocks.length s.frames.depth)
      ⟨frame.cursor.position, none⟩)

def step (program : Program) (s : State) : Transition :=
  let cursor := s.frames.current.cursor
  match cursor.fetch with
  | .exhausted => s.finish
  | .unknown tag => .failed (s.error (.unknownOpcode tag.text) ⟨cursor.position, some tag⟩)
  | .truncated _ tag => .failed (s.error .streamUnderflow ⟨cursor.position, some tag⟩)
  | .ready instr tag next =>
    match (s.dispatch next).exec program tag.span instr with
    | .ok s' => .next s'
    | .error trap => .failed (s.error trap.fault (trap.site.getD ⟨cursor.position, some tag⟩))

end State

end TokenMachine
