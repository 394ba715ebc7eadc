/-
  TokenMachine.Machine.State — everything a run holds between two instructions.

  One evaluation stack serves every frame: arguments go down it, the returned value
  comes back up. Beside it are the call stack, the counters of the run's profile and
  the lines printed so far.
-/

import TokenMachine.Machine.CallStack
import TokenMachine.Program

namespace TokenMachine

/-- The evaluation stack, top first. -/
abbrev Stack := List Value

namespace Stack

def pop : Stack → Except Fault (Value × Stack)
  | [] => .error .stackUnderflow
  | value :: rest => .ok (value, rest)

/-- Pop a name for `operation`. -/
def popName (operation : String) : Stack → Except Fault (String × Stack)
  | [] => .error .stackUnderflow
  | .name name :: rest => .ok (name, rest)
  | value :: _ => .error (.typeMismatch operation "a name" value.typeName)

/-- Pop one value for each parameter, the first parameter taking the topmost. -/
def popArgs (env : Env) : List String → Stack → Except Fault (Env × Stack)
  | [], stack => .ok (env, stack)
  | _ :: _, [] => .error .stackUnderflow
  | param :: params, value :: rest => popArgs (env.bind param value) params rest

end Stack

structure Counters where
  instructions : Nat := 0
  calls : Nat := 0
  returns : Nat := 0
  /-- The tokens passed over by skipped branches. -/
  skippedTokens : Nat := 0
  maxCallDepth : Nat := 0
  deriving DecidableEq, Repr

def Counters.report (c : Counters) : String :=
  "Evaluation profile:\n" ++
  s!"  Instructions executed: {c.instructions}\n" ++
  s!"  Function calls:        {c.calls}\n" ++
  s!"  Returns:               {c.returns}\n" ++
  s!"  Tokens skipped:        {c.skippedTokens}\n" ++
  s!"  Deepest call stack:    {c.maxCallDepth}"

structure State where
  stack : Stack
  frames : CallStack
  counters : Counters
  /-- The lines printed so far, most recent first. -/
  printed : List String

namespace State

/-- A run of `program` before its first instruction. -/
def start (program : Program) (limit : Nat) : State :=
  ⟨[], .start program.main limit, {}, []⟩

/-- The state as the instruction before `next` is dispatched. -/
def dispatch (s : State) (next : Cursor) : State :=
  { s with
    frames := s.frames.setCurrent { s.frames.current with cursor := next }
    counters := { s.counters with instructions := s.counters.instructions + 1 } }

end State

end TokenMachine
