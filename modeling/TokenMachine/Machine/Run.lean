/-
  TokenMachine.Machine.Run — running a program to its end.

  A run starts from an empty stack and an empty environment and takes steps until one
  halts or fails. Every run ends, because each step makes its cost smaller. What was
  printed is kept in either case.
-/

import TokenMachine.Machine.Cost

namespace TokenMachine

/-- The settings of a machine. -/
structure Config where
  /-- The largest number of calls open at once. -/
  maxCallDepth : Nat := 10000
  deriving DecidableEq, Repr

/-- The result of a run that came to its end. -/
structure Outcome where
  /-- Bottom first. -/
  stack : List Value
  counters : Counters

structure Execution where
  /-- The lines printed, in order. -/
  printed : List String
  result : Except RunError Outcome

namespace State

def run (program : Program) (s : State) : Execution :=
  match h : s.step program with
  | .next s' =>
    have := cost_lt_of_step h
    s'.run program
  | .halted => ⟨s.printed.reverse, .ok ⟨s.stack.reverse, s.counters⟩⟩
  | .failed e => ⟨s.printed.reverse, .error e⟩
termination_by s.cost program

end State

def Program.run (program : Program) (config : Config) : Execution :=
  (State.start program config.maxCallDepth).run program

end TokenMachine
