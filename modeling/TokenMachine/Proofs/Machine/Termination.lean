/-
  TokenMachine.Proofs.Machine.Termination — every run ends, and after how many iterations.

  No counter of a state falls at every iteration: a call adds a whole body, leaving a frame
  takes no token, and a skip jumps ahead. The cost of a state does, because it charges each
  frame for its tokens at a rate that outweighs every body that a call from there can open.
  So `n` iterations lower it by at least `n` (`Iterates.add_cost_le`), whatever the program
  is, and a run has fewer iterations than its start costs (`Program.run_ends`).
-/

import TokenMachine.Proofs.Machine.Reach

namespace TokenMachine

namespace State

inductive Iterates (p : Program) : Nat → State → State → Prop
  | refl (s : State) : Iterates p 0 s s
  | tail {n : Nat} {s t u : State} : Iterates p n s t → t.step p = .next u → Iterates p (n + 1) s u

variable {p : Program} {s t : State} {n : Nat}

theorem Iterates.of_steps (h : Steps p s t) : ∃ n, Iterates p n s t := by
  induction h with
  | refl => exact ⟨0, .refl s⟩
  | tail _ hstep ih =>
    obtain ⟨n, hn⟩ := ih
    exact ⟨n + 1, .tail hn hstep⟩

/-- Every iteration is paid for out of the cost. -/
theorem Iterates.add_cost_le (h : Iterates p n s t) : n + t.cost p ≤ s.cost p := by
  induction h with
  | refl => omega
  | tail _ hstep ih =>
    have hlt := cost_lt_of_step hstep
    omega

/-- Every state can pay for the iteration that ends its run. -/
theorem cost_pos (p : Program) (s : State) : 0 < s.cost p := by
  have htop : 0 < s.frames.top.cost p.rate s.frames.limit 0 :=
    Nat.mul_pos (Nat.succ_pos _) (charge_pos p.rate_pos _ _)
  unfold cost CallStack.cost
  omega

theorem Iterates.lt_cost (h : Iterates p n s t) : n < s.cost p := by
  have hle := h.add_cost_le
  have hpos := t.cost_pos p
  omega

end State

namespace Program

/-- A bound on the iterations of a run: one for each token of the main stream and one for its end,
at the rate of all the calls that may be open above it. -/
def iterationBound (p : Program) (limit : Nat) : Nat := (p.main.length + 1) * Nat.pow p.rate limit

theorem cost_start (p : Program) (limit : Nat) :
    (State.start p limit).cost p = p.iterationBound limit := by
  simp only [State.cost, State.start, CallStack.start, CallStack.cost, CallStack.callsCost,
    Frame.cost, Frame.steps, Frame.start, Cursor.start, charge, iterationBound, Nat.sub_zero,
    Nat.add_zero]

/-- Every run ends, whatever its streams are and however its functions call each other: the
dispatch loop is iterated fewer times than the bound, and the last iteration halts or fails, which
is the result of the run. -/
theorem run_ends (p : Program) (config : Config) :
    (∀ n s, State.Iterates p n (.start p config.maxCallDepth) s →
      n < p.iterationBound config.maxCallDepth) ∧
    ∃ n s, State.Iterates p n (.start p config.maxCallDepth) s ∧
      ((s.step p = .halted ∧
          p.run config = ⟨s.printed.reverse, .ok ⟨s.stack.reverse, s.counters⟩⟩) ∨
        ∃ e, s.step p = .failed e ∧ p.run config = ⟨s.printed.reverse, .error e⟩) := by
  refine ⟨fun n s h => cost_start p config.maxCallDepth ▸ h.lt_cost, ?_⟩
  obtain ⟨s, hs, hlast⟩ := p.exists_last config
  obtain ⟨n, hn⟩ := State.Iterates.of_steps hs
  exact ⟨n, s, hn, hlast⟩

end Program

end TokenMachine
