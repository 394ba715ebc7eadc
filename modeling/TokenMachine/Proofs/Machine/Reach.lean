/-
  TokenMachine.Proofs.Machine.Reach — the states of a run.

  `Steps` is zero or more steps, and the reachable states are those that steps lead to
  from the start. A run is what the last of them says: the steps of every run end in a
  state that halts or fails (`exists_end`), and the run gives what it holds (`exists_last`).
-/

import Mathlib.Logic.Relation
import TokenMachine.Machine.Run
import TokenMachine.Proofs.Machine.Effect

namespace TokenMachine

namespace State

def Steps (p : Program) : State → State → Prop :=
  Relation.ReflTransGen fun s s' => s.step p = .next s'

variable {p : Program} {s t u : State}

theorem Steps.refl (s : State) : Steps p s s := Relation.ReflTransGen.refl

theorem Steps.trans (h : Steps p s t) (h' : Steps p t u) : Steps p s u :=
  Relation.ReflTransGen.trans h h'

theorem Steps.single (h : s.step p = .next t) : Steps p s t := Relation.ReflTransGen.single h

/-- Steps are followed along a relation that every step keeps. -/
theorem Steps.simulate {q : Program} {R : State → State → Prop}
    (hR : ∀ s t s', R s s' → s.step p = .next t → ∃ t', s'.step q = .next t' ∧ R t t')
    {s' : State} (hs : R s s') (h : Steps p s t) : ∃ t', Steps q s' t' ∧ R t t' := by
  induction h with
  | refl => exact ⟨s', .refl s', hs⟩
  | tail _ hstep ih =>
    obtain ⟨u, hu, hr⟩ := ih
    obtain ⟨t', ht', hr'⟩ := hR _ _ _ hr hstep
    exact ⟨t', hu.trans (.single ht'), hr'⟩

theorem run_of_next (h : s.step p = .next t) : s.run p = t.run p := by
  rw [run]
  split
  · next h' => rw [h] at h'; cases h'; rfl
  · next h' => rw [h] at h'; cases h'
  · next h' => rw [h] at h'; cases h'

theorem run_of_halted (h : s.step p = .halted) :
    s.run p = ⟨s.printed.reverse, .ok ⟨s.stack.reverse, s.counters⟩⟩ := by
  rw [run]
  split
  · next h' => rw [h] at h'; cases h'
  · rfl
  · next h' => rw [h] at h'; cases h'

theorem run_of_failed {e : RunError} (h : s.step p = .failed e) :
    s.run p = ⟨s.printed.reverse, .error e⟩ := by
  rw [run]
  split
  · next h' => rw [h] at h'; cases h'
  · next h' => rw [h] at h'; cases h'
  · next h' => rw [h] at h'; cases h'; rfl

theorem run_of_steps (h : Steps p s t) : s.run p = t.run p := by
  induction h with
  | refl => rfl
  | tail _ hs ih => rw [ih, run_of_next hs]

/-- The steps of every run end. -/
theorem exists_end (p : Program) (s : State) :
    ∃ t, Steps p s t ∧ (t.step p = .halted ∨ ∃ e, t.step p = .failed e) := by
  induction s using run.induct p with
  | case1 s t h _ ih =>
    obtain ⟨u, hu, he⟩ := ih
    exact ⟨u, (Steps.single h).trans hu, he⟩
  | case2 s h => exact ⟨s, .refl s, .inl h⟩
  | case3 s e h => exact ⟨s, .refl s, .inr ⟨e, h⟩⟩

end State

def Program.Reachable (p : Program) (limit : Nat) (s : State) : Prop :=
  State.Steps p (.start p limit) s

namespace Program

variable {p : Program}

/-- What holds at the start and is kept by every step holds in every reachable state. -/
theorem Reachable.of_step {limit : Nat} {Inv : State → Prop} (h0 : Inv (.start p limit))
    (hstep : ∀ s s', Inv s → s.step p = .next s' → Inv s') {s : State} (h : p.Reachable limit s) :
    Inv s := by
  induction h with
  | refl => exact h0
  | tail _ hs ih => exact hstep _ _ ih hs

theorem Reachable.run_eq {config : Config} {s : State} (h : p.Reachable config.maxCallDepth s) :
    p.run config = s.run p := State.run_of_steps h

/-- A run comes to a last state, and gives what it holds. -/
theorem exists_last (p : Program) (config : Config) :
    ∃ s, p.Reachable config.maxCallDepth s ∧
      ((s.step p = .halted ∧
          p.run config = ⟨s.printed.reverse, .ok ⟨s.stack.reverse, s.counters⟩⟩) ∨
        ∃ e, s.step p = .failed e ∧ p.run config = ⟨s.printed.reverse, .error e⟩) := by
  obtain ⟨s, hs, hend⟩ := State.exists_end p (.start p config.maxCallDepth)
  have hrun : p.run config = s.run p := Reachable.run_eq hs
  refine ⟨s, hs, ?_⟩
  rcases hend with hhalt | ⟨e, hfail⟩
  · exact .inl ⟨hhalt, hrun.trans (State.run_of_halted hhalt)⟩
  · exact .inr ⟨e, hfail, hrun.trans (State.run_of_failed hfail)⟩

/-- A run that fails does so in a reachable state. -/
theorem exists_failed_of_run {config : Config} {e : RunError}
    (h : (p.run config).result = .error e) :
    ∃ s, p.Reachable config.maxCallDepth s ∧ s.step p = .failed e := by
  obtain ⟨s, hs, ⟨-, hrun⟩ | ⟨e', hfail, hrun⟩⟩ := p.exists_last config
  · rw [hrun] at h
    cases h
  · rw [hrun] at h
    cases h
    exact ⟨s, hs, hfail⟩

end Program

end TokenMachine
