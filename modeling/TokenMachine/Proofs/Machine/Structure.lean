/-
  TokenMachine.Proofs.Machine.Structure — checked programs never fail for their structure.

  The check keeps a list of the branches open at each place, the machine one of the
  branches it is in. They agree: at every frame's cursor the check still succeeds, with
  one open branch for each block, and a branch has seen its `else` iff it is entered as
  the one for false (`Frame.Checked`). Every step keeps this (`checked_step`), whether it
  skips, calls, or returns out of open branches; and no step from such a state can run
  off a stream, meet an unknown tag, or meet a marker that does not fit.
-/

import TokenMachine.Proofs.Machine.Reach
import TokenMachine.Proofs.Stream.Nesting

namespace TokenMachine

def Fault.isStructural : Fault → Bool
  | .streamUnderflow | .unknownOpcode _ | .structuralError _ | .depthInvariantViolated _ _ => true
  | .stackUnderflow | .unboundName _ | .undefinedFunction _ | .returnOutsideCall
  | .typeMismatch _ _ _ | .recursionLimitExceeded _ | .malformedLiteral _ _ => false

/-! ## The blocks of a frame are the branches open for the check -/

def OpenIf.block (o : OpenIf) : Block := if o.seenElse then .whenFalse else .whenTrue

def Frame.Checked (f : Frame) : Prop :=
  ∃ stream opens, f.cursor.verify stream opens = .ok () ∧ f.blocks = opens.map OpenIf.block

theorem Frame.checked_start {stream : StreamName} {tokens : List Token} {env : Env}
    (h : (Cursor.start tokens).verify stream [] = .ok ()) : (Frame.start tokens env).Checked :=
  ⟨stream, [], h, rfl⟩

namespace State

def Checked (s : State) : Prop := s.frames.All fun _ f => f.Checked

variable {p : Program} {s s' : State}

theorem map_block_opensAfterSkip {o : OpenIf} {outer : List OpenIf} {marker : Marker} :
    (Cursor.opensAfterSkip o outer marker).map OpenIf.block =
      blocksAfterSkip (outer.map OpenIf.block) marker := by
  cases marker <;> rfl

theorem checked_step (hp : p.verify = .ok ()) (h : s.Checked) (hs : s.step p = .next s') :
    s'.Checked := by
  rcases step_eq_next_iff.mp hs with ⟨-, -, hpop⟩ | @⟨i, tag, next, _, hx, he⟩
  · exact h.pop? hpop
  obtain ⟨stream, opens, hv, hb⟩ := h.current
  obtain ⟨opens', hn, hv'⟩ := Cursor.verify_of_fetch hv hx
  -- The current frame as the check has it after the instruction, whatever its environment.
  have current (env : Env) {blocks : List Block} (hblocks : blocks = opens'.map OpenIf.block) :
      (s.frames.setCurrent ⟨next, env, blocks⟩).All fun _ f => f.Checked :=
    h.setCurrent ⟨stream, opens', hv', hblocks⟩
  cases he with
  | literal => cases hn; exact current _ hb
  | load => cases hn; exact current _ hb
  | bind => cases hn; simpa [Checked] using current _ hb
  | binary => cases hn; exact current _ hb
  | print => cases hn; exact current _ hb
  | branchTrue =>
    cases hn with
    | plain hi => cases hi
    | branch => simpa [Checked] using current _ (congrArg (Block.whenTrue :: ·) hb)
  | branchFalse _ hskip =>
    cases hn with
    | plain hi => cases hi
    | branch =>
      obtain ⟨marker, after, count, hskip', hv''⟩ := Cursor.skip_then_of_verify hv'
      simp only [frames_dispatch, CallStack.current_setCurrent] at hskip
      rw [hskip] at hskip'
      cases hskip'
      simp only [Checked, passed, frames_dispatch, CallStack.current_setCurrent,
        CallStack.setCurrent_setCurrent]
      exact h.setCurrent ⟨stream, _, hv'', by rw [map_block_opensAfterSkip, hb]⟩
  | otherwise hblocks hskip =>
    cases hn with
    | plain hi => cases hi
    | otherwise =>
      obtain ⟨after, count, hskip', hv''⟩ := Cursor.skip_else_of_verify hv'
      simp only [frames_dispatch, CallStack.current_setCurrent] at hblocks hskip
      rw [hskip] at hskip'
      cases hskip'
      rw [hblocks, List.map_cons, List.cons.injEq] at hb
      simp only [Checked, passed, frames_dispatch, CallStack.current_setCurrent,
        CallStack.setCurrent_setCurrent]
      exact h.setCurrent ⟨stream, _, hv'', hb.2⟩
  | close hblocks =>
    cases hn with
    | plain hi => cases hi
    | close =>
      simp only [frames_dispatch, CallStack.current_setCurrent] at hblocks
      rw [hblocks, List.map_cons, List.cons.injEq] at hb
      simpa [Checked] using current _ hb.2
  | call _ hf =>
    cases hn
    have hbody := (Program.verify_eq_ok_iff.mp hp).2 _ (FunctionTable.get?_eq_some_iff.mp hf).1
    exact (current _ hb).enter (Frame.checked_start hbody)
  | ret hpop =>
    cases hn
    exact (current _ hb).pop? hpop

/-- No step of a checked state fails for the structure of a stream. -/
theorem not_structural_of_failed (h : s.Checked) {e : RunError} (hs : s.step p = .failed e) :
    e.fault.isStructural = false := by
  obtain ⟨stream, opens, hv, hb⟩ := h.current
  have fetches {f : Fetched} (hx : s.frames.current.cursor.fetch = f) :
      (f = .exhausted ∧ opens = []) ∨ ∃ i tag next, f = .ready i tag next := by
    rcases Cursor.verify_eq_ok_iff.mp hv with ⟨hx', hnil⟩ | ⟨i, tag, next, -, hx', -⟩
    · exact .inl ⟨hx ▸ hx', hnil⟩
    · exact .inr ⟨i, tag, next, hx ▸ hx'⟩
  rcases step_eq_failed_iff.mp hs with ⟨hx, hne⟩ | hx | hx | @⟨i, tag, next, trap, hx, hr⟩
  · rcases fetches hx with ⟨-, rfl⟩ | ⟨_, _, _, h'⟩
    · exact absurd hb hne
    · cases h'
  · rcases fetches hx with ⟨h', -⟩ | ⟨_, _, _, h'⟩ <;> cases h'
  · rcases fetches hx with ⟨h', -⟩ | ⟨_, _, _, h'⟩ <;> cases h'
  · obtain ⟨opens', hn, hv'⟩ := Cursor.verify_of_fetch hv hx
    show trap.fault.isStructural = false
    cases hr with
    | literal hval =>
      obtain ⟨-, -, rfl⟩ := value_eq_error_iff.mp hval
      rfl
    | noName _ hname =>
      rcases popName_eq_error_iff.mp hname with ⟨-, rfl⟩ | ⟨v, rest, -, -, rfl⟩ <;> rfl
    | skipThen _ hskip =>
      cases hn with
      | plain hi => cases hi
      | branch =>
        obtain ⟨marker, after, count, hskip', -⟩ := Cursor.skip_then_of_verify hv'
        simp only [frames_dispatch, CallStack.current_setCurrent] at hskip
        rw [hskip] at hskip'; cases hskip'
    | strayElse hblocks =>
      cases hn with
      | plain hi => cases hi
      | otherwise => simp [hb, OpenIf.block] at hblocks
    | skipElse _ hskip =>
      cases hn with
      | plain hi => cases hi
      | otherwise =>
        obtain ⟨after, count, hskip', -⟩ := Cursor.skip_else_of_verify hv'
        simp only [frames_dispatch, CallStack.current_setCurrent] at hskip
        rw [hskip] at hskip'; cases hskip'
    | strayEnd hblocks =>
      cases hn with
      | plain hi => cases hi
      | close => simp [hb] at hblocks
    | _ => rfl

end State

namespace Program

variable {p : Program}

theorem checked_of_reachable (h : p.verify = .ok ()) {limit : Nat} {s : State}
    (hs : p.Reachable limit s) : s.Checked := by
  refine hs.of_step ⟨?_, ?_⟩ fun s s' hc hs => State.checked_step h hc hs
  · exact Frame.checked_start (Program.verify_eq_ok_iff.mp h).1
  · intro call hc; cases hc

/-- A run of a checked program, whatever it calls, skips and returns out of, never reads past the
end of a stream, meets a tag that is none, meets a marker that does not fit, or ends with a branch
open. -/
theorem run_not_structural (h : p.verify = .ok ()) (config : Config) (e : RunError)
    (he : (p.run config).result = .error e) : e.fault.isStructural = false := by
  obtain ⟨s, hs, hf⟩ := exists_failed_of_run he
  exact State.not_structural_of_failed (checked_of_reachable h hs) hf

/-- `f` returns out of an open branch; the main stream then branches on what it returned, and
stops at a name that is not bound. -/
def returnsFromBranch : Program where
  main := word <$> ["ident", "f", "call", "if", "ident", "x", "var", "else", "end"]
  functions := ⟨[⟨"f", [], word <$> ["bool", "true", "if", "bool", "true", "return", "end"],
    .dummy⟩], by simp⟩
where
  word (text : String) : Token := ⟨text, .dummy⟩

theorem returnsFromBranch_not_structural :
    returnsFromBranch.verify = .ok () ∧
      (returnsFromBranch.run ⟨1⟩).result = .error ⟨.unboundName "x", 6, some "var", none, []⟩ ∧
      (Fault.unboundName "x").isStructural = false := by
  have hv : returnsFromBranch.verify = .ok () := by cbv
  have he : (returnsFromBranch.run ⟨1⟩).result =
      .error ⟨.unboundName "x", 6, some "var", none, []⟩ := by cbv
  exact ⟨hv, he, run_not_structural hv ⟨1⟩ _ he⟩

end Program

end TokenMachine
