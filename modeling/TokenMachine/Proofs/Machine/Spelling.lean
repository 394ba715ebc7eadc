/-
  TokenMachine.Proofs.Machine.Spelling — a run does not look at spans.

  Two states are alike (`State.SameText`) if they differ in spans alone: the same values, counters
  and lines, and frame for frame the same function, bindings and branches at the same place of
  streams of the same texts. Programs of the same text keep them alike at every step, whether it
  executes (`Effect.sameText`) or is refused (`Refusal.sameText`). So their runs print the same and
  end in the same way, but for the spans that an error names (`Program.SameText.run`).
-/

import TokenMachine.Proofs.Machine.Reach
import TokenMachine.Proofs.Stream.Spelling

namespace TokenMachine

/-! ## Frames -/

structure Frame.SameText (f f' : Frame) : Prop where
  cursor : f.cursor.SameText f'.cursor
  env : f.env = f'.env
  blocks : f.blocks = f'.blocks

structure Call.SameText (c c' : Call) : Prop where
  function : c.site.function = c'.site.function
  frame : c.frame.SameText c'.frame

namespace CallStack

structure SameText (s s' : CallStack) : Prop where
  top : s.top.SameText s'.top
  calls : List.Forall₂ Call.SameText s.calls s'.calls
  limit : s.limit = s'.limit

variable {s s' t : CallStack}

theorem SameText.depth (h : s.SameText s') : s.depth = s'.depth := by
  rw [s.depth_eq, s'.depth_eq, h.calls.length_eq]

theorem SameText.current (h : s.SameText s') : s.current.SameText s'.current := by
  obtain ⟨top, calls, depth, limit, hd⟩ := s
  obtain ⟨top', calls', depth', limit', hd'⟩ := s'
  obtain ⟨htop, hcalls, -⟩ := h
  cases hcalls with
  | nil => exact htop
  | cons hcall => exact hcall.frame

theorem SameText.setCurrent (h : s.SameText s') {f f' : Frame} (hf : f.SameText f') :
    (s.setCurrent f).SameText (s'.setCurrent f') := by
  obtain ⟨top, calls, depth, limit, hd⟩ := s
  obtain ⟨top', calls', depth', limit', hd'⟩ := s'
  obtain ⟨htop, hcalls, hlimit⟩ := h
  cases hcalls with
  | nil => exact ⟨hf, .nil, hlimit⟩
  | cons hcall hrest => exact ⟨htop, .cons ⟨hcall.function, hf⟩ hrest, hlimit⟩

theorem SameText.enter (h : s.SameText s') {call call' : Call} (hcall : call.SameText call') :
    (s.enter call).SameText (s'.enter call') :=
  ⟨h.top, .cons hcall h.calls, h.limit⟩

theorem SameText.pop?_eq_none (h : s.SameText s') (hp : s.pop? = none) : s'.pop? = none := by
  obtain ⟨top, calls, depth, limit, hd⟩ := s
  obtain ⟨top', calls', depth', limit', hd'⟩ := s'
  obtain ⟨-, hcalls, -⟩ := h
  cases hcalls with
  | nil => rfl
  | cons => cases hp

theorem SameText.exists_pop? (h : s.SameText s') {call : Call} (hp : s.pop? = some (call, t)) :
    ∃ call' t', s'.pop? = some (call', t') ∧ t.SameText t' := by
  obtain ⟨top, calls, depth, limit, hd⟩ := s
  obtain ⟨top', calls', depth', limit', hd'⟩ := s'
  obtain ⟨htop, hcalls, hlimit⟩ := h
  cases hcalls with
  | nil => cases hp
  | cons hcall hrest =>
    cases hp
    exact ⟨_, _, rfl, htop, hrest, hlimit⟩

/-- The same functions are open, innermost first. -/
theorem SameText.functions (h : s.SameText s') :
    s.backtrace.map (·.function) = s'.backtrace.map (·.function) := by
  obtain ⟨-, hcalls, -⟩ := h
  unfold backtrace
  generalize s.calls = calls at hcalls ⊢
  generalize s'.calls = calls' at hcalls ⊢
  induction hcalls with
  | nil => rfl
  | cons hcall _ ih => exact congrArg₂ List.cons hcall.function ih

end CallStack

/-- What an error says, its spans aside: the fault, the place and the tag of its token, and the
functions that were open. -/
def RunError.spelling (e : RunError) : Fault × Nat × Option String × List String :=
  (e.fault, e.position, e.opcode, e.backtrace.map (·.function))

namespace State

structure SameText (s s' : State) : Prop where
  stack : s.stack = s'.stack
  frames : s.frames.SameText s'.frames
  counters : s.counters = s'.counters
  printed : s.printed = s'.printed

variable {p q : Program} {span span' : Span} {s s' t : State} {i : Instr}

theorem SameText.dispatch (h : s.SameText s') {next next' : Cursor} (hn : next.SameText next') :
    (s.dispatch next).SameText (s'.dispatch next') := by
  obtain ⟨hstack, hframes, hcounters, hprinted⟩ := h
  have hcurrent := hframes.current
  refine ⟨hstack, hframes.setCurrent ⟨hn, hcurrent.env, hcurrent.blocks⟩, ?_, hprinted⟩
  simp only [State.dispatch, hcounters]

theorem SameText.passed (h : s.SameText s') {next next' : Cursor} (hn : next.SameText next')
    (skipped : Nat) (blocks : List Block) :
    (s.passed next skipped blocks).SameText (s'.passed next' skipped blocks) := by
  obtain ⟨hstack, hframes, hcounters, hprinted⟩ := h
  have hcurrent := hframes.current
  refine ⟨hstack, hframes.setCurrent ⟨hn, hcurrent.env, rfl⟩, ?_, hprinted⟩
  simp only [State.passed, hcounters]

theorem SameText.error (h : s.SameText s') (fault : Fault) {site site' : Site}
    (hsite : site.spelling = site'.spelling) :
    (s.error fault site).spelling = (s'.error fault site').spelling := by
  obtain ⟨hposition, htoken⟩ := Prod.mk.inj hsite
  simp only [State.error, RunError.spelling, hposition, htoken, h.frames.functions]

/-! ## Steps -/

theorem Effect.sameText (hp : p.SameText q) (h : Effect p span s i t) (hs : s.SameText s')
    (span' : Span) : ∃ t', Effect q span' s' i t' ∧ t.SameText t' := by
  obtain ⟨stack, frames, counters, printed⟩ := s
  obtain ⟨stack', frames', counters', printed'⟩ := s'
  obtain ⟨hstack, hframes, hcounters, hprinted⟩ := hs
  cases hstack
  cases hcounters
  cases hprinted
  obtain ⟨hcursor, henv, hblocks⟩ := hframes.current
  -- The states after an instruction that works on the stack alone.
  have alike (st : Stack) (lines : List String) :
      SameText ⟨st, frames, counters, lines⟩ ⟨st, frames', counters, lines⟩ :=
    ⟨rfl, hframes, rfl, rfl⟩
  cases h with
  | literal hv => exact ⟨_, .literal hv, alike _ _⟩
  | load hst hv => exact ⟨_, .load hst (henv ▸ hv), alike _ _⟩
  | bind hst =>
    exact ⟨_, .bind hst, rfl, hframes.setCurrent ⟨hcursor, by rw [henv], hblocks⟩, rfl, rfl⟩
  | binary hst hv => exact ⟨_, .binary hst hv, alike _ _⟩
  | print hst hn => exact ⟨_, .print hst hn, alike _ _⟩
  | branchTrue hst =>
    exact ⟨_, .branchTrue hst, rfl, hframes.setCurrent ⟨hcursor, henv, by rw [hblocks]⟩, rfl, rfl⟩
  | branchFalse hst hskip =>
    obtain ⟨next', hskip', hnext⟩ := hcursor.skip_eq_ok hskip
    refine ⟨_, .branchFalse hst hskip', ?_⟩
    rw [hblocks]
    exact (alike _ _).passed hnext _ _
  | otherwise hb hskip =>
    obtain ⟨next', hskip', hnext⟩ := hcursor.skip_eq_ok hskip
    exact ⟨_, .otherwise (hblocks.symm.trans hb) hskip', (alike _ _).passed hnext _ _⟩
  | close hb =>
    exact ⟨_, .close (hblocks.symm.trans hb), rfl,
      hframes.setCurrent ⟨hcursor, henv, rfl⟩, rfl, rfl⟩
  | @call name f env rest below hst hf hroom hargs =>
    obtain ⟨g, hg, hparams, hbody⟩ := hp.exists_get? hf
    have hdepth : frames.depth = frames'.depth := hframes.depth
    have hroom' : frames'.depth < frames'.limit := hframes.limit ▸ hdepth ▸ hroom
    have hargs' : rest.popArgs frames'.current.env g.params = .ok (env, below) := by
      rw [← henv, ← hparams]
      exact hargs
    have hframe : (Frame.start f.body env).SameText (.start g.body env) :=
      ⟨Cursor.sameText_start hbody, rfl, rfl⟩
    exact ⟨_, .call hst hg hroom' hargs', rfl, hframes.enter ⟨rfl, hframe⟩, by simp [hdepth], rfl⟩
  | ret hpop hst =>
    obtain ⟨call', t', hpop', ht⟩ := hframes.exists_pop? hpop
    exact ⟨_, .ret hpop' hst, rfl, ht, rfl, rfl⟩

theorem Refusal.sameText {trap : Trap} (hp : p.SameText q) (h : Refusal p s i trap)
    (hs : s.SameText s') : ∃ trap', Refusal q s' i trap' ∧ trap.SameText trap' := by
  obtain ⟨stack, frames, counters, printed⟩ := s
  obtain ⟨stack', frames', counters', printed'⟩ := s'
  obtain ⟨hstack, hframes, hcounters, hprinted⟩ := hs
  cases hstack
  obtain ⟨hcursor, henv, hblocks⟩ := hframes.current
  have hdepth : frames.depth = frames'.depth := hframes.depth
  have hlimit : frames.limit = frames'.limit := hframes.limit
  cases h with
  | literal hv => exact ⟨_, .literal hv, rfl, rfl⟩
  | noName hact hn => exact ⟨_, .noName hact hn, rfl, rfl⟩
  | unbound hst hv => exact ⟨_, .unbound hst (henv ▸ hv), rfl, rfl⟩
  | noValue hst => exact ⟨_, .noValue hst, rfl, rfl⟩
  | noOperands hst => exact ⟨_, .noOperands hst, rfl, rfl⟩
  | mismatch hst hv => exact ⟨_, .mismatch hst hv, rfl, rfl⟩
  | empty hact hst => exact ⟨_, .empty hact hst, rfl, rfl⟩
  | printName hst => exact ⟨_, .printName hst, rfl, rfl⟩
  | noCondition hst hv => exact ⟨_, .noCondition hst hv, rfl, rfl⟩
  | skipThen hst hskip =>
    obtain ⟨trap', hskip', htrap⟩ := hcursor.skip_eq_error hskip
    exact ⟨trap', .skipThen hst hskip', htrap⟩
  | strayElse hb =>
    refine ⟨_, .strayElse fun outer => ?_, rfl, rfl⟩
    exact hblocks ▸ hb outer
  | skipElse hb hskip =>
    obtain ⟨trap', hskip', htrap⟩ := hcursor.skip_eq_error hskip
    exact ⟨trap', .skipElse (hblocks.symm.trans hb) hskip', htrap⟩
  | strayEnd hb => exact ⟨_, .strayEnd (hblocks.symm.trans hb), rfl, rfl⟩
  | undefined hst hf => exact ⟨_, .undefined hst (hp.get?_eq_none hf), rfl, rfl⟩
  | full hst hf hfull =>
    obtain ⟨g, hg, -, -⟩ := hp.exists_get? hf
    have hfull' : frames'.limit ≤ frames'.depth := hdepth ▸ hlimit ▸ hfull
    exact ⟨_, .full hst hg hfull', congrArg Fault.recursionLimitExceeded hlimit, rfl⟩
  | noArgs hst hf hroom hlt =>
    obtain ⟨g, hg, hparams, -⟩ := hp.exists_get? hf
    exact ⟨_, .noArgs hst hg (hlimit ▸ hdepth ▸ hroom) (hparams ▸ hlt), rfl, rfl⟩
  | outside hpop => exact ⟨_, .outside (hframes.pop?_eq_none hpop), rfl, rfl⟩
  | noResult hpop hst =>
    obtain ⟨_, _, hpop', -⟩ := hframes.exists_pop? hpop
    exact ⟨_, .noResult hpop' hst, rfl, rfl⟩

theorem SameText.step_next (hp : p.SameText q) (hs : s.SameText s') (h : s.step p = .next t) :
    ∃ t', s'.step q = .next t' ∧ t.SameText t' := by
  obtain ⟨hcursor, -, hblocks⟩ := hs.frames.current
  have hf := hcursor.fetch
  rcases step_eq_next_iff.mp h with ⟨hx, hb, hpop⟩ | ⟨hx, he⟩
  · rw [hx] at hf
    obtain ⟨call', frames', hpop', hframes⟩ := hs.frames.exists_pop? hpop
    exact ⟨_, step_eq_next_iff.mpr (.leave hf (hblocks.symm.trans hb) hpop'),
      hs.stack, hframes, hs.counters, hs.printed⟩
  · rw [hx] at hf
    obtain ⟨tag', next', hx', -, hnext⟩ := hf
    obtain ⟨t', he', ht⟩ := he.sameText hp (hs.dispatch hnext) tag'.span
    exact ⟨t', step_eq_next_iff.mpr (.execute hx' he'), ht⟩

theorem SameText.step_halted (hs : s.SameText s') (h : s.step p = .halted) :
    s'.step q = .halted := by
  obtain ⟨hcursor, -, hblocks⟩ := hs.frames.current
  obtain ⟨hx, hb, hpop⟩ := step_eq_halted_iff.mp h
  have hf := hcursor.fetch
  rw [hx] at hf
  exact step_eq_halted_iff.mpr ⟨hf, hblocks.symm.trans hb, hs.frames.pop?_eq_none hpop⟩

theorem SameText.step_failed {e : RunError} (hp : p.SameText q) (hs : s.SameText s')
    (h : s.step p = .failed e) : ∃ e', s'.step q = .failed e' ∧ e.spelling = e'.spelling := by
  obtain ⟨hcursor, -, hblocks⟩ := hs.frames.current
  have hposition := hcursor.position
  have hf := hcursor.fetch
  rcases step_eq_failed_iff.mp h with ⟨hx, hb⟩ | hx | hx | ⟨hx, hr⟩
  · rw [hx] at hf
    refine ⟨_, step_eq_failed_iff.mpr (.unbalanced hf (hblocks ▸ hb)), ?_⟩
    rw [← hblocks, ← hs.frames.depth]
    exact hs.error _ (by simp [Site.spelling, hposition])
  · rw [hx] at hf
    obtain ⟨tag', hx', htag⟩ := hf
    refine ⟨_, step_eq_failed_iff.mpr (.unknown hx'), ?_⟩
    rw [← htag]
    exact hs.error _ (by simp [Site.spelling, hposition, htag])
  · rw [hx] at hf
    obtain ⟨tag', hx', htag⟩ := hf
    refine ⟨_, step_eq_failed_iff.mpr (.truncated hx'), ?_⟩
    exact hs.error _ (by simp [Site.spelling, hposition, htag])
  · rw [hx] at hf
    obtain ⟨tag', next', hx', htag, hnext⟩ := hf
    obtain ⟨trap', hr', hfault, hsite⟩ := hr.sameText hp (hs.dispatch hnext)
    refine ⟨_, step_eq_failed_iff.mpr (.refused hx' hr'), ?_⟩
    rw [← hfault]
    refine hs.error _ ?_
    rw [← Option.getD_map Site.spelling, hsite, ← Option.getD_map Site.spelling]
    simp [Site.spelling, hposition, htag]

end State

namespace Program

variable {p q : Program}

/-- Programs of the same text run alike: they print the same lines, and they end with the same
stack and counters, or in errors that differ in spans alone. -/
theorem SameText.run (h : p.SameText q) (config : Config) :
    (p.run config).printed = (q.run config).printed ∧
      (p.run config).result.mapError RunError.spelling =
        (q.run config).result.mapError RunError.spelling := by
  have hstart : (State.start p config.maxCallDepth).SameText (.start q config.maxCallDepth) :=
    ⟨rfl, ⟨⟨Cursor.sameText_start h.1, rfl, rfl⟩, .nil, rfl⟩, rfl, rfl⟩
  obtain ⟨s, hs, hlast⟩ := p.exists_last config
  obtain ⟨s', hs', hr⟩ := hs.simulate (fun _ _ _ hr => hr.step_next h) hstart
  have hrun' : q.run config = s'.run q := Reachable.run_eq hs'
  rcases hlast with ⟨hhalt, hrun⟩ | ⟨e, hfail, hrun⟩
  · rw [hrun, hrun', State.run_of_halted (hr.step_halted hhalt), hr.printed, hr.stack, hr.counters]
    exact ⟨rfl, rfl⟩
  · obtain ⟨e', hfail', he⟩ := hr.step_failed h hfail
    rw [hrun, hrun', State.run_of_failed hfail', hr.printed]
    exact ⟨rfl, congrArg Except.error he⟩

end Program

end TokenMachine
