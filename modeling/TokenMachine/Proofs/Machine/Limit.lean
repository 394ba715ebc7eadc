/-
  TokenMachine.Proofs.Machine.Limit — the limit on open calls decides only where a run is cut.

  A run is compared with the run of the same program under another limit. The two go in
  lockstep while no call passes that limit (`steps_withLimit`), and the first call that would
  is refused before anything is changed (`exists_refused`). The counter of a state is the
  largest number of calls open so far, and never above the limit (`Counted`), so it says how
  far the runs go together: a run that succeeds needs exactly what it counted, and one that
  fails for another cause fails so under every larger limit (`Program.run_limit`).
-/

import TokenMachine.Proofs.Machine.Names

namespace TokenMachine

/-! ## The same state under another limit -/

namespace CallStack

def withLimit (s : CallStack) (limit : Nat) : CallStack := { s with limit }

variable {s s' : CallStack} {limit : Nat}

@[simp] theorem current_withLimit (s : CallStack) (limit : Nat) :
    (s.withLimit limit).current = s.current := rfl

@[simp] theorem setCurrent_withLimit (s : CallStack) (limit : Nat) (f : Frame) :
    (s.withLimit limit).setCurrent f = (s.setCurrent f).withLimit limit := by
  obtain ⟨top, calls, depth, limit', hd⟩ := s
  cases calls <;> rfl

theorem pop?_withLimit_eq_none (h : s.pop? = none) : (s.withLimit limit).pop? = none := by
  obtain ⟨top, calls, depth, limit', hd⟩ := s
  cases calls with
  | nil => rfl
  | cons => cases h

theorem pop?_withLimit_eq_some {call : Call} (h : s.pop? = some (call, s')) :
    (s.withLimit limit).pop? = some (call, s'.withLimit limit) := by
  obtain ⟨top, calls, depth, limit', hd⟩ := s
  cases calls with
  | nil => cases h
  | cons => cases h; rfl

end CallStack

namespace State

def withLimit (s : State) (limit : Nat) : State := { s with frames := s.frames.withLimit limit }

variable {p : Program} {span : Span} {s s' t : State} {i : Instr} {limit : Nat} {e : RunError}

@[simp] theorem dispatch_withLimit (s : State) (limit : Nat) (next : Cursor) :
    (s.withLimit limit).dispatch next = (s.dispatch next).withLimit limit := by
  simp [dispatch, withLimit]

@[simp] theorem passed_withLimit (s : State) (limit : Nat) (next : Cursor) (skipped : Nat)
    (blocks : List Block) :
    (s.withLimit limit).passed next skipped blocks =
      (s.passed next skipped blocks).withLimit limit := by
  simp [passed, withLimit]

@[simp] theorem maxCallDepth_dispatch (s : State) (next : Cursor) :
    (s.dispatch next).counters.maxCallDepth = s.counters.maxCallDepth := rfl

/-! ## The count of open calls -/

/-- An instruction opens a call and counts it, or opens none and counts none. -/
theorem Effect.depth_cases (h : Effect p span s i s') :
    (s'.counters.maxCallDepth = s.counters.maxCallDepth ∧ s'.frames.depth ≤ s.frames.depth) ∨
      (s.frames.depth < s.frames.limit ∧ s'.frames.depth = s.frames.depth + 1 ∧
        s'.counters.maxCallDepth = max s.counters.maxCallDepth (s.frames.depth + 1)) := by
  cases h with
  | call _ _ hroom _ => exact .inr ⟨hroom, rfl, rfl⟩
  | ret hpop _ =>
    have hdepth := CallStack.depth_of_pop? hpop
    exact .inl ⟨rfl, by dsimp only; omega⟩
  | _ => exact .inl ⟨rfl, by simp [passed]⟩

theorem Effect.limit_eq (h : Effect p span s i s') : s'.frames.limit = s.frames.limit := by
  cases h with
  | ret hpop _ => exact (CallStack.pop?_eq_some hpop).2.2
  | _ => simp [passed, CallStack.enter]

theorem limit_of_step (hs : s.step p = .next t) : t.frames.limit = s.frames.limit := by
  rcases step_eq_next_iff.mp hs with ⟨-, -, hpop⟩ | ⟨-, he⟩
  · exact (CallStack.pop?_eq_some hpop).2.2
  · simpa using he.limit_eq

theorem depth_cases_of_step (hs : s.step p = .next t) :
    (t.counters.maxCallDepth = s.counters.maxCallDepth ∧ t.frames.depth ≤ s.frames.depth) ∨
      (s.frames.depth < s.frames.limit ∧ t.frames.depth = s.frames.depth + 1 ∧
        t.counters.maxCallDepth = max s.counters.maxCallDepth (s.frames.depth + 1)) := by
  rcases step_eq_next_iff.mp hs with ⟨-, -, hpop⟩ | ⟨-, he⟩
  · have hdepth := CallStack.depth_of_pop? hpop
    exact .inl ⟨rfl, by dsimp only; omega⟩
  · simpa using he.depth_cases

theorem count_le_of_step (hs : s.step p = .next t) :
    s.counters.maxCallDepth ≤ t.counters.maxCallDepth := by
  rcases depth_cases_of_step hs with ⟨hcount, -⟩ | ⟨-, -, hcount⟩ <;> omega

structure Counted (limit : Nat) (s : State) : Prop where
  depth_le : s.frames.depth ≤ s.counters.maxCallDepth
  count_le : s.counters.maxCallDepth ≤ limit
  limit_eq : s.frames.limit = limit

theorem Counted.step (h : s.Counted limit) (hs : s.step p = .next t) : t.Counted limit := by
  obtain ⟨hdepth, hcount, hlimit⟩ := h
  have heq := limit_of_step hs
  rcases depth_cases_of_step hs with ⟨hcount', hdepth'⟩ | ⟨hroom, hdepth', hcount'⟩
  · exact ⟨by omega, by omega, by omega⟩
  · exact ⟨by omega, by omega, by omega⟩

/-! ## In lockstep, up to the first call refused -/

theorem Effect.withLimit (h : Effect p span s i s') (hcount : s'.counters.maxCallDepth ≤ limit) :
    Effect p span (s.withLimit limit) i (s'.withLimit limit) := by
  have leads {t u : State} (he : Effect p span (s.withLimit limit) i t) (htu : t = u) :
      Effect p span (s.withLimit limit) i u := htu ▸ he
  cases h with
  | literal hv => exact .literal hv
  | load hs hv => exact .load hs hv
  | bind hs => exact leads (.bind hs) (by simp [State.withLimit])
  | binary hs hv => exact .binary hs hv
  | print hs hn => exact .print hs hn
  | branchTrue hs => exact leads (.branchTrue hs) (by simp [State.withLimit])
  | branchFalse hs hskip =>
    exact leads (.branchFalse hs hskip) (by simp [State.withLimit, passed])
  | otherwise hb hskip => exact leads (.otherwise hb hskip) (by simp)
  | close hb => exact leads (.close hb) (by simp [State.withLimit])
  | call hs hf hroom hargs =>
    have hroom' : s.frames.depth < limit := Nat.le_trans (Nat.le_max_right _ _) hcount
    exact .call hs hf hroom' hargs
  | ret hpop hs => exact .ret (CallStack.pop?_withLimit_eq_some hpop) hs

/-- What an instruction does that counts past the limit is a call, and is refused under it. -/
theorem Effect.refused_withLimit (h : Effect p span s i s')
    (hcount : s.counters.maxCallDepth ≤ limit) (hcount' : limit < s'.counters.maxCallDepth) :
    Refusal p (s.withLimit limit) i ⟨.recursionLimitExceeded limit, none⟩ := by
  cases h with
  | call hs hf hroom hargs =>
    have hfull : limit ≤ s.frames.depth := by
      dsimp only at hcount'
      omega
    exact .full hs hf hfull
  | _ => exact absurd hcount' (Nat.not_lt.mpr hcount)

/-- An instruction that is refused for another cause is refused under a larger limit. -/
theorem Refusal.withLimit {trap : Trap} (h : Refusal p s i trap)
    (hne : ∀ l, trap.fault ≠ .recursionLimitExceeded l) (hle : s.frames.limit ≤ limit) :
    Refusal p (s.withLimit limit) i trap := by
  cases h with
  | full => exact absurd rfl (hne _)
  | noArgs hs hf hroom hlt => exact .noArgs hs hf (Nat.lt_of_lt_of_le hroom hle) hlt
  | outside hpop => exact .outside (CallStack.pop?_withLimit_eq_none hpop)
  | noResult hpop hs => exact .noResult (CallStack.pop?_withLimit_eq_some hpop) hs
  | literal hv => exact .literal hv
  | noName hact hn => exact .noName hact hn
  | unbound hs hv => exact .unbound hs hv
  | noValue hs => exact .noValue hs
  | noOperands hs => exact .noOperands hs
  | mismatch hs hv => exact .mismatch hs hv
  | empty hact hs => exact .empty hact hs
  | printName hs => exact .printName hs
  | noCondition hs hv => exact .noCondition hs hv
  | skipThen hs hskip => exact .skipThen hs hskip
  | strayElse hb => exact .strayElse hb
  | skipElse hb hskip => exact .skipElse hb hskip
  | strayEnd hb => exact .strayEnd hb
  | undefined hs hf => exact .undefined hs hf

/-- Only a call at the limit is refused for the limit. -/
theorem Refusal.full_of_fault {trap : Trap} {l : Nat} (h : Refusal p s i trap)
    (hl : trap.fault = .recursionLimitExceeded l) :
    l = s.frames.limit ∧ s.frames.limit ≤ s.frames.depth := by
  cases h with
  | full _ _ hfull => cases hl; exact ⟨rfl, hfull⟩
  | literal hv =>
    obtain ⟨-, -, rfl⟩ := value_eq_error_iff.mp hv
    cases hl
  | noName _ hn => rcases popName_eq_error_iff.mp hn with ⟨-, rfl⟩ | ⟨_, _, -, -, rfl⟩ <;> cases hl
  | skipThen _ hskip | skipElse _ hskip =>
    have hstruct := isStructural_of_skip hskip
    rw [hl] at hstruct
    cases hstruct
  | _ => cases hl

theorem step_withLimit (hs : s.step p = .next t) (hcount : t.counters.maxCallDepth ≤ limit) :
    (s.withLimit limit).step p = .next (t.withLimit limit) := by
  refine step_eq_next_iff.mpr ?_
  rcases step_eq_next_iff.mp hs with ⟨hx, hb, hpop⟩ | ⟨hx, he⟩
  · exact .leave hx hb (CallStack.pop?_withLimit_eq_some hpop)
  · refine .execute hx ?_
    rw [dispatch_withLimit]
    exact he.withLimit hcount

theorem refused_withLimit (hs : s.step p = .next t) (hcount : s.counters.maxCallDepth ≤ limit)
    (hcount' : limit < t.counters.maxCallDepth) :
    ∃ e, (s.withLimit limit).step p = .failed e ∧ e.fault = .recursionLimitExceeded limit := by
  rcases step_eq_next_iff.mp hs with - | ⟨hx, he⟩
  · exact absurd hcount' (Nat.not_lt.mpr hcount)
  · have hr := he.refused_withLimit hcount hcount'
    rw [← dispatch_withLimit] at hr
    exact ⟨_, step_eq_failed_iff.mpr (.refused hx hr), rfl⟩

theorem halted_withLimit (hs : s.step p = .halted) : (s.withLimit limit).step p = .halted := by
  obtain ⟨hx, hb, hpop⟩ := step_eq_halted_iff.mp hs
  exact step_eq_halted_iff.mpr ⟨hx, hb, CallStack.pop?_withLimit_eq_none hpop⟩

theorem failed_withLimit (hs : s.step p = .failed e)
    (hne : ∀ l, e.fault ≠ .recursionLimitExceeded l) (hle : s.frames.limit ≤ limit) :
    (s.withLimit limit).step p = .failed e := by
  refine step_eq_failed_iff.mpr ?_
  rcases step_eq_failed_iff.mp hs with ⟨hx, hb⟩ | hx | hx | ⟨hx, hr⟩
  · exact .unbalanced hx hb
  · exact .unknown hx
  · exact .truncated hx
  · refine Fails.refused (s := s.withLimit limit) hx ?_
    rw [dispatch_withLimit]
    exact hr.withLimit hne (by simpa using hle)

theorem full_of_failed {l : Nat} (hs : s.step p = .failed e)
    (hl : e.fault = .recursionLimitExceeded l) :
    l = s.frames.limit ∧ s.frames.limit ≤ s.frames.depth ∧ e.backtrace = s.frames.backtrace := by
  rcases step_eq_failed_iff.mp hs with - | - | - | ⟨-, hr⟩
  · cases hl
  · cases hl
  · cases hl
  · obtain ⟨hlimit, hfull⟩ := hr.full_of_fault hl
    rw [frames_dispatch, CallStack.limit_setCurrent] at hlimit hfull
    rw [CallStack.depth_setCurrent] at hfull
    exact ⟨hlimit, hfull, rfl⟩

/-! ## Whole runs -/

theorem steps_withLimit (hs : Steps p s t) (hcount : t.counters.maxCallDepth ≤ limit) :
    Steps p (s.withLimit limit) (t.withLimit limit) := by
  induction hs with
  | refl => exact .refl _
  | tail _ hstep ih =>
    have hbefore := Nat.le_trans (count_le_of_step hstep) hcount
    exact (ih hbefore).trans (.single (step_withLimit hstep hcount))

/-- A run that counts past a limit is cut by it. -/
theorem exists_refused (hs : Steps p s t) (hcount : s.counters.maxCallDepth ≤ limit)
    (hcount' : limit < t.counters.maxCallDepth) :
    ∃ u e, Steps p (s.withLimit limit) u ∧ u.step p = .failed e ∧
      e.fault = .recursionLimitExceeded limit := by
  induction hs with
  | refl => exact absurd hcount' (Nat.not_lt.mpr hcount)
  | @tail t u hs hstep ih =>
    by_cases hbefore : limit < t.counters.maxCallDepth
    · exact ih hbefore
    · have hle := Nat.le_of_not_lt hbefore
      obtain ⟨e, he, hfault⟩ := refused_withLimit hstep hle hcount'
      exact ⟨_, e, steps_withLimit hs hle, he, hfault⟩

end State

def Execution.Exceeds (x : Execution) (limit : Nat) : Prop :=
  ∃ e, x.result = .error e ∧ e.fault = .recursionLimitExceeded limit

namespace Program

variable {p : Program} {limit limit' : Nat} {s : State}

theorem counted_of_reachable (hs : p.Reachable limit s) : s.Counted limit := by
  refine hs.of_step ⟨Nat.le_refl 0, Nat.zero_le limit, rfl⟩ ?_
  intro t t' h hstep
  exact h.step hstep

/-- Under a limit that no call passed so far, the run comes to the same state. -/
theorem run_withLimit (hs : p.Reachable limit s) (hcount : s.counters.maxCallDepth ≤ limit') :
    p.run ⟨limit'⟩ = (s.withLimit limit').run p :=
  Reachable.run_eq (State.steps_withLimit hs hcount)

theorem exceeds_of_reachable (hs : p.Reachable limit s)
    (hcount : limit' < s.counters.maxCallDepth) : (p.run ⟨limit'⟩).Exceeds limit' := by
  obtain ⟨u, e, hu, he, hfault⟩ := State.exists_refused hs (Nat.zero_le limit') hcount
  have hrun : p.run ⟨limit'⟩ = u.run p := Reachable.run_eq hu
  rw [hrun, State.run_of_failed he]
  exact ⟨e, rfl, hfault⟩

theorem run_eq_of_halted (hs : p.Reachable limit s) (hend : s.step p = .halted)
    (hcount : s.counters.maxCallDepth ≤ limit') : p.run ⟨limit'⟩ = p.run ⟨limit⟩ := by
  have hrun : p.run ⟨limit⟩ = s.run p := Reachable.run_eq hs
  rw [hrun, run_withLimit hs hcount, State.run_of_halted hend,
    State.run_of_halted (State.halted_withLimit hend)]
  rfl

theorem run_eq_of_failed {e : RunError} (hs : p.Reachable limit s) (hend : s.step p = .failed e)
    (hne : ∀ l, e.fault ≠ .recursionLimitExceeded l) (hle : limit ≤ limit') :
    p.run ⟨limit'⟩ = p.run ⟨limit⟩ := by
  obtain ⟨-, hcount, hlimit⟩ := counted_of_reachable hs
  have hrun : p.run ⟨limit⟩ = s.run p := Reachable.run_eq hs
  rw [hrun, run_withLimit hs (Nat.le_trans hcount hle), State.run_of_failed hend,
    State.run_of_failed (State.failed_withLimit hend hne (hlimit ▸ hle))]
  rfl

/-- Where a run is cut, all the calls that the limit allows are open. -/
theorem full_of_reachable {e : RunError} {l : Nat} (hs : p.Reachable limit s)
    (hend : s.step p = .failed e) (hl : e.fault = .recursionLimitExceeded l) :
    l = limit ∧ e.backtrace.length = limit ∧ s.counters.maxCallDepth = limit := by
  obtain ⟨hdepth, hcount, hlimit⟩ := counted_of_reachable hs
  obtain ⟨hl, hfull, hback⟩ := State.full_of_failed hend hl
  have hlength : e.backtrace.length = s.frames.depth := by
    rw [hback, CallStack.backtrace, List.length_map, ← s.frames.depth_eq]
  exact ⟨by omega, by omega, by omega⟩

/-- The limit on open calls is an exact threshold, and changes nothing else. A run that succeeds
gives the same under every limit that is not below the number of calls it had open at once, and is
cut by every smaller one. A run that fails for another cause fails in the same way under every
larger limit. A run that is cut has as many calls open as the limit says, and is cut by every
smaller limit too. -/
theorem run_limit (p : Program) (limit : Nat) :
    (∀ outcome, (p.run ⟨limit⟩).result = .ok outcome →
      (∀ limit', outcome.counters.maxCallDepth ≤ limit' → p.run ⟨limit'⟩ = p.run ⟨limit⟩) ∧
      ∀ limit', limit' < outcome.counters.maxCallDepth → (p.run ⟨limit'⟩).Exceeds limit') ∧
    (∀ e, (p.run ⟨limit⟩).result = .error e → (∀ l, e.fault ≠ .recursionLimitExceeded l) →
      ∀ limit', limit ≤ limit' → p.run ⟨limit'⟩ = p.run ⟨limit⟩) ∧
    ∀ e l, (p.run ⟨limit⟩).result = .error e → e.fault = .recursionLimitExceeded l →
      l = limit ∧ e.backtrace.length = limit ∧
        ∀ limit', limit' < limit → (p.run ⟨limit'⟩).Exceeds limit' := by
  obtain ⟨s, hs, ⟨hhalt, hrun⟩ | ⟨e, hfail, hrun⟩⟩ := p.exists_last ⟨limit⟩
  · have hresult : (p.run ⟨limit⟩).result = .ok ⟨s.stack.reverse, s.counters⟩ :=
      congrArg Execution.result hrun
    refine ⟨?_, fun e he => ?_, fun e l he => ?_⟩
    · intro outcome ho
      rw [hresult] at ho
      cases ho
      exact ⟨fun _ => run_eq_of_halted hs hhalt, fun _ => exceeds_of_reachable hs⟩
    · rw [hresult] at he; cases he
    · rw [hresult] at he; cases he
  · have hresult : (p.run ⟨limit⟩).result = .error e := congrArg Execution.result hrun
    refine ⟨fun outcome ho => ?_, ?_, ?_⟩
    · rw [hresult] at ho; cases ho
    · intro e' he hne limit'
      rw [hresult] at he
      cases he
      exact run_eq_of_failed hs hfail hne
    · intro e' l he hl
      rw [hresult] at he
      cases he
      obtain ⟨heq, hlength, hcount⟩ := full_of_reachable hs hfail hl
      refine ⟨heq, hlength, fun limit' hlt => exceeds_of_reachable hs ?_⟩
      rw [hcount]
      exact hlt

/-- `f` calls `g`, and what `g` returns is printed; then come the tokens `last`. -/
def nestedCalls (last : List String) : Program where
  main := word <$> (["ident", "f", "call", "print"] ++ last)
  functions := ⟨[⟨"f", [], word <$> ["ident", "g", "call", "return"], .dummy⟩,
    ⟨"g", [], word <$> ["string", "deep", "return"], .dummy⟩], by simp⟩
where
  word (text : String) : Token := ⟨text, .dummy⟩

/-- Two calls are open at once: enough room for them is as good as more, whether the run succeeds
or calls `h`, which is not defined; with room for one, it is cut in `f`. -/
theorem nestedCalls_limit :
    (∀ limit, 2 ≤ limit → (nestedCalls []).run ⟨limit⟩ = ⟨["deep"], .ok ⟨[], 8, 2, 2, 0, 2⟩⟩) ∧
    (∀ limit, limit < 2 → ((nestedCalls []).run ⟨limit⟩).Exceeds limit) ∧
    (∀ limit, 2 ≤ limit → (nestedCalls ["ident", "h", "call"]).run ⟨limit⟩ =
      ⟨["deep"], .error ⟨.undefinedFunction "h", 6, some "call", none, []⟩⟩) ∧
    ((nestedCalls []).run ⟨1⟩).result =
      .error ⟨.recursionLimitExceeded 1, 2, some "call", none, [⟨"f", .dummy⟩]⟩ ∧
    ∀ limit, limit < 1 → ((nestedCalls []).run ⟨limit⟩).Exceeds limit := by
  have hok : (nestedCalls []).run ⟨2⟩ = ⟨["deep"], .ok ⟨[], 8, 2, 2, 0, 2⟩⟩ := by cbv
  have hfail : (nestedCalls ["ident", "h", "call"]).run ⟨2⟩ =
      ⟨["deep"], .error ⟨.undefinedFunction "h", 6, some "call", none, []⟩⟩ := by cbv
  have hcut : ((nestedCalls []).run ⟨1⟩).result =
      .error ⟨.recursionLimitExceeded 1, 2, some "call", none, [⟨"f", .dummy⟩]⟩ := by cbv
  obtain ⟨hsame, hless⟩ := (run_limit (nestedCalls []) 2).1 _ (congrArg Execution.result hok)
  have hsame' := (run_limit (nestedCalls ["ident", "h", "call"]) 2).2.1 _
    (congrArg Execution.result hfail) (fun _ h => by cases h)
  obtain ⟨-, -, hless'⟩ := (run_limit (nestedCalls []) 1).2.2 _ 1 hcut rfl
  refine ⟨fun limit h => ?_, hless, fun limit h => ?_, hcut, hless'⟩
  · rw [hsame limit h, hok]
  · rw [hsame' limit h, hfail]

end Program

end TokenMachine
