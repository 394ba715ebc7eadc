/-
  TokenMachine.Proofs.Machine.Accounting — the counters account for every call and every token.

  What the counters leave out is in the states that a run went through (`State.Traces`): in some
  of them the body of a call ran out, in some a literal was executed. A step opens a frame and
  counts a call, or closes one that returned or ran out; and each token that a cursor moves past
  is an instruction, an operand or skipped (`State.balanced_of_step`). So the positions of all
  frames, those closed included, come to the tokens counted (`State.Accounts.step`).
-/

import Mathlib.Algebra.Ring.Nat
import TokenMachine.Proofs.Machine.Limit
import TokenMachine.Proofs.Machine.Location
import TokenMachine.Proofs.Stream.Matching

namespace TokenMachine

/-! ## Positions -/

namespace CallStack

variable {s s' : CallStack} {call : Call} {f : Frame}

def positions (s : CallStack) : Nat :=
  s.top.cursor.position + (s.calls.map (·.frame.cursor.position)).sum

theorem positions_setCurrent (s : CallStack) (f : Frame) :
    (s.setCurrent f).positions + s.current.cursor.position =
      s.positions + f.cursor.position := by
  cases h : s.calls with
  | nil =>
    rw [setCurrent_of_nil h]
    simp only [positions, current, h, List.map_nil, List.sum_nil]
    omega
  | cons call rest =>
    obtain ⟨hcalls, htop⟩ := setCurrent_of_cons h f
    simp only [positions, current, h, hcalls, htop, List.map_cons, List.sum_cons]
    omega

/-- A frame that stays where it is. -/
theorem positions_setCurrent_of_eq (h : f.cursor = s.current.cursor) :
    (s.setCurrent f).positions = s.positions := by
  have := s.positions_setCurrent f
  rw [h] at this
  omega

theorem positions_enter (s : CallStack) (call : Call) :
    (s.enter call).positions = s.positions + call.frame.cursor.position := by
  simp only [positions, enter, List.map_cons, List.sum_cons]
  omega

theorem positions_of_pop? (h : s.pop? = some (call, s')) :
    s.positions = s'.positions + s.current.cursor.position := by
  obtain ⟨hcalls, htop, -⟩ := pop?_eq_some h
  simp only [positions, current, hcalls, htop, List.map_cons, List.sum_cons]
  omega

theorem current_of_pop? (h : s.pop? = none) : s.current = s.top := by
  obtain ⟨top, calls, depth, limit, hd⟩ := s
  cases calls with
  | nil => rfl
  | cons => cases h

end CallStack

/-! ## The states gone through -/

namespace State

variable {p : Program} {span : Span} {s s' t u : State} {us : List State} {i : Instr}
  {limit : Nat}

/-- From `s` steps lead through the states `us`, the last one first, to the state after them. -/
inductive Traces (p : Program) (s : State) : List State → State → Prop
  | refl : Traces p s [] s
  | tail {us : List State} {t u : State} :
      Traces p s us t → t.step p = .next u → Traces p s (t :: us) u

theorem steps_iff_exists_traces : Steps p s t ↔ ∃ us, Traces p s us t := by
  constructor
  · intro h
    induction h with
    | refl => exact ⟨[], .refl⟩
    | tail _ hstep ih =>
      obtain ⟨us, htrace⟩ := ih
      exact ⟨_, htrace.tail hstep⟩
  · rintro ⟨us, h⟩
    induction h with
    | refl => exact .refl s
    | tail _ hstep ih => exact ih.trans (.single hstep)

def runsOut (s : State) : Bool := s.frames.current.cursor.fetch = .exhausted

def operandsRead (s : State) : Nat :=
  match s.frames.current.cursor.fetch with
  | .ready i _ _ => i.operands
  | _ => 0

/-- The position of the current frame when the step closes it: at the end of its stream, or past a
`return`. -/
def closing? (s : State) : Option Nat :=
  match s.frames.current.cursor.fetch with
  | .exhausted => some s.frames.current.cursor.position
  | .ready (.action .ret) _ next => some next.position
  | _ => none

theorem runsOut_eq_true_iff :
    s.runsOut = true ↔ s.frames.current.cursor.fetch = .exhausted := decide_eq_true_iff

/-! ## Steps -/

/-- An instruction executed opens a call and counts it, or closes one and counts a return, or
neither; and the frame that it leaves or moves has the place that it is at, but for what is
skipped. -/
structure Effect.Balanced (s : State) (i : Instr) (s' : State) : Prop where
  instructions : s'.counters.instructions = s.counters.instructions
  calls : s'.counters.calls + s.counters.returns + s.frames.depth =
    s.counters.calls + s'.counters.returns + s'.frames.depth
  returns : s'.counters.returns = s.counters.returns + if i = .action .ret then 1 else 0
  positions : s'.frames.positions + s.counters.skippedTokens +
      (if i = .action .ret then s.frames.current.cursor.position else 0) =
    s.frames.positions + s'.counters.skippedTokens

theorem Effect.balanced_passed {stack : Stack} {next : Cursor} {blocks : List Block} {act : Action}
    {allowElse : Bool} {marker : Marker} {skipped : Nat} (hact : act ≠ .ret)
    (hskip : s.frames.current.cursor.skip allowElse 0 0 = .ok (marker, next, skipped)) :
    Effect.Balanced s (.action act) ({ s with stack }.passed next skipped blocks) := by
  have hne : Instr.action act ≠ .action .ret := fun h => hact (Instr.action.inj h)
  have hpositions :=
    s.frames.positions_setCurrent { s.frames.current with cursor := next, blocks }
  refine ⟨rfl, by simp [passed], by simp [passed, hne], ?_⟩
  have hcount := Cursor.count_of_skip hskip
  simp only [passed, if_neg hne]
  dsimp only at hpositions
  omega

theorem Effect.balanced (h : Effect p span s i s') : Effect.Balanced s i s' := by
  cases h with
  | literal | load | binary | print => exact ⟨rfl, rfl, rfl, rfl⟩
  | bind | branchTrue | close =>
    exact ⟨rfl, by simp, rfl, by simp [CallStack.positions_setCurrent_of_eq]⟩
  | branchFalse _ hskip =>
    exact Effect.balanced_passed (by decide) hskip
  | otherwise _ hskip =>
    exact Effect.balanced_passed (by decide) hskip
  | call _ _ _ _ =>
    refine ⟨rfl, ?_, rfl, ?_⟩
    · simp only [CallStack.enter]
      omega
    · simp [CallStack.positions_enter, Frame.start, Cursor.start]
  | ret hpop _ =>
    have hdepth := CallStack.depth_of_pop? hpop
    have hpositions := CallStack.positions_of_pop? hpop
    refine ⟨rfl, ?_, rfl, ?_⟩
    · dsimp only
      omega
    · simp only [if_true]
      omega

/-- A step opens a call and counts it, or closes one that it counts as returned or that ran out, or
neither; and it passes no tokens but those that it counts. -/
structure Balanced (s t : State) : Prop where
  calls : t.counters.calls + s.counters.returns + s.frames.depth =
    s.counters.calls + t.counters.returns + t.frames.depth + s.runsOut.toNat
  closed : t.counters.returns + s.runsOut.toNat =
    s.counters.returns + s.closing?.toList.length
  positions : t.frames.positions + s.closing?.toList.sum + s.counters.instructions +
      s.counters.skippedTokens =
    s.frames.positions + t.counters.instructions + s.operandsRead + t.counters.skippedTokens

theorem balanced_of_step (hs : s.step p = .next t) : Balanced s t := by
  rcases step_eq_next_iff.mp hs with ⟨hx, -, hpop⟩ | @⟨i, tag, next, _, hx, he⟩
  · have hdepth := CallStack.depth_of_pop? hpop
    have hpositions := CallStack.positions_of_pop? hpop
    have hout : s.runsOut = true := runsOut_eq_true_iff.mpr hx
    have hclosing : s.closing? = some s.frames.current.cursor.position := by simp [closing?, hx]
    have hread : s.operandsRead = 0 := by simp [operandsRead, hx]
    refine ⟨?_, ?_, ?_⟩
    · rw [hout]
      dsimp only [Bool.toNat_true]
      omega
    · rw [hout, hclosing]
      rfl
    · rw [hclosing, hread]
      simp only [Option.toList_some, List.sum_singleton]
      omega
  · have hout : s.runsOut = false := by simp [runsOut, hx]
    have hread : s.operandsRead = i.operands := by simp [operandsRead, hx]
    have hclosing : s.closing? = if i = .action .ret then some next.position else none := by
      simp only [closing?, hx]
      split <;> simp_all
    have hposition := Cursor.position_of_fetch hx
    have hdispatch := s.frames.positions_setCurrent { s.frames.current with cursor := next }
    have hcounted : (s.dispatch next).counters =
        { s.counters with instructions := s.counters.instructions + 1 } := rfl
    obtain ⟨hinstructions, hcalls, hreturns, hpositions⟩ := he.balanced
    simp only [hcounted, frames_dispatch, CallStack.depth_setCurrent, CallStack.current_setCurrent]
      at hinstructions hcalls hreturns hpositions hdispatch
    refine ⟨?_, ?_, ?_⟩
    · rw [hout]
      exact hcalls
    · rw [hout, hclosing, hreturns]
      split <;> rfl
    · rw [hclosing, hread]
      by_cases hret : i = .action .ret
      · rw [if_pos hret] at hpositions ⊢
        simp only [Option.toList_some, List.sum_singleton]
        omega
      · rw [if_neg hret] at hpositions ⊢
        simp only [Option.toList_none, List.sum_nil]
        omega

/-! ## Runs -/

/-- In `s`, which comes after the states `us`: what the counters say of the calls made and of the
tokens passed. -/
structure Accounts (limit : Nat) (us : List State) (s : State) : Prop where
  /-- Each call made has returned, has run out, or is open. -/
  calls : s.counters.calls =
    s.counters.returns + us.countP runsOut + s.frames.calls.length
  /-- The frames closed are those that returned or ran out. -/
  closed : (us.filterMap closing?).length = s.counters.returns + us.countP runsOut
  /-- No state has had more open calls than were counted. -/
  depth_le : ∀ t ∈ s :: us, t.frames.calls.length ≤ s.counters.maxCallDepth
  /-- So many were open in one of them. -/
  deepest : ∃ t ∈ s :: us, t.frames.calls.length = s.counters.maxCallDepth
  count_le : s.counters.maxCallDepth ≤ limit
  /-- The positions of all frames, open or closed, come to the tokens counted. -/
  positions : s.frames.positions + (us.filterMap closing?).sum =
    s.counters.instructions + (us.map operandsRead).sum + s.counters.skippedTokens

theorem accounts_start (p : Program) (limit : Nat) : (start p limit).Accounts limit [] where
  calls := rfl
  closed := rfl
  depth_le := by simp [start, CallStack.start]
  deepest := ⟨_, List.mem_cons_self .., rfl⟩
  count_le := Nat.zero_le _
  positions := rfl

theorem Accounts.step (h : t.Accounts limit us) (hcounted : u.Counted limit)
    (hs : t.step p = .next u) : u.Accounts limit (t :: us) := by
  obtain ⟨hcalls, hclosed, hdepth, hdeepest, hcount, hpositions⟩ := h
  have hbalanced := balanced_of_step hs
  have hmap : ((t :: us).filterMap closing?) = t.closing?.toList ++ us.filterMap closing? := by
    cases hclosing : t.closing? <;> simp [hclosing]
  have hout : (t :: us).countP runsOut = us.countP runsOut + t.runsOut.toNat := by
    cases hrun : t.runsOut <;> simp [hrun]
  have hstep := depth_cases_of_step hs
  rw [t.frames.depth_eq, u.frames.depth_eq] at hstep
  have hle : t.counters.maxCallDepth ≤ u.counters.maxCallDepth := count_le_of_step hs
  refine ⟨?_, ?_, ?_, ?_, hcounted.count_le, ?_⟩
  · have := hbalanced.calls
    rw [t.frames.depth_eq, u.frames.depth_eq] at this
    rw [hout]
    omega
  · have := hbalanced.closed
    rw [hmap, hout, List.length_append]
    omega
  · refine List.forall_mem_cons.mpr ⟨?_, fun v hv => Nat.le_trans (hdepth v hv) hle⟩
    rw [← u.frames.depth_eq]
    exact hcounted.depth_le
  · obtain ⟨v, hv, hmax⟩ := hdeepest
    by_cases hnew : u.counters.maxCallDepth = t.counters.maxCallDepth
    · exact ⟨v, List.mem_cons_of_mem _ hv, hmax.trans hnew.symm⟩
    · refine ⟨u, List.mem_cons_self .., ?_⟩
      omega
  · have := hbalanced.positions
    rw [hmap, List.sum_append, List.map_cons, List.sum_cons]
    omega

theorem Traces.accounts (h : Traces p (start p limit) us s) : s.Accounts limit us := by
  induction h with
  | refl => exact accounts_start p limit
  | tail htrace hstep ih =>
    have hreach := steps_iff_exists_traces.mpr ⟨_, htrace.tail hstep⟩
    exact ih.step (Program.counted_of_reachable hreach) hstep

/-- If no call was made, the tokens counted are those of the main stream that were passed. -/
theorem Accounts.position_of_calls (h : s.Accounts limit us) (hcalls : s.counters.calls = 0) :
    s.frames.top.cursor.position =
      s.counters.instructions + (us.map operandsRead).sum + s.counters.skippedTokens := by
  have hopen := h.calls
  have hclosed : us.filterMap closing? = [] := by
    refine List.length_eq_zero_iff.mp ?_
    rw [h.closed]
    omega
  have hnil : s.frames.calls = [] := List.length_eq_zero_iff.mp (by omega)
  have hpositions := h.positions
  simpa [CallStack.positions, hnil, hclosed] using hpositions

end State

namespace Program

/-- In each state of a run, each call counted has returned, has run out, or is open; the deepest
call counted is the most calls that were open in any state so far, and within the limit. And the
positions of all frames opened so far, of those closed when they were closed, come to the
instructions and the tokens skipped that were counted, and the operands of literals. So a run
that succeeds and makes no call has counted its main stream, but for the operands. -/
theorem counters_account (p : Program) (limit : Nat) :
    (∀ us s, State.Traces p (.start p limit) us s → s.Accounts limit us) ∧
    ∀ outcome, (p.run ⟨limit⟩).result = .ok outcome →
      ∃ us s, State.Traces p (.start p limit) us s ∧ s.step p = .halted ∧
        outcome.counters = s.counters ∧
        (outcome.counters.calls = 0 →
          outcome.counters.instructions + (us.map State.operandsRead).sum +
            outcome.counters.skippedTokens = p.main.length) := by
  refine ⟨fun us s => State.Traces.accounts, fun outcome houtcome => ?_⟩
  obtain ⟨s, hs, ⟨hhalt, hrun⟩ | ⟨e, -, hrun⟩⟩ := p.exists_last ⟨limit⟩
  · rw [hrun] at houtcome
    cases houtcome
    obtain ⟨us, htrace⟩ := State.steps_iff_exists_traces.mp hs
    refine ⟨us, s, htrace, hhalt, rfl, fun hcalls => ?_⟩
    rw [← htrace.accounts.position_of_calls hcalls]
    -- The main stream is at its end.
    obtain ⟨hx, -, hpop⟩ := State.step_eq_halted_iff.mp hhalt
    rw [CallStack.current_of_pop? hpop] at hx
    exact (located_of_reachable hs).top.position_of_nil (Cursor.rest_of_exhausted hx)
  · rw [hrun] at houtcome
    cases houtcome

/-- A branch is skipped up to its `else`; then come the tokens `last`. The body of `f` skips from
an `else` on, and runs out; `g` returns. -/
def skipsAndCalls (last : List String) : Program where
  main := word <$> (["bool", "false", "if", "string", "x", "print", "else", "string", "y", "print",
    "end"] ++ last)
  functions := ⟨[⟨"f", [], word <$> ["bool", "true", "if", "string", "z", "print", "else", "string",
      "w", "print", "end"], .dummy⟩,
    ⟨"g", [], word <$> ["string", "v", "return"], .dummy⟩], by simp⟩
where
  word (text : String) : Token := ⟨text, .dummy⟩

/-- Of 17 instructions seven are literals, and eight tokens are skipped: together they are the 18
tokens of the main stream, the eleven of `f` and the three of `g`. Without the calls it is five,
two and four, for eleven tokens. -/
theorem skipsAndCalls_account :
    let calls := ["ident", "f", "call", "ident", "g", "call", "print"]
    (∃ us s, State.Traces (skipsAndCalls calls) (.start (skipsAndCalls calls) 1) us s ∧
      s.step (skipsAndCalls calls) = .halted ∧ s.counters = ⟨17, 2, 1, 8, 1⟩ ∧
      us.countP State.runsOut + s.frames.calls.length = 1 ∧
      (∃ t ∈ s :: us, t.frames.calls.length = 1) ∧
      s.frames.positions + (us.filterMap State.closing?).sum =
        25 + (us.map State.operandsRead).sum) ∧
    ∃ us s, State.Traces (skipsAndCalls []) (.start (skipsAndCalls []) 0) us s ∧
      s.counters = ⟨5, 0, 0, 4, 0⟩ ∧ 9 + (us.map State.operandsRead).sum = 11 := by
  intro calls
  have hskip (last : List String) : Cursor.skip true 0 0 ⟨3, (skipsAndCalls last).main.drop 3⟩ =
      .ok (.otherwise, ⟨7, (skipsAndCalls last).main.drop 7⟩, 4) := by cbv
  have hskip' : Cursor.skip false 0 0 ⟨7, skipsAndCalls.word <$> ["string", "w", "print", "end"]⟩ =
      .ok (.close, ⟨11, []⟩, 4) := by cbv
  obtain ⟨us, s, htrace, hhalt, hcounters⟩ : ∃ us s,
      State.Traces (skipsAndCalls calls) (.start (skipsAndCalls calls) 1) us s ∧
      s.step (skipsAndCalls calls) = .halted ∧ s.counters = ⟨17, 2, 1, 8, 1⟩ :=
    ⟨_, _, .tail (.tail (.tail (.tail (.tail (.tail (.tail (.tail (.tail (.tail (.tail (.tail (.tail
      (.tail (.tail (.tail (.tail (.tail .refl rfl)
      (State.step_eq_next_iff.mpr (.execute rfl (.branchFalse rfl (hskip calls))))) rfl) rfl) rfl)
      rfl) rfl) rfl) rfl) rfl) rfl)
      (State.step_eq_next_iff.mpr (.execute rfl (.otherwise rfl hskip')))) rfl) rfl) rfl) rfl) rfl)
      rfl, rfl, rfl⟩
  obtain ⟨outcome, hplain, hcounters'⟩ : ∃ outcome,
      ((skipsAndCalls []).run ⟨0⟩).result = .ok outcome ∧
        outcome.counters = ⟨5, 0, 0, 4, 0⟩ := by
    obtain ⟨s, hs, hhalt, hcounters⟩ : ∃ s, (skipsAndCalls []).Reachable 0 s ∧
        s.step (skipsAndCalls []) = .halted ∧ s.counters = ⟨5, 0, 0, 4, 0⟩ :=
      ⟨_, .tail (.tail (.tail (.tail (.tail .refl rfl)
        (State.step_eq_next_iff.mpr (.execute rfl (.branchFalse rfl (hskip []))))) rfl) rfl) rfl,
        rfl, rfl⟩
    have hrun : (skipsAndCalls []).run ⟨0⟩ = s.run (skipsAndCalls []) := Reachable.run_eq hs
    exact ⟨_, by rw [hrun, State.run_of_halted hhalt], hcounters⟩
  have haccounts := (counters_account (skipsAndCalls calls) 1).1 us s htrace
  obtain ⟨us', s', htrace', -, hsame, hmain⟩ :=
    (counters_account (skipsAndCalls []) 0).2 outcome hplain
  refine ⟨⟨us, s, htrace, hhalt, hcounters, ?_⟩, us', s', htrace', hsame ▸ hcounters', ?_⟩
  · have hcount := haccounts.calls
    have hdeepest := haccounts.deepest
    have hpositions := haccounts.positions
    rw [hcounters] at hcount hdeepest hpositions
    dsimp only at hcount hpositions
    exact ⟨by omega, hdeepest, by omega⟩
  · have hlength : (skipsAndCalls []).main.length = 11 := rfl
    rw [hcounters'] at hmain
    have hsum := hmain rfl
    dsimp only at hsum
    omega

end Program

end TokenMachine
