/-
  TokenMachine.Proofs.Machine.StackBase — what lies under the stack is never looked at.

  A state is compared with the same state with values put under its stack (`State.above`).
  An instruction pops what it needs from the top, so whatever it does it does above more
  values too (`Effect.above`), and it is refused above them for the same cause, unless that
  cause is a stack that holds too little (`Refusal.above`). The two therefore go in lockstep,
  step by step, until one of them ends (`step_above`, `halted_above`, `failed_above`), and
  only where the first underflows can the second go on. Whole runs, and the bodies of
  functions, are both runs up to a given place (`runUntil`), so one induction along the run
  serves them (`lifts_runUntil`, `Program.run_above`).
-/

import TokenMachine.Proofs.Machine.Isolation

namespace TokenMachine

namespace State

/-- The same state, with `base` under its stack; the first of `base` lies at the bottom. -/
def above (s : State) (base : List Value) : State := { s with stack := s.stack ++ base.reverse }

variable {p : Program} {span : Span} {s s' t : State} {i : Instr} {base : List Value}
  {e : RunError}

@[simp] theorem stack_above (s : State) (base : List Value) :
    (s.above base).stack = s.stack ++ base.reverse := rfl

@[simp] theorem frames_above (s : State) (base : List Value) :
    (s.above base).frames = s.frames := rfl

@[simp] theorem dispatch_above (s : State) (base : List Value) (next : Cursor) :
    (s.above base).dispatch next = (s.dispatch next).above base := rfl

theorem stack_above_of_cons {v : Value} {rest : Stack} (hs : s.stack = v :: rest)
    (base : List Value) : (s.above base).stack = v :: (rest ++ base.reverse) := by
  rw [stack_above, hs, List.cons_append]

theorem stack_above_of_cons₂ {v w : Value} {rest : Stack} (hs : s.stack = v :: w :: rest)
    (base : List Value) : (s.above base).stack = v :: w :: (rest ++ base.reverse) := by
  rw [stack_above, hs, List.cons_append, List.cons_append]

/-! ## One instruction -/

/-- The parameters take the same arguments, and what is under them is left. -/
theorem popArgs_append {env env' : Env} {params : List String} {st st' : Stack}
    (h : st.popArgs env params = .ok (env', st')) (under : Stack) :
    Stack.popArgs env params (st ++ under) = .ok (env', st' ++ under) := by
  obtain ⟨args, rfl, hlen, henv⟩ := Stack.popArgs_eq_ok_iff.mp h
  exact Stack.popArgs_eq_ok_iff.mpr ⟨args, List.append_assoc args st' under, hlen, henv⟩

theorem Effect.above (h : Effect p span s i s') (base : List Value) :
    Effect p span (s.above base) i (s'.above base) := by
  cases h with
  | literal hv => exact .literal hv
  | load hs hv => exact .load (stack_above_of_cons hs base) hv
  | bind hs => exact .bind (stack_above_of_cons₂ hs base)
  | binary hs hv => exact .binary (stack_above_of_cons₂ hs base) hv
  | print hs hn => exact .print (stack_above_of_cons hs base) hn
  | branchTrue hs => exact .branchTrue (stack_above_of_cons hs base)
  | branchFalse hs hskip => exact .branchFalse (stack_above_of_cons hs base) hskip
  | otherwise hb hskip => exact .otherwise hb hskip
  | close hb => exact .close hb
  | call hs hf hroom hargs =>
    exact .call (stack_above_of_cons hs base) hf hroom (popArgs_append hargs _)
  | ret hpop hs => exact .ret hpop (stack_above_of_cons hs base)

/-- Only an instruction that finds too little on the stack can fare otherwise above more values. -/
theorem Refusal.above {trap : Trap} (h : Refusal p s i trap) (hne : trap.fault ≠ .stackUnderflow)
    (base : List Value) : Refusal p (s.above base) i trap := by
  cases h with
  | literal hv => exact .literal hv
  | noName hact hn =>
    rcases popName_eq_error_iff.mp hn with ⟨-, rfl⟩ | ⟨v, rest, hs, hv, rfl⟩
    · exact absurd rfl hne
    · have hs' := stack_above_of_cons hs base
      exact .noName hact (popName_eq_error_iff.mpr (.inr ⟨v, _, hs', hv, rfl⟩))
  | unbound hs hv => exact .unbound (stack_above_of_cons hs base) hv
  | mismatch hs hv => exact .mismatch (stack_above_of_cons₂ hs base) hv
  | printName hs => exact .printName (stack_above_of_cons hs base)
  | noCondition hs hv => exact .noCondition (stack_above_of_cons hs base) hv
  | skipThen hs hskip => exact .skipThen (stack_above_of_cons hs base) hskip
  | strayElse hb => exact .strayElse hb
  | skipElse hb hskip => exact .skipElse hb hskip
  | strayEnd hb => exact .strayEnd hb
  | undefined hs hf => exact .undefined (stack_above_of_cons hs base) hf
  | full hs hf hfull => exact .full (stack_above_of_cons hs base) hf hfull
  | outside hpop => exact .outside hpop
  | noValue | noOperands | empty | noArgs | noResult => exact absurd rfl hne

/-! ## One step -/

theorem step_above (hs : s.step p = .next t) (base : List Value) :
    (s.above base).step p = .next (t.above base) := by
  apply step_eq_next_iff.mpr
  rcases step_eq_next_iff.mp hs with ⟨hx, hb, hpop⟩ | ⟨hx, he⟩
  · exact .leave hx hb hpop
  · exact .execute hx (he.above base)

theorem halted_above (hs : s.step p = .halted) (base : List Value) :
    (s.above base).step p = .halted := by
  obtain ⟨hx, hb, hpop⟩ := step_eq_halted_iff.mp hs
  exact step_eq_halted_iff.mpr ⟨hx, hb, hpop⟩

theorem failed_above (hs : s.step p = .failed e) (hne : e.fault ≠ .stackUnderflow)
    (base : List Value) : (s.above base).step p = .failed e := by
  apply step_eq_failed_iff.mpr
  rcases step_eq_failed_iff.mp hs with ⟨hx, hb⟩ | hx | hx | ⟨hx, hr⟩
  · exact .unbalanced hx hb
  · exact .unknown hx
  · exact .truncated hx
  · exact Fails.refused (s := s.above base) hx (hr.above hne base)

/-! ## Runs up to a place -/

/-- The run from `s` until the open calls are as `done` says, or to its end before that. -/
def runUntil (p : Program) (done : CallStack → Bool) (s : State) : Execution :=
  if done s.frames then ⟨s.printed.reverse, .ok ⟨s.stack.reverse, s.counters⟩⟩
  else
    match h : s.step p with
    | .next t =>
      have := cost_lt_of_step h
      t.runUntil p done
    | .halted => ⟨s.printed.reverse, .ok ⟨s.stack.reverse, s.counters⟩⟩
    | .failed e => ⟨s.printed.reverse, .error e⟩
termination_by s.cost p

variable {done : CallStack → Bool}

theorem runUntil_of_done (h : done s.frames = true) :
    s.runUntil p done = ⟨s.printed.reverse, .ok ⟨s.stack.reverse, s.counters⟩⟩ := by
  rw [runUntil, if_pos h]

theorem runUntil_of_next (hd : ¬ done s.frames = true) (h : s.step p = .next t) :
    s.runUntil p done = t.runUntil p done := by
  rw [runUntil, if_neg hd]
  split <;> simp_all

theorem runUntil_of_halted (hd : ¬ done s.frames = true) (h : s.step p = .halted) :
    s.runUntil p done = ⟨s.printed.reverse, .ok ⟨s.stack.reverse, s.counters⟩⟩ := by
  rw [runUntil, if_neg hd]
  split <;> simp_all

theorem runUntil_of_failed (hd : ¬ done s.frames = true) (h : s.step p = .failed e) :
    s.runUntil p done = ⟨s.printed.reverse, .error e⟩ := by
  rw [runUntil, if_neg hd]
  split <;> simp_all

/-- A run that nothing stops is the whole run. -/
theorem runUntil_never (p : Program) (s : State) : s.runUntil p (fun _ => false) = s.run p := by
  induction s using run.induct p with
  | case1 s t h _ ih => rw [runUntil_of_next Bool.false_ne_true h, ih, run_of_next h]
  | case2 s h => rw [runUntil_of_halted Bool.false_ne_true h, run_of_halted h]
  | case3 s e h => rw [runUntil_of_failed Bool.false_ne_true h, run_of_failed h]

end State

/-- What `y` did is what `x` did above `base`: it ends with `base` under what `x` ends with, or
fails as `x` does. An `x` that found too little on its stack says nothing of `y`. -/
structure Execution.Lifts (base : List Value) (x y : Execution) : Prop where
  ok : ∀ outcome, x.result = .ok outcome →
    y = ⟨x.printed, .ok { outcome with stack := base ++ outcome.stack }⟩
  error : ∀ e, x.result = .error e → e.fault ≠ .stackUnderflow → y = x

namespace State

open Execution (Lifts)

variable {p : Program} {s : State}

theorem lifts_end (s : State) (base : List Value) :
    Lifts base ⟨s.printed.reverse, .ok ⟨s.stack.reverse, s.counters⟩⟩
      ⟨(s.above base).printed.reverse,
        .ok ⟨(s.above base).stack.reverse, (s.above base).counters⟩⟩ := by
  constructor
  · intro outcome h
    cases h
    simp [above]
  · intro e h
    cases h

theorem lifts_runUntil (p : Program) (done : CallStack → Bool) (s : State) (base : List Value) :
    (s.runUntil p done).Lifts base ((s.above base).runUntil p done) := by
  fun_induction runUntil p done s with
  | case1 s hd =>
    rw [runUntil_of_done (s := s.above base) hd]
    exact s.lifts_end base
  | case2 s hd t h _ ih =>
    rw [runUntil_of_next (s := s.above base) hd (step_above h base)]
    exact ih
  | case3 s hd h =>
    rw [runUntil_of_halted (s := s.above base) hd (halted_above h base)]
    exact s.lifts_end base
  | case4 s hd e h =>
    constructor
    · intro outcome h
      cases h
    · intro e' he hne
      cases he
      exact runUntil_of_failed (s := s.above base) hd (failed_above h hne base)

def atBody (s : State) (f : FunctionDef) (site : CallSite) (env : Env) : State :=
  { s with frames := s.frames.enter ⟨site, .start f.body env⟩ }

def runBody (p : Program) (s : State) (f : FunctionDef) (site : CallSite) (env : Env) : Execution :=
  (s.atBody f site env).runUntil p fun frames => frames.depth ≤ s.frames.depth

end State

namespace Program

open State (runBody)

/-- What lies under what is popped is never looked at. Above a stack of `base` a program leaves
`base` and on it what it leaves above an empty stack, with the same counters and the same lines
printed; and it fails as it does above an empty stack, unless it fails there for want of a value.
So does the body of every function, in every call of it and above every stack. -/
theorem run_above (p : Program) (limit : Nat) (base : List Value) :
    (p.run ⟨limit⟩).Lifts base (((State.start p limit).above base).run p) ∧
    ∀ s f site env, (runBody p s f site env).Lifts base (runBody p (s.above base) f site env) := by
  constructor
  · have hrun := State.lifts_runUntil p (fun _ => false) (.start p limit) base
    rw [State.runUntil_never, State.runUntil_never] at hrun
    exact hrun
  · intro s f site env
    exact State.lifts_runUntil p _ (s.atBody f site env) base

/-- `f` is called with a text, and what it returns is printed; then come the tokens `last`. -/
def answer (last : List String) : Program where
  main := word <$> (["string", "a", "ident", "f", "call", "print"] ++ last)
  functions := ⟨[f], by simp⟩
where
  word (text : String) : Token := ⟨text, .dummy⟩
  f : FunctionDef := ⟨"f", ["x"], word <$> ["string", "b", "return"], .dummy⟩

/-- The call of `f` takes its text, and whatever else lies on the stack stays under what is left
in the end; an unbound name fails as it would above an empty stack. The body of `f` puts what it
returns on every stack. -/
theorem answer_above :
    (∀ base, ((State.start (answer ["bool", "true"]) 1).above base).run (answer ["bool", "true"]) =
      ⟨["b"], .ok ⟨base ++ [.boolean true], 7, 1, 1, 0, 1⟩⟩) ∧
    (∀ base, ((State.start (answer ["ident", "y", "var"]) 1).above base).run
        (answer ["ident", "y", "var"]) =
      ⟨["b"], .error ⟨.unboundName "y", 8, some "var", none, []⟩⟩) ∧
    ∀ base, runBody (answer []) ((State.start (answer []) 1).above base) answer.f ⟨"f", .dummy⟩
        .empty = ⟨[], .ok ⟨base ++ [.text "b"], 2, 0, 1, 0, 0⟩⟩ := by
  have hok : (answer ["bool", "true"]).run ⟨1⟩ =
      ⟨["b"], .ok ⟨[.boolean true], 7, 1, 1, 0, 1⟩⟩ := by cbv
  have hfail : (answer ["ident", "y", "var"]).run ⟨1⟩ =
      ⟨["b"], .error ⟨.unboundName "y", 8, some "var", none, []⟩⟩ := by cbv
  have hbody : runBody (answer []) (.start (answer []) 1) answer.f ⟨"f", .dummy⟩ .empty =
      ⟨[], .ok ⟨[.text "b"], 2, 0, 1, 0, 0⟩⟩ := by cbv
  refine ⟨fun base => ?_, fun base => ?_, fun base => ?_⟩
  · have hlifts := (run_above (answer ["bool", "true"]) 1 base).1
    rw [hok] at hlifts
    exact hlifts.ok _ rfl
  · have hlifts := (run_above (answer ["ident", "y", "var"]) 1 base).1
    rw [hfail] at hlifts
    exact hlifts.error _ rfl (by simp)
  · have hlifts := (run_above (answer []) 1 base).2 (.start (answer []) 1) answer.f ⟨"f", .dummy⟩
      .empty
    rw [hbody] at hlifts
    exact hlifts.ok _ rfl

-- Want of a value is where the two part: what lies under the stack is then popped.
example : (Program.run ⟨[⟨"print", .dummy⟩], .empty⟩ ⟨1⟩).result =
      .error ⟨.stackUnderflow, 0, some "print", none, []⟩ ∧
    ((State.start ⟨[⟨"print", .dummy⟩], .empty⟩ 1).above [.text "a"]).run
      ⟨[⟨"print", .dummy⟩], .empty⟩ = ⟨["a"], .ok ⟨[], 1, 0, 0, 0, 0⟩⟩ := by cbv

end Program

end TokenMachine
