/-
  TokenMachine.Proofs.Machine.Names — names never escape in a disciplined program.

  A state is settled if no name is on the stack or bound in any frame, and every frame is
  before a disciplined rest. An `ident` makes a naming state of a settled one: a name on
  top, and the instruction that takes it next. That instruction makes the state settled
  again, and every other one keeps it so (`settled_step`, `settled_of_naming`). In such
  states nothing fails but by a fault that a program of source text can have
  (`fromSource_of_settled`).
-/

import TokenMachine.Proofs.Machine.Structure
import TokenMachine.Proofs.Stream.Discipline

namespace TokenMachine

/-! ## Values, bindings and stacks without names -/

def Value.isName : Value → Bool
  | .name _ => true
  | .number _ | .text _ | .boolean _ => false

def Env.Nameless (env : Env) : Prop := ∀ name v, env.lookup name = some v → v.isName = false

def Stack.Nameless (stack : Stack) : Prop := ∀ v ∈ stack, v.isName = false

theorem Env.nameless_empty : Env.empty.Nameless := nofun

theorem Env.Nameless.bind {env : Env} {v : Value} (h : env.Nameless) (hv : v.isName = false)
    (name : String) : (env.bind name v).Nameless := by
  intro other w hw
  by_cases ho : other = name
  · subst ho
    rw [lookup_bind_self] at hw
    cases hw
    exact hv
  · rw [lookup_bind_of_ne env v ho] at hw
    exact h other w hw

theorem Stack.nameless_cons {v : Value} {stack : Stack} :
    Stack.Nameless (v :: stack) ↔ v.isName = false ∧ Stack.Nameless stack := List.forall_mem_cons

theorem Stack.Nameless.popArgs {env env' : Env} {params : List String} {stack stack' : Stack}
    (henv : env.Nameless) (hst : stack.Nameless)
    (h : stack.popArgs env params = .ok (env', stack')) : env'.Nameless ∧ stack'.Nameless := by
  induction params generalizing env stack with
  | nil => cases h; exact ⟨henv, hst⟩
  | cons param params ih =>
    cases stack with
    | nil => cases h
    | cons v rest =>
      obtain ⟨hv, hrest⟩ := nameless_cons.mp hst
      exact ih (henv.bind hv param) hrest h

theorem Literal.isName_value {kind : Literal} {operand : String} {v : Value} (hk : kind ≠ .name)
    (h : kind.value operand = .ok v) : v.isName = false := by
  cases kind with
  | name => exact absurd rfl hk
  | number =>
    unfold Literal.value at h
    dsimp only at h
    split at h
    · cases h; rfl
    · cases h
  | text | boolean => cases h; rfl

theorem BinaryOp.isName_result {op : BinaryOp} {l r v : Value} (h : op.result? l r = some v) :
    v.isName = false := by
  cases l <;> cases r <;> cases op <;> cases h <;> rfl

/-! ## The invariant -/

def Frame.Settled (inCall : Bool) (f : Frame) : Prop :=
  Disciplined inCall f.cursor.rest ∧ f.env.Nameless

structure Program.Disciplined (p : Program) : Prop where
  main : TokenMachine.Disciplined false p.main
  body : ∀ f ∈ p.functions.defs, TokenMachine.Disciplined true f.body

namespace State

structure Settled (s : State) : Prop where
  frames : s.frames.All Frame.Settled
  stack : s.stack.Nameless

/-- An `ident` was executed just now: its name is on top, and the next instruction takes it. -/
structure Naming (s : State) (name : String) (below : Stack) : Prop where
  stack : s.stack = .name name :: below
  below : below.Nameless
  next : ∃ act tag next, s.frames.current.cursor.fetch = .ready (.action act) tag next ∧
    act.takesName = true ∧ (s.dispatch next).frames.All Frame.Settled

variable {p : Program} {s s' : State}

def Nameless (s : State) : Prop := s.frames.All fun _ f => f.env.Nameless

theorem Settled.nameless (h : s.Settled) : s.Nameless := h.frames.imp fun _ _ hf => hf.2

theorem Naming.nameless {name : String} {below : Stack} (h : s.Naming name below) :
    s.Nameless := by
  obtain ⟨_, _, next, -, -, hframes⟩ := h.next
  obtain ⟨-, henv⟩ := hframes.current
  simp only [frames_dispatch, CallStack.current_setCurrent] at henv
  have hall : (s.dispatch next).Nameless := hframes.imp fun _ _ hf => hf.2
  have hback := CallStack.All.setCurrent hall (f := s.frames.current) henv
  rw [frames_dispatch, CallStack.setCurrent_setCurrent, CallStack.setCurrent_current] at hback
  exact hback

/-- An instruction that takes no name leaves a settled state settled. -/
theorem settled_of_action {act : Action} {tag : Token} {next : Cursor} (h : s.Settled)
    (hrest : Disciplined s.frames.inCall next.rest) (hact : act.takesName = false)
    (he : Effect p tag.span (s.dispatch next) (.action act) s') : s'.Settled := by
  obtain ⟨-, henv⟩ := h.frames.current
  have moved {cursor : Cursor} (hd : Disciplined s.frames.inCall cursor.rest)
      (blocks : List Block) :
      (s.frames.setCurrent ⟨cursor, s.frames.current.env, blocks⟩).All Frame.Settled :=
    h.frames.setCurrent ⟨hd, henv⟩
  have passed {cursor : Cursor} {allowElse : Bool} {marker : Marker} {skipped : Nat}
      (hs : next.skip allowElse 0 0 = .ok (marker, cursor, skipped)) :
      Disciplined s.frames.inCall cursor.rest := Cursor.Orderly.skip (.inl hrest) hs
  have nameless {stack : Stack} (hs : (s.dispatch next).stack = stack) : stack.Nameless :=
    hs ▸ h.stack
  cases he with
  | load | bind | call => cases hact
  | binary hs hv =>
    obtain ⟨-, hst⟩ := Stack.nameless_cons.mp (nameless hs)
    obtain ⟨-, hst⟩ := Stack.nameless_cons.mp hst
    exact ⟨moved hrest _, Stack.nameless_cons.mpr ⟨BinaryOp.isName_result hv, hst⟩⟩
  | print hs _ =>
    obtain ⟨-, hst⟩ := Stack.nameless_cons.mp (nameless hs)
    exact ⟨moved hrest _, hst⟩
  | branchTrue hs =>
    obtain ⟨-, hst⟩ := Stack.nameless_cons.mp (nameless hs)
    exact ⟨by simpa using moved hrest _, hst⟩
  | branchFalse hs hskip =>
    obtain ⟨-, hst⟩ := Stack.nameless_cons.mp (nameless hs)
    simp only [frames_dispatch, CallStack.current_setCurrent] at hskip
    refine ⟨?_, hst⟩
    simpa [State.passed] using moved (passed hskip) _
  | otherwise _ hskip =>
    simp only [frames_dispatch, CallStack.current_setCurrent] at hskip
    refine ⟨?_, h.stack⟩
    simpa [State.passed] using moved (passed hskip) _
  | close => exact ⟨by simpa using moved hrest _, h.stack⟩
  | ret hpop hs =>
    have hframes := moved hrest s.frames.current.blocks
    exact ⟨hframes.pop? hpop, nameless hs⟩

/-- A step from a settled state leads to a settled one, or executes an `ident`. -/
theorem settled_step (h : s.Settled) (hs : s.step p = .next s') :
    s'.Settled ∨ ∃ name tag next, s.frames.current.cursor.fetch =
      .ready (.literal .name name) tag next ∧ s'.Naming name s.stack := by
  rcases step_eq_next_iff.mp hs with ⟨-, -, hpop⟩ | @⟨i, tag, next, _, hx, he⟩
  · exact .inl ⟨h.frames.pop? hpop, h.stack⟩
  obtain ⟨hd, henv⟩ := h.frames.current
  cases Cursor.leads_of_fetch hd hx with
  | literal hk hv hrest =>
    cases he with
    | literal hv' =>
      rw [hv] at hv'
      cases hv'
      refine .inl ⟨h.frames.setCurrent ⟨hrest, henv⟩, Stack.nameless_cons.mpr ⟨?_, h.stack⟩⟩
      exact Literal.isName_value hk hv
  | ident hawaits =>
    obtain ⟨act, tag', after, hf, hn, hrest⟩ := hawaits
    cases he with
    | literal hv =>
      cases hv
      refine .inr ⟨_, tag, next, hx, rfl, h.stack, act, tag', after, ?_, hn, ?_⟩
      · simpa using hf
      · simpa using h.frames.setCurrent (f := ⟨after, _, _⟩) ⟨hrest, henv⟩
  | action hn _ hrest => exact .inl (settled_of_action h hrest hn he)

/-- The instruction after an `ident` takes its name off the stack. -/
theorem settled_of_naming {name : String} {below : Stack} (hp : p.Disciplined)
    (h : s.Naming name below) (hs : s.step p = .next s') : s'.Settled := by
  obtain ⟨hstack, hbelow, act, tag, next, hf, hn, hframes⟩ := h
  obtain ⟨hrest, henv⟩ := hframes.current
  simp only [frames_dispatch, CallStack.current_setCurrent] at hrest henv
  rcases step_eq_next_iff.mp hs with ⟨hx, -, -⟩ | ⟨hx, he⟩
  · rw [hf] at hx; cases hx
  rw [hf] at hx
  cases hx
  cases he with
  | load htop hv =>
    rw [stack_dispatch, hstack] at htop
    cases htop
    simp only [frames_dispatch, CallStack.current_setCurrent] at hv
    exact ⟨hframes, Stack.nameless_cons.mpr ⟨henv _ _ hv, hbelow⟩⟩
  | bind htop =>
    rw [stack_dispatch, hstack] at htop
    cases htop
    obtain ⟨hv, hbelow⟩ := Stack.nameless_cons.mp hbelow
    refine ⟨hframes.setCurrent ⟨?_, ?_⟩, hbelow⟩
    · simpa using hrest
    · simpa using henv.bind hv _
  | call htop hg _ hargs =>
    rw [stack_dispatch, hstack] at htop
    cases htop
    simp only [frames_dispatch, CallStack.current_setCurrent] at hargs
    obtain ⟨henv', hstack'⟩ := hbelow.popArgs henv hargs
    have hbody := hp.body _ (FunctionTable.get?_eq_some_iff.mp hg).1
    exact ⟨hframes.enter ⟨hbody, henv'⟩, hstack'⟩
  | _ => cases hn

/-! ## What can still fail -/

theorem isStructural_of_skip {allowElse : Bool} {depth skipped : Nat} {c : Cursor} {trap : Trap}
    (h : c.skip allowElse depth skipped = .error trap) : trap.fault.isStructural = true := by
  fun_induction Cursor.skip allowElse depth skipped c with
  | case1 | case2 | case3 | case9 => cases h; rfl
  | case6 | case8 => cases h
  | case5 _ _ _ _ _ _ ih | case7 _ _ _ _ _ _ ih | case10 _ _ _ _ _ _ _ ih => exact ih h
  | case4 _ _ _ _ _ _ _ _ ih | case11 _ _ _ _ _ _ _ _ _ _ ih => exact ih h

end State

inductive Fault.FromSource : Fault → Prop
  | stackUnderflow : FromSource .stackUnderflow
  | unboundName {name : String} : FromSource (.unboundName name)
  | undefinedFunction {name : String} : FromSource (.undefinedFunction name)
  | recursionLimitExceeded {limit : Nat} : FromSource (.recursionLimitExceeded limit)
  | condition {found : String} : FromSource (.typeMismatch Action.branch.tag "a boolean" found)
  | operands {op : BinaryOp} {found : String} :
      FromSource (.typeMismatch op.symbol op.operands found)

namespace State

open Fault (FromSource)

variable {p : Program} {s : State} {e : RunError}

theorem fromSource_of_settled (h : s.Settled) (he : e.fault.isStructural = false)
    (hs : s.step p = .failed e) : e.fault.FromSource := by
  rcases step_eq_failed_iff.mp hs with ⟨-, -⟩ | - | - | @⟨i, tag, next, trap, hx, hr⟩
  · cases he
  · cases he
  · cases he
  show trap.fault.FromSource
  replace he : trap.fault.isStructural = false := he
  cases Cursor.leads_of_fetch h.frames.current.1 hx with
  | literal _ hv _ =>
    cases hr with
    | literal hv' => rw [hv] at hv'; cases hv'
  | ident _ =>
    cases hr with
    | literal hv' => cases hv'
  | action hn hret _ =>
    cases hr with
    | noName hact _ => rcases hact with rfl | rfl | rfl <;> cases hn
    | unbound | noValue | undefined | full | noArgs => cases hn
    | noOperands | empty | noResult => exact .stackUnderflow
    | mismatch => exact .operands
    | printName htop =>
      have hst := h.stack
      rw [show s.stack = _ from htop] at hst
      cases (Stack.nameless_cons.mp hst).1
    | noCondition => exact .condition
    | skipThen _ hskip | skipElse _ hskip => rw [isStructural_of_skip hskip] at he; cases he
    | strayElse | strayEnd => cases he
    | outside hpop =>
      have hin := CallStack.pop?_eq_none.mp hpop
      rw [frames_dispatch, CallStack.inCall_setCurrent, hret rfl] at hin
      cases hin

theorem fromSource_of_naming {name : String} {below : Stack} (h : s.Naming name below)
    (he : e.fault.isStructural = false) (hs : s.step p = .failed e) : e.fault.FromSource := by
  obtain ⟨hstack, -, act, tag, next, hf, hn, -⟩ := h
  rcases step_eq_failed_iff.mp hs with ⟨-, -⟩ | - | - | ⟨hx, hr⟩
  · cases he
  · cases he
  · cases he
  rw [hf] at hx
  cases hx
  cases hr with
  | noName _ hpop =>
    rw [stack_dispatch, hstack] at hpop
    cases hpop
  | unbound => exact .unboundName
  | noValue | noArgs => exact .stackUnderflow
  | undefined => exact .undefinedFunction
  | full => exact .recursionLimitExceeded
  | empty hact => rcases hact with rfl | rfl <;> cases hn
  | _ => cases hn

end State

/-! ## Whole runs -/

namespace Program

variable {p : Program}

theorem Disciplined.settled_start (hp : p.Disciplined) (limit : Nat) :
    (State.start p limit).Settled := by
  refine ⟨⟨⟨hp.main, Env.nameless_empty⟩, ?_⟩, ?_⟩
  · intro call hc; cases hc
  · intro v hv; cases hv

/-- Every state of a run is settled, or comes from a settled one by an `ident`. -/
theorem Disciplined.settled_or_naming (hp : p.Disciplined) {limit : Nat} {s : State}
    (hs : p.Reachable limit s) : s.Settled ∨ ∃ s₀ name tag next, p.Reachable limit s₀ ∧
      s₀.frames.current.cursor.fetch = .ready (.literal .name name) tag next ∧
      s₀.step p = .next s ∧ s.Naming name s₀.stack := by
  induction hs with
  | refl => exact .inl (hp.settled_start limit)
  | @tail s s' hr hstep ih =>
    rcases ih with h | ⟨s₀, name, tag, next, -, -, -, h⟩
    · rcases State.settled_step h hstep with h' | ⟨name, tag, next, hf, h'⟩
      · exact .inl h'
      · exact .inr ⟨s, name, tag, next, hr, hf, hstep, h'⟩
    · exact .inl (State.settled_of_naming hp h hstep)

/-- A run of a disciplined and checked program fails with no other fault. -/
theorem Disciplined.fromSource_of_run (hp : p.Disciplined) (hv : p.verify = .ok ())
    {config : Config} {e : RunError} (he : (p.run config).result = .error e) :
    e.fault.FromSource := by
  obtain ⟨s, hs, hf⟩ := exists_failed_of_run he
  have hstruct := State.not_structural_of_failed (checked_of_reachable hv hs) hf
  rcases hp.settled_or_naming hs with h | ⟨_, _, _, _, -, -, -, h⟩
  · exact State.fromSource_of_settled h hstruct hf
  · exact State.fromSource_of_naming h hstruct hf

end Program

end TokenMachine
