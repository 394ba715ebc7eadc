/-
  TokenMachine.Proofs.Machine.Effect — what one step of the machine can do.

  `Effect` lists how an instruction succeeds and `Refusal` how it fails, each with the
  guards that led there. They are exactly the answers of `exec` (`exec_eq_ok_iff`,
  `exec_eq_error_iff`), and `step_eq_next_iff` and `step_eq_failed_iff` say the same of a
  whole step. What a run keeps is proved of these cases, and never of `step` itself.
-/

import TokenMachine.Machine.Cost
import TokenMachine.Proofs.Machine.Frames

namespace TokenMachine.State

/-! ## Instructions that succeed -/

def passed (s : State) (next : Cursor) (skipped : Nat) (blocks : List Block) : State :=
  { s with
    frames := s.frames.setCurrent { s.frames.current with cursor := next, blocks }
    counters := { s.counters with skippedTokens := s.counters.skippedTokens + skipped } }

def blocksAfterSkip (blocks : List Block) : Marker → List Block
  | .otherwise => .whenFalse :: blocks
  | .close => blocks

/-- What an instruction does to a state whose current cursor is already past it. -/
inductive Effect (p : Program) (span : Span) (s : State) : Instr → State → Prop
  | literal {kind : Literal} {operand : String} {v : Value} :
      kind.value operand = .ok v →
      Effect p span s (.literal kind operand) { s with stack := v :: s.stack }
  | load {name : String} {v : Value} {rest : Stack} :
      s.stack = .name name :: rest → s.frames.current.env.lookup name = some v →
      Effect p span s (.action .load) { s with stack := v :: rest }
  | bind {name : String} {v : Value} {rest : Stack} :
      s.stack = .name name :: v :: rest →
      Effect p span s (.action .bind) { s with
        stack := rest
        frames := s.frames.setCurrent
          { s.frames.current with env := s.frames.current.env.bind name v } }
  | binary {op : BinaryOp} {l r v : Value} {rest : Stack} :
      s.stack = l :: r :: rest → op.result? l r = some v →
      Effect p span s (.action (.binary op)) { s with stack := v :: rest }
  | print {v : Value} {rest : Stack} :
      s.stack = v :: rest → (∀ name, v ≠ .name name) →
      Effect p span s (.action .print) { s with stack := rest, printed := v.render :: s.printed }
  | branchTrue {rest : Stack} :
      s.stack = .boolean true :: rest →
      Effect p span s (.action .branch) { s with
        stack := rest
        frames := s.frames.setCurrent
          { s.frames.current with blocks := .whenTrue :: s.frames.current.blocks } }
  | branchFalse {rest : Stack} {marker : Marker} {next : Cursor} {skipped : Nat} :
      s.stack = .boolean false :: rest →
      s.frames.current.cursor.skip true 0 0 = .ok (marker, next, skipped) →
      Effect p span s (.action .branch) ({ s with stack := rest }.passed next skipped
        (blocksAfterSkip s.frames.current.blocks marker))
  | otherwise {outer : List Block} {marker : Marker} {next : Cursor} {skipped : Nat} :
      s.frames.current.blocks = .whenTrue :: outer →
      s.frames.current.cursor.skip false 0 0 = .ok (marker, next, skipped) →
      Effect p span s (.action .otherwise) (s.passed next skipped outer)
  | close {block : Block} {outer : List Block} :
      s.frames.current.blocks = block :: outer →
      Effect p span s (.action .close) { s with
        frames := s.frames.setCurrent { s.frames.current with blocks := outer } }
  | call {name : String} {f : FunctionDef} {env : Env} {rest stack : Stack} :
      s.stack = .name name :: rest → p.functions.get? name = some f →
      s.frames.depth < s.frames.limit →
      rest.popArgs s.frames.current.env f.params = .ok (env, stack) →
      Effect p span s (.action .call) { s with
        stack
        frames := s.frames.enter ⟨⟨name, span⟩, .start f.body env⟩
        counters := { s.counters with
          calls := s.counters.calls + 1
          maxCallDepth := max s.counters.maxCallDepth (s.frames.depth + 1) } }
  | ret {call : Call} {frames : CallStack} {v : Value} {rest : Stack} :
      s.frames.pop? = some (call, frames) → s.stack = v :: rest →
      Effect p span s (.action .ret) { s with
        stack := v :: rest
        frames
        counters := { s.counters with returns := s.counters.returns + 1 } }

variable {p : Program} {span : Span} {s s' : State} {i : Instr}

/-! ## Running the bodies of instructions -/

@[simp] theorem ok_bind {α β ε : Type} (a : α) (f : α → Except ε β) :
    (Except.ok a >>= f) = f a := rfl

@[simp] theorem error_bind {α β ε : Type} (e : ε) (f : α → Except ε β) :
    ((Except.error e : Except ε α) >>= f) = .error e := rfl

@[simp] theorem atInstruction_ok {α : Type} (a : α) : atInstruction (.ok a) = .ok a := rfl

@[simp] theorem atInstruction_error {α : Type} (fault : Fault) :
    atInstruction (.error fault : Except Fault α) = .error ⟨fault, none⟩ := rfl

@[simp] theorem pop_nil : Stack.pop [] = .error .stackUnderflow := rfl

@[simp] theorem pop_cons (v : Value) (st : Stack) : Stack.pop (v :: st) = .ok (v, st) := rfl

@[simp] theorem popName_name (operation name : String) (st : Stack) :
    Stack.popName operation (.name name :: st) = .ok (name, st) := rfl

theorem pop_eq_ok_iff {st rest : Stack} {v : Value} : st.pop = .ok (v, rest) ↔ st = v :: rest := by
  cases st <;> simp [Stack.pop]

theorem pop_eq_error_iff {st : Stack} {fault : Fault} :
    st.pop = .error fault ↔ st = [] ∧ fault = .stackUnderflow := by
  cases st <;> simp [Stack.pop, eq_comm]

theorem popName_eq_ok_iff {operation name : String} {st rest : Stack} :
    st.popName operation = .ok (name, rest) ↔ st = .name name :: rest := by
  rcases st with _ | ⟨v, st⟩
  · simp [Stack.popName]
  · cases v <;> simp [Stack.popName]

theorem popName_eq_error_iff {operation : String} {st : Stack} {fault : Fault} :
    st.popName operation = .error fault ↔
      (st = [] ∧ fault = .stackUnderflow) ∨
      ∃ v rest, st = v :: rest ∧ (∀ name, v ≠ .name name) ∧
        fault = .typeMismatch operation "a name" v.typeName := by
  rcases st with _ | ⟨v, st⟩
  · simp [Stack.popName, @eq_comm _ fault]
  · cases v <;> simp [Stack.popName, @eq_comm _ fault]

theorem checkDepth_of_lt {frames : CallStack} (h : frames.depth < frames.limit) :
    frames.checkDepth = .ok () := by
  simp [CallStack.checkDepth, CallStack.isFull_eq_false.mpr h]

theorem checkDepth_of_le {frames : CallStack} (h : frames.limit ≤ frames.depth) :
    frames.checkDepth = .error (.recursionLimitExceeded frames.limit) := by
  simp [CallStack.checkDepth, CallStack.isFull, h]

theorem skipTo_eq_ok_iff {allowElse : Bool} {opened : Marker → List Block} :
    s.skipTo allowElse opened = .ok s' ↔
      ∃ marker next skipped,
        s.frames.current.cursor.skip allowElse 0 0 = .ok (marker, next, skipped) ∧
          s' = s.passed next skipped (opened marker) := by
  unfold skipTo
  rw [bind_eq_ok]
  constructor
  · rintro ⟨⟨marker, next, skipped⟩, hs, h⟩
    exact ⟨marker, next, skipped, hs, (Except.ok.inj h).symm⟩
  · rintro ⟨marker, next, skipped, hs, rfl⟩
    exact ⟨(marker, next, skipped), hs, rfl⟩

theorem effect_of_load (h : s.load = .ok s') : Effect p span s (.action .load) s' := by
  obtain ⟨⟨name, rest⟩, hn, h⟩ := bind_eq_ok.mp h
  dsimp only at h
  split at h
  · next hv => cases h; exact .load (popName_eq_ok_iff.mp hn) hv
  · cases h

theorem effect_of_bind (h : s.bind = .ok s') : Effect p span s (.action .bind) s' := by
  obtain ⟨⟨name, rest⟩, hn, h⟩ := bind_eq_ok.mp h
  obtain ⟨⟨v, rest'⟩, hv, h⟩ := bind_eq_ok.mp h
  cases h
  exact .bind (pop_eq_ok_iff.mp hv ▸ popName_eq_ok_iff.mp hn)

theorem effect_of_binary {op : BinaryOp} (h : s.binary op = .ok s') :
    Effect p span s (.action (.binary op)) s' := by
  obtain ⟨⟨l, rest⟩, hl, h⟩ := bind_eq_ok.mp h
  obtain ⟨⟨r, rest'⟩, hr, h⟩ := bind_eq_ok.mp h
  dsimp only at h
  split at h
  · next hv => cases h; exact .binary (pop_eq_ok_iff.mp hr ▸ pop_eq_ok_iff.mp hl) hv
  · cases h

theorem effect_of_print (h : s.print = .ok s') : Effect p span s (.action .print) s' := by
  obtain ⟨⟨v, rest⟩, hv, h⟩ := bind_eq_ok.mp h
  dsimp only at h
  split at h
  · cases h
  · next hn => cases h; exact .print (pop_eq_ok_iff.mp hv) hn

theorem effect_of_branch (h : s.branch = .ok s') : Effect p span s (.action .branch) s' := by
  obtain ⟨⟨condition, rest⟩, hc, h⟩ := bind_eq_ok.mp h
  have hs := pop_eq_ok_iff.mp (atInstruction_eq_ok.mp hc)
  dsimp only at h
  split at h
  · cases h; exact .branchTrue hs
  · obtain ⟨marker, next, skipped, hskip, rfl⟩ := skipTo_eq_ok_iff.mp h
    cases marker <;> exact .branchFalse hs hskip
  · cases h

theorem effect_of_otherwise (h : s.otherwise = .ok s') :
    Effect p span s (.action .otherwise) s' := by
  unfold otherwise at h
  split at h
  · next hb =>
    obtain ⟨marker, next, skipped, hskip, rfl⟩ := skipTo_eq_ok_iff.mp h
    exact .otherwise hb hskip
  · cases h

theorem effect_of_close (h : s.close = .ok s') : Effect p span s (.action .close) s' := by
  unfold close at h
  dsimp only at h
  split at h
  · next hb => cases h; exact .close hb
  · cases h

theorem effect_of_call (h : s.call p span = .ok s') : Effect p span s (.action .call) s' := by
  obtain ⟨⟨name, rest⟩, hn, h⟩ := bind_eq_ok.mp h
  dsimp only at h
  split at h
  · cases h
  · next f hf =>
    obtain ⟨-, -, h⟩ := bind_eq_ok.mp h
    obtain ⟨⟨env, stack⟩, ha, h⟩ := bind_eq_ok.mp h
    obtain ⟨frames, hp, h⟩ := bind_eq_ok.mp h
    obtain ⟨hd, rfl⟩ := CallStack.push_eq_ok_iff.mp hp
    cases h
    exact .call (popName_eq_ok_iff.mp hn) hf hd ha

theorem effect_of_ret (h : s.ret = .ok s') : Effect p span s (.action .ret) s' := by
  unfold ret at h
  split at h
  · cases h
  · next hp =>
    obtain ⟨⟨v, rest⟩, hv, h⟩ := bind_eq_ok.mp h
    cases h
    exact .ret hp (pop_eq_ok_iff.mp hv)

theorem effect_of_exec (h : s.exec p span i = .ok s') : Effect p span s i s' := by
  unfold exec at h
  split at h
  · obtain ⟨v, hv, h⟩ := bind_eq_ok.mp (atInstruction_eq_ok.mp h)
    cases h
    exact .literal hv
  · exact effect_of_load (atInstruction_eq_ok.mp h)
  · exact effect_of_bind (atInstruction_eq_ok.mp h)
  · exact effect_of_binary (atInstruction_eq_ok.mp h)
  · exact effect_of_print (atInstruction_eq_ok.mp h)
  · exact effect_of_branch h
  · exact effect_of_otherwise h
  · exact effect_of_close (atInstruction_eq_ok.mp h)
  · exact effect_of_call (atInstruction_eq_ok.mp h)
  · exact effect_of_ret (atInstruction_eq_ok.mp h)

theorem exec_of_effect (h : Effect p span s i s') : s.exec p span i = .ok s' := by
  cases h with
  | literal hv => simp [exec, hv]
  | load hs hv => simp [exec, load, hs, hv]
  | bind hs => simp [exec, bind, hs]
  | binary hs hv => simp [exec, binary, hs, hv]
  | @print v _ hs hn =>
    cases v with
    | name name => exact absurd rfl (hn name)
    | _ => simp [exec, print, hs]
  | branchTrue hs => simp [exec, branch, hs]
  | @branchFalse _ marker _ _ hs hskip =>
    simp only [exec, branch, hs, pop_cons, atInstruction_ok, ok_bind]
    refine skipTo_eq_ok_iff.mpr ⟨_, _, _, hskip, ?_⟩
    cases marker <;> rfl
  | otherwise hb hskip =>
    simp only [exec, State.otherwise, hb]
    exact skipTo_eq_ok_iff.mpr ⟨_, _, _, hskip, rfl⟩
  | close hb => simp [exec, close, hb]
  | call hs hf hd ha =>
    have hpush (entered : Call) : s.frames.push entered = .ok (s.frames.enter entered) :=
      CallStack.push_eq_ok_iff.mpr ⟨hd, rfl⟩
    simp only [exec, call, hs, hf, checkDepth_of_lt hd, ha, hpush, popName_name, ok_bind,
      atInstruction_ok]
    rfl
  | ret hp hs => simp [exec, ret, hp, hs]

theorem exec_eq_ok_iff : s.exec p span i = .ok s' ↔ Effect p span s i s' :=
  ⟨effect_of_exec, exec_of_effect⟩

/-! ## Instructions that fail -/

inductive Refusal (p : Program) (s : State) : Instr → Trap → Prop
  | literal {kind : Literal} {operand : String} {fault : Fault} :
      kind.value operand = .error fault → Refusal p s (.literal kind operand) ⟨fault, none⟩
  | noName {act : Action} {fault : Fault} :
      act = .load ∨ act = .bind ∨ act = .call → s.stack.popName act.tag = .error fault →
      Refusal p s (.action act) ⟨fault, none⟩
  | unbound {name : String} {rest : Stack} :
      s.stack = .name name :: rest → s.frames.current.env.lookup name = none →
      Refusal p s (.action .load) ⟨.unboundName name, none⟩
  | noValue {name : String} :
      s.stack = [.name name] → Refusal p s (.action .bind) ⟨.stackUnderflow, none⟩
  | noOperands {op : BinaryOp} :
      s.stack.length < 2 → Refusal p s (.action (.binary op)) ⟨.stackUnderflow, none⟩
  | mismatch {op : BinaryOp} {l r : Value} {rest : Stack} :
      s.stack = l :: r :: rest → op.result? l r = none →
      Refusal p s (.action (.binary op))
        ⟨.typeMismatch op.symbol op.operands s!"{l.typeName} and {r.typeName}", none⟩
  | empty {act : Action} :
      act = .print ∨ act = .branch → s.stack = [] →
      Refusal p s (.action act) ⟨.stackUnderflow, none⟩
  | printName {name : String} {rest : Stack} :
      s.stack = .name name :: rest →
      Refusal p s (.action .print)
        ⟨.typeMismatch Action.print.tag "a number, text or boolean" "name", none⟩
  | noCondition {v : Value} {rest : Stack} :
      s.stack = v :: rest → (∀ b, v ≠ .boolean b) →
      Refusal p s (.action .branch)
        ⟨.typeMismatch Action.branch.tag "a boolean" v.typeName, none⟩
  | skipThen {rest : Stack} {trap : Trap} :
      s.stack = .boolean false :: rest → s.frames.current.cursor.skip true 0 0 = .error trap →
      Refusal p s (.action .branch) trap
  | strayElse :
      (∀ outer, s.frames.current.blocks ≠ .whenTrue :: outer) →
      Refusal p s (.action .otherwise)
        ⟨.structuralError "`else` without an open then-block", none⟩
  | skipElse {outer : List Block} {trap : Trap} :
      s.frames.current.blocks = .whenTrue :: outer →
      s.frames.current.cursor.skip false 0 0 = .error trap →
      Refusal p s (.action .otherwise) trap
  | strayEnd :
      s.frames.current.blocks = [] →
      Refusal p s (.action .close) ⟨.structuralError "`end` without an open block", none⟩
  | undefined {name : String} {rest : Stack} :
      s.stack = .name name :: rest → p.functions.get? name = none →
      Refusal p s (.action .call) ⟨.undefinedFunction name, none⟩
  | full {name : String} {f : FunctionDef} {rest : Stack} :
      s.stack = .name name :: rest → p.functions.get? name = some f →
      s.frames.limit ≤ s.frames.depth →
      Refusal p s (.action .call) ⟨.recursionLimitExceeded s.frames.limit, none⟩
  | noArgs {name : String} {f : FunctionDef} {rest : Stack} :
      s.stack = .name name :: rest → p.functions.get? name = some f →
      s.frames.depth < s.frames.limit → rest.length < f.params.length →
      Refusal p s (.action .call) ⟨.stackUnderflow, none⟩
  | outside : s.frames.pop? = none → Refusal p s (.action .ret) ⟨.returnOutsideCall, none⟩
  | noResult {call : Call} {frames : CallStack} :
      s.frames.pop? = some (call, frames) → s.stack = [] →
      Refusal p s (.action .ret) ⟨.stackUnderflow, none⟩

theorem bind_eq_error {α β ε : Type} {x : Except ε α} {f : α → Except ε β} {e : ε} :
    (x >>= f) = .error e ↔ x = .error e ∨ ∃ a, x = .ok a ∧ f a = .error e := by
  cases x <;> simp [Bind.bind, Except.bind]

theorem atInstruction_eq_error {α : Type} {x : Except Fault α} {trap : Trap} :
    atInstruction x = .error trap ↔ ∃ fault, x = .error fault ∧ trap = ⟨fault, none⟩ := by
  cases x <;> simp [atInstruction, eq_comm]

/-- Only a number's operand can be malformed. -/
theorem value_eq_error_iff {kind : Literal} {operand : String} {fault : Fault} :
    kind.value operand = .error fault ↔
      kind = .number ∧ Decimal.floatOfText? operand = none ∧
        fault = .malformedLiteral Literal.number.tag operand := by
  cases kind with
  | number => cases hx : Decimal.floatOfText? operand <;> simp [Literal.value, hx, @eq_comm _ fault]
  | _ => simp [Literal.value]

theorem popArgs_eq_error_iff {env : Env} {params : List String} {st : Stack} {fault : Fault} :
    st.popArgs env params = .error fault ↔ st.length < params.length ∧ fault = .stackUnderflow := by
  induction params generalizing env st with
  | nil => simp [Stack.popArgs]
  | cons param params ih =>
    cases st with
    | nil => simp [Stack.popArgs, @eq_comm _ fault]
    | cons v st => simpa [Stack.popArgs] using ih

theorem skipTo_eq_error_iff {allowElse : Bool} {opened : Marker → List Block} {trap : Trap} :
    s.skipTo allowElse opened = .error trap ↔
      s.frames.current.cursor.skip allowElse 0 0 = .error trap := by
  unfold skipTo
  rw [bind_eq_error]
  simp

theorem refusal_of_load {fault : Fault} (h : s.load = .error fault) :
    Refusal p s (.action .load) ⟨fault, none⟩ := by
  rcases bind_eq_error.mp h with h | ⟨⟨name, rest⟩, hn, h⟩
  · exact .noName (.inl rfl) h
  · dsimp only at h
    split at h
    · cases h
    · next hv => cases h; exact .unbound (popName_eq_ok_iff.mp hn) hv

theorem refusal_of_bind {fault : Fault} (h : s.bind = .error fault) :
    Refusal p s (.action .bind) ⟨fault, none⟩ := by
  rcases bind_eq_error.mp h with h | ⟨⟨name, rest⟩, hn, h⟩
  · exact .noName (.inr (.inl rfl)) h
  · rcases bind_eq_error.mp h with h | ⟨⟨v, rest'⟩, -, h⟩
    · obtain ⟨hr, rfl⟩ := pop_eq_error_iff.mp h
      exact .noValue (hr ▸ popName_eq_ok_iff.mp hn)
    · cases h

theorem refusal_of_binary {op : BinaryOp} {fault : Fault} (h : s.binary op = .error fault) :
    Refusal p s (.action (.binary op)) ⟨fault, none⟩ := by
  rcases bind_eq_error.mp h with h | ⟨⟨l, rest⟩, hl, h⟩
  · obtain ⟨hr, rfl⟩ := pop_eq_error_iff.mp h
    exact .noOperands (by simp [hr])
  · have hs := pop_eq_ok_iff.mp hl
    rcases bind_eq_error.mp h with h | ⟨⟨r, rest'⟩, hr, h⟩
    · obtain ⟨hr, rfl⟩ := pop_eq_error_iff.mp h
      rw [hr] at hs
      exact .noOperands (by simp [hs])
    · dsimp only at h
      split at h
      · cases h
      · next hv => cases h; exact .mismatch (pop_eq_ok_iff.mp hr ▸ hs) hv

theorem refusal_of_print {fault : Fault} (h : s.print = .error fault) :
    Refusal p s (.action .print) ⟨fault, none⟩ := by
  rcases bind_eq_error.mp h with h | ⟨⟨v, rest⟩, hv, h⟩
  · obtain ⟨hr, rfl⟩ := pop_eq_error_iff.mp h
    exact .empty (.inl rfl) hr
  · dsimp only at h
    split at h
    · cases h; exact .printName (pop_eq_ok_iff.mp hv)
    · cases h

theorem refusal_of_branch {trap : Trap} (h : s.branch = .error trap) :
    Refusal p s (.action .branch) trap := by
  rcases bind_eq_error.mp h with h | ⟨⟨v, rest⟩, hv, h⟩
  · obtain ⟨fault, hf, rfl⟩ := atInstruction_eq_error.mp h
    obtain ⟨hr, rfl⟩ := pop_eq_error_iff.mp hf
    exact .empty (.inr rfl) hr
  · have hs := pop_eq_ok_iff.mp (atInstruction_eq_ok.mp hv)
    dsimp only at h
    split at h
    · cases h
    · exact .skipThen hs ((skipTo_eq_error_iff (s := { s with stack := rest })).mp h)
    · next htrue hfalse =>
      cases h
      refine .noCondition hs ?_
      rintro (_ | _) rfl
      · exact hfalse rfl
      · exact htrue rfl

theorem refusal_of_otherwise {trap : Trap} (h : s.otherwise = .error trap) :
    Refusal p s (.action .otherwise) trap := by
  unfold otherwise at h
  split at h
  · next hb => exact .skipElse hb (skipTo_eq_error_iff.mp h)
  · next hb => cases h; exact .strayElse hb

theorem refusal_of_close {fault : Fault} (h : s.close = .error fault) :
    Refusal p s (.action .close) ⟨fault, none⟩ := by
  unfold close at h
  dsimp only at h
  split at h
  · cases h
  · next hb => cases h; exact .strayEnd hb

theorem refusal_of_call {fault : Fault} (h : s.call p span = .error fault) :
    Refusal p s (.action .call) ⟨fault, none⟩ := by
  rcases bind_eq_error.mp h with h | ⟨⟨name, rest⟩, hn, h⟩
  · exact .noName (.inr (.inr rfl)) h
  have hs := popName_eq_ok_iff.mp hn
  dsimp only at h
  split at h
  · next hf => cases h; exact .undefined hs hf
  next f hf =>
  by_cases hd : s.frames.depth < s.frames.limit
  · rw [checkDepth_of_lt hd] at h
    rcases bind_eq_error.mp h with h | ⟨-, -, h⟩
    · cases h
    rcases bind_eq_error.mp h with h | ⟨⟨env, stack⟩, -, h⟩
    · obtain ⟨hlt, rfl⟩ := popArgs_eq_error_iff.mp h
      exact .noArgs hs hf hd hlt
    · dsimp only at h
      rw [CallStack.push, checkDepth_of_lt hd] at h
      cases h
  · rw [checkDepth_of_le (Nat.le_of_not_lt hd)] at h
    cases h
    exact .full hs hf (Nat.le_of_not_lt hd)

theorem refusal_of_ret {fault : Fault} (h : s.ret = .error fault) :
    Refusal p s (.action .ret) ⟨fault, none⟩ := by
  unfold ret at h
  split at h
  · next hp => cases h; exact .outside hp
  · next hp =>
    rcases bind_eq_error.mp h with h | ⟨⟨v, rest⟩, -, h⟩
    · obtain ⟨hr, rfl⟩ := pop_eq_error_iff.mp h
      exact .noResult hp hr
    · cases h

theorem refusal_of_exec {trap : Trap} (h : s.exec p span i = .error trap) : Refusal p s i trap := by
  have fault_of {x : Except Fault State} (hx : atInstruction x = .error trap) :
      ∃ fault, x = .error fault ∧ trap = ⟨fault, none⟩ := atInstruction_eq_error.mp hx
  unfold exec at h
  split at h
  · obtain ⟨fault, hf, rfl⟩ := fault_of h
    rcases bind_eq_error.mp hf with hf | ⟨v, -, hf⟩
    · exact .literal hf
    · cases hf
  · obtain ⟨fault, hf, rfl⟩ := fault_of h; exact refusal_of_load hf
  · obtain ⟨fault, hf, rfl⟩ := fault_of h; exact refusal_of_bind hf
  · obtain ⟨fault, hf, rfl⟩ := fault_of h; exact refusal_of_binary hf
  · obtain ⟨fault, hf, rfl⟩ := fault_of h; exact refusal_of_print hf
  · exact refusal_of_branch h
  · exact refusal_of_otherwise h
  · obtain ⟨fault, hf, rfl⟩ := fault_of h; exact refusal_of_close hf
  · obtain ⟨fault, hf, rfl⟩ := fault_of h; exact refusal_of_call hf
  · obtain ⟨fault, hf, rfl⟩ := fault_of h; exact refusal_of_ret hf

theorem exec_of_refusal {trap : Trap} (h : Refusal p s i trap) :
    s.exec p span i = .error trap := by
  cases h with
  | literal hv => simp [exec, hv]
  | noName hact hn => rcases hact with rfl | rfl | rfl <;> simp [exec, load, State.bind, call, hn]
  | unbound hs hv => simp [exec, load, hs, hv]
  | noValue hs => simp [exec, State.bind, hs]
  | noOperands hs =>
    rcases hst : s.stack with _ | ⟨l, _ | ⟨r, rest⟩⟩
    · simp [exec, binary, hst]
    · simp [exec, binary, hst]
    · simp only [hst, List.length_cons] at hs
      omega
  | mismatch hs hv => simp [exec, binary, hs, hv]
  | empty hact hs => rcases hact with rfl | rfl <;> simp [exec, print, branch, hs]
  | printName hs => simp [exec, print, hs, Value.typeName]
  | @noCondition v _ hs hv =>
    cases v with
    | boolean b => exact absurd rfl (hv b)
    | _ => simp [exec, branch, hs]
  | skipThen hs hskip =>
    simp only [exec, branch, hs, pop_cons, atInstruction_ok, ok_bind]
    exact skipTo_eq_error_iff.mpr hskip
  | strayElse hb => simp only [exec, State.otherwise]
  | skipElse hb hskip =>
    simp only [exec, State.otherwise, hb]
    exact skipTo_eq_error_iff.mpr hskip
  | strayEnd hb => simp [exec, close, hb]
  | undefined hs hf => simp [exec, call, hs, hf]
  | full hs hf hd => simp [exec, call, hs, hf, checkDepth_of_le hd]
  | @noArgs _ f rest hs hf hd hlt =>
    have ha : rest.popArgs s.frames.current.env f.params = .error .stackUnderflow :=
      popArgs_eq_error_iff.mpr ⟨hlt, rfl⟩
    simp [exec, call, hs, hf, checkDepth_of_lt hd, ha]
  | outside hp => simp [exec, ret, hp]
  | noResult hp hs => simp [exec, ret, hp, hs]

theorem exec_eq_error_iff {trap : Trap} : s.exec p span i = .error trap ↔ Refusal p s i trap :=
  ⟨refusal_of_exec, exec_of_refusal⟩

/-! ## Whole steps -/

@[simp] theorem stack_dispatch (s : State) (next : Cursor) :
    (s.dispatch next).stack = s.stack := rfl

@[simp] theorem frames_dispatch (s : State) (next : Cursor) :
    (s.dispatch next).frames = s.frames.setCurrent { s.frames.current with cursor := next } := rfl

inductive Next (p : Program) (s : State) : State → Prop
  | leave {call : Call} {frames : CallStack} :
      s.frames.current.cursor.fetch = .exhausted → s.frames.current.blocks = [] →
      s.frames.pop? = some (call, frames) → Next p s { s with frames }
  | execute {i : Instr} {tag : Token} {next : Cursor} {s' : State} :
      s.frames.current.cursor.fetch = .ready i tag next →
      Effect p tag.span (s.dispatch next) i s' → Next p s s'

inductive Fails (p : Program) (s : State) : RunError → Prop
  | unbalanced :
      s.frames.current.cursor.fetch = .exhausted → s.frames.current.blocks ≠ [] →
      Fails p s (s.error
        (.depthInvariantViolated s.frames.current.blocks.length s.frames.depth)
        ⟨s.frames.current.cursor.position, none⟩)
  | unknown {tag : Token} :
      s.frames.current.cursor.fetch = .unknown tag →
      Fails p s (s.error (.unknownOpcode tag.text) ⟨s.frames.current.cursor.position, some tag⟩)
  | truncated {kind : Literal} {tag : Token} :
      s.frames.current.cursor.fetch = .truncated kind tag →
      Fails p s (s.error .streamUnderflow ⟨s.frames.current.cursor.position, some tag⟩)
  | refused {i : Instr} {tag : Token} {next : Cursor} {trap : Trap} :
      s.frames.current.cursor.fetch = .ready i tag next →
      Refusal p (s.dispatch next) i trap →
      Fails p s (s.error trap.fault
        (trap.site.getD ⟨s.frames.current.cursor.position, some tag⟩))

theorem step_eq_next_iff : s.step p = .next s' ↔ Next p s s' := by
  constructor
  · intro h
    unfold step at h
    dsimp only at h
    split at h
    · next hx =>
      unfold finish at h
      dsimp only at h
      split at h
      · next hb =>
        split at h
        · cases h
        · next hp => cases h; exact .leave hx (List.isEmpty_iff.mp hb) hp
      · cases h
    · cases h
    · cases h
    · next hx =>
      split at h
      · next he => cases h; exact .execute hx (exec_eq_ok_iff.mp he)
      · cases h
  · rintro (⟨hx, hb, hp⟩ | ⟨hx, he⟩)
    · simp [step, hx, finish, hb, hp]
    · simp [step, hx, exec_eq_ok_iff.mpr he]

theorem step_eq_failed_iff {e : RunError} : s.step p = .failed e ↔ Fails p s e := by
  constructor
  · intro h
    unfold step at h
    dsimp only at h
    split at h
    · next hx =>
      unfold finish at h
      dsimp only at h
      split at h
      · split at h <;> cases h
      · next hb => cases h; exact .unbalanced hx (by simpa using hb)
    · next hx => cases h; exact .unknown hx
    · next hx => cases h; exact .truncated hx
    · next hx =>
      split at h
      · cases h
      · next he => cases h; exact .refused hx (exec_eq_error_iff.mp he)
  · rintro (⟨hx, hb⟩ | hx | hx | ⟨hx, he⟩)
    · simp [step, hx, finish, hb]
    · simp [step, hx]
    · simp [step, hx]
    · simp [step, hx, exec_eq_error_iff.mpr he]

/-- A run halts at the end of the main stream with no branch open. -/
theorem step_eq_halted_iff : s.step p = .halted ↔
    s.frames.current.cursor.fetch = .exhausted ∧ s.frames.current.blocks = [] ∧
      s.frames.pop? = none := by
  constructor
  · intro h
    unfold step at h
    dsimp only at h
    split at h
    · next hx =>
      unfold finish at h
      dsimp only at h
      split at h
      · next hb =>
        split at h
        · next hp => exact ⟨hx, List.isEmpty_iff.mp hb, hp⟩
        · cases h
      · cases h
    · cases h
    · cases h
    · split at h <;> cases h
  · rintro ⟨hx, hb, hp⟩
    simp [step, hx, finish, hb, hp]

end TokenMachine.State
