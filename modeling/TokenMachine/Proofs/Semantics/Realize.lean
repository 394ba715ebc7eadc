/-
  TokenMachine.Proofs.Semantics.Realize — when the machine does what an evaluation does.

  `Realizes` compares a machine state with the result of an evaluation: if that is a
  value, the machine comes by steps to a state that the value and the memory describe;
  if it is a failure, to a step that fails for the same cause, in the same calls and with
  the same lines printed. It is composed like evaluations are (`Realizes.bind`,
  `Realizes.within`). `At` describes a state in the middle of a stream, and the lemmas
  after it say what each instruction makes of such a state.
-/

import TokenMachine.Proofs.Machine.Reach
import TokenMachine.Proofs.Semantics.Interpreter
import TokenMachine.Proofs.Stream.Grammar
import TokenMachine.Script.Lower

namespace TokenMachine.Semantics

open State (Steps Effect Refusal)

variable {α β : Type} {p : Program} {calls : Backtrace} {s t : State} {m m' : Memory}

/-! ## The contract -/

/-- From `s`, where `calls` are open, the machine does what the result says. -/
def Realizes (p : Program) (calls : Backtrace) (s : State) (post : α → Memory → State → Prop) :
    EStateM.Result Failure Memory α → Prop
  | .ok a m => ∃ t, Steps p s t ∧ post a m t
  | .error e m => ∃ t err, Steps p s t ∧ t.step p = .failed err ∧ err.fault = e.fault ∧
      err.backtrace = e.calls ++ calls ∧ t.printed = m.printed

variable {post : α → Memory → State → Prop} {post' : β → Memory → State → Prop}

theorem Realizes.pure {a : α} (h : post a m s) : Realizes p calls s post ((pure a : Eval α) m) :=
  ⟨s, .refl s, h⟩

theorem Realizes.of_steps {r : EStateM.Result Failure Memory α} (hs : Steps p s t)
    (h : Realizes p calls t post r) : Realizes p calls s post r := by
  cases r with
  | ok a m =>
    obtain ⟨u, hu, hpost⟩ := h
    exact ⟨u, hs.trans hu, hpost⟩
  | error e m =>
    obtain ⟨u, err, hu, hfail⟩ := h
    exact ⟨u, err, hs.trans hu, hfail⟩

/-- Where one evaluation leaves the machine, the next takes over. -/
theorem Realizes.bind {x : Eval α} {f : α → Eval β} (hx : Realizes p calls s post (x m))
    (hf : ∀ a m' t, post a m' t → Realizes p calls t post' (f a m')) :
    Realizes p calls s post' ((x >>= f) m) := by
  show Realizes p calls s post' (EStateM.bind x f m)
  unfold EStateM.bind
  cases hr : x m with
  | ok a m' =>
    rw [hr] at hx
    obtain ⟨t, ht, hpost⟩ := hx
    exact .of_steps ht (hf a m' t hpost)
  | error e m' =>
    rw [hr] at hx
    exact hx

/-- The machine may take more steps after the evaluation is done. -/
theorem Realizes.andThen {post' : α → Memory → State → Prop}
    {r : EStateM.Result Failure Memory α} (h : Realizes p calls s post r)
    (hpost : ∀ a m t, post a m t → ∃ u, Steps p t u ∧ post' a m u) :
    Realizes p calls s post' r := by
  cases r with
  | ok a m =>
    obtain ⟨t, ht, ha⟩ := h
    obtain ⟨u, hu, ha'⟩ := hpost a m t ha
    exact ⟨u, ht.trans hu, ha'⟩
  | error e m => exact h

theorem Realizes.within {site : CallSite} {x : Eval α}
    (h : Realizes p (site :: calls) s post (x m)) :
    Realizes p calls s post (x.within site m) := by
  unfold Eval.within
  cases hr : x m with
  | ok a m' =>
    rw [hr] at h
    exact h
  | error e m' =>
    rw [hr] at h
    obtain ⟨t, err, ht, hs, hf, hb, hp⟩ := h
    exact ⟨t, err, ht, hs, hf, by simpa using hb, hp⟩

def FailsWith (p : Program) (calls : Backtrace) (s : State) (fault : Fault) : Prop :=
  ∃ err, s.step p = .failed err ∧ err.fault = fault ∧ err.backtrace = calls

theorem FailsWith.realizes {fault : Fault} (h : FailsWith p calls s fault)
    (hp : s.printed = m.printed) : Realizes p calls s post ((Eval.fail fault : Eval α) m) := by
  obtain ⟨err, hs, hf, hb⟩ := h
  exact ⟨s, err, .refl s, hs, hf, by simpa using hb, hp⟩

/-! ## In the middle of a stream -/

/-- The current frame is one of `K` with `rest` to run, these bindings and open blocks; the stack
and the lines printed are those of the memory. -/
structure At (K : CallStack) (rest : List Token) (env : Env) (blocks : List Block) (m : Memory)
    (s : State) : Prop where
  frames : ∃ pos, s.frames = K.setCurrent ⟨⟨pos, rest⟩, env, blocks⟩
  stack : s.stack = m.stack
  printed : s.printed = m.printed

variable {K : CallStack} {rest : List Token} {env : Env} {blocks : List Block} {span : Span}

/-- What an instruction at the head of the stream can do: `d` is the state after decoding it. -/
structure Executes (p : Program) (K : CallStack) (s d : State) (span : Span) (i : Instr) :
    Prop where
  steps : ∀ s', Effect p span d i s' → Steps p s s'
  fails : ∀ fault, Refusal p d i ⟨fault, none⟩ → FailsWith p K.backtrace s fault

theorem At.executes (ts : List Token) {i : Instr} {tag : Token} {k : Nat}
    (h : At K (ts ++ rest) env blocks m s)
    (hf : ∀ pos, Cursor.fetch ⟨pos, ts ++ rest⟩ = .ready i tag ⟨pos + k, rest⟩) :
    ∃ d, At K rest env blocks m d ∧ Executes p K s d tag.span i := by
  obtain ⟨pos, hframes⟩ := h.frames
  have hx : s.frames.current.cursor.fetch = .ready i tag ⟨pos + k, rest⟩ := by
    rw [hframes, CallStack.current_setCurrent]
    exact hf pos
  refine ⟨s.dispatch ⟨pos + k, rest⟩, ⟨⟨pos + k, ?_⟩, h.stack, h.printed⟩, ⟨?_, ?_⟩⟩
  · rw [State.frames_dispatch, hframes, CallStack.current_setCurrent,
      CallStack.setCurrent_setCurrent]
  · intro s' he
    exact .single (State.step_eq_next_iff.mpr (.execute hx he))
  · intro fault hr
    refine ⟨_, State.step_eq_failed_iff.mpr (.refused hx hr), rfl, ?_⟩
    show s.frames.backtrace = K.backtrace
    rw [hframes, CallStack.backtrace_setCurrent]

theorem At.action {act : Action} (h : At K (act.token span :: rest) env blocks m s) :
    ∃ d, At K rest env blocks m d ∧ Executes p K s d span (.action act) :=
  At.executes [act.token span] h fun _ => Cursor.fetch_action rfl

theorem At.literal {kind : Literal} {operand : String}
    (h : At K (kind.tokens operand span ++ rest) env blocks m s) :
    ∃ d, At K rest env blocks m d ∧ Executes p K s d span (.literal kind operand) :=
  At.executes (kind.tokens operand span) h fun _ => Cursor.fetch_literal rfl

/-- A name, and the action that takes it off the stack: `d` is the state before that acts. -/
theorem At.named {act : Action} {name : String} {at_ : Span}
    (h : At K (Literal.name.tokens name at_ ++ act.token span :: rest) env blocks m s) :
    ∃ t d, Steps p s t ∧ t.printed = m.printed ∧
      At K rest env blocks { m with stack := .name name :: m.stack } d ∧
      Executes p K t d span (.action act) := by
  obtain ⟨d, hd, hx⟩ := h.literal (p := p)
  have hname : At K (act.token span :: rest) env blocks
      { m with stack := .name name :: m.stack } { d with stack := .name name :: d.stack } :=
    ⟨hd.frames, congrArg (Value.name name :: ·) hd.stack, hd.printed⟩
  obtain ⟨d', hd', hx'⟩ := hname.action (p := p)
  exact ⟨_, d', hx.steps _ (.literal rfl), hd.printed, hd', hx'⟩

theorem At.current (h : At K rest env blocks m s) :
    s.frames.current.env = env ∧ s.frames.current.blocks = blocks ∧
      s.frames.current.cursor.rest = rest := by
  obtain ⟨pos, hframes⟩ := h.frames
  rw [hframes, CallStack.current_setCurrent]
  exact ⟨rfl, rfl, rfl⟩

/-! ## One evaluation against one instruction -/

theorem realizes_pop {f : Value → Eval α}
    (hempty : m.stack = [] → FailsWith p calls s .stackUnderflow)
    (hcons : ∀ v rest, m.stack = v :: rest →
      Realizes p calls s post (f v { m with stack := rest }))
    (hp : s.printed = m.printed) : Realizes p calls s post ((Eval.pop >>= f) m) := by
  show Realizes p calls s post (EStateM.bind Eval.pop f m)
  unfold EStateM.bind Eval.pop
  cases hm : m.stack with
  | nil => exact (hempty hm).realizes hp
  | cons v rest => exact hcons v rest hm

theorem realizes_check {x : Except Fault β} {f : β → Eval α}
    (herr : ∀ fault, x = .error fault → FailsWith p calls s fault)
    (hok : ∀ b, x = .ok b → Realizes p calls s post (f b m))
    (hp : s.printed = m.printed) : Realizes p calls s post ((Eval.check x >>= f) m) := by
  cases hx : x with
  | ok b => exact hok b hx
  | error fault => exact (herr fault hx).realizes hp

theorem At.realizes_push {v : Value} (h : At K rest env blocks m s)
    (ht : Steps p t { s with stack := v :: s.stack }) :
    Realizes p calls t (fun _ => At K rest env blocks) (Eval.push v m) :=
  ⟨_, ht, h.frames, congrArg (v :: ·) h.stack, h.printed⟩

theorem At.realizes_literal {kind : Literal} {operand : String}
    (h : At K (kind.tokens operand span ++ rest) env blocks m s) :
    Realizes p K.backtrace s (fun _ => At K rest env blocks)
      ((do Eval.push (← Eval.check (kind.value operand))) m) := by
  obtain ⟨d, hd, hx⟩ := h.literal (p := p)
  refine realizes_check ?_ ?_ h.printed
  · intro fault hv
    exact hx.fails fault (.literal hv)
  · intro v hv
    exact hd.realizes_push (hx.steps _ (.literal hv))

/-- The machine takes the left operand off the stack, then the right one. -/
theorem At.realizes_binary {op : BinaryOp}
    (h : At K ((Action.binary op).token span :: rest) env blocks m s) :
    Realizes p K.backtrace s (fun _ => At K rest env blocks)
      ((do let l ← Eval.pop; let r ← Eval.pop; Eval.operate op l r) m) := by
  obtain ⟨d, hd, hx⟩ := h.action (p := p)
  have short (hlt : m.stack.length < 2) : FailsWith p K.backtrace s .stackUnderflow :=
    hx.fails _ (.noOperands (hd.stack ▸ hlt))
  refine realizes_pop ?_ ?_ h.printed
  · intro hm
    exact short (by simp [hm])
  intro l below hl
  refine realizes_pop ?_ ?_ h.printed
  · intro hbelow
    replace hbelow : below = [] := hbelow
    exact short (by simp [hl, hbelow])
  intro r rest' hr
  have hs : d.stack = l :: r :: rest' := by
    rw [hd.stack, hl]
    exact congrArg (l :: ·) hr
  unfold Eval.operate
  cases hv : op.result? l r with
  | some v => exact ⟨_, hx.steps _ (.binary hs hv), hd.frames, rfl, hd.printed⟩
  | none => exact FailsWith.realizes (hx.fails _ (.mismatch hs hv)) h.printed

/-! ## Statements -/

/-- Where a statement leaves the machine: at the code after it, or in the caller with the value. -/
def After (K : CallStack) (rest : List Token) (blocks : List Block) : Flow → Memory → State → Prop
  | .next env, m, s => At K rest env blocks m s
  | .returned v, m, s => (∃ call, K.pop? = some (call, s.frames)) ∧ s.stack = v :: m.stack ∧
      s.printed = m.printed

theorem At.realizes_bind {name : String} {at_ : Span}
    (h : At K (Literal.name.tokens name at_ ++ Action.bind.token span :: rest) env blocks m s) :
    Realizes p K.backtrace s (After K rest blocks)
      ((do return Flow.next (env.bind name (← Eval.pop))) m) := by
  obtain ⟨t, d, ht, hprinted, hd, hx⟩ := h.named (p := p)
  refine .of_steps ht (realizes_pop ?_ ?_ hprinted)
  · intro hm
    have hs : d.stack = [.name name] := by rw [hd.stack, hm]
    exact hx.fails _ (.noValue hs)
  · intro v below hv
    have hs : d.stack = .name name :: v :: below := by rw [hd.stack, hv]
    obtain ⟨pos, hframes⟩ := hd.frames
    refine .of_steps (hx.steps _ (.bind hs)) (.pure ⟨⟨pos, ?_⟩, rfl, hd.printed⟩)
    simp only [hframes, CallStack.current_setCurrent, CallStack.setCurrent_setCurrent]

theorem At.realizes_print (h : At K (Action.print.token span :: rest) env blocks m s) :
    Realizes p K.backtrace s (After K rest blocks)
      ((do Eval.print (← Eval.pop); return Flow.next env) m) := by
  obtain ⟨d, hd, hx⟩ := h.action (p := p)
  refine realizes_pop ?_ ?_ h.printed
  · intro hm
    exact hx.fails _ (.empty (.inl rfl) (hd.stack.trans hm))
  intro v below hv
  have hs : d.stack = v :: below := hd.stack.trans hv
  have printed (hn : ∀ name, v ≠ .name name) :
      ∃ t, Steps p s t ∧ At K rest env blocks ⟨below, v.render :: m.printed⟩ t :=
    ⟨_, hx.steps _ (.print hs hn), hd.frames, rfl, congrArg (v.render :: ·) hd.printed⟩
  cases v with
  | name n => exact FailsWith.realizes (hx.fails _ (.printName hs)) h.printed
  | _ => exact printed nofun

/-- A return leaves the call, wherever in its body it stands. -/
theorem At.realizes_ret (hK : K.inCall = true) {ts : List Token} {open_ : List Block}
    (h : At K (Action.ret.token span :: rest) env blocks m s) :
    Realizes p K.backtrace s (After K ts open_) ((do return Flow.returned (← Eval.pop)) m) := by
  obtain ⟨⟨call, below⟩, hpop⟩ := CallStack.exists_pop?_of_inCall hK
  obtain ⟨d, hd, hx⟩ := h.action (p := p)
  obtain ⟨pos, hframes⟩ := hd.frames
  have hpop' : d.frames.pop? = some (_, below) := hframes ▸ CallStack.pop?_setCurrent hpop _
  refine realizes_pop ?_ ?_ h.printed
  · intro hm
    exact hx.fails _ (.noResult hpop' (hd.stack.trans hm))
  · intro v stack hv
    refine .of_steps (hx.steps _ (.ret hpop' (hd.stack.trans hv))) (.pure ?_)
    exact ⟨⟨call, hpop⟩, rfl, hd.printed⟩

/-! ## Branches -/

/-- A condition chooses between what follows it and where the skip over that ends. -/
theorem At.realizes_branch {x y : Eval α} {marker : Marker} {rest' : List Token}
    (h : At K (Action.branch.token span :: rest) env blocks m s)
    (hskip : ∀ pos, ∃ pos' skipped,
      Cursor.skip true 0 0 ⟨pos, rest⟩ = .ok (marker, ⟨pos', rest'⟩, skipped))
    (htrue : ∀ m t, At K rest env (.whenTrue :: blocks) m t →
      Realizes p K.backtrace t post (x m))
    (hfalse : ∀ m t, At K rest' env (State.blocksAfterSkip blocks marker) m t →
      Realizes p K.backtrace t post (y m)) :
    Realizes p K.backtrace s post ((do if ← Eval.decision (← Eval.pop) then x else y) m) := by
  obtain ⟨d, hd, hx⟩ := h.action (p := p)
  refine realizes_pop ?_ ?_ h.printed
  · intro hm
    exact hx.fails _ (.empty (.inr rfl) (hd.stack.trans hm))
  intro v below hv
  have hs : d.stack = v :: below := hd.stack.trans hv
  obtain ⟨pos, hframes⟩ := hd.frames
  have other (hb : ∀ b, v ≠ .boolean b) : FailsWith p K.backtrace s
      (.typeMismatch Action.branch.tag "a boolean" v.typeName) := hx.fails _ (.noCondition hs hb)
  cases v with
  | boolean b =>
    cases b with
    | true =>
      refine .of_steps (hx.steps _ (.branchTrue hs))
        (htrue ⟨below, m.printed⟩ _ ⟨⟨pos, ?_⟩, rfl, hd.printed⟩)
      simp only [hframes, CallStack.current_setCurrent, CallStack.setCurrent_setCurrent]
    | false =>
      obtain ⟨pos', skipped, hsk⟩ := hskip pos
      have hcursor : d.frames.current.cursor.skip true 0 0 =
          .ok (marker, ⟨pos', rest'⟩, skipped) := by
        rw [hframes, CallStack.current_setCurrent]
        exact hsk
      refine .of_steps (hx.steps _ (.branchFalse hs hcursor))
        (hfalse ⟨below, m.printed⟩ _ ⟨⟨pos', ?_⟩, rfl, hd.printed⟩)
      simp only [State.passed, hframes, CallStack.current_setCurrent,
        CallStack.setCurrent_setCurrent]
  | _ => exact FailsWith.realizes (other nofun) h.printed

theorem At.close {block : Block}
    (h : At K (Action.close.token span :: rest) env (block :: blocks) m s) :
    ∃ t, Steps p s t ∧ At K rest env blocks m t := by
  obtain ⟨d, hd, hx⟩ := h.action (p := p)
  obtain ⟨-, hblocks, -⟩ := hd.current
  obtain ⟨pos, hframes⟩ := hd.frames
  refine ⟨_, hx.steps _ (.close hblocks), ⟨pos, ?_⟩, hd.stack, hd.printed⟩
  simp only [hframes, CallStack.current_setCurrent, CallStack.setCurrent_setCurrent]

/-- The end of a branch for true passes over the branch for false. -/
theorem At.otherwise {rest' : List Token}
    (h : At K (Action.otherwise.token span :: rest) env (.whenTrue :: blocks) m s)
    (hskip : ∀ pos, ∃ pos' skipped,
      Cursor.skip false 0 0 ⟨pos, rest⟩ = .ok (.close, ⟨pos', rest'⟩, skipped)) :
    ∃ t, Steps p s t ∧ At K rest' env blocks m t := by
  obtain ⟨d, hd, hx⟩ := h.action (p := p)
  obtain ⟨-, hblocks, -⟩ := hd.current
  obtain ⟨pos, hframes⟩ := hd.frames
  obtain ⟨pos', skipped, hsk⟩ := hskip pos
  have hcursor : d.frames.current.cursor.skip false 0 0 =
      .ok (.close, ⟨pos', rest'⟩, skipped) := by
    rw [hframes, CallStack.current_setCurrent]
    exact hsk
  refine ⟨_, hx.steps _ (.otherwise hblocks hcursor), ⟨pos', ?_⟩, hd.stack, hd.printed⟩
  simp only [State.passed, hframes, CallStack.current_setCurrent, CallStack.setCurrent_setCurrent]

end TokenMachine.Semantics
