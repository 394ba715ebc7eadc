/-
  TokenMachine.Proofs.Semantics.Compilation — the machine does what the forms mean.

  An expression's tokens make the machine do what `eval` does, a statement's what `exec`
  does, by induction on the grammar; a call does what `call` does, by induction on how
  many more calls may be open. So a run of the program that forms spell shows what
  interpreting the forms shows (`run_behaviour`): the same lines, and the same values or
  the same failure in the same calls.
-/

import TokenMachine.Pipeline
import TokenMachine.Proofs.Script.Forms
import TokenMachine.Proofs.Script.Lowering
import TokenMachine.Proofs.Semantics.Realize

namespace TokenMachine.Semantics

open State (Steps Effect Refusal)

variable {α : Type} {p : Program} {calls : Backtrace} {s : State} {m : Memory} {K : CallStack}
  {rest : List Token} {env : Env} {blocks : List Block} {limit room : Nat}
  {call : Env → CallSite → Eval Unit}

/-- The tokens of a call do what `call` does, wherever `room` more calls may be open. -/
def CallsRealized (p : Program) (limit room : Nat) (call : Env → CallSite → Eval Unit) : Prop :=
  ∀ ⦃K : CallStack⦄ ⦃rest : List Token⦄ ⦃env : Env⦄ ⦃blocks : List Block⦄ ⦃m : Memory⦄
    ⦃s : State⦄ ⦃name : String⦄ ⦃at_ span : Span⦄,
    K.limit = limit → K.depth + room = limit →
    At K (Literal.name.tokens name at_ ++ Action.call.token span :: rest) env blocks m s →
    Realizes p K.backtrace s (fun _ => At K rest env blocks) (call env ⟨name, span⟩ m)

def CallRealized (p : Program) (call : Env → CallSite → Eval Unit) (K : CallStack) : Prop :=
  ∀ ⦃rest : List Token⦄ ⦃env : Env⦄ ⦃blocks : List Block⦄ ⦃m : Memory⦄ ⦃s : State⦄
    ⦃name : String⦄ ⦃at_ span : Span⦄,
    At K (Literal.name.tokens name at_ ++ Action.call.token span :: rest) env blocks m s →
    Realizes p K.backtrace s (fun _ => At K rest env blocks) (call env ⟨name, span⟩ m)

/-- In the frames of `K`, the tokens of the expression do what running the form does. -/
def ExprRealized (p : Program) (call : Env → CallSite → Eval Unit) (K : CallStack) (form : Form)
    (e : Expr) : Prop :=
  ∀ ⦃rest : List Token⦄ ⦃env : Env⦄ ⦃blocks : List Block⦄ ⦃m : Memory⦄ ⦃s : State⦄,
    At K (e.tokens ++ rest) env blocks m s →
    Realizes p K.backtrace s (fun _ => At K rest env blocks) (eval call env form m)

def StmtRealized (p : Program) (call : Env → CallSite → Eval Unit) (K : CallStack) (form : Form)
    (stmt : Stmt) : Prop :=
  ∀ ⦃rest : List Token⦄ ⦃env : Env⦄ ⦃blocks : List Block⦄ ⦃m : Memory⦄ ⦃s : State⦄,
    At K (stmt.tokens ++ rest) env blocks m s →
    Realizes p K.backtrace s (After K rest blocks) (exec call env form m)

/-! ## Expressions -/

theorem realizes_load {name : String} {at_ span : Span}
    (h : At K (Literal.name.tokens name at_ ++ Action.load.token span :: rest) env blocks m s) :
    Realizes p K.backtrace s (fun _ => At K rest env blocks)
      ((match env.lookup name with
        | some v => Eval.push v
        | none => Eval.fail (.unboundName name)) m) := by
  obtain ⟨t, d, ht, hprinted, hd, hx⟩ := h.named (p := p)
  obtain ⟨henv, -, -⟩ := hd.current
  refine .of_steps ht ?_
  cases hv : env.lookup name with
  | some v => exact ⟨_, hx.steps _ (.load hd.stack (by rw [henv, hv])), hd.frames, rfl, hd.printed⟩
  | none => exact (hx.fails _ (.unbound hd.stack (by rw [henv, hv]))).realizes hprinted

/-- `(- a)` and `(/ a)`: the number is pushed after the operand, and popped as the left one. -/
theorem realizes_unary {op : BinaryOp} {raw : String} {span : Span}
    (h : At K (Literal.number.tokens raw span ++ (Action.binary op).token span :: rest)
      env blocks m s) :
    Realizes p K.backtrace s (fun _ => At K rest env blocks)
      ((do Eval.operate op (← Eval.check (Literal.number.value raw)) (← Eval.pop)) m) := by
  obtain ⟨d, hd, hx⟩ := h.literal (p := p)
  refine realizes_check ?_ ?_ h.printed
  · intro fault hv
    exact hx.fails fault (.literal hv)
  · intro v hv
    have hnumber : At K ((Action.binary op).token span :: rest) env blocks
        { m with stack := v :: m.stack } { d with stack := v :: d.stack } :=
      ⟨hd.frames, congrArg (v :: ·) hd.stack, hd.printed⟩
    exact .of_steps (hx.steps _ (.literal hv)) hnumber.realizes_binary

theorem realizes_evalArgs {args : List Form} {es : List Expr}
    (hargs : List.Forall₂ (ExprRealized p call K) args es)
    (h : At K (Expr.argTokens es ++ rest) env blocks m s) :
    Realizes p K.backtrace s (fun _ => At K rest env blocks) (evalArgs call env args m) := by
  induction hargs generalizing rest m s with
  | nil => exact .pure h
  | cons harg _ ih =>
    rw [Expr.argTokens, List.append_assoc] at h
    refine .bind (ih h) ?_
    intro _ m' t ht
    exact harg ht

/-- The tokens of an expression do what the expression does, if there are no calls in it or those
do what `call` does. -/
theorem exprRealized_of_calls {form : Form} {e : Expr} (hf : form.SpellsExpr e)
    (hcall : form.callFree = true ∨ CallRealized p call K) : ExprRealized p call K form e := by
  induction hf with
  | number =>
    intro rest env blocks m s h
    exact h.realizes_literal
  | @boolean b k span hk =>
    intro rest env blocks m s h
    subst hk
    rw [eval_boolean]
    have hv : Literal.boolean.value (if b then "true" else "false") = .ok (.boolean b) := by
      cases b <;> rfl
    have hpush := h.realizes_literal (p := p)
    rw [hv] at hpush
    exact hpush
  | quote =>
    intro rest env blocks m s h
    rw [eval_quote]
    exact h.realizes_literal
  | var hres =>
    intro rest env blocks m s h
    rw [Expr.tokens, List.append_assoc] at h
    rw [eval_var hres]
    exact realizes_load h
  | binary _ _ ihl ihr =>
    intro rest env blocks m s h
    rw [Expr.tokens, List.append_assoc, List.append_assoc] at h
    rw [eval_binary]
    refine .bind (ihr (hcall.imp_left (Form.callFree_of_mem (by simp))) h) ?_
    intro _ m' t ht
    refine .bind (ihl (hcall.imp_left (Form.callFree_of_mem (by simp))) ht) ?_
    intro _ m'' u hu
    exact hu.realizes_binary
  | negate _ ih =>
    intro rest env blocks m s h
    rw [Expr.tokens, Expr.tokens, List.append_assoc, List.append_assoc] at h
    rw [eval_negate]
    refine .bind (ih (hcall.imp_left (Form.callFree_of_mem (by simp))) h) ?_
    intro _ m' t ht
    exact realizes_unary ht
  | invert _ ih =>
    intro rest env blocks m s h
    rw [Expr.tokens, Expr.tokens, List.append_assoc, List.append_assoc] at h
    rw [eval_invert]
    refine .bind (ih (hcall.imp_left (Form.callFree_of_mem (by simp))) h) ?_
    intro _ m' t ht
    exact realizes_unary ht
  | same hop _ ih =>
    intro rest env blocks m s h
    rw [eval_same hop]
    exact ih (hcall.imp_left (Form.callFree_of_mem (by simp))) h
  | call hres hlen _ ih =>
    intro rest env blocks m s h
    rw [Expr.tokens, List.append_assoc, List.append_assoc] at h
    rw [eval_call hres]
    have hcall' : CallRealized p call K := by
      refine hcall.resolve_left fun hfree => ?_
      have hcalled := (Form.callFree_list_iff.mp hfree).1
      simp [Form.isCall, Form.head?, Form.symbol?, hres] at hcalled
    have hargs := List.forall₂_iff_zip.mpr ⟨hlen, fun {arg e} hmem => ih arg e hmem (.inr hcall')⟩
    refine .bind (realizes_evalArgs hargs h) ?_
    intro _ m' t ht
    exact hcall' ht

/-- The tokens of an expression do what the expression does. -/
theorem realizes_eval (hcall : CallsRealized p limit room call) (hlimit : K.limit = limit)
    (hroom : K.depth + room = limit) {form : Form} {e : Expr} (hf : form.SpellsExpr e) :
    ExprRealized p call K form e :=
  exprRealized_of_calls hf (.inr fun _ _ _ _ _ _ _ _ h => hcall hlimit hroom h)

/-! ## Statements -/

theorem realizes_execAll {forms : List Form} {stmts : List Stmt}
    (hforms : List.Forall₂ (StmtRealized p call K) forms stmts)
    (h : At K (Stmt.blockTokens stmts ++ rest) env blocks m s) :
    Realizes p K.backtrace s (After K rest blocks) (execAll call env forms m) := by
  induction hforms generalizing env m s with
  | nil => exact .pure h
  | cons hform _ ih =>
    rw [Stmt.blockTokens, List.append_assoc] at h
    refine .bind (hform h) ?_
    intro flow m' t ht
    cases flow with
    | next env' => exact ih ht
    | returned v => exact .pure ht

/-- A branch for true, then its `end`: what returns out of it needs no `end`. -/
theorem After.close {flow : Flow} {block : Block} {span : Span}
    (h : After K (Action.close.token span :: rest) (block :: blocks) flow m s) :
    ∃ t, Steps p s t ∧ After K rest blocks flow m t := by
  cases flow with
  | next env => exact At.close h
  | returned v => exact ⟨s, .refl s, h⟩

theorem After.otherwise {flow : Flow} {ts : List Token} {span : Span}
    (h : After K (Action.otherwise.token span :: ts) (.whenTrue :: blocks) flow m s)
    (hskip : ∀ pos, ∃ pos' skipped,
      Cursor.skip false 0 0 ⟨pos, ts⟩ = .ok (.close, ⟨pos', rest⟩, skipped)) :
    ∃ t, Steps p s t ∧ After K rest blocks flow m t := by
  cases flow with
  | next env => exact At.otherwise h hskip
  | returned v => exact ⟨s, .refl s, h⟩

/-- The tokens of a statement do what the statement does. -/
theorem realizes_exec (hcall : CallsRealized p limit room call) (hlimit : K.limit = limit)
    (hroom : K.depth + room = limit) {inFunction : Bool} (hin : inFunction = true → K.inCall = true)
    {form : Form} {stmt : Stmt} (hf : form.SpellsStmt inFunction stmt) :
    StmtRealized p call K form stmt := by
  have heval {form : Form} {e : Expr} (he : form.SpellsExpr e) : ExprRealized p call K form e :=
    realizes_eval hcall hlimit hroom he
  induction hf with
  | expr he =>
    intro rest env blocks m s h
    rw [exec_expr he]
    exact .bind (heval he h) fun _ m' t ht => .pure ht
  | bind _ he =>
    intro rest env blocks m s h
    rw [Stmt.tokens, List.append_assoc, List.append_assoc] at h
    rw [exec_let]
    exact .bind (heval he h) fun _ m' t ht => ht.realizes_bind
  | print he =>
    intro rest env blocks m s h
    rw [Stmt.tokens, List.append_assoc] at h
    rw [exec_print]
    exact .bind (heval he h) fun _ m' t ht => ht.realizes_print
  | @ifThen _ _ _ thenStmt span _ hc _ iht =>
    intro rest env blocks m s h
    simp only [Stmt.tokens, List.append_assoc, List.singleton_append] at h
    rw [exec_ifThen]
    have hskip (pos : Nat) :=
      thenStmt.wellNested.skip_to_close (Action.close.token span) rfl true 0 pos rest
    refine .bind (heval hc h) ?_
    intro _ m' t ht
    refine ht.realizes_branch (fun pos => ⟨_, _, hskip pos⟩) ?_ ?_
    · intro m'' u hu
      exact (iht hu).andThen fun flow m v hv => hv.close
    · intro m'' u hu
      exact .pure hu
  | @ifElse _ _ elseForm _ thenStmt elseStmt span _ hc _ _ iht ihf =>
    intro rest env blocks m s h
    simp only [Stmt.tokens, List.append_assoc, List.singleton_append] at h
    rw [exec_ifElse]
    have hskip (pos : Nat) :=
      thenStmt.wellNested.skip_to_otherwise (Action.otherwise.token elseForm.span) rfl 0 pos
        (elseStmt.tokens ++ Action.close.token span :: rest)
    have hskip' (pos : Nat) :=
      elseStmt.wellNested.skip_to_close (Action.close.token span) rfl false 0 pos rest
    refine .bind (heval hc h) ?_
    intro _ m' t ht
    refine ht.realizes_branch (fun pos => ⟨_, _, hskip pos⟩) ?_ ?_
    · intro m'' u hu
      exact (iht hu).andThen fun flow m v hv => hv.otherwise fun pos => ⟨_, _, hskip' pos⟩
    · intro m'' u hu
      exact (ihf hu).andThen fun flow m v hv => hv.close
  | block hlen _ ih =>
    intro rest env blocks m s h
    rw [exec_block]
    exact realizes_execAll (List.forall₂_iff_zip.mpr ⟨hlen, fun {f s} hmem => ih f s hmem⟩) h
  | ret hf he =>
    intro rest env blocks m s h
    rw [Stmt.tokens, List.append_assoc] at h
    rw [exec_ret]
    exact .bind (heval he h) fun _ m' t ht => ht.realizes_ret (hin hf)

/-! ## Calls -/

theorem realizes_popArgs {post : α → Memory → State → Prop} {params : List String}
    {f : Env → Eval α}
    (hshort : m.stack.length < params.length → FailsWith p calls s .stackUnderflow)
    (hargs : ∀ env' stack, m.stack.popArgs env params = .ok (env', stack) →
      Realizes p calls s post (f env' { m with stack }))
    (hp : s.printed = m.printed) :
    Realizes p calls s post ((Eval.popArgs env params >>= f) m) := by
  induction params generalizing env m with
  | nil => exact hargs env m.stack rfl
  | cons param params ih =>
    rw [Eval.popArgs, bind_assoc]
    refine realizes_pop ?_ ?_ hp
    · intro hm
      exact hshort (by simp [hm])
    intro v rest hv
    rw [hv] at hshort hargs
    refine ih ?_ ?_ hp
    · intro hlt
      exact hshort (Nat.succ_lt_succ hlt)
    · intro env' stack hs
      exact hargs env' stack hs

structure Compiled (f : Procedure) (d : FunctionDef) : Prop where
  params : d.params = f.params
  body : ∃ stmts, List.Forall₂ (Form.SpellsStmt true) f.body stmts ∧
    d.body = Stmt.blockTokens stmts

def Implements (p : Program) (procedures : List Procedure) : Prop :=
  ∀ name, Option.Rel Compiled (procedures.find? (fun f : Procedure => f.name == name))
    (p.functions.get? name)

/-- The body of a function, entered by a call, does what running it as a call does. -/
theorem realizes_body {f : Procedure} {d : FunctionDef} (hd : Compiled f d)
    (hcall : CallsRealized p limit room call) (hlimit : K.limit = limit)
    (hroom : K.depth + (room + 1) = limit) {entered : Call}
    (h : At (K.enter entered) d.body env [] m s) :
    Realizes p (K.enter entered).backtrace s (After (K.enter entered) [] [])
      (execAll call env f.body m) := by
  obtain ⟨stmts, hall, hbody⟩ := hd.body
  have hdepth : (K.enter entered).depth + room = limit := by
    show K.depth + 1 + room = limit
    omega
  refine realizes_execAll (hall.imp ?_) (by simpa [← hbody] using h)
  intro form stmt hspells
  exact realizes_exec (K := K.enter entered) hcall hlimit hdepth (fun _ => rfl) hspells

/-- What is left of a call after its body: the value returned, or nothing. -/
theorem After.leave {L : CallStack} {flow : Flow} {entered : Call}
    (hL : ∃ pos, L = K.setCurrent ⟨⟨pos, rest⟩, env, blocks⟩)
    (h : After (L.enter entered) [] [] flow m s) :
    Realizes p calls s (fun _ => At K rest env blocks) (flow.yield m) := by
  cases flow with
  | returned v =>
    obtain ⟨⟨call, hpop⟩, hstack, hprinted⟩ := h
    rw [CallStack.pop?_enter] at hpop
    cases hpop
    exact ⟨s, .refl s, hL, hstack, hprinted⟩
  | next env' =>
    obtain ⟨pos', hframes⟩ := h.frames
    have hpop : s.frames.pop? = some (_, L) :=
      hframes ▸ CallStack.pop?_setCurrent (CallStack.pop?_enter L entered) _
    have hx : s.frames.current.cursor.fetch = .exhausted := by
      rw [hframes, CallStack.current_setCurrent]
      rfl
    have hb : s.frames.current.blocks = [] := by
      rw [hframes, CallStack.current_setCurrent]
    exact ⟨_, .single (State.step_eq_next_iff.mpr (.leave hx hb hpop)), hL, h.stack, h.printed⟩

/-- A call looks its function up first: the two tables have the same names. -/
theorem realizes_lookup {procedures : List Procedure} (hp : Implements p procedures)
    {post : Unit → Memory → State → Prop} {name : String} {at_ span : Span}
    {x : Procedure → Eval Unit}
    (h : At K (Literal.name.tokens name at_ ++ Action.call.token span :: rest) env blocks m s)
    (hx : ∀ f g t d, Compiled f g → p.functions.get? name = some g → t.printed = m.printed →
      At K rest env blocks { m with stack := .name name :: m.stack } d →
      Executes p K t d span (.action .call) → Realizes p K.backtrace t post (x f m)) :
    Realizes p K.backtrace s post
      ((match procedures.find? (fun f : Procedure => f.name == name) with
        | none => Eval.fail (.undefinedFunction name)
        | some f => x f) m) := by
  obtain ⟨t, d, ht, hprinted, hd, hcall⟩ := h.named (p := p)
  have hrel := hp name
  refine .of_steps ht ?_
  cases hf : procedures.find? (fun f : Procedure => f.name == name) with
  | none =>
    rw [hf] at hrel
    cases hg : p.functions.get? name with
    | none => exact (hcall.fails _ (.undefined hd.stack hg)).realizes hprinted
    | some g => rw [hg] at hrel; cases hrel
  | some f =>
    rw [hf] at hrel
    cases hg : p.functions.get? name with
    | none => rw [hg] at hrel; cases hrel
    | some g =>
      rw [hg] at hrel
      cases hrel with
      | some hfg => exact hx f g t d hfg hg hprinted hd hcall

theorem callsRealized_call {procedures : List Procedure} (hp : Implements p procedures)
    (limit room : Nat) : CallsRealized p limit room (Semantics.call procedures limit room) := by
  induction room with
  | zero =>
    intro K rest env blocks m s name at_ span hlimit hroom h
    rw [Semantics.call]
    refine realizes_lookup hp h ?_
    intro f g t d _ hg hprinted hd hx
    obtain ⟨pos, hframes⟩ := hd.frames
    have hdepth : d.frames.limit ≤ d.frames.depth := by
      simp only [hframes, CallStack.depth_setCurrent, CallStack.limit_setCurrent]
      omega
    have hfull := hx.fails _ (.full hd.stack hg hdepth)
    rw [hframes, CallStack.limit_setCurrent, hlimit] at hfull
    exact hfull.realizes hprinted
  | succ room ih =>
    intro K rest env blocks m s name at_ span hlimit hroom h
    rw [Semantics.call]
    refine realizes_lookup hp h ?_
    intro f g t d hfg hg hprinted hd hx
    obtain ⟨pos, hframes⟩ := hd.frames
    have hdepth : d.frames.depth < d.frames.limit := by
      simp only [hframes, CallStack.depth_setCurrent, CallStack.limit_setCurrent]
      omega
    obtain ⟨henv, -, -⟩ := hd.current
    refine realizes_popArgs ?_ ?_ hprinted
    · intro hlt
      exact hx.fails _ (.noArgs hd.stack hg hdepth (hfg.params ▸ hlt))
    · intro env' stack hargs
      rw [← henv, ← hfg.params] at hargs
      obtain ⟨u, hu, hentered⟩ : ∃ u, Steps p t u ∧
          At (d.frames.enter ⟨⟨name, span⟩, .start g.body env'⟩) g.body env' []
            { m with stack } u :=
        ⟨_, hx.steps _ (.call hd.stack hg hdepth hargs), ⟨0, rfl⟩, rfl, hd.printed⟩
      have hbody := realizes_body hfg ih (by simpa [hframes] using hlimit)
        (by simpa [hframes] using hroom) hentered
      have hback : d.frames.backtrace = K.backtrace := by
        rw [hframes, CallStack.backtrace_setCurrent]
      rw [CallStack.backtrace_enter, hback] at hbody
      refine .of_steps hu (.bind (.within hbody) ?_)
      intro flow m' v hv
      exact hv.leave ⟨pos, hframes⟩

/-! ## Programs -/

theorem ofForm?_of_spellsDefinition {form : Form} {d : Definition} (h : form.SpellsDefinition d) :
    ∃ f, Procedure.ofForm? form = some f ∧ f.name = d.name ∧ Compiled f d.lower := by
  obtain ⟨hparams, hbody⟩ := h
  refine ⟨_, rfl, rfl, ?_, _, hbody, rfl⟩
  show _ = List.filterMap Form.symbol? _
  induction hparams with
  | nil => rfl
  | cons hp _ ih => rw [List.filterMap_cons_some hp, ← ih]; rfl

theorem implements_lower {script : Script} {forms : List Form} (h : script.SpelledBy forms) :
    Implements script.lower ((forms.filter (·.isDefinition)).filterMap Procedure.ofForm?) := by
  intro name
  rw [Script.lower, FunctionTable.get?_ofDefinitions h.distinct]
  have hall := h.definitions
  generalize forms.filter (·.isDefinition) = defs at hall
  generalize script.definitions = ds at hall
  induction hall with
  | nil => exact .none
  | @cons form d _ _ hd _ ih =>
    obtain ⟨f, hf, hname, hc⟩ := ofForm?_of_spellsDefinition hd
    rw [List.filterMap_cons_some hf, List.find?_cons, List.find?_cons, hname]
    cases d.name == name with
    | true => exact .some hc
    | false => exact ih

end TokenMachine.Semantics

namespace TokenMachine

open Semantics

/-- What a run shows, its counters and the places of its errors aside. -/
def Execution.behaviour (x : Execution) : Behaviour where
  printed := x.printed
  result :=
    match x.result with
    | .ok outcome => .ok outcome.stack
    | .error e => .error ⟨e.fault, e.backtrace⟩

theorem State.behaviour_run {α : Type} {p : Program} {s : State}
    {r : EStateM.Result Failure Memory α}
    (h : Realizes p [] s (fun _ m t => t.step p = .halted ∧ t.stack = m.stack ∧
      t.printed = m.printed) r) : (s.run p).behaviour = .ofResult r := by
  cases r with
  | ok a m =>
    obtain ⟨t, ht, hend, hstack, hprinted⟩ := h
    rw [run_of_steps ht, run_of_halted hend, Behaviour.ofResult, ← hstack, ← hprinted]
    rfl
  | error e m =>
    obtain ⟨t, err, ht, hend, hfault, hback, hprinted⟩ := h
    rw [run_of_steps ht, run_of_failed hend, Behaviour.ofResult, ← hprinted]
    rw [List.append_nil] at hback
    simp [Execution.behaviour, hfault, hback]

/-- A program is through when its statements are. -/
theorem halted_of_after {p : Program} {limit : Nat} {flow : Flow} {m : Memory} {t : State}
    (h : After (.start p.main limit) [] [] flow m t) :
    t.step p = .halted ∧ t.stack = m.stack ∧ t.printed = m.printed := by
  cases flow with
  | returned v =>
    obtain ⟨⟨call, hpop⟩, -⟩ := h
    cases hpop
  | next env =>
    obtain ⟨pos, hframes⟩ := h.frames
    refine ⟨State.step_eq_halted_iff.mpr ?_, h.stack, h.printed⟩
    rw [hframes, CallStack.current_setCurrent]
    exact ⟨rfl, rfl, rfl⟩

/-- The program that forms spell shows, at any limit on open calls, what interpreting the forms
shows: the same lines, and the same values or the same failure in the same calls. -/
theorem Program.run_behaviour {forms : List Form} {p : Program} (h : ofForms forms = .ok p)
    (config : Config) : (p.run config).behaviour = interpret config.maxCallDepth forms := by
  obtain ⟨script, hscript, rfl⟩ := map_eq_ok.mp h
  have hs := Script.spelledBy_of_ofForms hscript
  have hcall := callsRealized_call (implements_lower hs) config.maxCallDepth config.maxCallDepth
  have hstart : At (.start script.lower.main config.maxCallDepth)
      (Stmt.blockTokens script.main ++ []) .empty [] ⟨[], []⟩
      (.start script.lower config.maxCallDepth) := by
    rw [List.append_nil]
    exact ⟨⟨0, rfl⟩, rfl, rfl⟩
  have hmain := realizes_execAll (hs.main.imp fun _ _ hspells =>
    realizes_exec hcall rfl (Nat.zero_add _) Bool.false_ne_true.elim hspells) hstart
  exact State.behaviour_run (hmain.andThen fun flow m t ht => ⟨t, .refl t, halted_of_after ht⟩)

/-- `(fn f (x) (if x (return "yes")))`, `(print (f true))` and `(print (f "no"))`. -/
def conditionForms : List Form :=
  [list [symbol "fn", symbol "f", list [symbol "x"],
      list [symbol "if", symbol "x", list [symbol "return", text "yes"]]],
    list [symbol "print", list [symbol "f", symbol "true"]],
    list [symbol "print", list [symbol "f", text "no"]]]
where
  list (items : List Form) : Form := .list items .dummy
  symbol (name : String) : Form := .symbol name .dummy
  text (value : String) : Form := list [symbol "quote", .text value .dummy]

theorem conditionForms_behaviour :
    ∃ p, Program.ofForms conditionForms = .ok p ∧ (p.run ⟨1⟩).behaviour =
      ⟨["yes"], .error ⟨.typeMismatch "if" "a boolean" "text", [⟨"f", .dummy⟩]⟩⟩ := by
  have hshown : interpret 1 conditionForms =
      ⟨["yes"], .error ⟨.typeMismatch "if" "a boolean" "text", [⟨"f", .dummy⟩]⟩⟩ := rfl
  obtain ⟨p, hp⟩ : ∃ p, Program.ofForms conditionForms = .ok p := ⟨_, rfl⟩
  exact ⟨p, hp, (Program.run_behaviour hp ⟨1⟩).trans hshown⟩

end TokenMachine
