/-
  TokenMachine.Proofs.Semantics.ShortCall — calls with too few arguments.

  Nothing marks on the stack where the arguments of a call begin. A `call` takes as many
  values off it as the function has parameters, and fails only if there are not so many
  (`State.step_call`). So a call form with too few arguments need not fail: its missing
  arguments are whatever the forms around it and the callers left on the stack
  (`Program.short_call`).
-/

import TokenMachine.Proofs.Machine.Isolation
import TokenMachine.Proofs.Machine.Limit
import TokenMachine.Proofs.Machine.Location
import TokenMachine.Proofs.Semantics.Compilation

namespace TokenMachine

/-! ## The instruction -/

structure RunError.AtCall (e : RunError) (at_ : Span) (calls : Backtrace) : Prop where
  opcode : e.opcode = some Action.call.tag
  span : e.span = spanOf at_
  backtrace : e.backtrace = calls

namespace State

variable {p : Program} {s t : State} {tag : Token} {next : Cursor} {name : String}
  {f : FunctionDef} {below : Stack} {fault : Fault}

/-- A call of `f` was made at `site` with these values for its parameters, which were on top of
the stack `below`. -/
structure Entered (s : State) (f : FunctionDef) (site : CallSite) (below : Stack)
    (values : List Value) (t : State) : Prop where
  stack : below = values ++ t.stack
  length : values.length = f.params.length
  frame : t.frames.current.Fresh f values s.frames.current.env
  backtrace : t.frames.backtrace = site :: s.frames.backtrace

theorem exists_failed_of_refusal
    (hx : s.frames.current.cursor.fetch = .ready (.action .call) tag next)
    (hr : Refusal p (s.dispatch next) (.action .call) ⟨fault, none⟩) :
    ∃ e, s.step p = .failed e ∧ e.fault = fault ∧ e.AtCall tag.span s.frames.backtrace := by
  refine ⟨_, step_eq_failed_iff.mpr (.refused hx hr), rfl, ?_, rfl, rfl⟩
  exact congrArg some (Cursor.text_of_fetch_action hx)

/-- What a `call` does, by how many calls are open and how many values there are. -/
theorem step_call (hx : s.frames.current.cursor.fetch = .ready (.action .call) tag next)
    (hs : s.stack = .name name :: below) (hf : p.functions.get? name = some f) :
    (s.frames.limit ≤ s.frames.depth → ∃ e, s.step p = .failed e ∧
      e.fault = .recursionLimitExceeded s.frames.limit ∧ e.AtCall tag.span s.frames.backtrace) ∧
    (s.frames.depth < s.frames.limit → below.length < f.params.length →
      ∃ e, s.step p = .failed e ∧ e.fault = .stackUnderflow ∧
        e.AtCall tag.span s.frames.backtrace) ∧
    (s.frames.depth < s.frames.limit → f.params.length ≤ below.length →
      ∃ values t, s.step p = .next t ∧ s.Entered f ⟨name, tag.span⟩ below values t) := by
  have hdepth : (s.dispatch next).frames.depth = s.frames.depth := by simp
  have hlimit : (s.dispatch next).frames.limit = s.frames.limit := by simp
  refine ⟨fun hfull => ?_, fun hroom hshort => ?_, fun hroom henough => ?_⟩
  · have hr := Refusal.full (p := p) (s := s.dispatch next) hs hf (by omega)
    rw [hlimit] at hr
    exact exists_failed_of_refusal hx hr
  · exact exists_failed_of_refusal hx (.noArgs hs hf (by omega) hshort)
  · have hsplit : below = below.take f.params.length ++ below.drop f.params.length :=
      (List.take_append_drop f.params.length below).symm
    have hlength := List.length_take_of_le henough
    have hargs := Stack.popArgs_eq_ok_iff.mpr
      ⟨below.take f.params.length, hsplit, hlength, Eq.refl (s.frames.current.env.bindAll _)⟩
    have henv : (s.dispatch next).frames.current.env = s.frames.current.env := by simp
    rw [← henv] at hargs
    refine ⟨_, _, step_eq_next_iff.mpr (.execute hx (.call hs hf (by omega) hargs)), hsplit,
      hlength, henv ▸ Frame.fresh_start f _ _, ?_⟩
    show _ :: (s.dispatch next).frames.backtrace = _
    rw [frames_dispatch, CallStack.backtrace_setCurrent]

end State

/-! ## The form -/

namespace Form

variable {form : Form} {callee : String} {head span : Span} {args : List Form} {es : List Expr}

theorem SpellsExpr.isReserved_callee (h : form.SpellsExpr (.call callee head es span)) :
    isReserved callee = false := by
  generalize he : Expr.call callee head es span = e at h
  induction h with
  | same _ _ ih => exact ih he
  | call hres => cases he; exact hres
  | _ => cases he

theorem SpellsExpr.args_of_call
    (h : (Form.list (.symbol callee head :: args) span).SpellsExpr (.call callee head es span)) :
    List.Forall₂ Form.SpellsExpr args es := by
  have hres := h.isReserved_callee
  cases h with
  | same =>
    rw [isReserved, BinaryOp.ofSymbol?_symbol] at hres
    simp at hres
  | call _ hlen hargs => exact List.forall₂_iff_zip.mpr ⟨hlen, fun {arg e} hmem => hargs arg e hmem⟩

end Form

def Execution.FailsAtCall (x : Execution) (fault : Fault) (span : Span) (calls : Backtrace) :
    Prop :=
  ∃ e, x.result = .error e ∧ e.fault = fault ∧ e.AtCall span calls

namespace Semantics

open State (Steps)

variable {p : Program} {K : CallStack} {env : Env} {blocks : List Block} {m : Memory} {s : State}
  {rest : List Token} {name : String} {at_ span : Span}

def procedures (forms : List Form) : List Procedure :=
  (forms.filter (·.isDefinition)).filterMap Procedure.ofForm?

theorem At.callee
    (h : At K (Literal.name.tokens name at_ ++ Action.call.token span :: rest) env blocks m s) :
    ∃ t, Steps p s t ∧
      At K (Action.call.token span :: rest) env blocks
        { m with stack := .name name :: m.stack } t := by
  obtain ⟨d, hd, hx⟩ := h.literal (p := p)
  exact ⟨_, hx.steps _ (.literal rfl), hd.frames, congrArg (Value.name name :: ·) hd.stack,
    hd.printed⟩

end Semantics

namespace Program

open Semantics State

variable {forms args : List Form} {p : Program} {limit : Nat} {s : State} {callee : String}
  {head span : Span} {es : List Expr} {rest : List Token} {f : FunctionDef} {m : Memory}

/-- Running a call form evaluates its arguments first. -/
theorem realizes_callArgs (h : ofForms forms = .ok p) (hs : p.Reachable limit s)
    (hform : (Form.list (.symbol callee head :: args) span).SpellsExpr (.call callee head es span))
    (hrest : s.frames.current.cursor.rest = (Expr.call callee head es span).tokens ++ rest) :
    Realizes p s.frames.backtrace s
      (fun _ => At s.frames (Literal.name.tokens callee head ++ Action.call.token span :: rest)
        s.frames.current.env s.frames.current.blocks)
      (evalArgs (call (procedures forms) limit (limit - s.frames.depth)) s.frames.current.env args
        ⟨s.stack, s.printed⟩) := by
  obtain ⟨script, hscript, rfl⟩ := map_eq_ok.mp h
  obtain ⟨hdepth, hcount, hlimit⟩ := counted_of_reachable hs
  have hcall := callsRealized_call (implements_lower (Script.spelledBy_of_ofForms hscript)) limit
    (limit - s.frames.depth)
  have hat : At s.frames (Expr.argTokens es ++
      (Literal.name.tokens callee head ++ Action.call.token span :: rest))
      s.frames.current.env s.frames.current.blocks ⟨s.stack, s.printed⟩ s := by
    refine ⟨⟨s.frames.current.cursor.position, ?_⟩, rfl, rfl⟩
    rw [Expr.tokens, List.append_assoc, List.append_assoc] at hrest
    exact hrest ▸ (CallStack.setCurrent_current s.frames).symm
  refine realizes_evalArgs (hform.args_of_call.imp fun arg e harg => ?_) hat
  exact realizes_eval hcall hlimit (by omega) harg

/-- Once its arguments are evaluated, a call form is an `ident` and a `call`. -/
theorem call_of_args (hs : p.Reachable limit s) {t : State} (ht : Steps p s t)
    (hat : At s.frames (Literal.name.tokens callee head ++ Action.call.token span :: rest)
      s.frames.current.env s.frames.current.blocks m t)
    (hf : p.functions.get? callee = some f) :
    (limit ≤ s.frames.depth →
      (p.run ⟨limit⟩).FailsAtCall (.recursionLimitExceeded limit) span s.frames.backtrace) ∧
    (s.frames.depth < limit → m.stack.length < f.params.length →
      (p.run ⟨limit⟩).FailsAtCall .stackUnderflow span s.frames.backtrace) ∧
    (s.frames.depth < limit → f.params.length ≤ m.stack.length →
      ∃ values u, Steps p s u ∧ s.Entered f ⟨callee, span⟩ m.stack values u) := by
  obtain ⟨t', ht', hat'⟩ := hat.callee (p := p)
  obtain ⟨pos, hframes⟩ := hat'.frames
  have hsteps := ht.trans ht'
  have hlimit : s.frames.limit = limit := (counted_of_reachable hs).limit_eq
  have hx : t'.frames.current.cursor.fetch =
      .ready (.action .call) (Action.call.token span) ⟨pos + 1, rest⟩ := by
    rw [hframes, CallStack.current_setCurrent]
    exact Cursor.fetch_action rfl
  have hdepth : t'.frames.depth = s.frames.depth := by rw [hframes, CallStack.depth_setCurrent]
  have hlimit' : t'.frames.limit = limit := by rw [hframes, CallStack.limit_setCurrent, hlimit]
  have hback : t'.frames.backtrace = s.frames.backtrace := by
    rw [hframes, CallStack.backtrace_setCurrent]
  have henv : t'.frames.current.env = s.frames.current.env := by
    rw [hframes, CallStack.current_setCurrent]
  have hrun : p.run ⟨limit⟩ = t'.run p := Reachable.run_eq (hs.trans hsteps)
  have failed {e : RunError} {fault : Fault} (he : t'.step p = .failed e) (hfault : e.fault = fault)
      (hcall : e.AtCall span t'.frames.backtrace) :
      (p.run ⟨limit⟩).FailsAtCall fault span s.frames.backtrace := by
    rw [hrun, run_of_failed he]
    exact ⟨e, rfl, hfault, hback ▸ hcall⟩
  obtain ⟨hfull, hshort, henough⟩ := step_call hx hat'.stack hf
  rw [hdepth, hlimit'] at hfull hshort henough
  refine ⟨fun hle => ?_, fun hlt hle => ?_, fun hlt hle => ?_⟩
  · obtain ⟨e, he, hfault, hcall⟩ := hfull hle
    exact failed he hfault hcall
  · obtain ⟨e, he, hfault, hcall⟩ := hshort hlt hle
    exact failed he hfault hcall
  · obtain ⟨values, u, hu, hentered⟩ := henough hlt hle
    exact ⟨values, u, hsteps.trans (.single hu), hentered.stack, hentered.length,
      henv ▸ hentered.frame, hback ▸ hentered.backtrace⟩

/-- A call form with too few arguments, in whatever state of a run it is executed. If an argument
fails, so does the run. If no more call may be open, or the stack with the arguments on it has
fewer values than the function has parameters, the run fails at the call, for that cause. But else
the call is made, and if each argument left one value, the missing arguments are what was on the
stack before the form. -/
theorem short_call (h : ofForms forms = .ok p) (hs : p.Reachable limit s)
    (hform : (Form.list (.symbol callee head :: args) span).SpellsExpr (.call callee head es span))
    (hrest : s.frames.current.cursor.rest = (Expr.call callee head es span).tokens ++ rest)
    (hf : p.functions.get? callee = some f) (hshort : args.length < f.params.length) :
    match evalArgs (call (procedures forms) limit (limit - s.frames.depth))
        s.frames.current.env args ⟨s.stack, s.printed⟩ with
    | .error e _ => ∃ err, (p.run ⟨limit⟩).result = .error err ∧ err.fault = e.fault ∧
        err.backtrace = e.calls ++ s.frames.backtrace
    | .ok _ m =>
      (limit ≤ s.frames.depth →
        (p.run ⟨limit⟩).FailsAtCall (.recursionLimitExceeded limit) span s.frames.backtrace) ∧
      (s.frames.depth < limit → m.stack.length < f.params.length →
        (p.run ⟨limit⟩).FailsAtCall .stackUnderflow span s.frames.backtrace) ∧
      (s.frames.depth < limit → f.params.length ≤ m.stack.length →
        ∃ values t, Steps p s t ∧ s.Entered f ⟨callee, span⟩ m.stack values t ∧
          ∀ given, m.stack = given ++ s.stack → given.length = args.length →
            ∃ filled, filled ≠ [] ∧ values = given ++ filled ∧ s.stack = filled ++ t.stack) := by
  have hargs := realizes_callArgs h hs hform hrest
  split
  · next e m he =>
    rw [he] at hargs
    obtain ⟨t, err, ht, hfail, hfault, hback, -⟩ := hargs
    have hrun : p.run ⟨limit⟩ = t.run p := Reachable.run_eq (hs.trans ht)
    rw [hrun, run_of_failed hfail]
    exact ⟨err, rfl, hfault, hback⟩
  · next m hm =>
    rw [hm] at hargs
    obtain ⟨t, ht, hat⟩ := hargs
    obtain ⟨hfull, hunderflow, henough⟩ := call_of_args hs ht hat hf
    refine ⟨hfull, hunderflow, fun hlt hle => ?_⟩
    obtain ⟨values, u, hu, hentered⟩ := henough hlt hle
    refine ⟨values, u, hu, hentered, fun given hgiven hlen => ?_⟩
    -- The arguments are on top, and there are more parameters than arguments.
    have hstack := hgiven.symm.trans hentered.stack
    have hlength := hentered.length
    rcases List.append_eq_append_iff.mp hstack with ⟨filled, rfl, hbelow⟩ | ⟨extra, rfl, -⟩
    · refine ⟨filled, ?_, rfl, hbelow⟩
      rintro rfl
      simp only [List.append_nil] at hlength
      omega
    · rw [List.length_append] at hlen
      omega

/-- `(fn two (a b) (return b))`, `"caller"` and `(two true)`, as they are read. -/
def borrowingForms : List Form :=
  [.list [.symbol "fn" ⟨1, 3⟩, .symbol "two" ⟨4, 7⟩,
      .list [.symbol "a" ⟨9, 10⟩, .symbol "b" ⟨11, 12⟩] ⟨8, 13⟩,
      .list [.symbol "return" ⟨15, 21⟩, .symbol "b" ⟨22, 23⟩] ⟨14, 24⟩] ⟨0, 25⟩,
    .list [.symbol "quote" ⟨26, 34⟩, .text "caller" ⟨26, 34⟩] ⟨26, 34⟩,
    .list [.symbol "two" ⟨36, 39⟩, .symbol "true" ⟨40, 44⟩] ⟨35, 45⟩]

def borrowingCall : Expr := .call "two" ⟨36, 39⟩ [.boolean true ⟨40, 44⟩] ⟨35, 45⟩

def borrowing : Program where
  main := Literal.text.tokens "caller" ⟨26, 34⟩ ++ borrowingCall.tokens
  functions := ⟨[⟨"two", ["a", "b"], [⟨"ident", ⟨22, 23⟩⟩, ⟨"b", ⟨22, 23⟩⟩, ⟨"var", ⟨22, 23⟩⟩,
    ⟨"return", ⟨14, 24⟩⟩], ⟨0, 25⟩⟩], by simp⟩

/-- The state of a run of `borrowing` before the call form. -/
def borrowingBefore : State where
  stack := [.text "caller"]
  frames := (CallStack.start borrowing.main 1).setCurrent ⟨⟨2, borrowingCall.tokens⟩, .empty, []⟩
  counters := { instructions := 1 }
  printed := []

/-- The function has two parameters, and the call form one argument. But the run executes it and
succeeds, and returns for the missing argument what was on the stack before the form. -/
theorem short_call_succeeds :
    ofSource "(fn two (a b) (return b)) \"caller\" (two true)" = .ok borrowing ∧
      borrowing.Reachable 1 borrowingBefore ∧
      borrowingBefore.frames.current.cursor.rest = borrowingCall.tokens ∧
      (borrowing.functions.get? "two").map FunctionDef.arity = some 2 ∧
      ∃ outcome, (borrowing.run ⟨1⟩).result = .ok outcome ∧ outcome.stack = [.text "caller"] := by
  have hs : borrowing.Reachable 1 borrowingBefore := .tail .refl rfl
  have hend := hs.tail rfl |>.tail rfl |>.tail rfl |>.tail rfl |>.tail rfl |>.tail rfl
  have hrun := (Reachable.run_eq hend).trans (run_of_halted rfl)
  exact ⟨by decide +kernel, hs, rfl, by decide, _, congrArg Execution.result hrun, rfl⟩

theorem short_call_borrows :
    ofForms borrowingForms = .ok borrowing ∧ borrowing.Reachable 1 borrowingBefore ∧
      ∃ t, Steps borrowing borrowingBefore t ∧ t.frames.backtrace = [⟨"two", ⟨35, 45⟩⟩] ∧
        t.frames.current.env.lookup "a" = some (.boolean true) ∧
        t.frames.current.env.lookup "b" = some (.text "caller") ∧ t.stack = [] := by
  have hp : ofForms borrowingForms = .ok borrowing := by decide +kernel
  have hs : borrowing.Reachable 1 borrowingBefore := .tail .refl rfl
  have hform : (Form.list [.symbol "two" ⟨36, 39⟩, .symbol "true" ⟨40, 44⟩] ⟨35, 45⟩).SpellsExpr
      borrowingCall := spellsExpr_of_exprOf rfl
  have hrest : borrowingBefore.frames.current.cursor.rest = borrowingCall.tokens ++ [] := rfl
  obtain ⟨-, -, hmade⟩ := short_call hp hs hform hrest rfl (by decide)
  obtain ⟨values, t, ht, hentered, hfilled⟩ := hmade (by decide) (by decide)
  obtain ⟨filled, -, rfl, hstack⟩ := hfilled [.boolean true] rfl rfl
  obtain ⟨v, rfl⟩ := List.length_eq_one_iff.mp (Nat.succ.inj hentered.length)
  obtain ⟨hv, hempty⟩ := List.cons.inj hstack
  cases hv
  exact ⟨hp, hs, t, ht, hentered.backtrace, (hentered.frame.lookup "a").trans rfl,
    (hentered.frame.lookup "b").trans rfl, hempty.symm⟩

end Program

end TokenMachine
