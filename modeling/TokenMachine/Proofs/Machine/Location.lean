/-
  TokenMachine.Proofs.Machine.Location — an error names its token and the calls that led to it.

  Each frame of a run stands in a stream of the program: the top-level frame in the main
  stream, the frame of a call in the body of the function called. Each open call is of a
  function that is defined, and was made by a `call` of the stream below it
  (`CallStack.Located`). Every step keeps this, since the current frame only moves forward
  in its stream and a call starts at the beginning of a body (`located_step`). So the place
  an error gives, be it that of the instruction or of a token that a skip met further on, is
  one in the stream of the innermost call (`Fails.pointsInto`, `Program.error_located`).
-/

import TokenMachine.Proofs.Machine.Reach
import TokenMachine.Proofs.Stream.Grammar

namespace TokenMachine

/-! ## Cursors in a stream -/

namespace Cursor

variable {c next : Cursor} {tokens : List Token} {allowElse : Bool}
  {depth skipped count : Nat}

def On (c : Cursor) (tokens : List Token) : Prop :=
  ∃ passed, tokens = passed ++ c.rest ∧ c.position = passed.length

theorem on_start (tokens : List Token) : (start tokens).On tokens := ⟨[], rfl, rfl⟩

/-- The token at the cursor's position is the next one. -/
theorem On.getElem?_position (h : c.On tokens) : tokens[c.position]? = c.rest.head? := by
  obtain ⟨passed, rfl, hpos⟩ := h
  rw [hpos, List.getElem?_append_right (Nat.le_refl _), Nat.sub_self, List.head?_eq_getElem?]

theorem On.position_of_nil (h : c.On tokens) (hrest : c.rest = []) :
    c.position = tokens.length := by
  obtain ⟨passed, rfl, hpos⟩ := h
  rw [hpos, hrest, List.append_nil]

theorem rest_of_exhausted (hx : c.fetch = .exhausted) : c.rest = [] := by
  cases Fetches.of_eq hx
  rfl

theorem text_of_fetch_action {act : Action} {tag : Token}
    (hx : c.fetch = .ready (.action act) tag next) : tag.text = act.tag := by
  cases Fetches.of_eq hx with
  | action htag => exact htag

theorem On.fetch {i : Instr} {tag : Token} (h : c.On tokens) (hx : c.fetch = .ready i tag next) :
    next.On tokens := by
  obtain ⟨passed, rfl, hpos⟩ := h
  cases Fetches.of_eq hx with
  | @literal _ _ _ operand rest _ => exact ⟨passed ++ [tag, operand], by simp, by simp_all⟩
  | action => exact ⟨passed ++ [tag], by simp, by simp_all⟩

theorem On.skip {marker : Marker} (h : c.On tokens)
    (hs : c.skip allowElse depth skipped = .ok (marker, next, count)) : next.On tokens :=
  rel_of_skip (R := fun c _ next _ => c.On tokens → next.On tokens) (fun _ hx h => h.fetch hx)
    (fun hmid hnext h => hnext (hmid h)) hs h

/-- The token that a decoding names is the next one. -/
theorem On.getElem?_of_fetch {i : Instr} {tag : Token} (h : c.On tokens)
    (hx : c.fetch = .ready i tag next) : tokens[c.position]? = some tag := by
  rw [h.getElem?_position]
  cases Fetches.of_eq hx <;> rfl

theorem On.getElem?_of_unknown {tag : Token} (h : c.On tokens) (hx : c.fetch = .unknown tag) :
    tokens[c.position]? = some tag := by
  rw [h.getElem?_position]
  cases Fetches.of_eq hx
  rfl

theorem On.getElem?_of_truncated {kind : Literal} {tag : Token} (h : c.On tokens)
    (hx : c.fetch = .truncated kind tag) : tokens[c.position]? = some tag := by
  rw [h.getElem?_position]
  cases Fetches.of_eq hx
  rfl

/-- Where a skip says that a fault is, there is a token of the stream. -/
theorem On.skip_site {trap : Trap} {site : Site} (h : c.On tokens)
    (hs : c.skip allowElse depth skipped = .error trap) (hsite : trap.site = some site) :
    ∃ tag, site.token = some tag ∧ tokens[site.position]? = some tag := by
  fun_induction Cursor.skip allowElse depth skipped c with
  | case1 | case2 => cases hs; cases hsite
  | case6 | case8 => cases hs
  | case3 c _ _ tag hx => cases hs; cases hsite; exact ⟨tag, rfl, h.getElem?_of_unknown hx⟩
  | case9 c _ tag next' hx => cases hs; cases hsite; exact ⟨tag, rfl, h.getElem?_of_fetch hx⟩
  | case4 c depth skipped kind operand tag next' hx ih => exact ih (h.fetch hx) hs
  | case5 c depth skipped tag next' hx ih => exact ih (h.fetch hx) hs
  | case7 c skipped tag next' hx outer ih => exact ih (h.fetch hx) hs
  | case10 c depth skipped tag next' hx _ ih => exact ih (h.fetch hx) hs
  | case11 c depth skipped act tag next' _ _ _ hx ih => exact ih (h.fetch hx) hs

end Cursor

/-! ## Call chains -/

namespace Program

/-- The stream being executed when these calls are open: the main one, or the body of the function
called last. -/
def streamOf (p : Program) : Backtrace → List Token
  | [] => p.main
  | site :: _ => ((p.functions.get? site.function).map (·.body)).getD []

/-- Each call is of a defined function, and has the span of a `call` of the stream that it was made
in. -/
def Chained (p : Program) : Backtrace → Prop
  | [] => True
  | site :: outer =>
    (p.functions.get? site.function).isSome ∧
      (∃ tag ∈ p.streamOf outer, tag.text = Action.call.tag ∧ tag.span = site.span) ∧
      p.Chained outer

theorem streamOf_cons {p : Program} {site : CallSite} {f : FunctionDef}
    (hf : p.functions.get? site.function = some f) (outer : Backtrace) :
    p.streamOf (site :: outer) = f.body := by
  simp [streamOf, hf]

end Program

namespace CallStack

variable {p : Program} {s s' : CallStack} {call : Call}

structure Located (p : Program) (s : CallStack) : Prop where
  top : s.top.cursor.On p.main
  calls : ∀ call ∈ s.calls, call.frame.cursor.On (p.streamOf [call.site])
  chain : p.Chained s.backtrace

theorem located_start (p : Program) (limit : Nat) : (start p.main limit).Located p :=
  ⟨Cursor.on_start _, nofun, trivial⟩

theorem Located.current (h : s.Located p) : s.current.cursor.On (p.streamOf s.backtrace) := by
  obtain ⟨top, calls, depth, limit, hd⟩ := s
  cases calls with
  | nil => exact h.top
  | cons call rest => exact h.calls call (List.mem_cons_self ..)

theorem Located.setCurrent (h : s.Located p) {f : Frame}
    (hf : f.cursor.On (p.streamOf s.backtrace)) : (s.setCurrent f).Located p := by
  obtain ⟨top, calls, depth, limit, hd⟩ := s
  cases calls with
  | nil => exact ⟨hf, nofun, trivial⟩
  | cons call rest =>
    obtain ⟨-, hrest⟩ := List.forall_mem_cons.mp h.calls
    exact ⟨h.top, List.forall_mem_cons.mpr ⟨hf, hrest⟩, h.chain⟩

theorem Located.pop? (h : s.Located p) (hp : s.pop? = some (call, s')) : s'.Located p := by
  obtain ⟨hcalls, htop, -⟩ := pop?_eq_some hp
  obtain ⟨-, hrest⟩ := List.forall_mem_cons.mp (hcalls ▸ h.calls)
  have hchain := h.chain
  rw [backtrace, hcalls] at hchain
  exact ⟨htop ▸ h.top, hrest, hchain.2.2⟩

/-- A call that a `call` of the current stream makes starts at the beginning of a body. -/
theorem Located.enter (h : s.Located p) {f : FunctionDef} {name : String} {tag : Token} (env : Env)
    (hf : p.functions.get? name = some f) (hmem : tag ∈ p.streamOf s.backtrace)
    (htag : tag.text = Action.call.tag) :
    (s.enter ⟨⟨name, tag.span⟩, .start f.body env⟩).Located p := by
  refine ⟨h.top, List.forall_mem_cons.mpr ⟨?_, h.calls⟩, ?_⟩
  · have hstream : p.streamOf [⟨name, tag.span⟩] = f.body := Program.streamOf_cons hf []
    exact hstream ▸ Cursor.on_start f.body
  · exact ⟨by rw [hf]; rfl, ⟨tag, hmem, htag, rfl⟩, h.chain⟩

end CallStack

/-! ## Steps -/

/-- The error is at a token of the stream and gives its text and its span, none for the dummy span;
or it is at the end of the stream, and says that a branch is open there. -/
inductive RunError.PointsInto (e : RunError) (tokens : List Token) : Prop
  | token {tag : Token} :
      tokens[e.position]? = some tag → e.opcode = some tag.text →
      e.span = (if tag.span = .dummy then none else some tag.span) → PointsInto e tokens
  | ending {openBlocks openCalls : Nat} :
      e.position = tokens.length → e.opcode = none → e.span = none →
      e.fault = .depthInvariantViolated openBlocks openCalls → PointsInto e tokens

namespace State

variable {p : Program} {s s' : State} {i : Instr} {tag : Token}

theorem Effect.located (he : Effect p tag.span s i s') (h : s.frames.Located p)
    (hcall : i = .action .call → tag ∈ p.streamOf s.frames.backtrace ∧
      tag.text = Action.call.tag) : s'.frames.Located p := by
  cases he with
  | literal | load | binary | print => exact h
  | bind | branchTrue | close => exact h.setCurrent h.current
  | branchFalse _ hskip => exact h.setCurrent (h.current.skip hskip)
  | otherwise _ hskip => exact h.setCurrent (h.current.skip hskip)
  | call _ hf _ _ =>
    obtain ⟨hmem, htag⟩ := hcall rfl
    exact h.enter _ hf hmem htag
  | ret hpop _ => exact h.pop? hpop

/-- The state that an instruction is executed in, past the instruction. -/
theorem located_dispatch {next : Cursor} (h : s.frames.Located p)
    (hx : s.frames.current.cursor.fetch = .ready i tag next) :
    (s.dispatch next).frames.Located p :=
  h.setCurrent (h.current.fetch hx)

theorem located_step (h : s.frames.Located p) (hs : s.step p = .next s') :
    s'.frames.Located p := by
  rcases step_eq_next_iff.mp hs with ⟨-, -, hpop⟩ | @⟨i, tag, next, _, hx, he⟩
  · exact h.pop? hpop
  · refine he.located (located_dispatch h hx) ?_
    rintro rfl
    rw [frames_dispatch, CallStack.backtrace_setCurrent]
    exact ⟨List.mem_of_getElem? (h.current.getElem?_of_fetch hx), Cursor.text_of_fetch_action hx⟩

/-- Only a skip finds its fault at another place than the instruction's. -/
theorem Refusal.site_eq_none_or_skip {trap : Trap} (hr : Refusal p s i trap) :
    trap.site = none ∨
      ∃ allowElse, s.frames.current.cursor.skip allowElse 0 0 = .error trap := by
  cases hr with
  | skipThen _ hskip => exact .inr ⟨true, hskip⟩
  | skipElse _ hskip => exact .inr ⟨false, hskip⟩
  | _ => exact .inl rfl

theorem Fails.pointsInto {e : RunError} (hf : Fails p s e) (h : s.frames.Located p) :
    e.PointsInto (p.streamOf e.backtrace) := by
  have hcurrent := h.current
  cases hf with
  | unbalanced hx _ =>
    have hrest := Cursor.rest_of_exhausted hx
    exact .ending (hcurrent.position_of_nil hrest) rfl rfl rfl
  | unknown hx => exact .token (hcurrent.getElem?_of_unknown hx) rfl rfl
  | truncated hx => exact .token (hcurrent.getElem?_of_truncated hx) rfl rfl
  | @refused i tag next trap hx hr =>
    cases hsite : trap.site with
    | none => exact .token (hcurrent.getElem?_of_fetch hx) rfl rfl
    | some site =>
      rcases hr.site_eq_none_or_skip with hnone | ⟨allowElse, hskip⟩
      · rw [hsite] at hnone
        cases hnone
      · -- The skip begins past the instruction, and goes on in the same stream.
        have hnext : (s.dispatch next).frames.current.cursor = next := by simp
        rw [hnext] at hskip
        obtain ⟨found, htoken, hget⟩ := (hcurrent.fetch hx).skip_site hskip hsite
        obtain ⟨pos, token⟩ := site
        cases htoken
        exact .token hget rfl rfl

end State

/-! ## Runs -/

namespace Program

theorem located_of_reachable {p : Program} {limit : Nat} {s : State} (hs : p.Reachable limit s) :
    s.frames.Located p :=
  hs.of_step (CallStack.located_start p limit) fun _ _ => State.located_step

/-- The error of a run points into the stream that its backtrace leads to: the main stream if no
call was open, and else the body of the function of the first call. It gives the token at fault
there, with its text and span; only where that stream ran out in an open branch there is none. And
the calls are a chain: each is of a defined function, and has the span of a `call` token of the
stream that the calls below it lead to. -/
theorem error_located {p : Program} {config : Config} {e : RunError}
    (he : (p.run config).result = .error e) :
    e.PointsInto (p.streamOf e.backtrace) ∧ p.Chained e.backtrace := by
  obtain ⟨s, hs, hfail⟩ := exists_failed_of_run he
  have hlocated := located_of_reachable hs
  have hfails := State.step_eq_failed_iff.mp hfail
  have hback : e.backtrace = s.frames.backtrace := by cases hfails <;> rfl
  exact ⟨hfails.pointsInto hlocated, hback ▸ hlocated.chain⟩

/-- The main stream calls `f`, which calls `g`, which skips a branch that is none. -/
def skipsUnknown : Program where
  main := [⟨"ident", ⟨1, 2⟩⟩, ⟨"f", ⟨1, 2⟩⟩, ⟨"call", ⟨0, 3⟩⟩]
  functions := ⟨[
    ⟨"f", [], [⟨"ident", .dummy⟩, ⟨"g", .dummy⟩, ⟨"call", .dummy⟩, ⟨"return", .dummy⟩], .dummy⟩,
    ⟨"g", [], [⟨"bool", ⟨4, 8⟩⟩, ⟨"false", ⟨9, 14⟩⟩, ⟨"if", ⟨15, 17⟩⟩, ⟨"string", ⟨18, 24⟩⟩,
      ⟨"end", ⟨25, 28⟩⟩, ⟨"fi", ⟨29, 31⟩⟩], .dummy⟩], by simp⟩

/-- The error is at the token that the skip met, and not at the `if` being executed. -/
theorem skipsUnknown_error_located :
    (skipsUnknown.run ⟨2⟩).result =
      .error ⟨.unknownOpcode "fi", 5, some "fi", some ⟨29, 31⟩,
        [⟨"g", .dummy⟩, ⟨"f", ⟨0, 3⟩⟩]⟩ ∧
    RunError.PointsInto ⟨.unknownOpcode "fi", 5, some "fi", some ⟨29, 31⟩,
      [⟨"g", .dummy⟩, ⟨"f", ⟨0, 3⟩⟩]⟩ (skipsUnknown.streamOf [⟨"g", .dummy⟩, ⟨"f", ⟨0, 3⟩⟩]) ∧
    skipsUnknown.Chained [⟨"g", .dummy⟩, ⟨"f", ⟨0, 3⟩⟩] := by
  have he : (skipsUnknown.run ⟨2⟩).result =
      .error ⟨.unknownOpcode "fi", 5, some "fi", some ⟨29, 31⟩,
        [⟨"g", .dummy⟩, ⟨"f", ⟨0, 3⟩⟩]⟩ := by
    obtain ⟨s, hs, hfail⟩ : ∃ s, skipsUnknown.Reachable 2 s ∧ s.step skipsUnknown =
        .failed ⟨.unknownOpcode "fi", 5, some "fi", some ⟨29, 31⟩,
          [⟨"g", .dummy⟩, ⟨"f", ⟨0, 3⟩⟩]⟩ :=
      ⟨_, .tail (.tail (.tail (.tail (.tail .refl rfl) rfl) rfl) rfl) rfl, by cbv⟩
    have hrun : skipsUnknown.run ⟨2⟩ = s.run skipsUnknown := Reachable.run_eq hs
    rw [hrun, State.run_of_failed hfail]
  exact ⟨he, error_located he⟩

end Program

end TokenMachine
