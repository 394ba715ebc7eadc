/-
  TokenMachine.Proofs.Source — what compiled programs are like, and never do.

  What is compiled is well formed, whatever forms it comes from (`ofForms_wellFormed`). The
  numbers of a source text are numerals, its names stand where an instruction takes them,
  and `return` stands in functions alone: so its program is disciplined as well. A run of
  it fails only by what a text can get wrong at run time, and a name is never bound, nor on
  the stack but just after its `ident` (`ofSource_faults_and_names`).
-/

import TokenMachine.Pipeline
import TokenMachine.Proofs.Form.Numerals
import TokenMachine.Proofs.Machine.Names
import TokenMachine.Proofs.Script.Forms
import TokenMachine.Proofs.Script.Lowering

namespace TokenMachine

/-! ## Lowered streams are disciplined -/

variable {inCall : Bool} {ts : List Token}

theorem disciplined_literal {kind : Literal} {operand : String} {v : Value} (span : Span)
    (hk : kind ≠ .name) (hv : kind.value operand = .ok v) :
    Disciplined inCall (kind.tokens operand span) :=
  .literal rfl hk hv .nil

theorem disciplined_named {act : Action} (h : act.takesName = true) (name : String)
    (at_ span : Span) : Disciplined inCall (Literal.name.tokens name at_ ++ [act.token span]) :=
  .named rfl rfl h .nil

theorem Disciplined.thenAction (ht : Disciplined inCall ts) (act : Action)
    (h : act.takesName = false) (hr : act = .ret → inCall = true) (span : Span) :
    Disciplined inCall (ts ++ [act.token span]) :=
  ht.append (.action rfl h hr .nil)

theorem disciplined_args {es : List Expr} (h : ∀ e ∈ es, Disciplined inCall e.tokens) :
    Disciplined inCall (Expr.argTokens es) := by
  induction es with
  | nil => exact .nil
  | cons e es ih =>
    obtain ⟨he, hes⟩ := List.forall_mem_cons.mp h
    exact (ih hes).append he

theorem disciplined_block {stmts : List Stmt} (h : ∀ stmt ∈ stmts, Disciplined inCall stmt.tokens) :
    Disciplined inCall (Stmt.blockTokens stmts) := by
  induction stmts with
  | nil => exact .nil
  | cons stmt stmts ih =>
    obtain ⟨hstmt, hstmts⟩ := List.forall_mem_cons.mp h
    exact hstmt.append (ih hstmts)

theorem Form.SpellsExpr.disciplined {form : Form} {e : Expr} (h : form.SpellsExpr e)
    (hn : form.Numeric) : Disciplined inCall e.tokens := by
  induction h with
  | number =>
    cases hn with
    | number hraw =>
      obtain ⟨v, hv⟩ := Literal.exists_value_number hraw
      exact disciplined_literal _ nofun hv
  | boolean | quote => exact disciplined_literal _ nofun rfl
  | var => exact disciplined_named rfl _ _ _
  | binary _ _ ihl ihr =>
    cases hn with
    | list hitems =>
      have hl := ihl (hitems _ (by simp))
      have hr := ihr (hitems _ (by simp))
      exact (hr.append hl).thenAction (.binary _) rfl nofun _
  | @negate _ _ span _ _ ih =>
    cases hn with
    | list hitems =>
      have hzero : Disciplined inCall (Literal.number.tokens "0" span) :=
        disciplined_literal span nofun rfl
      exact ((ih (hitems _ (by simp))).append hzero).thenAction (.binary .sub) rfl nofun span
  | @invert _ _ span _ _ ih =>
    cases hn with
    | list hitems =>
      have hone : Disciplined inCall (Literal.number.tokens "1" span) :=
        disciplined_literal span nofun rfl
      exact ((ih (hitems _ (by simp))).append hone).thenAction (.binary .div) rfl nofun span
  | same _ _ ih =>
    cases hn with
    | list hitems => exact ih (hitems _ (by simp))
  | call _ hlen _ ih =>
    cases hn with
    | list hitems =>
      have hargs := List.forall₂_iff_zip.mpr ⟨hlen, fun {arg e} hmem => ih arg e hmem⟩
      rw [Expr.tokens, List.append_assoc]
      refine (disciplined_args (forall_mem_of_forall₂ hargs ?_)).append (disciplined_named rfl _ _ _)
      intro arg harg e he
      exact he (hitems arg (List.mem_cons_of_mem _ harg))

theorem Form.SpellsStmt.disciplined {form : Form} {stmt : Stmt} (h : form.SpellsStmt inCall stmt)
    (hn : form.Numeric) : Disciplined inCall stmt.tokens := by
  induction h with
  | expr he => exact he.disciplined hn
  | bind _ he =>
    cases hn with
    | list hitems =>
      rw [Stmt.tokens, List.append_assoc]
      exact (he.disciplined (hitems _ (by simp))).append (disciplined_named rfl _ _ _)
  | print he =>
    cases hn with
    | list hitems => exact (he.disciplined (hitems _ (by simp))).thenAction .print rfl nofun _
  | ifThen hc _ iht =>
    cases hn with
    | list hitems =>
      have hcond : Disciplined inCall _ := hc.disciplined (hitems _ (by simp))
      have hthen := iht (hitems _ (by simp))
      exact ((hcond.thenAction .branch rfl nofun _).append hthen).thenAction .close rfl nofun _
  | ifElse hc _ _ iht ihf =>
    cases hn with
    | list hitems =>
      have hcond : Disciplined inCall _ := hc.disciplined (hitems _ (by simp))
      have hthen := iht (hitems _ (by simp))
      have helse := ihf (hitems _ (by simp))
      exact ((((hcond.thenAction .branch rfl nofun _).append hthen).thenAction .otherwise rfl
        nofun _).append helse).thenAction .close rfl nofun _
  | block hlen _ ih =>
    cases hn with
    | list hitems =>
      have hforms := List.forall₂_iff_zip.mpr ⟨hlen, fun {form s} hmem => ih form s hmem⟩
      refine disciplined_block (forall_mem_of_forall₂ hforms ?_)
      intro form hform stmt hstmt
      exact hstmt (hitems form (List.mem_cons_of_mem _ hform))
  | ret hin he =>
    cases hn with
    | list hitems =>
      have hvalue : Disciplined inCall _ := he.disciplined (hitems _ (by simp))
      exact hvalue.thenAction .ret rfl (fun _ => hin) _

/-! ## Source texts -/

theorem mapError_eq_ok {α ε ε' : Type} {f : ε → ε'} {x : Except ε α} {a : α} :
    x.mapError f = .ok a ↔ x = .ok a := by
  cases x <;> simp [Except.mapError]

namespace Form

theorem SpellsDefinition.disciplined {form : Form} {d : Definition} (h : form.SpellsDefinition d)
    (hn : form.Numeric) : Disciplined true d.lower.body := by
  obtain ⟨-, hbody⟩ := h
  cases hn with
  | list hitems =>
    refine disciplined_block (forall_mem_of_forall₂ hbody ?_)
    intro form hform stmt hspells
    exact hspells.disciplined (hitems form (by simp [hform]))

end Form

namespace Program

variable {forms : List Form} {p : Program}

theorem verify_of_ofForms (h : ofForms forms = .ok p) : p.verify = .ok () := by
  obtain ⟨script, hscript, rfl⟩ := map_eq_ok.mp h
  exact Script.verify_lower (Script.spelledBy_of_ofForms hscript).distinct

/-- What is compiled is well formed, from whatever forms, and whatever their atoms spell: the check
accepts it, and its main stream and the body of every function are of the grammar. -/
theorem ofForms_wellFormed (h : ofForms forms = .ok p) :
    p.verify = .ok () ∧ WellNested p.main ∧ ∀ f ∈ p.functions.defs, WellNested f.body := by
  obtain ⟨script, hscript, hlower⟩ := map_eq_ok.mp h
  have hstreams := Script.wellNested_lower (Script.spelledBy_of_ofForms hscript).distinct
  rw [hlower] at hstreams
  exact ⟨verify_of_ofForms h, hstreams⟩

/-- `(fn end (else) (if else (return "if")))` and `(if true (print (end "else")) (do))`, with the
texts quoted: every name and text is spelled like a marker. -/
def markerForms : List Form :=
  [call "fn" [symbol "end", call "else" [],
      call "if" [symbol "else", call "return" [text "if"]]],
    call "if" [symbol "true", call "print" [call "end" [text "else"]], call "do" []]]
where
  symbol (name : String) : Form := .symbol name .dummy
  call (head : String) (args : List Form) : Form := .list (symbol head :: args) .dummy
  text (value : String) : Form := call "quote" [.text value .dummy]

def markerProgram : Program where
  main := word <$> ["bool", "true", "if", "string", "else", "ident", "end", "call", "print", "else",
    "end"]
  functions := ⟨[⟨"end", ["else"],
    word <$> ["ident", "else", "var", "if", "string", "if", "return", "end"], .dummy⟩], by simp⟩
where
  word (text : String) : Token := ⟨text, .dummy⟩

theorem markerForms_wellFormed :
    ofForms markerForms = .ok markerProgram ∧ markerProgram.verify = .ok () ∧
      WellNested markerProgram.main ∧
      ∀ f ∈ markerProgram.functions.defs, WellNested f.body := by
  have hp : ofForms markerForms = .ok markerProgram := by decide +kernel
  exact ⟨hp, ofForms_wellFormed hp⟩

theorem disciplined_of_ofForms (h : ofForms forms = .ok p) (hn : ∀ form ∈ forms, form.Numeric) :
    p.Disciplined := by
  obtain ⟨script, hscript, rfl⟩ := map_eq_ok.mp h
  have hs := Script.spelledBy_of_ofForms hscript
  refine ⟨?_, ?_⟩
  · refine disciplined_block (forall_mem_of_forall₂ hs.main ?_)
    intro form hform stmt hspells
    exact hspells.disciplined (hn form (List.mem_filter.mp hform).1)
  · intro f hf
    rw [Script.lower, FunctionTable.defs_ofDefinitions hs.distinct] at hf
    obtain ⟨d, hd, rfl⟩ := List.mem_map.mp hf
    have hdefs : ∀ d ∈ script.definitions, TokenMachine.Disciplined true d.lower.body := by
      refine forall_mem_of_forall₂ hs.definitions ?_
      intro form hform d hspells
      exact hspells.disciplined (hn form (List.mem_filter.mp hform).1)
    exact hdefs d hd

theorem ofForms_of_ofSource {source : String} (h : ofSource source = .ok p) :
    ∃ forms, ofForms forms = .ok p ∧ ∀ form ∈ forms, form.Numeric := by
  obtain ⟨read, hread, hforms⟩ := State.bind_eq_ok.mp h
  refine ⟨Form.desugarItems read, mapError_eq_ok.mp hforms, ?_⟩
  exact Form.numeric_desugarItems (Form.numeric_of_read (mapError_eq_ok.mp hread))

/-- A run of a source text's program, at any limit on open calls, fails only by a fault that a
text can have. In each of its states no frame binds a name, and no name is on the stack but the
one that an `ident` pushed in the step before, on top. -/
theorem ofSource_faults_and_names {source : String} (h : ofSource source = .ok p)
    (config : Config) :
    (∀ e, (p.run config).result = .error e → e.fault.FromSource) ∧
    ∀ s, p.Reachable config.maxCallDepth s →
      s.Nameless ∧
      (s.stack.Nameless ∨ ∃ s₀ name tag next, p.Reachable config.maxCallDepth s₀ ∧
        s₀.frames.current.cursor.fetch = .ready (.literal .name name) tag next ∧
        s₀.step p = .next s ∧ s.stack = .name name :: s₀.stack ∧ s₀.stack.Nameless) := by
  obtain ⟨forms, hforms, hnumeric⟩ := ofForms_of_ofSource h
  have hp := disciplined_of_ofForms hforms hnumeric
  refine ⟨fun e he => hp.fromSource_of_run (verify_of_ofForms hforms) he, fun s hs => ?_⟩
  rcases hp.settled_or_naming hs with hsettled | ⟨s₀, name, tag, next, hr, hf, hstep, hnaming⟩
  · exact ⟨hsettled.nameless, .inl hsettled.stack⟩
  · exact ⟨hnaming.nameless, .inr ⟨s₀, name, tag, next, hr, hf, hstep, hnaming.stack,
      hnaming.below⟩⟩

/-- The program of `(fn f () (return true)) (print (f)) (print y)`. -/
def printsCall : Program where
  main :=
    [⟨"ident", ⟨32, 33⟩⟩, ⟨"f", ⟨32, 33⟩⟩, ⟨"call", ⟨31, 34⟩⟩, ⟨"print", ⟨24, 35⟩⟩,
      ⟨"ident", ⟨43, 44⟩⟩, ⟨"y", ⟨43, 44⟩⟩, ⟨"var", ⟨43, 44⟩⟩, ⟨"print", ⟨36, 45⟩⟩]
  functions := ⟨[⟨"f", [], [⟨"bool", ⟨17, 21⟩⟩, ⟨"true", ⟨17, 21⟩⟩, ⟨"return", ⟨9, 22⟩⟩],
    ⟨0, 23⟩⟩], by simp⟩

theorem printsCall_fault_and_names :
    ofSource "(fn f () (return true)) (print (f)) (print y)" = .ok printsCall ∧
      (printsCall.run ⟨1⟩).result = .error ⟨.unboundName "y", 6, some "var", some ⟨43, 44⟩, []⟩ ∧
      (Fault.unboundName "y").FromSource ∧
      ∀ s, printsCall.Reachable 1 s → s.Nameless := by
  have hp : ofSource "(fn f () (return true)) (print (f)) (print y)" = .ok printsCall := by
    decide +kernel
  have he : (printsCall.run ⟨1⟩).result =
      .error ⟨.unboundName "y", 6, some "var", some ⟨43, 44⟩, []⟩ := by cbv
  obtain ⟨hfaults, hnames⟩ := ofSource_faults_and_names hp ⟨1⟩
  exact ⟨hp, he, hfaults _ he, fun s hs => (hnames s hs).1⟩

end Program

end TokenMachine
