/-
  TokenMachine.Proofs.Script.Alike — what a program takes from its forms, and what an error.

  Compiling looks at the shape of forms, and carries spans over. So from forms of one shape come
  programs of one text, or errors of one kind, and the spans of the two are related as those
  of the forms are, in whatever way (`Program.alike_ofForms`). Of related spans nothing else is
  asked: of two forms with other spans it says that their programs spell the same, and of one
  form and itself that each span is one of the form. A text is refused only where it is not
  quoted; where all are quoted, no error says that one is not.
-/

import TokenMachine.Pipeline
import TokenMachine.Proofs.Form.Printing
import TokenMachine.Proofs.Machine.Effect
import TokenMachine.Proofs.Script.Forms
import TokenMachine.Proofs.Script.Lowering

namespace TokenMachine

variable {S : Span → Span → Prop} {U : Prop} {α β γ δ : Type} {form form' : Form}
  {forms forms' args args' : List Form} {at_ at_' : Span} {inFunction : Bool}

/-! ## Forms and errors of one shape -/

/-- Two forms of one shape with related spans. If not `U`, a text stands in them only as the `x` of
`(quote x)`. -/
inductive Form.Alike (S : Span → Span → Prop) (U : Prop) : Form → Form → Prop
  | number {raw : String} {span span' : Span} :
      S span span' → Alike S U (.number raw span) (.number raw span')
  | text {value : String} {span span' : Span} :
      U → S span span' → Alike S U (.text value span) (.text value span')
  | symbol {name : String} {span span' : Span} :
      S span span' → Alike S U (.symbol name span) (.symbol name span')
  | quote {payload payload' : Form} {head head' span span' : Span} :
      payload.bare = payload'.bare → S payload.span payload'.span → S head head' → S span span' →
      Alike S U (.list [.symbol Keyword.quoteForm.text head, payload] span)
        (.list [.symbol Keyword.quoteForm.text head', payload'] span')
  | list {items items' : List Form} {span span' : Span} :
      items.length = items'.length →
      (∀ item item', (item, item') ∈ items.zip items' → Alike S U item item') →
      S span span' → Alike S U (.list items span) (.list items' span')

namespace Form.Alike

theorem span (h : form.Alike S U form') : S form.span form'.span := by
  cases h <;> assumption

theorem symbol? (h : form.Alike S U form') : form.symbol? = form'.symbol? := by
  cases h <;> rfl

theorem of_forall₂ (h : List.Forall₂ (Form.Alike S U) forms forms') (hspan : S at_ at_') :
    (Form.list forms at_).Alike S U (.list forms' at_') :=
  .list h.length_eq (fun _ _ hmem => (List.forall₂_iff_zip.mp h).2 hmem) hspan

end Form.Alike

namespace CompileError

def bare : CompileError → CompileError
  | emptyForm _ => emptyForm .dummy
  | wrongArity form expected found _ => wrongArity form expected found .dummy
  | expectedName role _ => expectedName role .dummy
  | reservedName name role _ => reservedName name role .dummy
  | unquotedString _ => unquotedString .dummy
  | nestedFunction _ => nestedFunction .dummy
  | malformedParams _ => malformedParams .dummy
  | duplicateFunction name _ _ => duplicateFunction name .dummy .dummy
  | duplicateParameter name _ => duplicateParameter name .dummy
  | returnOutsideFunction _ => returnOutsideFunction .dummy
  | nonSymbolHead _ => nonSymbolHead .dummy
  | statementAsValue form _ => statementAsValue form .dummy
  | invalidQuote _ => invalidQuote .dummy

def spans : CompileError → List Span
  | .duplicateFunction _ span first => [span, first]
  | e => [e.span]

def isUnquoted : CompileError → Bool
  | unquotedString _ => true
  | _ => false

structure Alike (S : Span → Span → Prop) (U : Prop) (e e' : CompileError) : Prop where
  bare : e.bare = e'.bare
  spans : List.Forall₂ S e.spans e'.spans
  quoted : e.isUnquoted = true → U

end CompileError

inductive ResultsAlike (S : Span → Span → Prop) (U : Prop) (R : α → β → Prop) :
    Except CompileError α → Except CompileError β → Prop
  | ok {a : α} {b : β} : R a b → ResultsAlike S U R (.ok a) (.ok b)
  | error {e e' : CompileError} : e.Alike S U e' →
      ResultsAlike S U R (.error e) (.error e')

theorem alike_error {R : α → β → Prop} {e e' : CompileError} (hbare : e.bare = e'.bare)
    (he : e.spans = [at_]) (he' : e'.spans = [at_']) (hquoted : e.isUnquoted = false)
    (h : S at_ at_') : ResultsAlike S U R (.error e) (.error e') :=
  .error ⟨hbare, by rw [he, he']; exact .cons h .nil, fun heq => by rw [hquoted] at heq; cases heq⟩

theorem ResultsAlike.bind {R : α → β → Prop} {T : γ → δ → Prop} {x : Except CompileError α}
    {y : Except CompileError β} {f : α → Except CompileError γ} {g : β → Except CompileError δ}
    (h : ResultsAlike S U R x y) (hfg : ∀ a b, R a b → ResultsAlike S U T (f a) (g b)) :
    ResultsAlike S U T (x >>= f) (y >>= g) := by
  cases h with
  | ok hab => exact hfg _ _ hab
  | error he => exact .error he

theorem ResultsAlike.map {R : α → β → Prop} {T : γ → δ → Prop} {x : Except CompileError α}
    {y : Except CompileError β} {f : α → γ} {g : β → δ} (h : ResultsAlike S U R x y)
    (hfg : ∀ a b, R a b → T (f a) (g b)) : ResultsAlike S U T (x.map f) (y.map g) := by
  cases h with
  | ok hab => exact .ok (hfg _ _ hab)
  | error he => exact .error he

/-! ## Tokens -/

def TokensAlike (S : Span → Span → Prop) : List Token → List Token → Prop :=
  List.Forall₂ fun t t' => t.text = t'.text ∧ S t.span t'.span

namespace TokensAlike

variable {ts ts' us us' : List Token}

theorem append (h : TokensAlike S ts ts') (hu : TokensAlike S us us') :
    TokensAlike S (ts ++ us) (ts' ++ us') := List.rel_append h hu

theorem action (act : Action) (h : S at_ at_') :
    TokensAlike S [act.token at_] [act.token at_'] := .cons ⟨rfl, h⟩ .nil

theorem literal (kind : Literal) (operand : String) (h : S at_ at_') :
    TokensAlike S (kind.tokens operand at_) (kind.tokens operand at_') :=
  .cons ⟨rfl, h⟩ (.cons ⟨rfl, h⟩ .nil)

theorem map_text (h : TokensAlike S ts ts') : ts.map (·.text) = ts'.map (·.text) :=
  map_eq_map_iff_forall₂.mpr (h.imp fun _ _ ht => ht.1)

end TokensAlike

/-! ## Expressions -/

def ExprsAlike (S : Span → Span → Prop) (e e' : Expr) : Prop := TokensAlike S e.tokens e'.tokens

theorem alike_nameOf {role : NameRole} (hsymbol : form.symbol? = form'.symbol?)
    (h : S form.span form'.span) :
    ResultsAlike S U (· = ·) (nameOf role form) (nameOf role form') := by
  unfold nameOf
  rw [← hsymbol]
  split
  · exact alike_error rfl rfl rfl rfl h
  · split
    · exact alike_error rfl rfl rfl rfl h
    · exact .ok rfl

abbrev ExprOfAlike (S : Span → Span → Prop) (U : Prop) (form form' : Form) : Prop :=
  ResultsAlike S U (ExprsAlike S) (exprOf form) (exprOf form')

theorem alike_argsOf (h : List.Forall₂ (ExprOfAlike S U) args args') :
    ResultsAlike S U (fun es es' => TokensAlike S (Expr.argTokens es) (Expr.argTokens es'))
      (argsOf args) (argsOf args') := by
  induction h with
  | nil =>
    rw [argsOf]
    exact .ok .nil
  | cons harg _ ih =>
    rw [argsOf, argsOf]
    exact ih.bind fun _ _ hrest => harg.bind fun _ _ he => .ok (hrest.append he)

theorem alike_operationOf (op : BinaryOp) (hspan : S at_ at_')
    (h : List.Forall₂ (ExprOfAlike S U) args args') :
    ResultsAlike S U (ExprsAlike S) (operationOf op args at_) (operationOf op args' at_') := by
  have arity (n : Nat) : ResultsAlike S U (ExprsAlike S)
      (.error (.wrongArity op.symbol
        (if op.isArithmetic then "one or two operands" else "two operands") n at_))
      (.error (.wrongArity op.symbol
        (if op.isArithmetic then "one or two operands" else "two operands") n at_')) :=
    alike_error rfl rfl rfl rfl hspan
  rcases h with _ | ⟨hfirst, _ | ⟨hsecond, _ | ⟨_, h⟩⟩⟩
  · unfold operationOf
    exact arity 0
  · cases op
    all_goals unfold operationOf
    case add | mul => exact hfirst
    case sub | div =>
      -- The constant is generated, at the span of the whole form.
      refine hfirst.bind fun _ _ he => .ok ?_
      exact (he.append (.literal .number _ hspan)).append (.action _ hspan)
    all_goals exact arity 1
  · unfold operationOf
    refine hsecond.bind fun _ _ hright => hfirst.bind fun _ _ hleft => .ok ?_
    exact (hright.append hleft).append (.action _ hspan)
  · unfold operationOf
    simp only [List.length_cons, h.length_eq]
    exact arity _

/-- What is headed by no keyword of a form is an operation or a call. -/
theorem alike_application (name : String) (hhead : form.Alike S U form') (hspan : S at_ at_')
    (h : List.Forall₂ (ExprOfAlike S U) args args') :
    ResultsAlike S U (ExprsAlike S)
      (match BinaryOp.ofSymbol? name with
      | some op => operationOf op args at_
      | none => do
        let callee ← nameOf .ofFunction form
        .ok (.call callee form.span (← argsOf args) at_))
      (match BinaryOp.ofSymbol? name with
      | some op => operationOf op args' at_'
      | none => do
        let callee ← nameOf .ofFunction form'
        .ok (.call callee form'.span (← argsOf args') at_')) := by
  cases BinaryOp.ofSymbol? name with
  | some op => exact alike_operationOf op hspan h
  | none =>
    refine (alike_nameOf hhead.symbol? hhead.span).bind fun callee _ hcallee => ?_
    subst hcallee
    refine (alike_argsOf h).bind fun _ _ hes => .ok ?_
    exact (hes.append (.literal .name callee hhead.span)).append (.action _ hspan)

/-- A `quote` takes one text, and gives it. -/
theorem alike_quote {payload payload' : Form} {name : String} {head head' : Form}
    (hname : head.symbol? = some name) (hname' : head'.symbol? = some name)
    (hk : Keyword.ofText? name = some .quoteForm) (hbare : payload.bare = payload'.bare)
    (hpayload : S payload.span payload'.span) (hspan : S at_ at_') :
    ExprOfAlike S U (.list [head, payload] at_) (.list [head', payload'] at_') := by
  unfold ExprOfAlike exprOf
  simp only [hname, hname', hk]
  cases payload <;> cases payload' <;> try cases hbare
  case text => exact .ok (.literal .text _ hspan)
  all_goals exact alike_error rfl rfl rfl rfl hpayload

theorem Form.Alike.bare (h : form.Alike S U form') : form.bare = form'.bare := by
  induction h with
  | number | text | symbol => rfl
  | quote hbare => simp [Form.bare, Form.bareItems, hbare]
  | list hlen _ _ ih =>
    rw [Form.bare, Form.bare, Form.bareItems_eq_map, Form.bareItems_eq_map]
    exact congrArg (Form.list · .dummy) (map_eq_map_iff_forall₂.mpr (forall₂_of_zip hlen ih))

theorem alike_exprOf (h : form.Alike S U form') : ExprOfAlike S U form form' := by
  induction h with
  | number hspan =>
    unfold ExprOfAlike exprOf
    exact .ok (.literal .number _ hspan)
  | text hquoted hspan =>
    unfold ExprOfAlike exprOf
    exact .error ⟨rfl, .cons hspan .nil, fun _ => hquoted⟩
  | @symbol name span span' hspan =>
    have hvar : ResultsAlike S U (ExprsAlike S)
        ((nameOf .ofVariable (.symbol name span)).map (.var · span))
        ((nameOf .ofVariable (.symbol name span')).map (.var · span')) := by
      have hform : (Form.symbol name span).Alike S U (.symbol name span') := .symbol hspan
      refine (alike_nameOf hform.symbol? hform.span).map fun _ _ hname => ?_
      subst hname
      exact (TokensAlike.literal .name _ hspan).append (.action _ hspan)
    unfold ExprOfAlike exprOf
    cases Keyword.ofText? name with
    | none => exact hvar
    | some k =>
      cases k with
      | trueAtom | falseAtom => exact .ok (.literal .boolean _ hspan)
      | _ => exact hvar
  | quote hbare hpayload _ hspan => exact alike_quote rfl rfl (by decide) hbare hpayload hspan
  | @list items items' span span' hlen hitems hspan ih =>
    have hforms := forall₂_of_zip hlen hitems
    have hexprs := forall₂_of_zip hlen ih
    rcases hforms with _ | ⟨hhead, hargs⟩
    · unfold ExprOfAlike exprOf
      exact alike_error rfl rfl rfl rfl hspan
    rcases hexprs with _ | ⟨-, hexprs⟩
    rename_i head head' args args'
    have hsymbol := hhead.symbol?
    cases hname : head.symbol? with
    | none =>
      unfold ExprOfAlike exprOf
      simp only [hname, ← hsymbol]
      exact alike_error rfl rfl rfl rfl hhead.span
    | some name =>
    rw [hname] at hsymbol
    have happlication := alike_application name hhead hspan hexprs
    cases hk : Keyword.ofText? name with
    | none =>
      unfold ExprOfAlike exprOf
      simp only [hname, ← hsymbol, hk]
      exact happlication
    | some k =>
      cases k with
      | quoteForm =>
        rcases hargs with _ | ⟨hpayload, _ | ⟨_, hargs⟩⟩
        · unfold ExprOfAlike exprOf
          simp only [hname, ← hsymbol, hk]
          exact alike_error rfl rfl rfl rfl hspan
        · exact alike_quote hname hsymbol.symm hk hpayload.bare hpayload.span hspan
        · unfold ExprOfAlike exprOf
          simp only [hname, ← hsymbol, hk, List.length_cons, hargs.length_eq]
          exact alike_error rfl rfl rfl rfl hspan
      | trueAtom | falseAtom =>
        unfold ExprOfAlike exprOf
        simp only [hname, ← hsymbol, hk]
        exact happlication
      | _ =>
        unfold ExprOfAlike exprOf
        simp only [hname, ← hsymbol, hk]
        exact alike_error rfl rfl rfl rfl hspan

/-! ## Statements -/

def StmtsAlike (S : Span → Span → Prop) (stmt stmt' : Stmt) : Prop :=
  TokensAlike S stmt.tokens stmt'.tokens

abbrev StmtOfAlike (S : Span → Span → Prop) (U : Prop) (inFunction : Bool) (form form' : Form) :
    Prop :=
  ResultsAlike S U (StmtsAlike S) (stmtOf inFunction form) (stmtOf inFunction form')

theorem alike_stmtsOf (h : List.Forall₂ (StmtOfAlike S U inFunction) forms forms') :
    ResultsAlike S U
      (fun body body' => TokensAlike S (Stmt.blockTokens body) (Stmt.blockTokens body'))
      (stmtsOf inFunction forms) (stmtsOf inFunction forms') := by
  induction h with
  | nil =>
    rw [stmtsOf]
    exact .ok .nil
  | cons hform _ ih =>
    rw [stmtsOf, stmtsOf]
    exact hform.bind fun _ _ hstmt => ih.bind fun _ _ hrest => .ok (hstmt.append hrest)

theorem alike_wrongArity {R : α → β → Prop} (name expected : String) (h : S at_ at_')
    (hargs : List.Forall₂ (Form.Alike S U) args args') :
    ResultsAlike S U R (.error (.wrongArity name expected args.length at_))
      (.error (.wrongArity name expected args'.length at_')) := by
  rw [hargs.length_eq]
  exact alike_error rfl rfl rfl rfl h

theorem alike_stmtOf (h : form.Alike S U form') : StmtOfAlike S U inFunction form form' := by
  have expression {form form' : Form} (h : form.Alike S U form') :
      ResultsAlike S U (StmtsAlike S) ((exprOf form).map Stmt.expr)
        ((exprOf form').map Stmt.expr) :=
    (alike_exprOf h).map fun _ _ he => he
  induction h with
  | number hspan => exact expression (.number hspan)
  | text hquoted hspan => exact expression (.text hquoted hspan)
  | symbol hspan => exact expression (.symbol hspan)
  | quote hbare hpayload hhead hspan =>
    have hform := expression (.quote hbare hpayload hhead hspan)
    unfold StmtOfAlike stmtOf
    simpa only [Form.symbol?, Option.bind_some, Keyword.ofText?_text] using hform
  | @list items items' span span' hlen hitems hspan ih =>
    have hlist := expression (.list hlen hitems hspan)
    have hforms := forall₂_of_zip hlen hitems
    have hstmts := forall₂_of_zip hlen ih
    rcases hforms with _ | ⟨hhead, hargs⟩
    · exact hlist
    rcases hstmts with _ | ⟨-, hstmts⟩
    rename_i head head' args args'
    unfold StmtOfAlike stmtOf
    simp only [← hhead.symbol?]
    cases head.symbol?.bind Keyword.ofText? with
    | none => exact hlist
    | some k =>
      cases k with
      | letForm =>
        have harity := alike_wrongArity (R := StmtsAlike S) "let" "a name and a value" hspan hargs
        rcases hargs with _ | ⟨htarget, _ | ⟨hvalue, _ | ⟨_, _⟩⟩⟩
        · exact harity
        · exact harity
        · refine (alike_nameOf htarget.symbol? htarget.span).bind fun name _ hname => ?_
          subst hname
          refine (alike_exprOf hvalue).bind fun _ _ he => .ok ?_
          exact (he.append (.literal .name name htarget.span)).append (.action _ hspan)
        · exact harity
      | printForm =>
        have harity := alike_wrongArity (R := StmtsAlike S) "print" "one value" hspan hargs
        rcases hargs with _ | ⟨hvalue, _ | ⟨_, _⟩⟩
        · exact harity
        · exact (alike_exprOf hvalue).bind fun _ _ he => .ok (he.append (.action _ hspan))
        · exact harity
      | ifForm =>
        have harity := alike_wrongArity (R := StmtsAlike S) "if"
          "a condition, a then-branch and an optional else-branch" hspan hargs
        rcases hargs with _ | ⟨hcondition, _ | ⟨hthen, _ | ⟨helse, _ | ⟨_, _⟩⟩⟩⟩
        · exact harity
        · exact harity
        · rcases hstmts with _ | ⟨-, _ | ⟨hthen', -⟩⟩
          refine (alike_exprOf hcondition).bind fun _ _ hc => hthen'.bind fun _ _ ht => .ok ?_
          exact ((hc.append (.action _ hspan)).append ht).append (.action _ hspan)
        · rcases hstmts with _ | ⟨-, _ | ⟨hthen', _ | ⟨helse', -⟩⟩⟩
          refine (alike_exprOf hcondition).bind fun _ _ hc => hthen'.bind fun _ _ ht =>
            helse'.bind fun _ _ hf => .ok ?_
          exact ((((hc.append (.action _ hspan)).append ht).append
            (.action _ helse.span)).append hf).append (.action _ hspan)
        · exact harity
      | doForm => exact (alike_stmtsOf hstmts).map fun _ _ hbody => hbody
      | returnForm =>
        cases inFunction with
        | false => exact alike_error rfl rfl rfl rfl hspan
        | true =>
          have harity := alike_wrongArity (R := StmtsAlike S) "return" "one value" hspan hargs
          rcases hargs with _ | ⟨hvalue, _ | ⟨_, _⟩⟩
          · exact harity
          · exact (alike_exprOf hvalue).bind fun _ _ he => .ok (he.append (.action _ hspan))
          · exact harity
      | fnForm => exact alike_error rfl rfl rfl rfl hspan
      | quoteForm | trueAtom | falseAtom => exact hlist

/-! ## Definitions -/

structure Definition.Alike (S : Span → Span → Prop) (d d' : Definition) : Prop where
  name : d.name = d'.name
  params : d.params = d'.params
  body : TokensAlike S (Stmt.blockTokens d.body) (Stmt.blockTokens d'.body)
  span : S d.span d'.span

/-- The forms are at related spans, and symbols only if they are the same. -/
def NamesAlike (S : Span → Span → Prop) (form form' : Form) : Prop :=
  form.symbol? = form'.symbol? ∧ S form.span form'.span

theorem alike_paramsOf {seen : List String} (h : List.Forall₂ (NamesAlike S) forms forms') :
    ResultsAlike S U (· = ·) (paramsOf seen forms) (paramsOf seen forms') := by
  induction h generalizing seen with
  | nil => exact .ok rfl
  | @cons form form' _ _ hform _ ih =>
    obtain ⟨hsymbol, hspan⟩ := hform
    rw [paramsOf, paramsOf, ← hsymbol]
    split
    · exact alike_error rfl rfl rfl rfl hspan
    · refine (alike_nameOf hsymbol hspan).bind fun name _ hname => ?_
      subst hname
      split
      · exact alike_error rfl rfl rfl rfl hspan
      · refine ih.bind fun _ _ hrest => .ok ?_
        rw [hrest]

theorem Form.symbol?_bare (form : Form) : form.bare.symbol? = form.symbol? := by
  cases form <;> rfl

theorem alike_definitionOf (hspan : S at_ at_')
    (h : List.Forall₂ (Form.Alike S U) args args') :
    ResultsAlike S U (Definition.Alike S) (definitionOf args at_) (definitionOf args' at_') := by
  have harity := alike_wrongArity (R := Definition.Alike S) "fn"
    "a name, a parameter list and a body" hspan h
  rcases h with _ | ⟨hname, _ | ⟨hparams, hbody⟩⟩
  · exact harity
  · exact harity
  rename_i bodyForms bodyForms'
  refine (alike_nameOf hname.symbol? hname.span).bind fun name _ heq => ?_
  subst heq
  have params {items items' : List Form} (hitems : List.Forall₂ (NamesAlike S) items items') :
      ResultsAlike S U (Definition.Alike S)
        (do
          let params ← paramsOf [] items
          .ok ⟨name, params, ← stmtsOf true bodyForms, at_⟩)
        (do
          let params ← paramsOf [] items'
          .ok ⟨name, params, ← stmtsOf true bodyForms', at_'⟩) := by
    refine (alike_paramsOf hitems).bind fun params _ heq => ?_
    subst heq
    exact (alike_stmtsOf (hbody.imp fun _ _ hform => alike_stmtOf hform)).bind
      fun _ _ hstmts => .ok ⟨rfl, rfl, hstmts, hspan⟩
  cases hparams with
  | number hspan | text _ hspan | symbol hspan => exact alike_error rfl rfl rfl rfl hspan
  | @quote payload payload' _ _ _ _ hbare hpayload hhead _ =>
    -- A list that quotes is taken for a parameter list, too.
    have hsymbol : payload.symbol? = payload'.symbol? := by
      rw [← payload.symbol?_bare, hbare, payload'.symbol?_bare]
    exact params (.cons ⟨rfl, hhead⟩ (.cons ⟨hsymbol, hpayload⟩ .nil))
  | list hlen hitems _ =>
    exact params (forall₂_of_zip hlen fun a b hmem =>
      ⟨(hitems a b hmem).symbol?, (hitems a b hmem).span⟩)

/-! ## Scripts -/

theorem Stmt.blockTokens_append (body body' : List Stmt) :
    blockTokens (body ++ body') = blockTokens body ++ blockTokens body' := by
  induction body with
  | nil => rfl
  | cons stmt body ih =>
    simp only [List.cons_append, blockTokens, ih, List.append_assoc]

structure Script.Alike (S : Span → Span → Prop) (s s' : Script) : Prop where
  main : TokensAlike S (Stmt.blockTokens s.main) (Stmt.blockTokens s'.main)
  definitions : List.Forall₂ (Definition.Alike S) s.definitions s'.definitions

/-- The first of two lists of related elements, where the same are looked for. -/
theorem forall₂_find? {R : α → β → Prop} {as : List α} {bs : List β} {p : α → Bool} {q : β → Bool}
    (h : List.Forall₂ R as bs) (hpq : ∀ a b, R a b → p a = q b) :
    (as.find? p = none ∧ bs.find? q = none) ∨
      ∃ a b, as.find? p = some a ∧ bs.find? q = some b ∧ R a b := by
  induction h with
  | nil => exact .inl ⟨rfl, rfl⟩
  | @cons a b _ _ hab _ ih =>
    rw [List.find?_cons, List.find?_cons, ← hpq a b hab]
    cases p a with
    | true => exact .inr ⟨a, b, rfl, rfl, hab⟩
    | false => exact ih

namespace Script

variable {s s' : Script}

theorem alike_addForm (hs : s.Alike S s') (h : form.Alike S U form') :
    ResultsAlike S U (Script.Alike S) (s.addForm form) (s'.addForm form') := by
  -- A form that no `fn` heads is a statement.
  have statement : ResultsAlike S U (Script.Alike S)
      (do .ok { s with main := s.main ++ [← stmtOf false form] })
      (do .ok { s' with main := s'.main ++ [← stmtOf false form'] }) := by
    refine (alike_stmtOf h).bind fun stmt stmt' hstmt => .ok ⟨?_, hs.definitions⟩
    rw [Stmt.blockTokens_append, Stmt.blockTokens_append]
    exact hs.main.append (hstmt.append .nil)
  cases h with
  | number | text | symbol => exact statement
  | quote => exact statement
  | @list items items' span span' hlen hitems hspan =>
    have hforms := forall₂_of_zip hlen hitems
    rcases hforms with _ | ⟨hhead, hargs⟩
    · exact statement
    unfold addForm
    dsimp only
    rw [← hhead.symbol?]
    split
    · refine (alike_definitionOf hspan hargs).bind fun d d' hd => ?_
      rcases forall₂_find? hs.definitions (p := (·.name == d.name)) (q := (·.name == d'.name))
          (fun a b hab => by rw [hab.name, hd.name]) with
        ⟨hnone, hnone'⟩ | ⟨first, first', hfirst, hfirst', hab⟩
      · simp only [hnone, hnone']
        exact .ok ⟨hs.main, List.rel_append hs.definitions (.cons hd .nil)⟩
      · simp only [hfirst, hfirst']
        exact .error {
          bare := congrArg (CompileError.duplicateFunction · .dummy .dummy) hd.name
          spans := .cons hd.span (.cons hab.span .nil)
          quoted := fun h => absurd h Bool.false_ne_true }
    · exact statement

theorem alike_foldlM_addForm (hs : s.Alike S s') (h : List.Forall₂ (Form.Alike S U) forms forms') :
    ResultsAlike S U (Script.Alike S) (forms.foldlM addForm s) (forms'.foldlM addForm s') := by
  induction h generalizing s s' with
  | nil => exact .ok hs
  | cons hform _ ih =>
    rw [List.foldlM_cons, List.foldlM_cons]
    exact (alike_addForm hs hform).bind fun _ _ hs => ih hs

theorem alike_ofForms (h : List.Forall₂ (Form.Alike S U) forms forms') :
    ResultsAlike S U (Script.Alike S) (ofForms forms) (ofForms forms') :=
  alike_foldlM_addForm ⟨.nil, .nil⟩ h

end Script

/-! ## Programs -/

structure FunctionDef.Alike (S : Span → Span → Prop) (f f' : FunctionDef) : Prop where
  name : f.name = f'.name
  params : f.params = f'.params
  body : TokensAlike S f.body f'.body
  span : S f.span f'.span

structure Program.Alike (S : Span → Span → Prop) (p p' : Program) : Prop where
  main : TokensAlike S p.main p'.main
  functions : List.Forall₂ (FunctionDef.Alike S) p.functions.defs p'.functions.defs

/-- Forms of one shape are programs of one text, or errors that say the same; and as the spans of
the forms are related, so are the spans of these. -/
theorem Program.alike_ofForms (h : List.Forall₂ (Form.Alike S U) forms forms') :
    ResultsAlike S U (Program.Alike S) (ofForms forms) (ofForms forms') := by
  have hscripts := Script.alike_ofForms h
  unfold ofForms
  generalize hs : Script.ofForms forms = x at hscripts
  generalize hs' : Script.ofForms forms' = y at hscripts
  cases hscripts with
  | error he => exact .error he
  | ok halike =>
    refine .ok ⟨halike.main, ?_⟩
    simp only [Script.lower,
      FunctionTable.defs_ofDefinitions (Script.spelledBy_of_ofForms hs).distinct,
      FunctionTable.defs_ofDefinitions (Script.spelledBy_of_ofForms hs').distinct]
    refine List.forall₂_map_left_iff.mpr (List.forall₂_map_right_iff.mpr ?_)
    exact halike.definitions.imp fun _ _ hd => ⟨hd.name, hd.params, hd.body, hd.span⟩

end TokenMachine
