/-
  TokenMachine.Proofs.Script.Language — the forms that make a program.

  The language as it is documented, word by word: a name is any symbol but the nine
  keywords and the ten operators; expressions, statements and definitions are the forms of
  the rules below. What is elaborated is of the language, since what it spells says so, and
  each rule is one that elaboration has, so all that is of the language is elaborated
  (`exists_exprOf_iff`, `exists_stmtOf_iff`). Forms are a program exactly if each defines
  a function or is a statement, and no two define the same (`ofForms_accepts`): adding a
  form to a script asks nothing of the others but for their names.
-/

import TokenMachine.Pipeline
import TokenMachine.Proofs.Script.Forms

namespace TokenMachine

/-! ## The language -/

def keywords : List String :=
  ["let", "print", "if", "do", "return", "fn", "quote", "true", "false"]

def operators : List String := ["+", "-", "*", "/", "==", "!=", ">", "<", "<=", ">="]

def IsName (name : String) : Prop := name ∉ keywords ∧ name ∉ operators

namespace Form

inductive Expression : Form → Prop
  | number {raw : String} {span : Span} : Expression (.number raw span)
  | boolean {value : String} {span : Span} :
      value = "true" ∨ value = "false" → Expression (.symbol value span)
  | var {name : String} {span : Span} : IsName name → Expression (.symbol name span)
  | quote {value : String} {span head at_ : Span} :
      Expression (.list [.symbol "quote" head, .text value at_] span)
  | binary {op : String} {lhs rhs : Form} {span head : Span} :
      op ∈ operators → Expression lhs → Expression rhs →
      Expression (.list [.symbol op head, lhs, rhs] span)
  | unary {op : String} {operand : Form} {span head : Span} :
      op ∈ ["+", "-", "*", "/"] → Expression operand →
      Expression (.list [.symbol op head, operand] span)
  | call {callee : String} {args : List Form} {span head : Span} :
      IsName callee → (∀ arg ∈ args, Expression arg) →
      Expression (.list (.symbol callee head :: args) span)

/-- A statement; `return` is one inside functions only. -/
inductive Statement (inFunction : Bool) : Form → Prop
  | expression {form : Form} : form.Expression → Statement inFunction form
  | bind {name : String} {value : Form} {span head at_ : Span} :
      IsName name → value.Expression →
      Statement inFunction (.list [.symbol "let" head, .symbol name at_, value] span)
  | print {value : Form} {span head : Span} :
      value.Expression → Statement inFunction (.list [.symbol "print" head, value] span)
  | ifThen {condition thenForm : Form} {span head : Span} :
      condition.Expression → Statement inFunction thenForm →
      Statement inFunction (.list [.symbol "if" head, condition, thenForm] span)
  | ifElse {condition thenForm elseForm : Form} {span head : Span} :
      condition.Expression → Statement inFunction thenForm → Statement inFunction elseForm →
      Statement inFunction (.list [.symbol "if" head, condition, thenForm, elseForm] span)
  | block {forms : List Form} {span head : Span} :
      (∀ form ∈ forms, Statement inFunction form) →
      Statement inFunction (.list (.symbol "do" head :: forms) span)
  | ret {value : Form} {span head : Span} :
      inFunction = true → value.Expression →
      Statement inFunction (.list [.symbol "return" head, value] span)

inductive Defines (name : String) : Form → Prop
  | fn {params : List String} {paramForms bodyForms : List Form} {span head at_ list : Span} :
      IsName name → paramForms.map symbol? = params.map some → (∀ param ∈ params, IsName param) →
      params.Nodup → (∀ form ∈ bodyForms, form.Statement true) →
      Defines name (.list (.symbol "fn" head :: .symbol name at_ :: .list paramForms list ::
        bodyForms) span)

end Form

/-! ## Reserved words -/

open State (bind_eq_ok)

variable {name : String} {form : Form} {forms : List Form} {span head at_ : Span}
  {inFunction : Bool}

theorem mem_keywords_iff : name ∈ keywords ↔ ∃ k : Keyword, k.text = name := by
  have hall : keywords = Keyword.all.map Keyword.text := rfl
  rw [hall, List.mem_map]
  constructor
  · rintro ⟨k, -, hk⟩
    exact ⟨k, hk⟩
  · rintro ⟨k, hk⟩
    exact ⟨k, by cases k <;> decide, hk⟩

theorem mem_operators_iff : name ∈ operators ↔ ∃ op : BinaryOp, op.symbol = name := by
  have hall : operators = BinaryOp.all.map BinaryOp.symbol := rfl
  rw [hall, List.mem_map]
  constructor
  · rintro ⟨op, -, hop⟩
    exact ⟨op, hop⟩
  · rintro ⟨op, hop⟩
    exact ⟨op, by cases op <;> decide, hop⟩

/-- A name is no word that is looked up. -/
theorem isName_iff :
    IsName name ↔ Keyword.ofText? name = none ∧ BinaryOp.ofSymbol? name = none := by
  have hkeyword : name ∉ keywords ↔ Keyword.ofText? name = none := by
    rw [mem_keywords_iff, Option.eq_none_iff_forall_ne_some, not_exists]
    exact forall_congr' fun k => not_congr (eq_comm.trans Keyword.ofText?_eq_some_iff.symm)
  have hoperator : name ∉ operators ↔ BinaryOp.ofSymbol? name = none := by
    rw [mem_operators_iff, Option.eq_none_iff_forall_ne_some, not_exists]
    exact forall_congr' fun op => not_congr (eq_comm.trans BinaryOp.ofSymbol?_eq_some_iff.symm)
  rw [IsName, hkeyword, hoperator]

/-- What is not reserved is a name. -/
theorem isReserved_eq_false_iff : isReserved name = false ↔ IsName name := by
  rw [isName_iff]
  simp [isReserved]

theorem nameOf_symbol (role : NameRole) (h : IsName name) :
    nameOf role (.symbol name span) = .ok name := by
  simp [nameOf, Form.symbol?, isReserved_eq_false_iff.mpr h]

/-! ## What is elaborated is of the language -/

theorem Form.SpellsExpr.expression {e : Expr} (h : form.SpellsExpr e) : form.Expression := by
  induction h with
  | number => exact .number
  | @boolean b k _ hk =>
    subst hk
    cases b with
    | true => exact .boolean (.inl rfl)
    | false => exact .boolean (.inr rfl)
  | quote => exact .quote
  | var hres => exact .var (isReserved_eq_false_iff.mp hres)
  | @binary op _ _ _ _ _ _ _ _ ihl ihr => exact .binary (mem_operators_iff.mpr ⟨op, rfl⟩) ihl ihr
  | negate _ ih => exact .unary (by decide) ih
  | invert _ ih => exact .unary (by decide) ih
  | same hop _ ih =>
    rcases hop with rfl | rfl
    · exact .unary (by decide) ih
    · exact .unary (by decide) ih
  | call hres hlen _ ih =>
    exact .call (isReserved_eq_false_iff.mp hres) (forall_mem_of_zip hlen ih)

theorem Form.SpellsStmt.statement {stmt : Stmt} (h : form.SpellsStmt inFunction stmt) :
    form.Statement inFunction := by
  induction h with
  | expr he => exact .expression he.expression
  | bind hres he => exact .bind (isReserved_eq_false_iff.mp hres) he.expression
  | print he => exact .print he.expression
  | ifThen hc _ iht => exact .ifThen hc.expression iht
  | ifElse hc _ _ iht ihf => exact .ifElse hc.expression iht ihf
  | block hlen _ ih => exact .block (forall_mem_of_zip hlen ih)
  | ret hin he => exact .ret hin he.expression

/-! ## What is of the language is elaborated -/

theorem exprOf_operator (op : BinaryOp) (args : List Form) :
    exprOf (.list (.symbol op.symbol head :: args) span) = operationOf op args span := by
  simp [exprOf, Form.symbol?, ofText?_symbol, BinaryOp.ofSymbol?_symbol]

theorem exprOf_call (h : IsName name) (args : List Form) :
    exprOf (.list (.symbol name head :: args) span) =
      (do .ok (.call name head (← argsOf args) span)) := by
  obtain ⟨hkeyword, hoperator⟩ := isName_iff.mp h
  simp only [exprOf, Form.symbol?, hkeyword, hoperator, nameOf_symbol .ofFunction h]
  rfl

theorem exists_argsOf {args : List Form} (h : ∀ arg ∈ args, ∃ e, exprOf arg = .ok e) :
    ∃ es, argsOf args = .ok es := by
  induction args with
  | nil => exact ⟨[], by rw [argsOf]⟩
  | cons arg args ih =>
    obtain ⟨⟨e, he⟩, hargs⟩ := List.forall_mem_cons.mp h
    obtain ⟨es, hes⟩ := ih hargs
    exact ⟨e :: es, by rw [argsOf, hes, he]; rfl⟩

/-- Each of the four arithmetic operators has a rule of its own for one operand. -/
theorem exists_exprOf_unary {op : String} {operand : Form} {e : Expr}
    (hop : op ∈ ["+", "-", "*", "/"]) (he : exprOf operand = .ok e) :
    ∃ e', exprOf (.list [.symbol op head, operand] span) = .ok e' := by
  simp only [List.mem_cons, List.not_mem_nil, or_false] at hop
  rcases hop with rfl | rfl | rfl | rfl
  · exact ⟨_, (exprOf_operator .add [operand]).trans (by rw [operationOf, he])⟩
  · exact ⟨_, (exprOf_operator .sub [operand]).trans (by rw [operationOf, he]; rfl)⟩
  · exact ⟨_, (exprOf_operator .mul [operand]).trans (by rw [operationOf, he])⟩
  · exact ⟨_, (exprOf_operator .div [operand]).trans (by rw [operationOf, he]; rfl)⟩

theorem exists_exprOf (h : form.Expression) : ∃ e, exprOf form = .ok e := by
  induction h with
  | number => exact ⟨_, by rw [exprOf]⟩
  | boolean hvalue =>
    rcases hvalue with rfl | rfl
    · exact ⟨_, by rw [exprOf]; rfl⟩
    · exact ⟨_, by rw [exprOf]; rfl⟩
  | @var name span hname =>
    have hkeyword := (isName_iff.mp hname).1
    exact ⟨.var name span, by simp [exprOf, hkeyword, nameOf_symbol .ofVariable hname, Except.map]⟩
  | quote => exact ⟨_, by rw [exprOf]; rfl⟩
  | binary hop _ _ ihl ihr =>
    obtain ⟨op, rfl⟩ := mem_operators_iff.mp hop
    obtain ⟨l, hl⟩ := ihl
    obtain ⟨r, hr⟩ := ihr
    exact ⟨_, by rw [exprOf_operator, operationOf, hr, hl]; rfl⟩
  | unary hop _ ih =>
    obtain ⟨e, he⟩ := ih
    exact exists_exprOf_unary hop he
  | call hname _ ih =>
    obtain ⟨es, hes⟩ := exists_argsOf ih
    exact ⟨_, by rw [exprOf_call hname, hes]; rfl⟩

/-- No head of an expression makes a statement of another kind of it. -/
theorem stmtOf_of_expression (h : form.Expression) :
    stmtOf inFunction form = (exprOf form).map .expr := by
  have operator {op : String} (hop : op ∈ operators) : Keyword.ofText? op = none := by
    obtain ⟨op, rfl⟩ := mem_operators_iff.mp hop
    exact ofText?_symbol op
  cases h with
  | number | boolean | var =>
    rw [stmtOf]
    rintro _ _ _ ⟨⟩
  | quote => rw [stmtOf]; rfl
  | binary hop => simp [stmtOf, Form.symbol?, operator hop]
  | unary hop =>
    have hmem : ∀ op ∈ ["+", "-", "*", "/"], op ∈ operators := by decide
    have hkeyword := operator (hmem _ hop)
    simp [stmtOf, Form.symbol?, hkeyword]
  | call hname =>
    have hkeyword := (isName_iff.mp hname).1
    unfold stmtOf
    simp [Form.symbol?, hkeyword]

theorem exists_stmtsOf (h : ∀ form ∈ forms, ∃ stmt, stmtOf inFunction form = .ok stmt) :
    ∃ stmts, stmtsOf inFunction forms = .ok stmts := by
  induction forms with
  | nil => exact ⟨[], by rw [stmtsOf]⟩
  | cons form forms ih =>
    obtain ⟨⟨stmt, hstmt⟩, hforms⟩ := List.forall_mem_cons.mp h
    obtain ⟨stmts, hstmts⟩ := ih hforms
    exact ⟨stmt :: stmts, by simp [stmtsOf, hstmt, hstmts, Bind.bind, Except.bind]⟩

theorem exists_stmtOf (h : form.Statement inFunction) :
    ∃ stmt, stmtOf inFunction form = .ok stmt := by
  induction h with
  | expression he =>
    obtain ⟨e, h⟩ := exists_exprOf he
    exact ⟨.expr e, by rw [stmtOf_of_expression he, h]; rfl⟩
  | bind hname hvalue =>
    obtain ⟨e, he⟩ := exists_exprOf hvalue
    have hk : Keyword.ofText? "let" = some .letForm := rfl
    simp [stmtOf, Form.symbol?, hk, nameOf_symbol .ofVariable hname, he, Bind.bind, Except.bind]
  | print hvalue =>
    obtain ⟨e, he⟩ := exists_exprOf hvalue
    have hk : Keyword.ofText? "print" = some .printForm := rfl
    simp [stmtOf, Form.symbol?, hk, he, Bind.bind, Except.bind]
  | ifThen hc _ iht =>
    obtain ⟨c, hc⟩ := exists_exprOf hc
    obtain ⟨t, ht⟩ := iht
    have hk : Keyword.ofText? "if" = some .ifForm := rfl
    simp [stmtOf, Form.symbol?, hk, hc, ht, Bind.bind, Except.bind]
  | ifElse hc _ _ iht ihf =>
    obtain ⟨c, hc⟩ := exists_exprOf hc
    obtain ⟨t, ht⟩ := iht
    obtain ⟨f, hf⟩ := ihf
    have hk : Keyword.ofText? "if" = some .ifForm := rfl
    simp [stmtOf, Form.symbol?, hk, hc, ht, hf, Bind.bind, Except.bind]
  | block _ ih =>
    obtain ⟨stmts, hstmts⟩ := exists_stmtsOf ih
    have hk : Keyword.ofText? "do" = some .doForm := rfl
    unfold stmtOf
    simp [Form.symbol?, hk, hstmts, Except.map]
  | ret hin hvalue =>
    obtain ⟨e, he⟩ := exists_exprOf hvalue
    have hk : Keyword.ofText? "return" = some .returnForm := rfl
    simp [stmtOf, Form.symbol?, hk, hin, he, Bind.bind, Except.bind]

/-- Exactly the expressions are elaborated as such. -/
theorem exists_exprOf_iff : (∃ e, exprOf form = .ok e) ↔ form.Expression :=
  ⟨fun ⟨_, he⟩ => (spellsExpr_of_exprOf he).expression, exists_exprOf⟩

/-- Exactly the statements are elaborated as such. -/
theorem exists_stmtOf_iff :
    (∃ stmt, stmtOf inFunction form = .ok stmt) ↔ form.Statement inFunction :=
  ⟨fun ⟨_, hstmt⟩ => (spellsStmt_of_stmtOf hstmt).statement, exists_stmtOf⟩

/-! ## Definitions -/

variable {seen params : List String} {paramForms args : List Form}

/-- Parameters are names, none of which is there twice or was seen before. -/
theorem paramsOf_eq_ok_iff : paramsOf seen paramForms = .ok params ↔
    paramForms.map Form.symbol? = params.map some ∧ (∀ param ∈ params, IsName param) ∧
      params.Nodup ∧ ∀ param ∈ params, param ∉ seen := by
  induction paramForms generalizing seen params with
  | nil =>
    rw [paramsOf]
    constructor
    · rintro ⟨⟩
      simp
    · rintro ⟨hmap, -⟩
      rw [List.map_eq_nil_iff.mp hmap.symm]
  | cons form forms ih =>
    constructor
    · intro h
      rw [paramsOf] at h
      split at h
      · cases h
      obtain ⟨param, hparam, h⟩ := bind_eq_ok.mp h
      split at h
      · cases h
      next hseen =>
      obtain ⟨rest, hrest, h⟩ := bind_eq_ok.mp h
      cases h
      obtain ⟨hsymbol, hres⟩ := nameOf_eq_ok hparam
      obtain ⟨hmap, hnames, hnodup, hnew⟩ := ih.mp hrest
      refine ⟨?_, List.forall_mem_cons.mpr ⟨isReserved_eq_false_iff.mp hres, hnames⟩,
        List.nodup_cons.mpr ⟨fun hmem => hnew _ hmem List.mem_cons_self, hnodup⟩,
        List.forall_mem_cons.mpr ⟨by simpa using hseen, fun param hmem hold => ?_⟩⟩
      · rw [hsymbol, List.map_cons, hmap]
        rfl
      · exact hnew param hmem (List.mem_cons_of_mem _ hold)
    · rintro ⟨hmap, hnames, hnodup, hnew⟩
      cases params with
      | nil => cases hmap
      | cons param params =>
        obtain ⟨hsymbol, hmap⟩ := List.cons.inj hmap
        obtain ⟨hname, hnames⟩ := List.forall_mem_cons.mp hnames
        obtain ⟨hnotin, hnodup⟩ := List.nodup_cons.mp hnodup
        obtain ⟨hfresh, hnew⟩ := List.forall_mem_cons.mp hnew
        have hrest : paramsOf (param :: seen) forms = .ok params := by
          refine ih.mpr ⟨hmap, hnames, hnodup, fun other hmem => ?_⟩
          rintro (_ | ⟨_, hold⟩)
          · exact hnotin hmem
          · exact hnew other hmem hold
        rw [symbol?_eq_some hsymbol]
        simp [paramsOf, Form.symbol?, nameOf_symbol .ofParameter hname, hfresh, hrest, Bind.bind,
          Except.bind]

/-- The items of an `fn` form make a definition exactly if the form defines a function. -/
theorem exists_definitionOf_iff :
    (∃ d, definitionOf args span = .ok d ∧ d.name = name) ↔
      (Form.list (.symbol "fn" head :: args) span).Defines name := by
  constructor
  · rintro ⟨d, hd, rfl⟩
    unfold definitionOf at hd
    split at hd
    · next nameForm paramsForm bodyForms =>
      obtain ⟨name, hname, hd⟩ := bind_eq_ok.mp hd
      obtain ⟨hsymbol, hres⟩ := nameOf_eq_ok hname
      split at hd
      · obtain ⟨params, hparams, hd⟩ := bind_eq_ok.mp hd
        obtain ⟨body, hbody, hd⟩ := bind_eq_ok.mp hd
        cases hd
        obtain ⟨hmap, hnames, hnodup, -⟩ := paramsOf_eq_ok_iff.mp hparams
        rw [hsymbol]
        refine .fn (isReserved_eq_false_iff.mp hres) hmap hnames hnodup ?_
        have hall := forall₂_of_stmtsOf hbody
        exact forall_mem_of_zip hall.length_eq fun form stmt hmem =>
          exists_stmtOf_iff.mp ⟨stmt, (List.forall₂_iff_zip.mp hall).2 hmem⟩
      · cases hd
    · cases hd
  · rintro (@⟨params, paramForms, bodyForms, -, -, at_, list, hname, hmap, hnames, hnodup, hbody⟩)
    obtain ⟨body, hstmts⟩ := exists_stmtsOf fun form hform => exists_stmtOf (hbody form hform)
    have hparams : paramsOf [] paramForms = .ok params :=
      paramsOf_eq_ok_iff.mpr ⟨hmap, hnames, hnodup, nofun⟩
    refine ⟨⟨name, params, body, span⟩, ?_, rfl⟩
    simp [definitionOf, nameOf_symbol .ofFunction hname, hparams, hstmts, Bind.bind, Except.bind]

theorem Form.Expression.head?_ne (h : form.Expression) : form.head? ≠ some "fn" := by
  have notReserved {word : String} (hword : word ≠ "fn") : some word ≠ some "fn" :=
    fun h => hword (Option.some.inj h)
  cases h with
  | number | boolean | var => nofun
  | quote => exact notReserved (by decide)
  | binary hop =>
    refine notReserved ?_
    rintro rfl
    exact absurd hop (by decide)
  | unary hop =>
    refine notReserved ?_
    rintro rfl
    exact absurd hop (by decide)
  | call hname =>
    refine notReserved ?_
    rintro rfl
    exact hname.1 (by decide)

/-- No statement is headed by `fn`. -/
theorem Form.Statement.head?_ne (h : form.Statement inFunction) : form.head? ≠ some "fn" := by
  cases h with
  | expression he => exact he.head?_ne
  | bind | print | ifThen | ifElse | block | ret => simp [head?, symbol?]

theorem Form.Defines.head? (h : form.Defines name) : form.head? = some "fn" := by
  cases h
  rfl

theorem Form.Defines.name_unique {name' : String} (h : form.Defines name)
    (h' : form.Defines name') : name = name' := by
  cases h
  cases h'
  rfl

/-! ## Programs -/

namespace Script

variable {s s' : Script}

/-- A form that is added to a script is a statement, or defines a function of a new name, which then
is one of the script's. -/
theorem cases_of_addForm (h : s.addForm form = .ok s') :
    (form.Statement false ∧ s'.names = s.names) ∨
      ∃ name, form.Defines name ∧ name ∉ s.names ∧ s'.names = s.names ++ [name] := by
  cases addForm_eq_ok_iff.mp h with
  | statement _ hstmt => exact .inl ⟨exists_stmtOf_iff.mp ⟨_, hstmt⟩, by simp⟩
  | @definition d _ hmakes hnew =>
    obtain ⟨hd⟩ := hmakes
    exact .inr ⟨d.name, exists_definitionOf_iff.mp ⟨d, hd, rfl⟩, hnew, by simp⟩

theorem exists_addForm_of_statement (h : form.Statement false) :
    ∃ s', s.addForm form = .ok s' ∧ s'.names = s.names := by
  obtain ⟨stmt, hstmt⟩ := exists_stmtOf h
  have hnot : form.isDefinition = false :=
    Bool.eq_false_iff.mpr (mt Form.isDefinition_iff.mp h.head?_ne)
  exact ⟨_, addForm_eq_ok_iff.mpr (.statement hnot hstmt), by simp⟩

theorem exists_addForm_of_defines (h : form.Defines name) (hnew : name ∉ s.names) :
    ∃ s', s.addForm form = .ok s' ∧ s'.names = s.names ++ [name] := by
  have hdefinition := Form.isDefinition_iff.mpr h.head?
  obtain ⟨head, args, span, rfl⟩ := Form.exists_of_head? h.head?
  obtain ⟨d, hd, rfl⟩ := exists_definitionOf_iff.mpr h
  exact ⟨_, addForm_eq_ok_iff.mpr (.definition hdefinition (.fn hd) hnew), by simp⟩

/-- Forms are added to a script exactly if each is a statement or a definition, and no two define
one name, nor one of them a name of the script. -/
theorem exists_foldlM_addForm_iff :
    (∃ s', forms.foldlM addForm s = .ok s') ↔
      (∀ form ∈ forms, (∃ name, form.Defines name) ∨ form.Statement false) ∧
      (forms.Pairwise fun f g => ∀ name, f.Defines name → ¬ g.Defines name) ∧
      ∀ form ∈ forms, ∀ name, form.Defines name → name ∉ s.names := by
  induction forms generalizing s with
  | nil => exact ⟨fun _ => ⟨nofun, .nil, nofun⟩, fun _ => ⟨s, rfl⟩⟩
  | cons form forms ih =>
    rw [List.forall_mem_cons, List.forall_mem_cons, List.pairwise_cons]
    constructor
    · rintro ⟨s', h⟩
      rw [List.foldlM_cons] at h
      obtain ⟨s₁, h₁, h⟩ := bind_eq_ok.mp h
      obtain ⟨hforms, hdistinct, hnew⟩ := ih.mp ⟨s', h⟩
      rcases cases_of_addForm h₁ with ⟨hstmt, hnames⟩ | ⟨name, hdefines, hfresh, hnames⟩
      · rw [hnames] at hnew
        have hnone (name : String) (h : form.Defines name) : False := hstmt.head?_ne h.head?
        exact ⟨⟨.inr hstmt, hforms⟩, ⟨fun _ _ name h => (hnone name h).elim, hdistinct⟩,
          fun name h => (hnone name h).elim, hnew⟩
      · rw [hnames] at hnew
        refine ⟨⟨.inl ⟨name, hdefines⟩, hforms⟩, ⟨?_, hdistinct⟩, ?_, ?_⟩
        · intro other hother name' h h'
          obtain rfl := hdefines.name_unique h
          exact hnew other hother name h' (by simp)
        · intro name' h
          obtain rfl := hdefines.name_unique h
          exact hfresh
        · intro other hother name' h hold
          exact hnew other hother name' h (List.mem_append_left _ hold)
    · rintro ⟨⟨hform, hforms⟩, ⟨hform', hdistinct⟩, hnew, hnews⟩
      have ⟨s₁, h₁, hs₁⟩ : ∃ s₁, s.addForm form = .ok s₁ ∧
          ∀ other ∈ forms, ∀ name, other.Defines name → name ∉ s₁.names := by
        rcases hform with ⟨name, hdefines⟩ | hstmt
        · obtain ⟨s₁, h₁, hnames⟩ := exists_addForm_of_defines hdefines (hnew name hdefines)
          refine ⟨s₁, h₁, fun other hother name' h hold => ?_⟩
          rw [hnames, List.mem_append, List.mem_singleton] at hold
          rcases hold with hold | rfl
          · exact hnews other hother name' h hold
          · exact hform' other hother name' hdefines h
        · obtain ⟨s₁, h₁, hnames⟩ := exists_addForm_of_statement (s := s) hstmt
          exact ⟨s₁, h₁, hnames ▸ hnews⟩
      obtain ⟨s', hs'⟩ := ih.mpr ⟨hforms, hdistinct, hs₁⟩
      exact ⟨s', by rw [List.foldlM_cons, h₁]; exact hs'⟩

end Script

/-- Forms make a program exactly if each defines a function or is a statement without `return`, and
no two define functions of one name. -/
theorem Program.ofForms_accepts (forms : List Form) :
    (∃ p, ofForms forms = .ok p) ↔
      (∀ form ∈ forms, (∃ name, form.Defines name) ∨ form.Statement false) ∧
      forms.Pairwise fun f g => ∀ name, f.Defines name → ¬ g.Defines name := by
  have hnames (form : Form) (name : String) (_ : form.Defines name) : name ∉ Script.empty.names :=
    nofun
  have hscript := @Script.exists_foldlM_addForm_iff forms .empty
  constructor
  · rintro ⟨p, hp⟩
    obtain ⟨s, hs, -⟩ := map_eq_ok.mp hp
    obtain ⟨hforms, hdistinct, -⟩ := hscript.mp ⟨s, hs⟩
    exact ⟨hforms, hdistinct⟩
  · rintro ⟨hforms, hdistinct⟩
    obtain ⟨s, hs⟩ := hscript.mpr ⟨hforms, hdistinct, fun form _ => hnames form⟩
    exact ⟨s.lower, map_eq_ok.mpr ⟨s, hs, rfl⟩⟩

end TokenMachine
