/-
  TokenMachine.Proofs.Script.Grammar — the language, form by form.

  `SpellsExpr` and `SpellsStmt` are the grammar of the language, one rule for each kind
  of form, with the expression or statement that the form spells. A script is spelled by
  its forms: those headed by `fn` are its definitions, all others its statements. What is
  elaborated is spelled by these rules (`spellsExpr_of_exprOf`, `spellsStmt_of_stmtOf`), so what
  a form means is proved by induction on the rules, and never by opening `exprOf` or `stmtOf`.
-/

import Mathlib.Data.List.Forall2
import TokenMachine.Machine.Cost
import TokenMachine.Script.Elaborate

namespace TokenMachine

/-! ## The grammar -/

inductive Form.SpellsExpr : Form → Expr → Prop
  | number {raw : String} {span : Span} : SpellsExpr (.number raw span) (.number raw span)
  | boolean {b : Bool} {k : Keyword} {span : Span} :
      k = (if b then .trueAtom else .falseAtom) → SpellsExpr (.symbol k.text span) (.boolean b span)
  | quote {value : String} {span head at_ : Span} :
      SpellsExpr (.list [.symbol Keyword.quoteForm.text head, .text value at_] span)
        (.text value span)
  | var {name : String} {span : Span} :
      isReserved name = false → SpellsExpr (.symbol name span) (.var name span)
  | binary {op : BinaryOp} {lhs rhs : Form} {l r : Expr} {span head : Span} :
      SpellsExpr lhs l → SpellsExpr rhs r →
      SpellsExpr (.list [.symbol op.symbol head, lhs, rhs] span) (.binary op l r span)
  | negate {operand : Form} {e : Expr} {span head : Span} :
      SpellsExpr operand e →
      SpellsExpr (.list [.symbol BinaryOp.sub.symbol head, operand] span)
        (.binary .sub (.number "0" span) e span)
  | invert {operand : Form} {e : Expr} {span head : Span} :
      SpellsExpr operand e →
      SpellsExpr (.list [.symbol BinaryOp.div.symbol head, operand] span)
        (.binary .div (.number "1" span) e span)
  | same {op : BinaryOp} {operand : Form} {e : Expr} {span head : Span} :
      op = .add ∨ op = .mul → SpellsExpr operand e →
      SpellsExpr (.list [.symbol op.symbol head, operand] span) e
  | call {callee : String} {args : List Form} {es : List Expr} {span head : Span} :
      isReserved callee = false → args.length = es.length →
      (∀ arg e, (arg, e) ∈ args.zip es → SpellsExpr arg e) →
      SpellsExpr (.list (.symbol callee head :: args) span) (.call callee head es span)

/-- The form is a statement, inside a function or not, and spells this one. -/
inductive Form.SpellsStmt (inFunction : Bool) : Form → Stmt → Prop
  | expr {form : Form} {e : Expr} : form.SpellsExpr e → SpellsStmt inFunction form (.expr e)
  | bind {name : String} {value : Form} {e : Expr} {span head at_ : Span} :
      isReserved name = false → value.SpellsExpr e →
      SpellsStmt inFunction
        (.list [.symbol Keyword.letForm.text head, .symbol name at_, value] span)
        (.bind name at_ e span)
  | print {value : Form} {e : Expr} {span head : Span} :
      value.SpellsExpr e →
      SpellsStmt inFunction (.list [.symbol Keyword.printForm.text head, value] span)
        (.print e span)
  | ifThen {condition thenForm : Form} {c : Expr} {t : Stmt} {span head : Span} :
      condition.SpellsExpr c → SpellsStmt inFunction thenForm t →
      SpellsStmt inFunction (.list [.symbol Keyword.ifForm.text head, condition, thenForm] span)
        (.ifThen c t span)
  | ifElse {condition thenForm elseForm : Form} {c : Expr} {t f : Stmt} {span head : Span} :
      condition.SpellsExpr c → SpellsStmt inFunction thenForm t →
      SpellsStmt inFunction elseForm f →
      SpellsStmt inFunction
        (.list [.symbol Keyword.ifForm.text head, condition, thenForm, elseForm] span)
        (.ifElse c t elseForm.span f span)
  | block {forms : List Form} {stmts : List Stmt} {span head : Span} :
      forms.length = stmts.length →
      (∀ form stmt, (form, stmt) ∈ forms.zip stmts → SpellsStmt inFunction form stmt) →
      SpellsStmt inFunction (.list (.symbol Keyword.doForm.text head :: forms) span) (.block stmts)
  | ret {value : Form} {e : Expr} {span head : Span} :
      inFunction = true → value.SpellsExpr e →
      SpellsStmt inFunction (.list [.symbol Keyword.returnForm.text head, value] span) (.ret e span)

inductive Form.SpellsDefinition : Form → Definition → Prop
  | fn {name : String} {params : List String} {paramForms bodyForms : List Form} {body : List Stmt}
      {span head at_ list : Span} :
      List.Forall₂ (fun form param => form.symbol? = some param) paramForms params →
      List.Forall₂ (Form.SpellsStmt true) bodyForms body →
      SpellsDefinition
        (.list (.symbol Keyword.fnForm.text head :: .symbol name at_ :: .list paramForms list ::
          bodyForms) span)
        ⟨name, params, body, span⟩

def Form.isDefinition (form : Form) : Bool := form.head? == some Keyword.fnForm.text

/-- The forms spell the script: each is one of its definitions or of its statements. -/
structure Script.SpelledBy (s : Script) (forms : List Form) : Prop where
  main : List.Forall₂ (Form.SpellsStmt false) (forms.filter (!·.isDefinition)) s.main
  definitions : List.Forall₂ Form.SpellsDefinition (forms.filter (·.isDefinition)) s.definitions
  distinct : (s.definitions.map (·.name)).Nodup

/-! ## Induction over forms -/

theorem Form.sizeOf_item_lt {items : List Form} {item : Form} (span : Span) (h : item ∈ items) :
    sizeOf item < sizeOf (Form.list items span) := by
  have := List.sizeOf_lt_of_mem h
  simp only [Form.list.sizeOf_spec]
  omega

/-- A property of every form, if a list has it as soon as its items have. -/
theorem Form.induction {P : Form → Prop}
    (atom : ∀ form, (∀ items span, form ≠ .list items span) → P form)
    (list : ∀ items span, (∀ item ∈ items, P item) → P (.list items span)) (form : Form) : P form :=
  match form with
  | .number _ _ | .text _ _ | .symbol _ _ => atom _ nofun
  | .list items span =>
    list items span fun item h =>
      have := sizeOf_item_lt span h
      Form.induction atom list item
termination_by sizeOf form

/-! ## Forms without calls -/

/-- Whether the form is headed by a name that is not reserved, as a call is. -/
def Form.isCall (form : Form) : Bool := form.head?.any (!isReserved ·)

mutual

def Form.callFree : Form → Bool
  | .list items span => !(Form.list items span).isCall && Form.allCallFree items
  | _ => true

def Form.allCallFree : List Form → Bool
  | [] => true
  | item :: rest => item.callFree && Form.allCallFree rest

end

theorem Form.allCallFree_iff {items : List Form} :
    Form.allCallFree items = true ↔ ∀ item ∈ items, item.callFree = true := by
  induction items with
  | nil => simp [allCallFree]
  | cons item rest ih => simp [allCallFree, ih]

theorem Form.callFree_list_iff {items : List Form} {span : Span} :
    (Form.list items span).callFree = true ↔
      (Form.list items span).isCall = false ∧ ∀ item ∈ items, item.callFree = true := by
  rw [callFree, Bool.and_eq_true, Bool.not_eq_true', allCallFree_iff]

theorem Form.callFree_of_mem {items : List Form} {item : Form} {span : Span} (h : item ∈ items)
    (hfree : (Form.list items span).callFree = true) : item.callFree = true :=
  (callFree_list_iff.mp hfree).2 item h

/-! ## What elaboration accepts -/

open State (bind_eq_ok)

theorem ofText?_of_isReserved {name : String} (h : isReserved name = false) :
    Keyword.ofText? name = none ∧ BinaryOp.ofSymbol? name = none := by
  simpa [isReserved] using h

theorem ofText?_symbol (op : BinaryOp) : Keyword.ofText? op.symbol = none := by
  cases op <;> decide

theorem map_eq_ok {α β ε : Type} {f : α → β} {x : Except ε α} {b : β} :
    x.map f = .ok b ↔ ∃ a, x = .ok a ∧ f a = b := by
  cases x <;> simp [Except.map]

theorem symbol?_eq_some {form : Form} {name : String} (h : form.symbol? = some name) :
    form = .symbol name form.span := by
  cases form with
  | symbol => cases h; rfl
  | _ => cases h

theorem nameOf_eq_ok {role : NameRole} {form : Form} {name : String}
    (h : nameOf role form = .ok name) :
    form = .symbol name form.span ∧ isReserved name = false := by
  unfold nameOf at h
  split at h
  · cases h
  · next hs =>
    split at h
    · cases h
    · next hr => cases h; exact ⟨symbol?_eq_some hs, by simpa using hr⟩

theorem forall₂_of_argsOf {args : List Form} {es : List Expr} (h : argsOf args = .ok es) :
    List.Forall₂ (fun arg e => exprOf arg = .ok e) args es := by
  induction args generalizing es with
  | nil => rw [argsOf] at h; cases h; exact .nil
  | cons arg args ih =>
    rw [argsOf] at h
    obtain ⟨rest, hrest, h⟩ := bind_eq_ok.mp h
    obtain ⟨e, he, h⟩ := bind_eq_ok.mp h
    cases h
    exact .cons he (ih hrest)

/-- An operator's operands are expressions, two or, for the arithmetic ones, one. -/
theorem spellsExpr_of_operationOf {op : BinaryOp} {args : List Form} {span head : Span} {e : Expr}
    (ih : ∀ arg ∈ args, ∀ e, exprOf arg = .ok e → arg.SpellsExpr e)
    (h : operationOf op args span = .ok e) :
    (Form.list (.symbol op.symbol head :: args) span).SpellsExpr e := by
  unfold operationOf at h
  split at h
  · next lhs rhs =>
    obtain ⟨r, hr, h⟩ := bind_eq_ok.mp h
    obtain ⟨l, hl, h⟩ := bind_eq_ok.mp h
    cases h
    exact .binary (ih lhs (by simp) l hl) (ih rhs (by simp) r hr)
  · next operand =>
    obtain ⟨a, ha, h⟩ := bind_eq_ok.mp h
    cases h
    exact .negate (ih operand (by simp) a ha)
  · next operand =>
    obtain ⟨a, ha, h⟩ := bind_eq_ok.mp h
    cases h
    exact .invert (ih operand (by simp) a ha)
  · next operand => exact .same (.inl rfl) (ih operand (by simp) e h)
  · next operand => exact .same (.inr rfl) (ih operand (by simp) e h)
  · cases h

theorem zip_of_forall₂ {α β : Type} {R S : α → β → Prop} {as : List α} {bs : List β}
    (h : List.Forall₂ R as bs) (hRS : ∀ a ∈ as, ∀ b, R a b → S a b) :
    ∀ a b, (a, b) ∈ as.zip bs → S a b := by
  intro a b hab
  exact hRS a (List.of_mem_zip hab).1 b (List.forall₂_iff_zip.mp h |>.2 hab)

theorem forall₂_of_zip {α β : Type} {R : α → β → Prop} {as : List α} {bs : List β}
    (hlen : as.length = bs.length) (h : ∀ a b, (a, b) ∈ as.zip bs → R a b) :
    List.Forall₂ R as bs :=
  List.forall₂_iff_zip.mpr ⟨hlen, fun hab => h _ _ hab⟩

theorem map_eq_map_iff_forall₂ {α β γ : Type} {f : α → γ} {g : β → γ} {as : List α} {bs : List β} :
    as.map f = bs.map g ↔ List.Forall₂ (fun a b => f a = g b) as bs := by
  rw [← List.forall₂_eq_eq_eq, List.forall₂_map_left_iff, List.forall₂_map_right_iff]

theorem forall_mem_of_zip {α β : Type} {P : α → Prop} {as : List α} {bs : List β}
    (hlen : as.length = bs.length) (h : ∀ a b, (a, b) ∈ as.zip bs → P a) : ∀ a ∈ as, P a := by
  have hall : List.Forall₂ (fun a _ => P a ∧ True) as bs :=
    forall₂_of_zip hlen fun a b hab => ⟨h a b hab, trivial⟩
  exact ((List.forall₂_and_left as bs).mp hall).1

/-- What holds of all that the forms of a list spell. -/
theorem forall_mem_of_forall₂ {α β : Type} {R : α → β → Prop} {Q : β → Prop} {as : List α}
    {bs : List β} (h : List.Forall₂ R as bs) (hQ : ∀ a ∈ as, ∀ b, R a b → Q b) :
    ∀ b ∈ bs, Q b := by
  induction h with
  | nil =>
    intro b hb
    cases hb
  | cons hab _ ih =>
    obtain ⟨ha, has⟩ := List.forall_mem_cons.mp hQ
    exact List.forall_mem_cons.mpr ⟨ha _ hab, ih has⟩

/-- A call's head names a function, and its arguments are expressions. -/
theorem spellsExpr_of_call {head : Form} {name : String} {args : List Form} {span : Span} {e : Expr}
    (hs : head.symbol? = some name)
    (ih : ∀ arg ∈ args, ∀ e, exprOf arg = .ok e → arg.SpellsExpr e)
    (h : (do
      let callee ← nameOf .ofFunction head
      .ok (Expr.call callee head.span (← argsOf args) span)) = .ok e) :
    (Form.list (.symbol name head.span :: args) span).SpellsExpr e := by
  obtain ⟨callee, hcallee, h⟩ := bind_eq_ok.mp h
  obtain ⟨es, hes, h⟩ := bind_eq_ok.mp h
  cases h
  obtain ⟨hsym, hres⟩ := nameOf_eq_ok hcallee
  rw [hsym] at hs
  cases hs
  have hall := forall₂_of_argsOf hes
  exact .call hres hall.length_eq (zip_of_forall₂ hall ih)

theorem spellsExpr_of_exprOf {form : Form} {e : Expr} (h : exprOf form = .ok e) :
    form.SpellsExpr e := by
  induction form using Form.induction generalizing e with
  | atom form hform =>
    unfold exprOf at h
    split at h
    · cases h; exact .number
    · cases h
    · split at h
      · next hk => cases h; rw [← Keyword.text_of_ofText? hk]; exact .boolean rfl
      · next hk => cases h; rw [← Keyword.text_of_ofText? hk]; exact .boolean rfl
      · obtain ⟨name, hname, rfl⟩ := map_eq_ok.mp h
        obtain ⟨hsym, hres⟩ := nameOf_eq_ok hname
        cases hsym
        exact .var hres
    · exact absurd rfl (hform _ _)
    · exact absurd rfl (hform _ _)
  | list items span ih =>
    cases items with
    | nil => unfold exprOf at h; cases h
    | cons head args =>
    have ih' : ∀ arg ∈ args, ∀ e, exprOf arg = .ok e → arg.SpellsExpr e :=
      fun arg harg e he => ih arg (List.mem_cons_of_mem _ harg) he
    unfold exprOf at h
    split at h
    · cases h
    · next name hs =>
    rw [symbol?_eq_some hs]
    split at h
    · next hk =>
      rw [← Keyword.text_of_ofText? hk]
      split at h
      · cases h; exact .quote
      · cases h
      · cases h
    -- No other keyword heads an expression.
    all_goals first
      | cases h
      | split at h
        · next op hop =>
          rw [← BinaryOp.symbol_of_ofSymbol? hop]
          exact spellsExpr_of_operationOf ih' h
        · exact spellsExpr_of_call hs ih' h

theorem forall₂_of_stmtsOf {inFunction : Bool} {forms : List Form} {stmts : List Stmt}
    (h : stmtsOf inFunction forms = .ok stmts) :
    List.Forall₂ (fun form stmt => stmtOf inFunction form = .ok stmt) forms stmts := by
  induction forms generalizing stmts with
  | nil => rw [stmtsOf] at h; cases h; exact .nil
  | cons form forms ih =>
    rw [stmtsOf] at h
    obtain ⟨stmt, hstmt, h⟩ := bind_eq_ok.mp h
    obtain ⟨rest, hrest, h⟩ := bind_eq_ok.mp h
    cases h
    exact .cons hstmt (ih hrest)

/-- A head that is a keyword. -/
theorem keyword_of_head {head : Form} {k : Keyword}
    (h : head.symbol?.bind Keyword.ofText? = some k) :
    head = .symbol k.text head.span := by
  obtain ⟨name, hname, hk⟩ := Option.bind_eq_some_iff.mp h
  rw [Keyword.text_of_ofText? hk]
  exact symbol?_eq_some hname

theorem spellsStmt_of_exprOf {inFunction : Bool} {form : Form} {stmt : Stmt}
    (h : (exprOf form).map Stmt.expr = .ok stmt) : form.SpellsStmt inFunction stmt := by
  obtain ⟨e, he, rfl⟩ := map_eq_ok.mp h
  exact .expr (spellsExpr_of_exprOf he)

theorem spellsStmt_of_stmtOf {inFunction : Bool} {form : Form} {stmt : Stmt}
    (h : stmtOf inFunction form = .ok stmt) : form.SpellsStmt inFunction stmt := by
  induction form using Form.induction generalizing stmt with
  | atom form hform =>
    rw [stmtOf] at h
    · exact spellsStmt_of_exprOf h
    · intro head args span hl
      exact hform _ _ hl
  | list items span ih =>
    cases items with
    | nil => rw [stmtOf] at h; exact spellsStmt_of_exprOf h; nofun
    | cons head args =>
    have ih' : ∀ arg ∈ args, ∀ stmt, stmtOf inFunction arg = .ok stmt →
        arg.SpellsStmt inFunction stmt :=
      fun arg harg stmt hs => ih arg (List.mem_cons_of_mem _ harg) hs
    unfold stmtOf at h
    split at h
    · next hk =>
      rw [keyword_of_head hk]
      split at h
      · next target value =>
        obtain ⟨name, hname, h⟩ := bind_eq_ok.mp h
        obtain ⟨e, he, h⟩ := bind_eq_ok.mp h
        obtain ⟨hsym, hres⟩ := nameOf_eq_ok hname
        cases h
        rw [hsym]
        exact .bind hres (spellsExpr_of_exprOf he)
      · cases h
    · next hk =>
      rw [keyword_of_head hk]
      split at h
      · obtain ⟨e, he, h⟩ := bind_eq_ok.mp h
        cases h
        exact .print (spellsExpr_of_exprOf he)
      · cases h
    · next hk =>
      rw [keyword_of_head hk]
      split at h
      · next condition thenForm =>
        obtain ⟨c, hc, h⟩ := bind_eq_ok.mp h
        obtain ⟨t, ht, h⟩ := bind_eq_ok.mp h
        cases h
        exact .ifThen (spellsExpr_of_exprOf hc) (ih' thenForm (by simp) t ht)
      · next condition thenForm elseForm =>
        obtain ⟨c, hc, h⟩ := bind_eq_ok.mp h
        obtain ⟨t, ht, h⟩ := bind_eq_ok.mp h
        obtain ⟨f, hf, h⟩ := bind_eq_ok.mp h
        cases h
        exact .ifElse (spellsExpr_of_exprOf hc) (ih' thenForm (by simp) t ht)
          (ih' elseForm (by simp) f hf)
      · cases h
    · next hk =>
      rw [keyword_of_head hk]
      obtain ⟨stmts, hs, rfl⟩ := map_eq_ok.mp h
      have hall := forall₂_of_stmtsOf hs
      exact .block hall.length_eq (zip_of_forall₂ hall ih')
    · next hk =>
      rw [keyword_of_head hk]
      split at h
      · next hin =>
        split at h
        · obtain ⟨e, he, h⟩ := bind_eq_ok.mp h
          cases h
          exact .ret hin (spellsExpr_of_exprOf he)
        · cases h
      · cases h
    · cases h
    · exact spellsStmt_of_exprOf h

theorem spellsStmts_of_stmtsOf {inFunction : Bool} {forms : List Form} {stmts : List Stmt}
    (h : stmtsOf inFunction forms = .ok stmts) :
    List.Forall₂ (Form.SpellsStmt inFunction) forms stmts :=
  (forall₂_of_stmtsOf h).imp fun _ _ => spellsStmt_of_stmtOf

theorem symbols_of_paramsOf {seen params : List String} {forms : List Form}
    (h : paramsOf seen forms = .ok params) :
    List.Forall₂ (fun form param => form.symbol? = some param) forms params := by
  induction forms generalizing seen params with
  | nil => rw [paramsOf] at h; cases h; exact .nil
  | cons form forms ih =>
    rw [paramsOf] at h
    split at h
    · cases h
    · next name _ =>
      obtain ⟨param, hparam, h⟩ := bind_eq_ok.mp h
      split at h
      · cases h
      · obtain ⟨rest, hrest, h⟩ := bind_eq_ok.mp h
        cases h
        refine .cons ?_ (ih hrest)
        rw [(nameOf_eq_ok hparam).1]
        rfl

theorem spellsDefinition_of_definitionOf {head : Form} {args : List Form} {span : Span}
    {d : Definition} (hh : head.symbol? = some Keyword.fnForm.text)
    (h : definitionOf args span = .ok d) : (Form.list (head :: args) span).SpellsDefinition d := by
  rw [symbol?_eq_some hh]
  unfold definitionOf at h
  split at h
  · next nameForm paramsForm bodyForms =>
    obtain ⟨name, hname, h⟩ := bind_eq_ok.mp h
    rw [(nameOf_eq_ok hname).1]
    split at h
    · obtain ⟨params, hparams, h⟩ := bind_eq_ok.mp h
      obtain ⟨body, hbody, h⟩ := bind_eq_ok.mp h
      cases h
      exact .fn (symbols_of_paramsOf hparams) (spellsStmts_of_stmtsOf hbody)
    · cases h
  · cases h

end TokenMachine
