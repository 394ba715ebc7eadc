/-
  TokenMachine.Proofs.Script.Nesting — an application to many arguments, and its nestings.

  Written flat, `(+ 1 2 3 4)`, or nested by hand in part or in whole, `(+ 1 (+ 2 3 4))`: these are
  spellings of one form (`Form.SameNesting`), wherever in it the application stands, unless it
  is quoted. Desugaring looks at no span (`Form.bare_desugar`), and takes an application and
  the same with its arguments from the second on nested to one form; so it takes all spellings
  to one, spans aside (`Form.SameNesting.bare_desugar`). What compiles from there has the same
  text, and runs the same (`Program.nestings_compile_alike`).
-/

import Mathlib.Logic.Relation
import TokenMachine.Proofs.Machine.Spelling
import TokenMachine.Proofs.Script.NormalForm

namespace TokenMachine

namespace Form

variable {form form' head first : Form} {items items' rest : List Form} {span : Span}

/-! ## Forms without their spans -/

theorem bare_list (items : List Form) (span : Span) :
    (list items span).bare = list (items.map bare) .dummy := by
  rw [bare, bareItems_eq_map]

@[simp] theorem bare_bare (form : Form) : form.bare.bare = form.bare := by
  induction form using Form.induction with
  | atom form hatom =>
    cases form with
    | list items span => exact absurd rfl (hatom items span)
    | _ => rfl
  | list items span ih =>
    rw [bare_list, bare_list, List.map_map]
    exact congrArg (list · .dummy) (List.map_congr_left ih)

@[simp] theorem bare_withSpan (form : Form) (span : Span) :
    (form.withSpan span).bare = form.bare := by
  cases form <;> rfl

/-- Whether a list quotes is said by its symbols. -/
theorem isQuoteList_eq (items : List Form) :
    isQuoteList items = match items.map symbol? with
      | [head, _] => head == some "quote"
      | _ => false := by
  match items with
  | [] | [_] | [_, _] | _ :: _ :: _ :: _ => rfl

theorem bare_nestRight (head first : Form) (rest : List Form) :
    (nestRight head first rest).bare =
      (nestRight head.bare first.bare (rest.map bare)).bare := by
  induction rest generalizing first with
  | nil => exact first.bare_bare.symm
  | cons second rest ih =>
    rw [List.map_cons, nestRight, nestRight]
    simp only [bare_list, List.map_cons, bare_bare, ih second]

theorem bare_nestVariadic (items : List Form) (span : Span) :
    (nestVariadic items span).bare = (nestVariadic (items.map bare) .dummy).bare := by
  have hlist : (list items span).bare = (list (items.map bare) .dummy).bare := by
    rw [← bare_list items span, bare_bare]
  match items, hlist with
  | [], hlist | [_], hlist | [_, _], hlist | [_, _, _], hlist => exact hlist
  | head :: first :: second :: third :: rest, hlist =>
    simp only [List.map_cons, nestVariadic, symbol?_bare] at hlist ⊢
    split
    · split
      · rw [bare_withSpan, bare_withSpan, bare_nestRight, List.map_cons, List.map_cons]
      · exact hlist
    · exact hlist

/-- A list that does not quote is desugared by its items, spans aside. -/
theorem bare_desugar_list (h : isQuoteList items = false) (span : Span) :
    (list items span).desugar.bare =
      (nestVariadic (items.map fun item => item.desugar.bare) .dummy).bare := by
  rw [desugar, h, desugarItems_eq_map]
  simp only [Bool.false_eq_true, if_false]
  rw [bare_nestVariadic, List.map_map]
  rfl

/-- Desugaring looks at no span. -/
theorem bare_desugar (form : Form) : form.desugar.bare = form.bare.desugar.bare := by
  induction form using Form.induction with
  | atom form hatom =>
    cases form with
    | list items span => exact absurd rfl (hatom items span)
    | _ => rfl
  | list items span ih =>
    have hquote : isQuoteList (items.map bare) = isQuoteList items := by
      have hsymbols : items.map (symbol? ∘ bare) = items.map symbol? :=
        List.map_congr_left fun item _ => item.symbol?_bare
      rw [isQuoteList_eq, isQuoteList_eq, List.map_map, hsymbols]
    cases hitems : isQuoteList items with
    | true =>
      rw [desugar, if_pos hitems, bare_list, desugar, if_pos (hquote.trans hitems),
        ← bare_list items span, bare_bare]
    | false =>
      rw [bare_list, bare_desugar_list hitems, bare_desugar_list (hquote.trans hitems),
        List.map_map]
      exact congrArg (fun items => (nestVariadic items .dummy).bare) (List.map_congr_left ih)

/-- An application to two arguments or more nests to the right. -/
theorem bare_desugar_application {name : String} (hname : name ∈ ["+", "-", "*", "/"])
    (at_ : Span) (first second : Form) (rest : List Form) (span : Span) :
    (list (.symbol name at_ :: first :: second :: rest) span).desugar.bare =
      (nestRight (.symbol name .dummy) first.desugar.bare
        ((second :: rest).map fun arg => arg.desugar.bare)).bare := by
  rw [bare_desugar_list rfl]
  cases rest with
  | nil => rfl
  | cons third rest =>
    simp only [List.map_cons]
    rw [nestVariadic_of_takesMany hname rfl, bare_withSpan]
    rfl

/-- The arguments stay in their order. -/
theorem bare_nestRight_eq_foldr {args : List Form} {last : Form}
    (h : first :: rest = args ++ [last]) :
    (nestRight head first rest).bare =
      args.foldr (fun arg nested => .list [head.bare, arg.bare, nested] .dummy) last.bare := by
  induction rest generalizing first args with
  | nil =>
    cases args with
    | nil =>
      cases h
      rfl
    | cons arg args => simp at h
  | cons second rest ih =>
    cases args with
    | nil => simp at h
    | cons arg args =>
      obtain ⟨rfl, hrest⟩ := List.cons.inj h
      rw [nestRight, bare_list, List.foldr_cons, ← ih hrest]
      rfl

/-! ## Spellings of one form -/

/-- One nesting by hand, of an application of `+`, `-`, `*` or `/` to at least three arguments,
anywhere but in a list `(quote x)`; or other spans. -/
inductive NestsOnce : Form → Form → Prop
  | application {name : String} {at_ inner span : Span} {first second third : Form}
      {rest : List Form} :
      name ∈ ["+", "-", "*", "/"] →
      NestsOnce (.list (.symbol name at_ :: first :: second :: third :: rest) span)
        (.list [.symbol name at_, first, .list (.symbol name at_ :: second :: third :: rest) inner]
          span)
  | item {before after : List Form} {item item' : Form} {span : Span} :
      isQuoteList (before ++ item :: after) = false → NestsOnce item item' →
      NestsOnce (.list (before ++ item :: after) span) (.list (before ++ item' :: after) span)
  | respan {form form' : Form} : form.bare = form'.bare → NestsOnce form form'

/-- The forms differ in how applications to many arguments are nested, and in spans. -/
def SameNesting : Form → Form → Prop := Relation.EqvGen NestsOnce

theorem NestsOnce.symbol? (h : form.NestsOnce form') : form.symbol? = form'.symbol? := by
  cases h with
  | application | item => rfl
  | respan hbare => rw [← form.symbol?_bare, hbare, form'.symbol?_bare]

theorem NestsOnce.bare_desugar (h : form.NestsOnce form') :
    form.desugar.bare = form'.desugar.bare := by
  induction h with
  | @application name at_ inner span first second third rest hname =>
    rw [bare_desugar_application hname, bare_desugar_application hname]
    simp only [List.map_cons, List.map_nil, bare_desugar_application hname, nestRight, bare_list,
      bare_bare]
  | @item before after item item' span hquote hitem ih =>
    have hquote' : isQuoteList (before ++ item' :: after) = false := by
      rw [← hquote, isQuoteList_eq, isQuoteList_eq]
      simp only [List.map_append, List.map_cons, hitem.symbol?]
    rw [bare_desugar_list hquote, bare_desugar_list hquote']
    simp only [List.map_append, List.map_cons, ih]
  | @respan form form' hbare => rw [form.bare_desugar, hbare, ← form'.bare_desugar]

/-- Desugaring takes all spellings to one. -/
theorem SameNesting.bare_desugar (h : form.SameNesting form') :
    form.desugar.bare = form'.desugar.bare := by
  induction h with
  | rel _ _ h => exact h.bare_desugar
  | refl => rfl
  | symm _ _ _ ih => exact ih.symm
  | trans _ _ _ _ _ ih ih' => exact ih.trans ih'

/-- Forms of one spelling, spans aside, are of one shape. -/
theorem alike_of_bare_eq (h : form.bare = form'.bare) :
    form.Alike (fun _ _ => True) True form' := by
  induction form using Form.induction generalizing form' with
  | atom form hatom =>
    cases form with
    | list items span => exact absurd rfl (hatom items span)
    | number => cases form' <;> cases h; exact .number trivial
    | text => cases form' <;> cases h; exact .text trivial trivial
    | symbol => cases form' <;> cases h; exact .symbol trivial
  | list items span ih =>
    cases form' with
    | list items' span' =>
      rw [bare_list, bare_list, list.injEq, map_eq_map_iff_forall₂] at h
      exact .list h.1.length_eq (zip_of_forall₂ h.1 fun item hitem _ hbare => ih item hitem hbare)
        trivial
    | _ => cases h

end Form

namespace Program

variable {p q : Program} {forms forms' : List Form} {S : Span → Span → Prop}

theorem Alike.spellings (h : p.Alike S q) :
    p.main.map (·.text) = q.main.map (·.text) ∧
      p.functions.defs.map FunctionDef.spelling = q.functions.defs.map FunctionDef.spelling := by
  refine ⟨h.main.map_text, map_eq_map_iff_forall₂.mpr (h.functions.imp fun f f' hf => ?_)⟩
  rw [FunctionDef.spelling, FunctionDef.spelling, hf.name, hf.params, hf.body.map_text]

theorem Alike.sameText (h : p.Alike S q) : p.SameText q :=
  ⟨h.spellings.1, FunctionTable.map_spelling_get? fun _ => by rw [h.spellings.2]⟩

/-- The two are programs of the same tokens, their spans aside, that run the same at every limit on
open calls: they print the same lines, and end with the same stack and counters, or in errors that
differ in spans alone. Or they are compile errors that differ in spans alone. -/
inductive Matches : Except CompileError Program → Except CompileError Program → Prop
  | program {p q : Program} :
      p.main.map (·.text) = q.main.map (·.text) →
      p.functions.defs.map FunctionDef.spelling = q.functions.defs.map FunctionDef.spelling →
      (∀ config, (p.run config).printed = (q.run config).printed ∧
        (p.run config).result.mapError RunError.spelling =
          (q.run config).result.mapError RunError.spelling) →
      Matches (.ok p) (.ok q)
  | error {e e' : CompileError} : e.bare = e'.bare → Matches (.error e) (.error e')

/-- What spellings of the same forms compile to. -/
theorem matches_of_bare_eq (h : forms.map Form.bare = forms'.map Form.bare) :
    Matches (ofForms forms) (ofForms forms') := by
  have hforms : List.Forall₂ (Form.Alike (fun _ _ => True) True) forms forms' :=
    (map_eq_map_iff_forall₂.mp h).imp fun _ _ hbare => Form.alike_of_bare_eq hbare
  have halike := alike_ofForms hforms
  generalize ofForms forms = x at halike
  generalize ofForms forms' = y at halike
  cases halike with
  | ok hp => exact .program hp.spellings.1 hp.spellings.2 fun config => hp.sameText.run config
  | error he => exact .error he.bare

/-- Desugaring nests to the right, with the arguments in their order. And it does so wherever no
`(quote x)` is around: forms that differ in how much of the nesting is done by hand, anywhere in
them, desugar to the same, spans aside; and they compile to the same tokens and run the same, or
fail to compile with the same error, spans aside. -/
theorem nestings_compile_alike :
    (∀ name ∈ ["+", "-", "*", "/"], ∀ (args : List Form) (last : Form) (at_ span : Span),
      args ≠ [] →
      (Form.list (.symbol name at_ :: (args ++ [last])) span).desugar.bare =
        args.foldr (fun arg nested => .list [.symbol name .dummy, arg.desugar.bare, nested] .dummy)
          last.desugar.bare) ∧
    ∀ forms forms' : List Form, List.Forall₂ Form.SameNesting forms forms' →
      (Form.desugarItems forms).map Form.bare = (Form.desugarItems forms').map Form.bare ∧
      Matches (ofForms (Form.desugarItems forms)) (ofForms (Form.desugarItems forms')) := by
  constructor
  · intro name hname args last at_ span hargs
    obtain ⟨first, args, rfl⟩ := List.exists_cons_of_ne_nil hargs
    obtain ⟨second, rest, hrest⟩ : ∃ second rest, args ++ [last] = second :: rest :=
      List.exists_cons_of_ne_nil (by simp)
    have hdesugared : first.desugar.bare :: ((second :: rest).map fun arg => arg.desugar.bare) =
        ((first :: args).map fun arg => arg.desugar.bare) ++ [last.desugar.bare] := by
      rw [← hrest, List.map_append]
      rfl
    rw [List.cons_append, hrest, Form.bare_desugar_application hname,
      Form.bare_nestRight_eq_foldr hdesugared, List.foldr_map]
    simp only [Form.bare_bare]
    rfl
  · intro forms forms' h
    have hbare : (Form.desugarItems forms).map Form.bare =
        (Form.desugarItems forms').map Form.bare := by
      rw [Form.desugarItems_eq_map, Form.desugarItems_eq_map, List.map_map, List.map_map]
      exact map_eq_map_iff_forall₂.mpr (h.imp fun _ _ hform => hform.bare_desugar)
    exact ⟨hbare, matches_of_bare_eq hbare⟩

def numeral (raw : String) : Form := .number raw .dummy

def applied (head : String) (args : List Form) : Form := .list (.symbol head .dummy :: args) .dummy

def flatDifference : Form := applied "-" [numeral "8", numeral "2", numeral "3"]

/-- `(print (+ 1 (- 8 2 3) 4))`. -/
def flatSum : Form := applied "print" [applied "+" [numeral "1", flatDifference, numeral "4"]]

/-- `(print (+ 1 (+ (- 8 (- 2 3)) 4)))`. -/
def nestedSum : Form :=
  applied "print" [applied "+" [numeral "1", applied "+"
    [applied "-" [numeral "8", applied "-" [numeral "2", numeral "3"]], numeral "4"]]]

theorem sums_compile_alike :
    List.Forall₂ Form.SameNesting [flatSum] [nestedSum] ∧
    ∃ p q, ofForms (Form.desugarItems [flatSum]) = .ok p ∧
      ofForms (Form.desugarItems [nestedSum]) = .ok q ∧
      p.main.map (·.text) = ["number", "4", "number", "3", "number", "2", "-", "number", "8", "-",
        "+", "number", "1", "+", "print"] ∧
      q.main.map (·.text) = p.main.map (·.text) ∧
      ∀ config, (q.run config).printed = (p.run config).printed := by
  -- First the sum is nested, and then the difference in it.
  have hsum : flatSum.NestsOnce
      (applied "print" [applied "+" [numeral "1", applied "+" [flatDifference, numeral "4"]]]) :=
    @Form.NestsOnce.item [.symbol "print" .dummy] [] _ _ _ rfl (.application (by decide))
  have hdifference : Form.NestsOnce
      (applied "print" [applied "+" [numeral "1", applied "+" [flatDifference, numeral "4"]]])
      nestedSum :=
    @Form.NestsOnce.item [.symbol "print" .dummy] [] _ _ _ rfl
      (@Form.NestsOnce.item [.symbol "+" .dummy, numeral "1"] [] _ _ _ rfl
        (@Form.NestsOnce.item [.symbol "+" .dummy] [numeral "4"] _ _ _ rfl
          (.application (by decide))))
  have hforms : List.Forall₂ Form.SameNesting [flatSum] [nestedSum] :=
    .cons (.trans _ _ _ (.rel _ _ hsum) (.rel _ _ hdifference)) .nil
  obtain ⟨p, hp, htexts⟩ : ∃ p, ofForms (Form.desugarItems [flatSum]) = .ok p ∧
      p.main.map (·.text) = ["number", "4", "number", "3", "number", "2", "-", "number", "8", "-",
        "+", "number", "1", "+", "print"] := ⟨_, rfl, rfl⟩
  have hmatches := (nestings_compile_alike.2 _ _ hforms).2
  rw [hp] at hmatches
  generalize hq : ofForms (Form.desugarItems [nestedSum]) = y at hmatches
  cases hmatches with
  | program hmain _ hrun =>
    exact ⟨hforms, p, _, hp, rfl, htexts, hmain.symm, fun config => (hrun config).1.symm⟩

end Program

end TokenMachine
