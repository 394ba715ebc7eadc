/-
  TokenMachine.Proofs.Script.NormalForm — what desugaring comes to, and what it leaves alone.

  A form is normal if desugaring has nothing to do in it: no text outside a `(quote x)`, and no
  `+`, `-`, `*` or `/` with more than two arguments. Nesting puts lists of three around normal
  items, and these quote nothing and have two arguments; so what desugaring gives is normal,
  and what is normal it gives back as it is (`Form.desugar_normal`, `Form.Normal.desugar_eq`).
  In a normal form every text is quoted, so compiling it never finds one that is not
  (`Form.desugar_reaches_normal`).
-/

import TokenMachine.Proofs.Form.Numerals
import TokenMachine.Proofs.Script.Alike

namespace TokenMachine.Form

variable {form head first : Form} {items rest : List Form} {span : Span}

/-! ## Normal forms -/

def TakesMany : List Form → Prop
  | head :: args => (∃ name ∈ ["+", "-", "*", "/"], head.symbol? = some name) ∧ 2 < args.length
  | [] => False

/-- A number or a symbol, a list `(quote x)`, or a list of normal items that does not apply `+`,
`-`, `*` or `/` to more than two arguments. -/
inductive Normal : Form → Prop
  | number {raw : String} {span : Span} : Normal (.number raw span)
  | symbol {name : String} {span : Span} : Normal (.symbol name span)
  | quote {items : List Form} {span : Span} : isQuoteList items = true → Normal (.list items span)
  | list {items : List Form} {span : Span} :
      (∀ item ∈ items, Normal item) → ¬ TakesMany items → Normal (.list items span)

theorem variadicOperators_eq : variadicOperators = ["+", "-", "*", "/"] := rfl

/-- Two items, the first of them `quote`. -/
theorem eq_quote_of_isQuoteList (h : isQuoteList items = true) :
    ∃ at_ payload, items = [.symbol "quote" at_, payload] := by
  unfold isQuoteList at h
  split at h
  · next head payload =>
    exact ⟨head.span, payload, by rw [← symbol?_eq_some (eq_of_beq h)]⟩
  · cases h

/-! ## Desugaring -/

theorem nestVariadic_of_takesMany {name : String} {second third : Form}
    (hname : name ∈ ["+", "-", "*", "/"]) (hhead : head.symbol? = some name) :
    nestVariadic (head :: first :: second :: third :: rest) span =
      (nestRight head first (second :: third :: rest)).withSpan span := by
  have hcontains : variadicOperators.contains name = true := by
    rw [variadicOperators_eq]
    exact List.contains_iff_mem.mpr hname
  simp only [nestVariadic, hhead, hcontains, if_true]

theorem nestVariadic_of_not_takesMany (h : ¬ TakesMany items) :
    nestVariadic items span = .list items span := by
  unfold nestVariadic
  split
  · next head first second third rest =>
    split
    · next name hhead =>
      split
      · next hcontains =>
        rw [variadicOperators_eq] at hcontains
        have hmem := List.contains_iff_mem.mp hcontains
        exact absurd ⟨⟨name, hmem, hhead⟩, by simp⟩ h
      · rfl
    · rfl
  · rfl

/-- More than two arguments are at least three. -/
theorem exists_of_takesMany (h : TakesMany items) :
    ∃ name ∈ ["+", "-", "*", "/"], ∃ head first second third rest,
      items = head :: first :: second :: third :: rest ∧ head.symbol? = some name := by
  match items, h with
  | head :: first :: second :: third :: rest, ⟨⟨name, hname, hhead⟩, _⟩ =>
    exact ⟨name, hname, head, first, second, third, rest, rfl, hhead⟩

theorem normal_nestRight (hhead : head.Normal) (hfirst : first.Normal)
    (hrest : ∀ item ∈ rest, item.Normal) : (nestRight head first rest).Normal := by
  induction rest generalizing first with
  | nil => exact hfirst
  | cons second rest ih =>
    obtain ⟨hsecond, hrest⟩ := List.forall_mem_cons.mp hrest
    refine .list ?_ (fun h => absurd h.2 (Nat.lt_irrefl 2))
    simp only [List.forall_mem_cons]
    exact ⟨hhead, hfirst, ih hsecond hrest, nofun⟩

theorem Normal.withSpan (h : form.Normal) (span : Span) : (form.withSpan span).Normal := by
  cases h with
  | number => exact .number
  | symbol => exact .symbol
  | quote hquote => exact .quote hquote
  | list hitems hmany => exact .list hitems hmany

theorem normal_nestVariadic (h : ∀ item ∈ items, item.Normal) :
    (nestVariadic items span).Normal := by
  by_cases hmany : TakesMany items
  · obtain ⟨name, hname, head, first, second, third, rest, rfl, hhead⟩ := exists_of_takesMany hmany
    rw [nestVariadic_of_takesMany hname hhead]
    obtain ⟨hnormal, hargs⟩ := List.forall_mem_cons.mp h
    obtain ⟨hfirst, hrest⟩ := List.forall_mem_cons.mp hargs
    exact (normal_nestRight hnormal hfirst hrest).withSpan span
  · rw [nestVariadic_of_not_takesMany hmany]
    exact .list h hmany

theorem desugar_normal (form : Form) : form.desugar.Normal := by
  induction form using Form.induction with
  | atom form hatom =>
    cases form with
    | number => exact .number
    | symbol => exact .symbol
    | text => exact .quote rfl
    | list items span => exact absurd rfl (hatom items span)
  | list items span ih =>
    rw [desugar]
    split
    · next hquote => exact .quote hquote
    · refine normal_nestVariadic ?_
      rw [desugarItems_eq_map]
      exact List.forall_mem_map.mpr ih

/-- Desugaring changes no normal form, and no span in it. -/
theorem Normal.desugar_eq (h : form.Normal) : form.desugar = form := by
  induction h with
  | number | symbol => rfl
  | quote hquote => rw [desugar, if_pos hquote]
  | @list items span _ hmany ih =>
    have hitems : desugarItems items = items := by
      rw [desugarItems_eq_map]
      exact (List.map_congr_left ih).trans (List.map_id' items)
    rw [desugar, hitems, nestVariadic_of_not_takesMany hmany, ite_self]

/-! ## Compiling normal forms -/

/-- In a normal form a text stands only in a `(quote x)`. -/
theorem Normal.alike (h : form.Normal) : form.Alike (fun _ _ => True) False form := by
  have quoted {items : List Form} {span : Span} (hquote : isQuoteList items = true) :
      (Form.list items span).Alike (fun _ _ => True) False (.list items span) := by
    obtain ⟨at_, payload, rfl⟩ := eq_quote_of_isQuoteList hquote
    exact .quote rfl trivial trivial trivial
  induction h with
  | number => exact .number trivial
  | symbol => exact .symbol trivial
  | quote hquote => exact quoted hquote
  | list _ _ ih => exact .of_forall₂ (List.forall₂_same.mpr ih) trivial

/-- Desugaring reaches a normal form and fixes exactly the normal forms. Whatever the form, what it
gives is normal; it gives back the form itself, with all spans, if and only if that is normal, so a
second time changes nothing; and no list of forms fails to compile for a text that is not quoted,
once it is desugared. -/
theorem desugar_reaches_normal :
    (∀ form : Form, form.desugar.Normal ∧ (form.desugar = form ↔ form.Normal) ∧
      form.desugar.desugar = form.desugar) ∧
    ∀ forms span, Program.ofForms (desugarItems forms) ≠ .error (.unquotedString span) := by
  constructor
  · intro form
    refine ⟨form.desugar_normal, ⟨fun h => ?_, Normal.desugar_eq⟩, form.desugar_normal.desugar_eq⟩
    rw [← h]
    exact form.desugar_normal
  · intro forms span herror
    have hforms : List.Forall₂ (Form.Alike (fun _ _ => True) False) (desugarItems forms)
        (desugarItems forms) := by
      rw [desugarItems_eq_map]
      refine List.forall₂_same.mpr (List.forall_mem_map.mpr fun form _ => ?_)
      exact form.desugar_normal.alike
    have halike := Program.alike_ofForms hforms
    rw [herror] at halike
    cases halike with
    | error he => exact he.quoted rfl

end TokenMachine.Form
