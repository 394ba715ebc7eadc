/-
  TokenMachine.Proofs.Form.Numerals — the numbers of a source text are numerals.

  The reader makes a number of an atom only if the atom is a numeral, and desugaring
  makes no number of its own. So every number in the forms of a source text denotes a
  float, however deep it stands (`numeric_of_read`).
-/

import TokenMachine.Form.Desugar
import TokenMachine.Form.Reader
import TokenMachine.Machine.Cost
import TokenMachine.Machine.Step
import TokenMachine.Proofs.Script.Grammar

namespace TokenMachine

/-- A numeral denotes a float. -/
theorem Literal.exists_value_number {raw : String} (h : Decimal.isNumeral raw.toList = true) :
    ∃ v, Literal.number.value raw = .ok v := by
  simp only [Decimal.isNumeral, Bool.and_eq_true, String.ofList_toList] at h
  obtain ⟨x, hx, -⟩ := (Option.any_eq_true _ _).mp h.2
  exact ⟨.number x, by simp [value, hx]⟩

namespace Form

inductive Numeric : Form → Prop
  | number {raw : String} {span : Span} :
      Decimal.isNumeral raw.toList = true → Numeric (.number raw span)
  | text {value : String} {span : Span} : Numeric (.text value span)
  | symbol {name : String} {span : Span} : Numeric (.symbol name span)
  | list {items : List Form} {span : Span} :
      (∀ item ∈ items, Numeric item) → Numeric (.list items span)

/-! ## Reading -/

theorem numeric_ofAtom (chars : List Char) (span : Span) : (ofAtom chars span).Numeric := by
  unfold ofAtom
  split
  · next h => exact .number (by simpa using h)
  · exact .symbol

def Pending.Numeric (p : Pending) : Prop :=
  (∀ l ∈ p.lists, ∀ form ∈ l.items, form.Numeric) ∧ ∀ form ∈ p.forms, form.Numeric

theorem Pending.Numeric.add {p : Pending} (hp : p.Numeric) {form : Form} (hf : form.Numeric) :
    (p.add form).Numeric := by
  obtain ⟨lists, forms⟩ := p
  cases lists with
  | nil => exact ⟨hp.1, List.forall_mem_cons.mpr ⟨hf, hp.2⟩⟩
  | cons innermost outer =>
    obtain ⟨hi, ho⟩ := List.forall_mem_cons.mp hp.1
    have hitems := List.forall_mem_cons.mpr ⟨hf, hi⟩
    exact ⟨List.forall_mem_cons.mpr ⟨hitems, ho⟩, hp.2⟩

theorem Pending.Numeric.takeLexeme {p q : Pending} {l : Lexeme} (hp : p.Numeric)
    (h : takeLexeme p l = .ok q) : q.Numeric := by
  cases l with
  | opening =>
    rw [Form.takeLexeme] at h
    split at h
    · cases h
    · cases h
      exact ⟨List.forall_mem_cons.mpr ⟨nofun, hp.1⟩, hp.2⟩
  | closing =>
    rw [Form.takeLexeme] at h
    split at h
    · cases h
    · next innermost outer hl =>
      cases h
      obtain ⟨hi, ho⟩ := List.forall_mem_cons.mp (hl ▸ hp.1)
      have : Numeric { p with lists := outer } := ⟨ho, hp.2⟩
      refine this.add (.list ?_)
      intro item hitem
      exact hi item (List.mem_reverse.mp hitem)
  | quoted =>
    rw [Form.takeLexeme] at h
    split at h
    · cases h; exact hp.add .text
    · cases h
  | atom => cases h; exact hp.add (numeric_ofAtom _ _)
  | unterminated | stray => cases h

theorem Pending.Numeric.foldlM {p q : Pending} {lexemes : List Lexeme} (hp : p.Numeric)
    (h : lexemes.foldlM Form.takeLexeme p = .ok q) : q.Numeric := by
  induction lexemes generalizing p with
  | nil => cases h; exact hp
  | cons l lexemes ih =>
    rw [List.foldlM_cons] at h
    obtain ⟨p', hp', h⟩ := State.bind_eq_ok.mp h
    exact ih (hp.takeLexeme hp') h

theorem numeric_of_read {source : String} {forms : List Form} (h : read source = .ok forms) :
    ∀ form ∈ forms, form.Numeric := by
  obtain ⟨p, hp, hfinish⟩ := State.bind_eq_ok.mp h
  have hempty : Pending.empty.Numeric := ⟨nofun, nofun⟩
  have hnumeric : p.Numeric := hempty.foldlM hp
  unfold finish at hfinish
  split at hfinish
  · cases hfinish
    intro form hform
    exact hnumeric.2 form (List.mem_reverse.mp hform)
  · cases hfinish

/-! ## Desugaring -/

theorem numeric_quote {leaf : Form} (h : leaf.Numeric) : (quote leaf).Numeric := by
  refine .list ?_
  simp only [List.forall_mem_cons]
  exact ⟨.symbol, h, nofun⟩

theorem Numeric.withSpan {form : Form} (h : form.Numeric) (span : Span) :
    (form.withSpan span).Numeric := by
  cases h with
  | number h => exact .number h
  | text => exact .text
  | symbol => exact .symbol
  | list h => exact .list h

theorem numeric_nestRight {head first : Form} {rest : List Form} (hh : head.Numeric)
    (hf : first.Numeric) (hr : ∀ form ∈ rest, form.Numeric) :
    (nestRight head first rest).Numeric := by
  induction rest generalizing first with
  | nil => exact hf
  | cons second rest ih =>
    obtain ⟨hs, hr⟩ := List.forall_mem_cons.mp hr
    refine .list ?_
    simp only [List.forall_mem_cons]
    exact ⟨hh, hf, ih hs hr, nofun⟩

theorem numeric_nestVariadic {items : List Form} {span : Span}
    (h : ∀ item ∈ items, item.Numeric) : (nestVariadic items span).Numeric := by
  unfold nestVariadic
  split
  · next head first second third rest =>
    split
    · split
      · obtain ⟨hh, hargs⟩ := List.forall_mem_cons.mp h
        obtain ⟨hf, hrest⟩ := List.forall_mem_cons.mp hargs
        exact (numeric_nestRight hh hf hrest).withSpan span
      · exact .list h
    · exact .list h
  · exact .list h

theorem desugarItems_eq_map (forms : List Form) : desugarItems forms = forms.map desugar := by
  induction forms with
  | nil => rfl
  | cons form forms ih => rw [desugarItems, ih, List.map_cons]

theorem Numeric.desugar {form : Form} (h : form.Numeric) : form.desugar.Numeric := by
  induction h with
  | number h => exact .number h
  | text => exact numeric_quote .text
  | symbol => exact .symbol
  | list h ih =>
    rw [Form.desugar]
    split
    · exact .list h
    · refine numeric_nestVariadic ?_
      rw [desugarItems_eq_map]
      exact List.forall_mem_map.mpr ih

theorem numeric_desugarItems {forms : List Form} (h : ∀ form ∈ forms, form.Numeric) :
    ∀ form ∈ desugarItems forms, form.Numeric := by
  rw [desugarItems_eq_map]
  exact List.forall_mem_map.mpr fun form hform => (h form hform).desugar

end Form

end TokenMachine
