/-
  TokenMachine.Proofs.Script.Spans — the spans of programs and of compile errors.

  Compiling makes no span of its own: whatever holds of all spans in the forms holds of
  the span of each token of their program (`Program.placed_of_ofForms`), generated constants
  included, and of each span of the error if they are not a program (`Program.errsAt_ofForms`).
  Both are what `Program.alike_ofForms` says of the forms and themselves.
-/

import TokenMachine.Proofs.Form.Spans
import TokenMachine.Proofs.Script.Alike

namespace TokenMachine

variable {P : Span → Prop} {α : Type} {form : Form} {forms : List Form}

def ErrsAt (P : Span → Prop) (x : Except CompileError α) : Prop :=
  ∀ e, x = .error e → ∀ span ∈ e.spans, P span

def Program.Placed (P : Span → Prop) (p : Program) : Prop :=
  (∀ t ∈ p.main, P t.span) ∧ ∀ f ∈ p.functions.defs, ∀ t ∈ f.body, P t.span

/-- A form is of its own shape, wherever its texts are. -/
theorem Form.Placed.alike (h : form.Placed P) : form.Alike (fun _ span => P span) True form := by
  induction h with
  | number hspan => exact .number hspan
  | text hspan => exact .text trivial hspan
  | symbol hspan => exact .symbol hspan
  | list hspan _ ih => exact .of_forall₂ (List.forall₂_same.mpr ih) hspan

theorem TokensAlike.placed {ts ts' : List Token} (h : TokensAlike (fun _ span => P span) ts ts') :
    ∀ t ∈ ts', P t.span :=
  forall_mem_of_forall₂ h fun _ _ _ ht => ht.2

namespace Program

theorem alike_ofForms_self (h : ∀ form ∈ forms, form.Placed P) :
    ResultsAlike (fun _ span => P span) True (Program.Alike fun _ span => P span)
      (ofForms forms) (ofForms forms) :=
  alike_ofForms (List.forall₂_same.mpr fun form hform => (h form hform).alike)

theorem errsAt_ofForms (h : ∀ form ∈ forms, form.Placed P) : ErrsAt P (ofForms forms) := by
  intro e he
  have halike := alike_ofForms_self h
  rw [he] at halike
  cases halike with
  | error halike => exact forall_mem_of_forall₂ halike.spans fun _ _ _ hspan => hspan

theorem placed_of_ofForms {p : Program} (h : ofForms forms = .ok p)
    (hforms : ∀ form ∈ forms, form.Placed P) : p.Placed P := by
  have halike := alike_ofForms_self hforms
  rw [h] at halike
  cases halike with
  | ok halike =>
    exact ⟨halike.main.placed,
      forall_mem_of_forall₂ halike.functions fun _ _ _ hf => hf.body.placed⟩

end Program

end TokenMachine
