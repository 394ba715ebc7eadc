/-
  TokenMachine.Proofs.Script.Order — where a function is defined does not matter.

  Forms make a script of what they are, one by one (`Script.ofForms_eq_ok_iff`). In another order,
  with the statements as they were, they make a script with the same statements and
  a permutation of the definitions, and a table finds a definition by its name wherever it stands
  (`Program.ofForms_perm`).
-/

import Mathlib.Data.List.Perm.Basic
import TokenMachine.Pipeline
import TokenMachine.Proofs.FunctionTable
import TokenMachine.Proofs.Script.Forms
import TokenMachine.Proofs.Script.Lowering

namespace TokenMachine

variable {forms forms' : List Form}

/-! ## Scripts -/

namespace Script

variable {s : Script}

/-- The same forms in another order, with the statements as they were, make a script with the same
statements and a permutation of the definitions. -/
theorem exists_ofForms_of_perm (hperm : forms.Perm forms')
    (hmain : forms.filter (!·.isDefinition) = forms'.filter (!·.isDefinition))
    (h : ofForms forms = .ok s) :
    ∃ s', ofForms forms' = .ok s' ∧ s.main = s'.main ∧ s.definitions.Perm s'.definitions := by
  obtain ⟨⟨hm, hd⟩, hnodup⟩ := ofForms_eq_ok_iff.mp h
  obtain ⟨definitions, hd', hpermuted⟩ :=
    List.perm_comp_forall₂ (hperm.symm.filter (·.isDefinition)) hd
  refine ⟨⟨s.main, definitions⟩, ofForms_eq_ok_iff.mpr ⟨⟨hmain ▸ hm, hd'⟩, ?_⟩, rfl,
    hpermuted.symm⟩
  exact (hpermuted.map fun d : Definition => d.name).nodup_iff.mpr hnodup

end Script

/-! ## Programs -/

/-- Tables of the same definitions find the same, whatever the order of the definitions. -/
theorem FunctionTable.get?_ofDefinitions_of_perm {ds ds' : List Definition} (hperm : ds.Perm ds')
    (hnodup : (ds.map (·.name)).Nodup) (name : String) :
    (ofDefinitions ds).get? name = (ofDefinitions ds').get? name := by
  have hnodup' : (ds'.map (·.name)).Nodup := (hperm.map _).nodup_iff.mp hnodup
  ext f
  rw [get?_eq_some_iff, get?_eq_some_iff, defs_ofDefinitions hnodup, defs_ofDefinitions hnodup',
    (hperm.map Definition.lower).mem_iff]

namespace Program

/-- Function definitions may stand anywhere among the forms. Of the same forms in another order, in
which those that no `fn` heads follow each other as before, the one make a program exactly if the
others do; and then the two programs have the same main tokens, with their spans, and the same
definition under every name. -/
theorem ofForms_perm (hperm : forms.Perm forms')
    (hmain : forms.filter (!·.isDefinition) = forms'.filter (!·.isDefinition)) :
    ((∃ p, ofForms forms = .ok p) ↔ ∃ q, ofForms forms' = .ok q) ∧
    ∀ p q, ofForms forms = .ok p → ofForms forms' = .ok q →
      p.main = q.main ∧ ∀ name, p.functions.get? name = q.functions.get? name := by
  refine ⟨⟨?_, ?_⟩, ?_⟩
  · rintro ⟨p, hp⟩
    obtain ⟨s, hs, -⟩ := map_eq_ok.mp hp
    obtain ⟨s', hs', -⟩ := Script.exists_ofForms_of_perm hperm hmain hs
    exact ⟨s'.lower, map_eq_ok.mpr ⟨s', hs', rfl⟩⟩
  · rintro ⟨q, hq⟩
    obtain ⟨s, hs, -⟩ := map_eq_ok.mp hq
    obtain ⟨s', hs', -⟩ := Script.exists_ofForms_of_perm hperm.symm hmain.symm hs
    exact ⟨s'.lower, map_eq_ok.mpr ⟨s', hs', rfl⟩⟩
  · intro p q hp hq
    obtain ⟨s, hs, rfl⟩ := map_eq_ok.mp hp
    obtain ⟨s', hs', rfl⟩ := map_eq_ok.mp hq
    obtain ⟨t, ht, hstmts, hdefs⟩ := Script.exists_ofForms_of_perm hperm hmain hs
    rw [hs'] at ht
    cases ht
    refine ⟨congrArg Stmt.blockTokens hstmts, fun name => ?_⟩
    exact FunctionTable.get?_ofDefinitions_of_perm hdefs (Script.ofForms_eq_ok_iff.mp hs).2 name

/-- `(fn name () (return value))`, as it is read. -/
def constantForm (name value : String) : Form :=
  list [symbol "fn", symbol name, list [], list [symbol "return", symbol value]]
where
  list (items : List Form) : Form := .list items .dummy
  symbol (name : String) : Form := .symbol name .dummy

/-- `(print (f))`, as it is read. -/
def printForm : Form :=
  .list [.symbol "print" ⟨1, 6⟩, .list [.symbol "f" ⟨8, 9⟩] ⟨7, 10⟩] ⟨0, 11⟩

/-- A function may be used before it is defined, and after another. -/
theorem ofForms_perm_printForm :
    ∃ p q, ofForms [constantForm "f" "true", constantForm "g" "false", printForm] = .ok p ∧
      ofForms [printForm, constantForm "g" "false", constantForm "f" "true"] = .ok q ∧
      p.main = q.main ∧ ∀ name, p.functions.get? name = q.functions.get? name := by
  obtain ⟨p, hp⟩ : ∃ p, ofForms
      [constantForm "f" "true", constantForm "g" "false", printForm] = .ok p := ⟨_, rfl⟩
  have hperm := (List.reverse_perm [constantForm "f" "true", constantForm "g" "false", printForm])
  obtain ⟨haccepted, hsame⟩ := ofForms_perm hperm.symm rfl
  obtain ⟨q, hq⟩ := haccepted.mp ⟨p, hp⟩
  exact ⟨p, q, hp, hq, hsame p q hp hq⟩

end Program

end TokenMachine
