/-
  TokenMachine.Proofs.Script.Forms — a script is what its forms make, one by one.

  A form that is added to a script goes to the end of its statements or of its definitions, and
  is elaborated by itself; of what is already there, only the names of the definitions are asked
  (`Script.Adds`). So forms make a script exactly if each can be elaborated and no two define one
  name, and the statements and the definitions stand in it as the forms do
  (`Script.ofForms_eq_ok_iff`). In particular what elaboration accepts is spelled by the grammar
  (`Script.spelledBy_of_ofForms`).
-/

import TokenMachine.Proofs.Script.Grammar

namespace TokenMachine

open State (bind_eq_ok)

variable {forms : List Form} {form : Form} {name : String} {span head : Span}

/-! ## One form -/

theorem Form.exists_of_head? (h : form.head? = some name) :
    ∃ head args span, form = .list (.symbol name head :: args) span := by
  unfold head? at h
  split at h
  · next first args span => exact ⟨first.span, args, span, by rw [← symbol?_eq_some h]⟩
  · cases h

theorem Form.isDefinition_iff : form.isDefinition = true ↔ form.head? = some "fn" := beq_iff_eq

inductive Form.Makes : Form → Definition → Prop
  | fn {args : List Form} {span head : Span} {d : Definition} :
      definitionOf args span = .ok d → Makes (.list (.symbol "fn" head :: args) span) d

theorem Form.Makes.spellsDefinition {d : Definition} (h : form.Makes d) :
    form.SpellsDefinition d := by
  obtain ⟨hd⟩ := h
  exact spellsDefinition_of_definitionOf rfl hd

namespace Script

variable {s s' : Script} {main : List Stmt} {definitions : List Definition}

def names (s : Script) : List String := s.definitions.map (·.name)

theorem addForm_of_head? (h : form.head? ≠ some "fn") :
    s.addForm form = (do .ok { s with main := s.main ++ [← stmtOf false form] }) := by
  unfold addForm
  split
  · next head args span =>
    rw [if_neg]
    exact h
  · rfl

theorem addForm_definition {args : List Form} :
    s.addForm (.list (.symbol "fn" head :: args) span) = (do
      let d ← definitionOf args span
      match s.definitions.find? (·.name == d.name) with
      | some first => .error (.duplicateFunction d.name d.span first.span)
      | none => .ok { s with definitions := s.definitions ++ [d] }) := by
  unfold addForm
  exact if_pos rfl

theorem find?_eq_none_iff :
    s.definitions.find? (fun d : Definition => d.name == name) = none ↔ name ∉ s.names := by
  simp [names, List.find?_eq_none]

def extend (s : Script) (main : List Stmt) (definitions : List Definition) : Script :=
  ⟨s.main ++ main, s.definitions ++ definitions⟩

@[simp] theorem extend_nil (s : Script) : s.extend [] [] = s := by simp [extend]

@[simp] theorem extend_extend (s : Script) (main main' : List Stmt) (ds ds' : List Definition) :
    (s.extend main ds).extend main' ds' = s.extend (main ++ main') (ds ++ ds') := by
  simp [extend]

@[simp] theorem names_extend (s : Script) (main : List Stmt) (ds : List Definition) :
    (s.extend main ds).names = s.names ++ ds.map (·.name) := List.map_append

inductive Adds (s : Script) (form : Form) : Script → Prop
  | statement {stmt : Stmt} :
      form.isDefinition = false → stmtOf false form = .ok stmt → Adds s form (s.extend [stmt] [])
  | definition {d : Definition} :
      form.isDefinition = true → form.Makes d → d.name ∉ s.names → Adds s form (s.extend [] [d])

theorem addForm_eq_ok_iff : s.addForm form = .ok s' ↔ s.Adds form s' := by
  by_cases hhead : form.head? = some "fn"
  · have hdefinition := Form.isDefinition_iff.mpr hhead
    obtain ⟨head, args, span, rfl⟩ := Form.exists_of_head? hhead
    rw [addForm_definition, bind_eq_ok]
    constructor
    · rintro ⟨d, hd, h⟩
      split at h
      · cases h
      · next hnew =>
        obtain rfl : s.extend [] [d] = s' := by simpa [extend] using h
        exact .definition hdefinition (.fn hd) (find?_eq_none_iff.mp hnew)
    · intro h
      cases h with
      | statement hnot => rw [hdefinition] at hnot; cases hnot
      | @definition d _ hd hnew =>
        obtain ⟨hd⟩ := hd
        exact ⟨d, hd, by simp [find?_eq_none_iff.mpr hnew, extend]⟩
  · have hstatement : form.isDefinition = false := by
      rw [Bool.eq_false_iff]
      exact mt Form.isDefinition_iff.mp hhead
    rw [addForm_of_head? hhead, bind_eq_ok]
    constructor
    · rintro ⟨stmt, hstmt, h⟩
      obtain rfl : s.extend [stmt] [] = s' := by simpa [extend] using h
      exact .statement hstatement hstmt
    · intro h
      cases h with
      | @statement stmt _ hstmt => exact ⟨stmt, hstmt, by simp [extend]⟩
      | definition hnot => rw [hstatement] at hnot; cases hnot

/-! ## Many forms -/

/-- The forms are these statements and make these definitions, each in their order. -/
structure Made (forms : List Form) (main : List Stmt) (definitions : List Definition) : Prop where
  main : List.Forall₂ (fun form stmt => stmtOf false form = .ok stmt)
    (forms.filter (!·.isDefinition)) main
  definitions : List.Forall₂ Form.Makes (forms.filter (·.isDefinition)) definitions

theorem made_nil_iff : Made [] main definitions ↔ main = [] ∧ definitions = [] := by
  constructor
  · rintro ⟨⟨⟩, ⟨⟩⟩
    exact ⟨rfl, rfl⟩
  · rintro ⟨rfl, rfl⟩
    exact ⟨.nil, .nil⟩

theorem made_statement_iff (h : form.isDefinition = false) :
    Made (form :: forms) main definitions ↔ ∃ stmt rest, stmtOf false form = .ok stmt ∧
      Made forms rest definitions ∧ main = stmt :: rest := by
  have hmain : (form :: forms).filter (!·.isDefinition) =
      form :: forms.filter (!·.isDefinition) := List.filter_cons_of_pos (by simp [h])
  have hdefs : (form :: forms).filter (·.isDefinition) = forms.filter (·.isDefinition) :=
    List.filter_cons_of_neg (by simp [h])
  constructor
  · rintro ⟨hm, hd⟩
    rw [hmain] at hm
    rw [hdefs] at hd
    obtain ⟨stmt, rest, hstmt, hrest, rfl⟩ := List.forall₂_cons_left_iff.mp hm
    exact ⟨stmt, rest, hstmt, ⟨hrest, hd⟩, rfl⟩
  · rintro ⟨stmt, rest, hstmt, ⟨hm, hd⟩, rfl⟩
    exact ⟨hmain ▸ .cons hstmt hm, hdefs ▸ hd⟩

theorem made_definition_iff (h : form.isDefinition = true) :
    Made (form :: forms) main definitions ↔ ∃ d rest, form.Makes d ∧
      Made forms main rest ∧ definitions = d :: rest := by
  have hmain : (form :: forms).filter (!·.isDefinition) = forms.filter (!·.isDefinition) :=
    List.filter_cons_of_neg (by simp [h])
  have hdefs : (form :: forms).filter (·.isDefinition) =
      form :: forms.filter (·.isDefinition) := List.filter_cons_of_pos h
  constructor
  · rintro ⟨hm, hd⟩
    rw [hmain] at hm
    rw [hdefs] at hd
    obtain ⟨d, rest, hmakes, hrest, rfl⟩ := List.forall₂_cons_left_iff.mp hd
    exact ⟨d, rest, hmakes, ⟨hm, hrest⟩, rfl⟩
  · rintro ⟨d, rest, hmakes, ⟨hm, hd⟩, rfl⟩
    exact ⟨hmain ▸ hm, hdefs ▸ .cons hmakes hd⟩

/-- Adding forms to a script puts what they are at its ends, if no name is then there twice. -/
theorem foldlM_addForm_eq_ok_iff (hs : s.names.Nodup) : forms.foldlM addForm s = .ok s' ↔
    ∃ main definitions, Made forms main definitions ∧ s' = s.extend main definitions ∧
      s'.names.Nodup := by
  induction forms generalizing s with
  | nil =>
    constructor
    · rintro ⟨⟩
      exact ⟨[], [], made_nil_iff.mpr ⟨rfl, rfl⟩, by simp, hs⟩
    · rintro ⟨main, definitions, hmade, rfl, -⟩
      obtain ⟨rfl, rfl⟩ := made_nil_iff.mp hmade
      simp [pure, Except.pure]
  | cons form forms ih =>
    have hadds : (form :: forms).foldlM addForm s = .ok s' ↔
        ∃ s₁, s.Adds form s₁ ∧ forms.foldlM addForm s₁ = .ok s' := by
      simp only [List.foldlM_cons, bind_eq_ok, addForm_eq_ok_iff]
    rw [hadds]
    constructor
    · rintro ⟨s₁, hadd, h⟩
      cases hadd with
      | statement hnot hstmt =>
        obtain ⟨main, definitions, hmade, rfl, hnodup⟩ := (ih (by simpa using hs)).mp h
        exact ⟨_ :: main, definitions, (made_statement_iff hnot).mpr ⟨_, _, hstmt, hmade, rfl⟩,
          by simp, hnodup⟩
      | @definition d hfn hmakes hnew =>
        have hs₁ : (s.extend [] [d]).names.Nodup := by
          simpa [List.nodup_append, hs] using fun name hname => ne_of_mem_of_not_mem hname hnew
        obtain ⟨main, definitions, hmade, rfl, hnodup⟩ := (ih hs₁).mp h
        exact ⟨main, d :: definitions, (made_definition_iff hfn).mpr ⟨_, _, hmakes, hmade, rfl⟩,
          by simp, hnodup⟩
    · rintro ⟨main, definitions, hmade, rfl, hnodup⟩
      cases hfn : form.isDefinition with
      | false =>
        obtain ⟨stmt, rest, hstmt, hrest, rfl⟩ := (made_statement_iff hfn).mp hmade
        refine ⟨_, .statement hfn hstmt, (ih (by simpa using hs)).mpr ?_⟩
        exact ⟨rest, definitions, hrest, by simp, hnodup⟩
      | true =>
        obtain ⟨d, rest, hmakes, hrest, rfl⟩ := (made_definition_iff hfn).mp hmade
        have hs₁ : (s.extend [] [d]).names.Nodup := by
          rw [names_extend] at hnodup ⊢
          refine hnodup.sublist (List.Sublist.append_left ?_ _)
          simp
        have hnew : d.name ∉ s.names := by
          rw [names_extend, List.nodup_append] at hs₁
          exact fun hmem => hs₁.2.2 _ hmem d.name (by simp) rfl
        refine ⟨_, .definition hfn hmakes hnew, (ih hs₁).mpr ?_⟩
        exact ⟨main, rest, hrest, by simp, hnodup⟩

/-- Forms make a script of what they are, if no name is defined twice. -/
theorem ofForms_eq_ok_iff :
    ofForms forms = .ok s ↔ Made forms s.main s.definitions ∧ s.names.Nodup := by
  have hempty : empty.names.Nodup := .nil
  rw [ofForms, foldlM_addForm_eq_ok_iff hempty]
  constructor
  · rintro ⟨main, definitions, hmade, rfl, hnodup⟩
    exact ⟨hmade, hnodup⟩
  · rintro ⟨hmade, hnodup⟩
    exact ⟨s.main, s.definitions, hmade, rfl, hnodup⟩

/-- What elaboration accepts is spelled by the grammar. -/
theorem spelledBy_of_ofForms (h : ofForms forms = .ok s) : s.SpelledBy forms := by
  obtain ⟨hmade, hdistinct⟩ := ofForms_eq_ok_iff.mp h
  have hmain := hmade.main.imp fun _ _ hstmt => spellsStmt_of_stmtOf hstmt
  have hdefinitions := hmade.definitions.imp fun _ _ hmakes => hmakes.spellsDefinition
  exact ⟨hmain, hdefinitions, hdistinct⟩

end Script

end TokenMachine
