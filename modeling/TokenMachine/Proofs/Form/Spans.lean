/-
  TokenMachine.Proofs.Form.Spans — the forms of a text, and where they stand in it.

  In a text of which each offset fits, every span in the forms read marks the text, for their
  lexemes do, and so does the span of an error; that of a bad escape covers the backslash and
  the letter after it (`placed_of_read`, `placed_of_read_error`). Desugaring makes new spans only
  by merging old ones, so whatever merging keeps, it keeps (`Placed.desugar`).
-/

import TokenMachine.Form.Desugar
import TokenMachine.Proofs.Form.Numerals
import TokenMachine.Proofs.Form.Reading
import TokenMachine.Proofs.Text.Places

namespace TokenMachine

open Text (byteLength)

/-- The error is in the text; a bad escape is there just the backslash and the letter. -/
structure ReadError.Placed (text : String) (e : ReadError) : Prop where
  marks : e.span.Marks text
  escape : ∀ escape span, e = .invalidEscape escape span → span.Covers text ['\\', escape]

/-! ## Forms -/

namespace Form

open Lexeme (Breaks FirstFault Lexed)

inductive Placed (P : Span → Prop) : Form → Prop
  | number {raw : String} {span : Span} : P span → Placed P (.number raw span)
  | text {value : String} {span : Span} : P span → Placed P (.text value span)
  | symbol {name : String} {span : Span} : P span → Placed P (.symbol name span)
  | list {items : List Form} {span : Span} :
      P span → (∀ item ∈ items, Placed P item) → Placed P (.list items span)

variable {P : Span → Prop} {form head first leaf : Form} {forms rest : List Form}

theorem Placed.span (h : form.Placed P) : P form.span := by
  cases h <;> assumption

variable {items : List Form} {span : Span}

/-! ## Reading -/

variable {source : String} {ls : List Lexeme} {e : ReadError}

theorem placed_ofAtom {chars : List Char} (h : P span) : (ofAtom chars span).Placed P := by
  unfold ofAtom
  split
  · exact .number h
  · exact .symbol h

theorem placed_of_yields (h : Yields forms ls) (hls : ∀ l ∈ ls, l.Placed source)
    (hordered : ls.Pairwise fun l l' => l.span.stop ≤ l'.span.start) :
    ∀ form ∈ forms, form.Placed (·.Marks source) := by
  induction h with
  | nil => exact nofun
  | atom _ ih =>
    obtain ⟨hl, hls⟩ := List.forall_mem_cons.mp hls
    exact List.forall_mem_cons.mpr ⟨placed_ofAtom hl.marks, ih hls hordered.of_cons⟩
  | text _ _ ih =>
    obtain ⟨hl, hls⟩ := List.forall_mem_cons.mp hls
    exact List.forall_mem_cons.mpr ⟨.text hl.marks, ih hls hordered.of_cons⟩
  | @list items forms inner ls start stop _ _ ihitems ih =>
    -- The list goes from its opening to its closing parenthesis, and the one comes first.
    obtain ⟨hopening, hls⟩ := List.forall_mem_cons.mp hls
    obtain ⟨hinner, hls⟩ := List.forall_mem_append.mp hls
    obtain ⟨hclosing, hls⟩ := List.forall_mem_cons.mp hls
    obtain ⟨hfirst, hordered⟩ := List.pairwise_cons.mp hordered
    obtain ⟨hinner', hrest, -⟩ := List.pairwise_append.mp hordered
    have hle : start + 1 ≤ stop := hfirst (.closing ⟨stop, stop + 1⟩) (by simp)
    have hmerge : Span.merge ⟨start, start + 1⟩ ⟨stop, stop + 1⟩ = ⟨start, stop + 1⟩ := by
      simp only [Span.merge, Span.mk.injEq]
      omega
    have hspan : Span.Marks ⟨start, stop + 1⟩ source :=
      hmerge ▸ hopening.marks.merge hclosing.marks
    exact List.forall_mem_cons.mpr ⟨.list hspan (ihitems hinner hinner'), ih hls hrest.of_cons⟩

/-- The span of a bad escape is that of the backslash and of the letter, after the quote. -/
theorem covers_of_firstBadEscape {body : List Char} {bad : Text.BadEscape}
    (h : Text.FirstBadEscape (span.start + 1) body bad)
    (hspan : span.Covers source ('"' :: (body ++ ['"']))) :
    bad.span.Covers source ['\\', bad.letter] := by
  obtain ⟨before, after, rfl, -, -, hstart, hstop⟩ := h
  have hparts : '"' :: (before ++ '\\' :: bad.letter :: after ++ ['"']) =
      ('"' :: before) ++ ['\\', bad.letter] ++ (after ++ ['"']) := by simp
  rw [hparts] at hspan
  refine hspan.within ?_ ?_
  · rw [hstart, byteLength, ← Nat.add_assoc]
    rfl
  · rw [hstop, Text.byteLength_escape, byteLength, Nat.add_assoc, Nat.add_zero]

theorem placed_of_firstFault (h : FirstFault ls e) (hls : ∀ l ∈ ls, l.Placed source) :
    e.Placed source := by
  cases h with
  | @broken before after l _ heq _ hbreaks =>
    have hl : l.Placed source := hls l (heq ▸ List.mem_append_right _ List.mem_cons_self)
    cases hbreaks with
    | tooDeep | unopened | unterminated | stray => exact ⟨hl.marks, nofun⟩
    | badEscape hbad =>
      have hcovers := covers_of_firstBadEscape hbad (hl.covers _ rfl)
      refine ⟨hcovers.marks nofun, fun escape span heq => ?_⟩
      cases heq
      exact hcovers
  | @unclosed before after start _ heq _ =>
    have hl : (Lexeme.opening start).Placed source :=
      hls _ (heq ▸ List.mem_append_right _ List.mem_cons_self)
    exact ⟨hl.marks, nofun⟩

theorem placed_of_read (hsize : source.utf8ByteSize ≤ Span.maxOffset)
    (h : read source = .ok forms) : ∀ form ∈ forms, form.Placed (·.Marks source) := by
  have hlexed := Lexeme.lexed_ofSource hsize
  have hsound := ofLexemes_sound hlexed
  rw [← read, h] at hsound
  exact placed_of_yields hsound.2 (Lexeme.placed_ofSource hsize) hlexed.ordered

theorem placed_of_read_error (hsize : source.utf8ByteSize ≤ Span.maxOffset)
    (h : read source = .error e) : e.Placed source := by
  have hsound := ofLexemes_sound (Lexeme.lexed_ofSource hsize)
  rw [← read, h] at hsound
  exact placed_of_firstFault hsound (Lexeme.placed_ofSource hsize)

/-! ## Desugaring -/

theorem placed_quote (h : leaf.Placed P) : (quote leaf).Placed P := by
  refine .list h.span ?_
  simp only [List.forall_mem_cons]
  exact ⟨.symbol h.span, h, nofun⟩

theorem Placed.withSpan (h : form.Placed P) (hspan : P span) : (form.withSpan span).Placed P := by
  cases h with
  | number => exact .number hspan
  | text => exact .text hspan
  | symbol => exact .symbol hspan
  | list _ hitems => exact .list hspan hitems

section

variable (hmerge : ∀ s t, P s → P t → P (s.merge t))
include hmerge

theorem placed_nestRight (hh : head.Placed P) (hf : first.Placed P)
    (hr : ∀ form ∈ rest, form.Placed P) : (nestRight head first rest).Placed P := by
  induction rest generalizing first with
  | nil => exact hf
  | cons second rest ih =>
    obtain ⟨hs, hr⟩ := List.forall_mem_cons.mp hr
    have hnested := ih hs hr
    refine .list (hmerge _ _ hf.span hnested.span) ?_
    simp only [List.forall_mem_cons]
    exact ⟨hh, hf, hnested, nofun⟩

theorem placed_nestVariadic (hspan : P span) (h : ∀ item ∈ items, item.Placed P) :
    (nestVariadic items span).Placed P := by
  unfold nestVariadic
  split
  · next head first second third rest =>
    split
    · split
      · obtain ⟨hh, hargs⟩ := List.forall_mem_cons.mp h
        obtain ⟨hf, hrest⟩ := List.forall_mem_cons.mp hargs
        exact (placed_nestRight hmerge hh hf hrest).withSpan hspan
      · exact .list hspan h
    · exact .list hspan h
  · exact .list hspan h

theorem Placed.desugar (h : form.Placed P) : form.desugar.Placed P := by
  induction h with
  | number h => exact .number h
  | text h => exact placed_quote (.text h)
  | symbol h => exact .symbol h
  | list hspan hitems ih =>
    rw [Form.desugar]
    split
    · exact .list hspan hitems
    · refine placed_nestVariadic hmerge hspan ?_
      rw [desugarItems_eq_map]
      exact List.forall_mem_map.mpr ih

theorem placed_desugarItems (h : ∀ form ∈ forms, form.Placed P) :
    ∀ form ∈ desugarItems forms, form.Placed P := by
  rw [desugarItems_eq_map]
  exact List.forall_mem_map.mpr fun form hform => (h form hform).desugar hmerge

end

end Form

end TokenMachine
