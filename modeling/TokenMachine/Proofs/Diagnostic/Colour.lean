/-
  TokenMachine.Proofs.Diagnostic.Colour — colour adds control sequences and nothing else.

  A control sequence goes from an escape character and a bracket to the first character that
  can end it. Taking them out of a text leaves what has no escape character as it is
  (`Text.strip_append`), and of a painted piece it leaves the text (`Piece.strip_paint`). All
  that a diagnostic is laid out in is free of escape characters if its own texts and those of
  its source are (`Diagnostic.controlFree_pieces`): the rest is fixed text, numbers, spaces and
  carets. So what is shown in colour is what is shown without, once the sequences are taken out
  (`Diagnostic.strip_render`).
-/

import TokenMachine.Proofs.Diagnostic.Carets

namespace TokenMachine

/-! ## Control sequences -/

namespace Text

def endsControl (c : Char) : Bool := '@' ≤ c && c ≤ '~'

/-- A text without its control sequences; `inside` says whether it begins in one. -/
def strip : (inside : Bool) → List Char → List Char
  | _, [] => []
  | true, c :: rest => strip (!endsControl c) rest
  | false, '\x1b' :: '[' :: rest => strip true rest
  | false, c :: rest => c :: strip false rest

def withoutControls (s : String) : String := String.ofList (strip false s.toList)

def ControlFree (s : String) : Prop := '\x1b' ∉ s.toList

instance (s : String) : Decidable (ControlFree s) := inferInstanceAs (Decidable (_ ∉ _))

variable {cs rest part : List Char} {c : Char} {n start stop : Nat} {s t : String}

theorem strip_cons (hc : c ≠ '\x1b') (rest : List Char) :
    strip false (c :: rest) = c :: strip false rest := by
  rw [strip]
  rintro _ rfl
  exact absurd rfl hc

/-- What is free of escape characters is left as it is. -/
theorem strip_append (h : '\x1b' ∉ cs) (rest : List Char) :
    strip false (cs ++ rest) = cs ++ strip false rest := by
  induction cs with
  | nil => rfl
  | cons c cs ih =>
    rw [List.mem_cons, not_or] at h
    rw [List.cons_append, strip_cons (Ne.symm h.1), ih h.2, List.cons_append]

@[simp] theorem controlFree_append : ControlFree (s ++ t) ↔ ControlFree s ∧ ControlFree t := by
  simp [ControlFree, not_or]

@[simp] theorem controlFree_ofList : ControlFree (String.ofList cs) ↔ '\x1b' ∉ cs := by
  simp [ControlFree]

@[simp] theorem controlFree_toString : ControlFree (toString s) ↔ ControlFree s := Iff.rfl

@[simp] theorem controlFree_repr (n : Nat) : ControlFree n.repr := by
  rw [Nat.repr_eq_ofList_toDigits, controlFree_ofList]
  intro h
  have hdigit := Nat.isDigit_of_mem_toDigits (by decide) (by decide) h
  cases hdigit

theorem controlFree_pushn (hs : ControlFree s) (hc : c ≠ '\x1b') (n : Nat) :
    ControlFree (s.pushn c n) := by
  induction n with
  | zero => exact hs
  | succ n ih =>
    show '\x1b' ∉ ((s.pushn c n).push c).toList
    rw [String.toList_push, List.mem_append, not_or, List.mem_singleton]
    exact ⟨ih, Ne.symm hc⟩

theorem isSuffix_of_dropBytes? (h : dropBytes? n cs = some rest) : rest <:+ cs := by
  fun_induction dropBytes? n cs with
  | case1 | case3 =>
    cases h
    exact List.suffix_rfl
  | case2 | case5 => cases h
  | case4 n c cs _ _ ih => exact (ih h).trans (List.suffix_cons c cs)

theorem isPrefix_of_takeBytes? (h : takeBytes? n cs = some part) : part <+: cs := by
  fun_induction takeBytes? n cs generalizing part with
  | case1 | case3 =>
    cases h
    exact List.nil_prefix
  | case2 | case5 => cases h
  | case4 n c cs _ _ ih =>
    obtain ⟨part', hpart, rfl⟩ := Option.map_eq_some_iff.mp h
    exact List.cons_prefix_cons.mpr ⟨rfl, ih hpart⟩

/-- A part of a text has no characters but those of the text. -/
theorem slice?_subset (h : slice? cs start stop = some part) : part ⊆ cs := by
  obtain ⟨rest, hrest, hpart⟩ := Option.bind_eq_some_iff.mp h
  exact List.Subset.trans (isPrefix_of_takeBytes? hpart).subset
    (isSuffix_of_dropBytes? hrest).subset

end Text

theorem LineTable.lineText?_subset {t : LineTable} {text line : List Char} {number : Nat}
    (h : t.lineText? text number = some line) : line ⊆ text := by
  obtain ⟨start, -, h⟩ := Option.bind_eq_some_iff.mp h
  obtain ⟨part, hpart, rfl⟩ := Option.map_eq_some_iff.mp h
  refine List.Subset.trans ?_ (Text.slice?_subset hpart)
  intro c hc
  have hmem := (List.dropWhile_sublist _).subset (List.mem_reverse.mp hc)
  exact List.mem_reverse.mp hmem

/-! ## Painted pieces -/

namespace Piece

open Text (ControlFree strip)

theorem strip_paint {p : Piece} (h : ControlFree p.text) (colors : Bool) (rest : List Char) :
    strip false ((p.paint colors).toList ++ rest) = p.text.toList ++ strip false rest := by
  have hescape (style : Style) (rest : List Char) :
      strip false (style.escape.toList ++ rest) = strip false rest := by
    cases style <;> rfl
  have hreset (rest : List Char) :
      strip false (Style.reset.toList ++ rest) = strip false rest := rfl
  unfold paint
  cases p.style with
  | none => exact Text.strip_append h rest
  | some style =>
    cases colors with
    | false => exact Text.strip_append h rest
    | true =>
      simp only [if_true, String.toList_append, List.append_assoc]
      rw [hescape, Text.strip_append h, hreset]

/-- Pieces are painted one by one, so their texts are left, in their order. -/
theorem strip_paint_all {pieces : List Piece} (h : ∀ p ∈ pieces, ControlFree p.text)
    (colors : Bool) (rest : List Char) :
    strip false ((String.join (pieces.map (paint colors))).toList ++ rest) =
      (texts pieces).toList ++ strip false rest := by
  induction pieces with
  | nil => rfl
  | cons p pieces ih =>
    obtain ⟨hp, hpieces⟩ := List.forall_mem_cons.mp h
    rw [List.map_cons, String.join_cons, String.toList_append, List.append_assoc, strip_paint hp,
      ih hpieces, texts_cons, String.toList_append, List.append_assoc]

end Piece

/-! ## Diagnostics -/

open Text (ControlFree)

variable {label : Label} {view : SourceView} {source : Option SourceView} {d : Diagnostic}

structure SourceView.ControlFree (view : SourceView) : Prop where
  path : Text.ControlFree view.path
  text : '\x1b' ∉ view.text

structure Diagnostic.ControlFree (d : Diagnostic) : Prop where
  message : Text.ControlFree d.message
  labels : ∀ label ∈ d.labels, Text.ControlFree label.message
  notes : ∀ note ∈ d.notes, Text.ControlFree note
  suggestions : ∀ suggestion ∈ d.suggestions, Text.ControlFree suggestion

theorem controlFree_spaces (n : Nat) : ControlFree (spaces n) :=
  Text.controlFree_pushn (by decide) (by decide) n

theorem controlFree_underline (line : List Char) (column : Nat) (span : Span) :
    ControlFree (underline line column span) := by
  rw [underline, Text.controlFree_append]
  exact ⟨controlFree_spaces _, Text.controlFree_pushn (by decide) (by decide) _⟩

theorem ErrorCode.controlFree_text (code : ErrorCode) : ControlFree code.text := by
  cases code <;> decide

namespace Label

theorem controlFree_snippet {number : String} {line : List Char} (hm : ControlFree label.message)
    (hn : ControlFree number) (hl : '\x1b' ∉ line) (column : Nat) :
    ∀ p ∈ label.snippet number line column, ControlFree p.text := by
  have hpad := controlFree_spaces number.length
  have hcarets := controlFree_underline line column label.span
  unfold snippet
  simp only [List.forall_mem_append, List.forall_mem_cons, Piece.plain, Piece.styled]
  refine ⟨⟨⟨?_, hcarets, List.forall_mem_nil _⟩, ?_⟩, by decide, List.forall_mem_nil _⟩
  · simp +decide [hpad, hn, hl]
  · split
    · exact List.forall_mem_nil _
    · simp +decide [hm]

theorem controlFree_pieces (hm : ControlFree label.message)
    (hs : ∀ view ∈ source, view.ControlFree) : ∀ p ∈ label.pieces source, ControlFree p.text := by
  unfold pieces
  cases source with
  | none => simp +decide [Piece.plain, Piece.styled, Span.render, hm]
  | some view =>
    obtain ⟨hpath, htext⟩ := hs view rfl
    simp only [List.forall_mem_append, List.forall_mem_cons, Piece.plain, Piece.styled]
    refine ⟨⟨⟨by decide, by decide, List.forall_mem_nil _⟩, ?_, List.forall_mem_nil _⟩, ?_⟩
    · simp +decide [hpath]
    · split
      · next line hline =>
        have hfree : '\x1b' ∉ line := fun hmem => htext (LineTable.lineText?_subset hline hmem)
        exact controlFree_snippet hm (Text.controlFree_repr _) hfree _
      · exact List.forall_mem_nil _

end Label

theorem controlFree_remark {text kind : String} (hk : ControlFree kind) (h : ControlFree text)
    (style : Style) : ∀ p ∈ remark style kind text, ControlFree p.text := by
  simp +decide [remark, Piece.plain, Piece.styled, hk, h]

namespace Diagnostic

theorem controlFree_pieces (h : d.ControlFree) (hs : ∀ view ∈ source, view.ControlFree) :
    ∀ p ∈ d.pieces source, Text.ControlFree p.text := by
  have hcode := d.code.controlFree_text
  unfold pieces
  simp only [List.forall_mem_append, List.forall_mem_flatMap]
  refine ⟨⟨⟨⟨?_, ?_⟩, ?_⟩, ?_⟩, ?_⟩
  · simp +decide [Piece.plain, Piece.styled, hcode, h.message]
  · exact fun label hlabel => label.controlFree_pieces (h.labels label hlabel) hs
  · exact fun note hnote => controlFree_remark (by decide) (h.notes note hnote) .note
  · exact fun text htext => controlFree_remark (by decide) (h.suggestions text htext) .help
  · simp +decide

/-- Diagnostics shown one after the other, with colour or without, with a source or without: if
nothing in them or in the source is an escape character, then they are shown the same without
colour and with the control sequences of the colours taken out. -/
theorem strip_render {ds : List Diagnostic} (hds : ∀ d ∈ ds, d.ControlFree)
    (hs : ∀ view ∈ source, view.ControlFree) (colors : Bool) :
    Text.withoutControls (String.join (ds.map (render colors source))) =
      String.join (ds.map (render false source)) := by
  refine String.toList_injective ?_
  rw [Text.withoutControls, String.toList_ofList]
  induction ds with
  | nil => rfl
  | cons d ds ih =>
    obtain ⟨hd, hds⟩ := List.forall_mem_cons.mp hds
    have hfirst := Piece.strip_paint_all (controlFree_pieces hd hs) colors
    have hplain (rest : List Char) : (Piece.texts (d.pieces source)).toList ++ rest =
        (d.render false source).toList ++ rest := rfl
    rw [List.map_cons, List.map_cons, String.join_cons, String.join_cons, String.toList_append,
      String.toList_append, ← ih hds, ← hplain, ← hfirst, render]

def unboundDiagnostic : Diagnostic where
  code := .unboundName
  message := "no x"
  labels := [⟨⟨3, 4⟩, "here", true⟩]
  notes := ["unbound"]
  suggestions := ["bind it"]

theorem strip_render_unbound :
    let view := SourceView.ofText "é" "up\nx"
    unboundDiagnostic.ControlFree ∧ view.ControlFree ∧
      '\x1b' ∈ (unboundDiagnostic.render true (some view)).toList ∧
      Text.withoutControls (String.join ([unboundDiagnostic, .error .emptyForm "m"].map
        (render true (some view)))) =
        "error[E6003]: no x\n  --> é:2:1\n   |\n 2 | x\n   | ^ here\n" ++
        "  = note: unbound\n  = help: bind it\n\nerror[E1001]: m\n\n" := by
  intro view
  have hd : unboundDiagnostic.ControlFree := ⟨by decide, by decide, by decide, by decide⟩
  have hview : view.ControlFree := ⟨by decide, by decide⟩
  have hempty : (Diagnostic.error .emptyForm "m").ControlFree :=
    ⟨by decide, by decide, by decide, by decide⟩
  have hds : ∀ d ∈ [unboundDiagnostic, .error .emptyForm "m"], d.ControlFree := by
    simp [hd, hempty]
  have hs : ∀ v ∈ some view, v.ControlFree := by simp [hview]
  have hstrip := strip_render hds hs true
  refine ⟨hd, hview, by decide +kernel, hstrip.trans ?_⟩
  decide +kernel

end Diagnostic

end TokenMachine
