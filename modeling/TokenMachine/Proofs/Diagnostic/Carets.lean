/-
  TokenMachine.Proofs.Diagnostic.Carets — how many carets stand under a label's characters.

  A label on characters of one line shows the line, and below it a space for each character
  before the label's first. Then come as many carets as the span has bytes, if the line is that
  long, and else as many as it has characters left. So there is one for each character exactly
  if all of them take one byte, or the last of them ends the line (`Label.texts_of_isLine`).
-/

import Mathlib.Data.List.Basic
import TokenMachine.Diagnostic.Render
import TokenMachine.Proofs.Diagnostic.Lines

namespace TokenMachine

variable {text path : String} {before lead covered tail ending after line : List Char}
  {label : Label} {d : Diagnostic} {number column : Nat}

/-! ## Characters and bytes -/

namespace Text

theorem byteLength_eq_length_iff {cs : List Char} :
    byteLength cs = cs.length ↔ ∀ c ∈ cs, c.utf8Size = 1 := by
  induction cs with
  | nil => simp [byteLength]
  | cons c cs ih =>
    have hpos := c.utf8Size_pos
    have hle := length_le_byteLength cs
    rw [List.forall_mem_cons, ← ih, List.length_cons, byteLength]
    omega

end Text

/-! ## Text without colour -/

namespace Piece

def texts (pieces : List Piece) : String := String.join (pieces.map (paint false))

@[simp] theorem texts_nil : texts [] = "" := rfl

@[simp] theorem texts_cons (p : Piece) (pieces : List Piece) :
    texts (p :: pieces) = p.text ++ texts pieces := by
  have hpaint : p.paint false = p.text := by
    rw [paint]
    split <;> rfl
  rw [texts, List.map_cons, String.join_cons, hpaint, texts]

@[simp] theorem texts_append (pieces pieces' : List Piece) :
    texts (pieces ++ pieces') = texts pieces ++ texts pieces' := by
  rw [texts, List.map_append, String.join_append, texts, texts]

end Piece

/-- What a diagnostic shows has the text of each of its labels in it. -/
theorem Diagnostic.render_of_mem (h : label ∈ d.labels) (view : Option SourceView) :
    ∃ above below, d.render false view = above ++ Piece.texts (label.pieces view) ++ below := by
  have hlabels : d.labels.flatMap (Label.pieces view) <:+: d.pieces view := by
    simp only [pieces, List.append_assoc]
    exact List.infix_append' _ _ _
  have hpieces : label.pieces view <:+: d.pieces view :=
    (List.infix_of_mem_flatten (List.mem_map_of_mem h)).trans hlabels
  obtain ⟨pre, post, hpieces⟩ := hpieces
  refine ⟨Piece.texts pre, Piece.texts post, ?_⟩
  rw [← Piece.texts_append, ← Piece.texts_append, hpieces]
  rfl

/-! ## Labels on a line -/

namespace Label

open Text (IsLine byteLength)

/-- A label on a line of a text: where it is, the line, and so many carets from a column on. -/
def onLine (label : Label) (path : String) (number column : Nat) (line : List Char)
    (carets : Nat) : String :=
  let gutter := spaces (toString number).length
  let marks := spaces (column - 1) ++ "".pushn '^' carets
  let message := if label.message.isEmpty then "" else s!" {label.message}"
  s!"  --> {path}:{number}:{column}\n {gutter} |\n {number} | {String.ofList line}\n" ++
    s!" {gutter} | {marks}{message}\n"

theorem texts_pieces
    (hcol : (LineTable.ofText text.toList).lineCol text.toList label.span.start = (number, column))
    (hline : (LineTable.ofText text.toList).lineText? text.toList number = some line) :
    Piece.texts (label.pieces (some (.ofText path text))) =
      label.onLine path number column line
        (max (min label.span.length (line.length - (column - 1))) 1) := by
  simp only [pieces, SourceView.ofText, hcol, hline, snippet, underline]
  generalize max (min label.span.length (line.length - (column - 1))) 1 = carets
  -- The pieces end elsewhere than the literals do.
  have harrow : "  --> " = "  " ++ ("-->" ++ " ") := by decide
  have hbreak : "\n " = "\n" ++ " " := by decide
  have htext (s : String) : toString s = s := rfl
  unfold onLine
  simp only [Piece.texts_append, Piece.texts_cons, Piece.texts_nil, Piece.plain, Piece.styled,
    htext, harrow, hbreak]
  split <;>
    simp only [Piece.texts_cons, Piece.texts_nil, String.append_assoc, String.append_empty]

/-- A label on characters of one line has as many carets as they take bytes, or as the line has
characters from there on if these are fewer. It has never fewer carets than characters; and no
more exactly if each of them takes one byte, or nothing of the line comes after them. The text is
one whose offsets, lines and columns all fit. -/
theorem texts_of_isLine (hlabel : label ∈ d.labels)
    (hline : IsLine text.toList before (lead ++ covered ++ tail) ending after)
    (hcovered : covered ≠ []) (hstart : label.span.start = byteLength (before ++ lead))
    (hstop : label.span.stop = byteLength (before ++ lead ++ covered))
    (hsize : text.utf8ByteSize < Span.maxOffset - 1) (path : String) :
    let view := SourceView.ofText path text
    let carets := min (byteLength covered) (covered.length + tail.length)
    let shown := label.onLine path (before.count '\n' + 1) (lead.length + 1)
      (lead ++ covered ++ tail) carets
    Piece.texts (label.pieces (some view)) = shown ∧
    (∃ above below, d.render false (some view) = above ++ shown ++ below) ∧
    covered.length ≤ carets ∧
    (carets = covered.length ↔ (∀ c ∈ covered, c.utf8Size = 1) ∨ tail = []) := by
  intro view carets shown
  have hbytes := Text.length_le_byteLength covered
  have hpos : 0 < covered.length := List.length_pos_iff.mpr hcovered
  rw [Text.utf8ByteSize_eq] at hsize
  have hlength : label.span.length = byteLength covered := by
    have htext : byteLength text.toList =
        byteLength (before ++ lead ++ covered) + byteLength (tail ++ ending ++ after) := by
      rw [hline.text_eq, ← Text.byteLength_append]
      simp only [List.append_assoc]
    rw [Text.byteLength_append (before ++ lead)] at hstop htext
    rw [Span.length_eq_sub (by omega) (by omega)]
    omega
  have hcarets : max (min label.span.length ((lead ++ covered ++ tail).length -
      (lead.length + 1 - 1))) 1 = carets := by
    simp only [hlength, List.length_append, carets]
    omega
  have htexts : Piece.texts (label.pieces (some view)) = shown := by
    simp only [shown, ← hcarets]
    refine texts_pieces ?_ (LineTable.lineText?_of_isLine hline hsize)
    rw [List.append_assoc] at hline
    rw [hstart]
    exact LineTable.lineCol_of_isLine hline (Nat.lt_of_lt_of_le hsize (Nat.sub_le _ _))
  refine ⟨htexts, ?_, ?_, ?_⟩
  · rw [← htexts]
    exact Diagnostic.render_of_mem hlabel _
  · omega
  · rw [← Text.byteLength_eq_length_iff, ← List.length_eq_zero_iff]
    omega

/-- On the second line, after a letter of two bytes: characters of one and of three bytes, to the
end of the line. -/
theorem texts_of_isLine_end :
    let text := "ok\r\né x日\r\n"
    let label : Label := ⟨⟨7, 11⟩, "here", true⟩
    let d : Diagnostic := ⟨.unboundName, "m", [⟨⟨0, 2⟩, "", false⟩, label], [], []⟩
    IsLine text.toList ['o', 'k', '\r', '\n'] (['é', ' '] ++ ['x', '日'] ++ []) ['\r', '\n'] [] ∧
    ∃ above below, d.render false (some (.ofText "p" text)) =
      above ++ "  --> p:2:3\n   |\n 2 | é x日\n   |   ^^ here\n" ++ below := by
  intro text label d
  have hline : IsLine text.toList ['o', 'k', '\r', '\n'] (['é', ' '] ++ ['x', '日'] ++ [])
      ['\r', '\n'] [] :=
    ⟨by decide, by simp, by decide, by simp, .feed 1 []⟩
  have hlabel : label ∈ d.labels := by decide
  obtain ⟨-, ⟨above, below, hrender⟩, -, hexact⟩ :=
    texts_of_isLine hlabel hline (by decide) (by decide) (by decide) (by decide) "p"
  refine ⟨hline, above, below, ?_⟩
  rw [hrender, hexact.mpr (.inr rfl)]
  rfl

/-- A letter of two bytes has two carets, if the line goes on. -/
theorem two_carets_for_letter :
    let text := "é x"
    let label : Label := ⟨⟨0, 2⟩, "", true⟩
    IsLine text.toList [] ([] ++ ['é'] ++ [' ', 'x']) [] [] ∧
      Piece.texts (label.pieces (some (.ofText "p" text))) =
        "  --> p:1:1\n   |\n 1 | é x\n   | ^^\n" ∧
      Piece.texts (label.pieces (some (.ofText "p" text))) ≠
        label.onLine "p" 1 1 text.toList ['é'].length := by
  intro text label
  have hline : IsLine text.toList [] ([] ++ ['é'] ++ [' ', 'x']) [] [] :=
    ⟨by decide, by simp, by decide, by simp, .last 0⟩
  have hsplit : IsLine text.toList [] ([] ++ ['é', ' ', 'x']) [] [] := hline
  have hcol : (LineTable.ofText text.toList).lineCol text.toList 0 = (1, 1) :=
    LineTable.lineCol_of_isLine hsplit (by decide)
  have htexts : Piece.texts (label.pieces (some (.ofText "p" text))) =
      "  --> p:1:1\n   |\n 1 | é x\n   | ^^\n" :=
    (texts_pieces hcol (LineTable.lineText?_of_isLine hline (by decide))).trans (by decide)
  refine ⟨hline, htexts, ?_⟩
  rw [htexts]
  decide

end Label

end TokenMachine
