/-
  TokenMachine.Proofs.Diagnostic.Positions — every offset has a line, and a column that says
  where in the line it is.

  The lines of a text are what line feeds divide it into. At each place between two of its
  characters the text splits into the lines before, what of the line is before the place, the
  rest of that line, and what a line feed divides from it (`Text.HasLine`, `Text.exists_hasLine`).
  So the line and the column are counted off that split (`LineTable.lineCol_ofText`), give the
  place back, and grow with it (`LineTable.lineCol_lt`). Any other offset, inside a character or
  past the end, still has the number of a line of the text, so each label shows the line it is
  on (`SourceView.locates`).
-/

import Mathlib.Data.List.DropRight
import TokenMachine.Proofs.Diagnostic.Carets

namespace TokenMachine

namespace Text

variable {text before after opened lead line rest : List Char}

/-! ## The line around a place -/

/-- The text has this line after what is `opened`; what is not of the line begins with its line
feed. -/
structure HasLine (text opened line rest : List Char) : Prop where
  text_eq : text = opened ++ (line ++ rest)
  opens : ∀ c ∈ opened.getLast?, c = '\n'
  inside : '\n' ∉ line
  closes : ∀ c ∈ rest.head?, c = '\n'

/-- The run of characters that ends a text, and what is before it. -/
theorem exists_final_run (p : Char → Bool) (cs : List Char) : ∃ kept run, cs = kept ++ run ∧
    (∀ c ∈ kept.getLast?, p c = false) ∧ ∀ c ∈ run, p c = true := by
  refine ⟨cs.rdropWhile p, cs.rtakeWhile p, List.rdropWhile_append_rtakeWhile.symm, ?_, ?_⟩
  · intro c hc
    have hne : cs.rdropWhile p ≠ [] := by
      intro hnil
      rw [hnil] at hc
      cases hc
    rw [List.getLast?_eq_getLast_of_ne_nil hne] at hc
    cases hc
    exact Bool.eq_false_iff.mpr (List.rdropWhile_last_not p cs hne)
  · intro c hc
    exact List.mem_rtakeWhile_imp hc

/-- Each place in a text is in a line of it. -/
theorem exists_hasLine (before after : List Char) : ∃ opened lead tail rest,
    before = opened ++ lead ∧ HasLine (before ++ after) opened (lead ++ tail) rest := by
  obtain ⟨opened, lead, rfl, hopens, hlead⟩ := exists_final_run (· ≠ '\n') before
  refine ⟨opened, lead, after.takeWhile (· ≠ '\n'), after.dropWhile (· ≠ '\n'), rfl, ?_, ?_, ?_, ?_⟩
  · rw [List.append_assoc, List.append_assoc, List.takeWhile_append_dropWhile]
  · intro c hc
    simpa using hopens c hc
  · intro hmem
    rcases List.mem_append.mp hmem with hmem | hmem
    · simpa using hlead _ hmem
    · simpa using List.mem_takeWhile_imp hmem
  · intro c hc
    have hhead := List.head?_dropWhile_not (· ≠ '\n') after
    rw [hc] at hhead
    simpa using hhead

/-- What of a line is before a place adds no line feed to those before the line. -/
theorem HasLine.count_eq (h : HasLine text opened (lead ++ line) rest) :
    (opened ++ lead).count '\n' = opened.count '\n' := by
  have hlead : lead.count '\n' = 0 :=
    List.count_eq_zero.mpr fun hmem => h.inside (List.mem_append_left _ hmem)
  rw [List.count_append, hlead, Nat.add_zero]

/-- As many line feeds as a text has can stand before a place in it. -/
theorem exists_append_of_le_count {n : Nat} (h : n ≤ text.count '\n') :
    ∃ before after, text = before ++ after ∧ before.count '\n' = n := by
  induction n generalizing text with
  | zero => exact ⟨[], text, rfl, rfl⟩
  | succ n ih =>
    have hmem : '\n' ∈ text := List.count_pos_iff.mp (by omega)
    obtain ⟨passed, text, rfl, hpassed⟩ := List.eq_append_cons_of_mem hmem
    have hcount : passed.count '\n' = 0 := List.count_eq_zero.mpr hpassed
    rw [List.count_append, hcount, List.count_cons_self] at h
    have hle : n ≤ text.count '\n' := by omega
    obtain ⟨before, after, rfl, hbefore⟩ := ih hle
    refine ⟨passed ++ '\n' :: before, after, by simp, ?_⟩
    rw [List.count_append, hcount, List.count_cons_self, hbefore]
    omega

/-- A text has one line more than it has line feeds. -/
theorem length_splitOn (text : List Char) :
    (text.splitOn '\n').length = text.count '\n' + 1 := by
  rw [List.splitOn_eq_splitOnP]
  induction text with
  | nil => rfl
  | cons c text ih =>
    rw [List.splitOnP_cons_eq_if_modifyHead, List.count_cons]
    by_cases hc : c = '\n' <;> simp [hc, ih]

/-- A line has as its number the line feeds before it, counted from zero. -/
theorem HasLine.getElem?_splitOn (h : HasLine text opened line rest) :
    (text.splitOn '\n')[opened.count '\n']? = some line := by
  obtain ⟨rfl, hopens, hinside, hcloses⟩ := h
  have hline : ∀ c ∈ line, (c == '\n') = false := by
    intro c hc
    refine beq_eq_false_iff_ne.mpr ?_
    rintro rfl
    exact hinside hc
  have hfirst : ((line ++ rest).splitOn '\n')[0]? = some line := by
    rw [List.splitOn_eq_splitOnP]
    cases rest with
    | nil => rw [List.append_nil, List.splitOnP_eq_singleton hline, List.getElem?_cons_zero]
    | cons c rest =>
      obtain rfl : c = '\n' := hcloses c rfl
      rw [List.splitOnP_append_cons_of_forall_mem hline _ rfl, List.getElem?_cons_zero]
  rcases List.eq_nil_or_concat opened with rfl | ⟨passed, c, rfl⟩
  · exact hfirst
  · obtain rfl : c = '\n' := hopens c (by simp)
    have hcount : (passed ++ ['\n']).count '\n' = (passed.splitOn '\n').length := by
      rw [length_splitOn, List.count_append]
      rfl
    rw [List.concat_eq_append, hcount, List.append_assoc, List.singleton_append,
      List.splitOn_eq_splitOnP, List.splitOn_eq_splitOnP, List.splitOnP_append_cons _ _ rfl,
      List.getElem?_append_right (Nat.le_refl _), Nat.sub_self, ← List.splitOn_eq_splitOnP]
    exact hfirst

/-- The table has the line without the run of carriage returns that ends it. -/
theorem HasLine.lineText? (h : HasLine text opened line rest)
    (hsize : byteLength text < Span.maxOffset - 1) :
    (LineTable.ofText text).lineText? text (opened.count '\n' + 1) =
      some (line.rdropWhile fun c => c = '\n' || c = '\r') := by
  obtain ⟨htext, hopens, hinside, hcloses⟩ := h
  obtain ⟨kept, run, rfl, hkept, hrun⟩ := exists_final_run (· = '\r') line
  have hrun : run = List.replicate run.length '\r' :=
    List.eq_replicate_of_mem fun c hc => by simpa using hrun c hc
  generalize run.length = returns at hrun
  subst hrun
  have hinside : '\n' ∉ kept := fun hmem => hinside (List.mem_append_left _ hmem)
  have hkept : ∀ c ∈ kept.getLast?, c ≠ '\r' := fun c hc => by simpa using hkept c hc
  have htrim : LineTable.trimLineEnd (kept ++ List.replicate returns '\r') = kept := by
    refine LineTable.trimLineEnd_append (fun c hc => ⟨?_, hkept c hc⟩) (fun c hc => ?_)
    · rintro rfl
      exact hinside (List.mem_of_getLast? hc)
    · exact .inr (List.eq_of_mem_replicate hc)
  -- Dropping the run from the right is what trimming does.
  refine Eq.trans ?_ (congrArg some htrim.symm)
  cases rest with
  | nil =>
    exact LineTable.lineText?_of_isLine
      ⟨by simp [htext], hopens, hinside, hkept, .last returns⟩ hsize
  | cons c after =>
    obtain rfl : c = '\n' := hcloses c rfl
    exact LineTable.lineText?_of_isLine
      ⟨by simp [htext], hopens, hinside, hkept, .feed returns after⟩ hsize

end Text

/-! ## The table of a text -/

namespace LineTable

open Text (HasLine byteLength)

variable {text before passed after : List Char}

/-- Whatever the offset, its line is one that the text has. -/
theorem exists_hasLine (hsize : byteLength text < Span.maxOffset) (offset : Nat) :
    ∃ opened line rest, HasLine text opened line rest ∧
      (ofText text).lineOf offset = opened.count '\n' + 1 := by
  have hlt := index_lt (t := ofText text) (by rw [size_starts]; omega) offset
  rw [size_starts] at hlt
  have hcount := Text.count_le_byteLength '\n' text
  rw [lineOf, ordinal_eq (by omega)]
  obtain ⟨before, after, rfl, hbefore⟩ := Text.exists_append_of_le_count (Nat.le_of_lt_succ hlt)
  obtain ⟨opened, lead, tail, rest, rfl, h⟩ := Text.exists_hasLine before after
  rw [h.count_eq] at hbefore
  exact ⟨opened, lead ++ tail, rest, h, by rw [hbefore]⟩

/-- The line of a place, its column in that line, and the way back from them: where the line
begins, with what of the line is to the left of the place. -/
theorem exists_place (htext : text = before ++ after)
    (hsize : byteLength text < Span.maxOffset) : ∃ opened line column,
    (text.splitOn '\n')[before.count '\n']? = some line ∧
    before = opened ++ line.take column ∧ column ≤ line.length ∧
    (ofText text).lineCol text (byteLength before) = (before.count '\n' + 1, column + 1) ∧
    (ofText text).lineStart? (before.count '\n' + 1) = some (byteLength opened) ∧
    byteLength opened + byteLength (line.take column) = byteLength before := by
  subst htext
  obtain ⟨opened, lead, tail, rest, rfl, h⟩ := Text.exists_hasLine before after
  have hlead : '\n' ∉ lead := fun hmem => h.inside (List.mem_append_left _ hmem)
  have htake : (lead ++ tail).take lead.length = lead := List.take_left
  rw [List.append_assoc] at hsize
  have hcol := lineCol_ofText h.opens hlead hsize
  have hstart := lineStart?_ofText h.opens (Nat.le_of_lt hsize)
  rw [← List.append_assoc] at hcol hstart
  rw [h.count_eq]
  refine ⟨opened, lead ++ tail, lead.length, h.getElem?_splitOn, ?_, ?_, hcol, hstart, ?_⟩
  · rw [htake]
  · simp
  · rw [htake, Text.byteLength_append]

/-- A later place is in a later line, or further to the right in the same one. -/
theorem lineCol_lt (htext : text = before ++ (passed ++ after)) (hpassed : passed ≠ [])
    (hsize : byteLength text < Span.maxOffset) :
    Prod.Lex (· < ·) (· < ·) ((ofText text).lineCol text (byteLength before))
      ((ofText text).lineCol text (byteLength (before ++ passed))) := by
  subst htext
  by_cases hfeed : '\n' ∈ passed
  · have hcount : 0 < passed.count '\n' := List.count_pos_iff.mpr hfeed
    have hline := lineOf_ofText hsize
    rw [← List.append_assoc] at hsize
    have hline' := lineOf_ofText hsize
    rw [List.count_append, List.append_assoc] at hline'
    refine (Prod.lex_def).mpr (.inl ?_)
    show (ofText _).lineOf _ < (ofText _).lineOf _
    omega
  · obtain ⟨opened, lead, tail, rest, rfl, h⟩ := Text.exists_hasLine before (passed ++ after)
    have hlead : '\n' ∉ lead := fun hmem => h.inside (List.mem_append_left _ hmem)
    have hlead' : '\n' ∉ lead ++ passed := by
      rw [List.mem_append, not_or]
      exact ⟨hlead, hfeed⟩
    have hcol := lineCol_ofText h.opens hlead (by simpa only [List.append_assoc] using hsize)
    have hcol' := lineCol_ofText h.opens hlead' (by simpa only [List.append_assoc] using hsize)
    simp only [List.append_assoc] at hcol hcol' ⊢
    rw [hcol, hcol']
    refine .right _ ?_
    have hpos := List.length_pos_iff.mpr hpassed
    rw [List.length_append]
    omega

end LineTable

namespace SourceView

open Text (byteLength)

/-- Lines and columns say exactly where an offset is. Take the lines that line feeds divide a text
into. A place between two characters has the line that the line feeds before it number; it stands
after the columns to its left in that line, which begins where the table says, so line and column
give the place back, and they grow with it. And whatever the offset of a label, also inside a
character or past the end, the label has a line of the text, without the carriage returns that
end it, with carets below and its message. The text is one in which no number is too large: not
even that of the line after the last. -/
theorem locates (path text : String) (hsize : text.utf8ByteSize < Span.maxOffset - 1) :
    let view := SourceView.ofText path text
    let lines := view.text.splitOn '\n'
    (∀ before after, view.text = before ++ after → ∃ opened line column,
      lines[before.count '\n']? = some line ∧
      before = opened ++ line.take column ∧ column ≤ line.length ∧
      view.lines.lineCol view.text (byteLength before) = (before.count '\n' + 1, column + 1) ∧
      view.lines.lineStart? (before.count '\n' + 1) = some (byteLength opened) ∧
      byteLength opened + byteLength (line.take column) = byteLength before) ∧
    (∀ before after before' after', view.text = before ++ after → view.text = before' ++ after' →
      byteLength before < byteLength before' →
      Prod.Lex (· < ·) (· < ·) (view.lines.lineCol view.text (byteLength before))
        (view.lines.lineCol view.text (byteLength before'))) ∧
    ∀ offset, ∃ number line, view.lines.lineOf offset = number + 1 ∧ lines[number]? = some line ∧
      number + 1 < Span.maxOffset ∧
      let shown := line.rdropWhile fun c => c = '\n' || c = '\r'
      view.lines.lineText? view.text (number + 1) = some shown ∧
      ∀ label : Label, label.span.start = offset → ∃ column carets, 0 < carets ∧
        view.lines.lineCol view.text offset = (number + 1, column) ∧
        Piece.texts (label.pieces (some view)) =
          label.onLine path (number + 1) column shown carets := by
  intro view lines
  have hshown : byteLength view.text < Span.maxOffset - 1 := Text.utf8ByteSize_eq text ▸ hsize
  have hfits : byteLength view.text < Span.maxOffset := Nat.lt_of_lt_of_le hshown (Nat.sub_le _ _)
  refine ⟨?_, ?_, ?_⟩
  · intro before after htext
    exact LineTable.exists_place htext hfits
  · intro before after before' after' htext htext' hlt
    rcases List.append_eq_append_iff.mp (htext.symm.trans htext') with
      ⟨passed, rfl, rfl⟩ | ⟨passed, rfl, -⟩
    · refine LineTable.lineCol_lt htext ?_ hfits
      rintro rfl
      simp at hlt
    · rw [Text.byteLength_append] at hlt
      omega
  · intro offset
    obtain ⟨opened, line, rest, h, hline⟩ := LineTable.exists_hasLine hfits offset
    have hcount := Text.count_le_byteLength '\n' opened
    have htext : byteLength view.text = byteLength opened + byteLength (line ++ rest) := by
      rw [h.text_eq, Text.byteLength_append]
    refine ⟨opened.count '\n', line, hline, h.getElem?_splitOn, ?_, h.lineText? hshown, ?_⟩
    · omega
    rintro label rfl
    refine ⟨_, _, ?_, Prod.ext hline rfl,
      Label.texts_pieces (Prod.ext hline rfl) (h.lineText? hshown)⟩
    omega

/-- A line that carriage return and line feed end, an empty line, and a last line with a letter of
three bytes. The place before that letter is in the second column; the places after `é` and before
the empty line are in two lines; a label past the end has the last line, and one inside `é` the
first line without its carriage return. -/
theorem locates_lines :
    let view := SourceView.ofText "p" "é\r\n\nx日"
    (∃ opened line, (view.text.splitOn '\n')[2]? = some line ∧
      ['é', '\r', '\n', '\n', 'x'] = opened ++ line.take 1 ∧
      view.lines.lineCol view.text 6 = (3, 2) ∧
      byteLength opened + byteLength (line.take 1) = 6) ∧
    Prod.Lex (· < ·) (· < ·) (view.lines.lineCol view.text 2) (view.lines.lineCol view.text 4) ∧
    (∃ carets, 0 < carets ∧ Piece.texts (Label.pieces (some view) ⟨⟨99, 99⟩, "end", true⟩) =
      Label.onLine ⟨⟨99, 99⟩, "end", true⟩ "p" 3 3 ['x', '日'] carets) ∧
    ∃ carets, 0 < carets ∧ Piece.texts (Label.pieces (some view) ⟨⟨1, 2⟩, "here", true⟩) =
      Label.onLine ⟨⟨1, 2⟩, "here", true⟩ "p" 1 1 ['é'] carets := by
  intro view
  obtain ⟨hplaces, hgrows, hlabels⟩ := locates "p" "é\r\n\nx日" (by decide)
  refine ⟨?_, hgrows ['é'] _ ['é', '\r', '\n'] _ rfl rfl (by decide), ?_, ?_⟩
  · obtain ⟨opened, line, column, hline, hbefore, -, hcol, -, hback⟩ :=
      hplaces ['é', '\r', '\n', '\n', 'x'] ['日'] rfl
    have hcol' : view.lines.lineCol view.text 6 = (3, 2) := by decide +kernel
    obtain rfl : 1 = column := Nat.succ.inj (Prod.ext_iff.mp (hcol'.symm.trans hcol)).2
    exact ⟨opened, line, hline, hbefore, hcol', hback⟩
  · obtain ⟨number, line, hnumber, hline, -, -, hshown⟩ := hlabels 99
    obtain ⟨column, carets, hcarets, hcol, htexts⟩ := hshown ⟨⟨99, 99⟩, "end", true⟩ rfl
    obtain ⟨rfl, rfl⟩ : 2 = number ∧ 3 = column := by
      have hcol' : view.lines.lineCol view.text 99 = (3, 3) := by decide +kernel
      obtain ⟨hnumber', hcolumn⟩ := Prod.ext_iff.mp (hcol'.symm.trans hcol)
      exact ⟨Nat.succ.inj hnumber', hcolumn⟩
    cases hline
    exact ⟨carets, hcarets, htexts⟩
  · obtain ⟨number, line, hnumber, hline, -, -, hshown⟩ := hlabels 1
    obtain ⟨column, carets, hcarets, hcol, htexts⟩ := hshown ⟨⟨1, 2⟩, "here", true⟩ rfl
    obtain ⟨rfl, rfl⟩ : 0 = number ∧ 1 = column := by
      have hcol' : view.lines.lineCol view.text 1 = (1, 1) := by decide +kernel
      obtain ⟨hnumber', hcolumn⟩ := Prod.ext_iff.mp (hcol'.symm.trans hcol)
      exact ⟨Nat.succ.inj hnumber', hcolumn⟩
    cases hline
    exact ⟨carets, hcarets, htexts⟩

/-- A text of one line, with as many letters as the largest offset says: the column of its end
wraps around to zero. -/
theorem last_column_wraps :
    let view := SourceView.ofText "p" (String.ofList (List.replicate Span.maxOffset 'a'))
    byteLength view.text < Span.maxOffset + 1 ∧
      view.lines.lineCol view.text (byteLength view.text) = (1, 0) ∧
      view.lines.lineCol view.text (byteLength view.text) ≠
        (view.text.count '\n' + 1, view.text.length + 1) := by
  have hwraps (cs : List Char) (hcs : ∀ c ∈ cs, c = 'a') (hlength : cs.length = Span.maxOffset) :
      byteLength cs = Span.maxOffset ∧
        (LineTable.ofText cs).lineCol cs (byteLength cs) = (1, 0) := by
    have hfeed : '\n' ∉ cs := fun hmem => absurd (hcs _ hmem) (by decide)
    have hbytes : byteLength cs = cs.length :=
      Text.byteLength_eq_length_iff.mpr fun c hc => by rw [hcs c hc]; rfl
    have hcolumn : LineTable.ordinal Span.maxOffset = 0 := by decide
    rw [LineTable.lineCol_of_not_mem hfeed, hlength, hcolumn]
    exact ⟨hbytes.trans hlength, rfl⟩
  obtain ⟨hbytes, hcol⟩ := hwraps (List.replicate Span.maxOffset 'a')
    (fun c hc => List.eq_of_mem_replicate hc) List.length_replicate
  simp only [ofText, String.toList_ofList]
  refine ⟨?_, hcol, ?_⟩
  · rw [hbytes]
    exact Nat.lt_add_one _
  · have hne (line column : Nat) : ((1, 0) : Nat × Nat) ≠ (line, column + 1) := fun heq =>
      Nat.succ_ne_zero column (Prod.ext_iff.mp heq).2.symm
    rw [hcol]
    exact hne _ _

end SourceView

end TokenMachine
