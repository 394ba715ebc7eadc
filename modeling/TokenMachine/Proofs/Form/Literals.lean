/-
  TokenMachine.Proofs.Form.Literals — where a quoted text ends.

  From its opening quote on, a quoted text is read with a backslash protecting the character
  after it, whatever that is (`Text.Closes`). A scan follows this up to the first backslash
  before a line feed, and breaks the text off there (`Lexeme.scanQuoted_append`,
  `Lexeme.enclosed_scanQuoted`). So the lexeme at an opening quote is the text up to the quote
  that closes it exactly if no backslash in it stands before a line feed, and the reader finds
  a text unterminated only if it is never closed, or for such a line feed (`Form.read_literal`).
-/

import TokenMachine.Proofs.Form.Printing
import TokenMachine.Proofs.Form.Spans

namespace TokenMachine

/-! ## Closing quotes -/

namespace Text

/-- What can stand between quotes: no quote that is not protected, and backslashes only before
letters of a kind, which they protect. -/
inductive Enclosed (letters : Char → Prop) : List Char → Prop
  | nil : Enclosed letters []
  | plain {c : Char} {cs : List Char} :
      c ≠ '"' → c ≠ '\\' → Enclosed letters cs → Enclosed letters (c :: cs)
  | escape {letter : Char} {cs : List Char} :
      letters letter → Enclosed letters cs → Enclosed letters ('\\' :: letter :: cs)

/-- After an opening quote comes `body`, then the first quote that no backslash protects, then
`after`. -/
def Closes (rest body after : List Char) : Prop :=
  rest = body ++ '"' :: after ∧ Enclosed (fun _ => True) body

variable {letters : Char → Prop} {body body' after after' part : List Char}

theorem Enclosed.escaped (h : Enclosed letters body) : Escaped letters body := by
  induction h with
  | nil => exact .nil
  | plain _ hb _ ih => exact .plain hb ih
  | escape hl _ ih => exact .escape hl ih

theorem Enclosed.mono {kind : Char → Prop} (h : Enclosed letters body)
    (hle : ∀ c, letters c → kind c) : Enclosed kind body := by
  induction h with
  | nil => exact .nil
  | plain hq hb _ ih => exact .plain hq hb ih
  | escape hl _ ih => exact .escape (hle _ hl) ih

theorem Enclosed.append (h : Enclosed letters body) (h' : Enclosed letters part) :
    Enclosed letters (body ++ part) := by
  induction h with
  | nil => exact h'
  | plain hq hb _ ih => exact .plain hq hb ih
  | escape hl _ ih => exact .escape hl ih

/-- What is enclosed has a first escape that is not of the kind, or none. -/
theorem Enclosed.of_kind_or (h : Enclosed (fun _ => True) body) (letters : Char → Prop) :
    Enclosed letters body ∨
      ∃ part letter tail, body = part ++ '\\' :: letter :: tail ∧ Enclosed letters part ∧
        ¬ letters letter := by
  induction h with
  | nil => exact .inl .nil
  | @plain c _ hq hb _ ih =>
    rcases ih with h | ⟨part, letter, tail, rfl, hpart, hl⟩
    · exact .inl (.plain hq hb h)
    · exact .inr ⟨c :: part, letter, tail, rfl, .plain hq hb hpart, hl⟩
  | @escape c cs _ _ ih =>
    by_cases hc : letters c
    · rcases ih with h | ⟨part, letter, tail, rfl, hpart, hl⟩
      · exact .inl (.escape hc h)
      · exact .inr ⟨'\\' :: c :: part, letter, tail, rfl, .escape hc hpart, hl⟩
    · exact .inr ⟨[], c, cs, rfl, .nil, hc⟩

end Text

/-! ## Scanning -/

namespace Lexeme

open Text (Closes Enclosed Remains byteLength)

variable {source : String} {before rest body after part tail cs : List Char} {l : Lexeme}
  {offset : Nat}

/-- Before the text is closed, a backslash stands before a line feed. -/
def BreaksOff (rest : List Char) : Prop :=
  ∃ part tail, rest = part ++ '\\' :: '\n' :: tail ∧ Enclosed (· ≠ '\n') part

theorem enclosed_scanQuoted (cs : List Char) : Enclosed (· ≠ '\n') (scanQuoted cs).body := by
  fun_induction scanQuoted cs with
  | case1 | case2 | case3 | case4 => exact .nil
  | case5 c rest hc ih => exact .escape (fun h => hc h) ih
  | case6 c rest hquote hlast _ hpair ih =>
    exact .plain hquote (Text.ne_backslash hlast hpair) ih

/-- A scan passes whatever is enclosed and has no backslash before a line feed. -/
theorem scanQuoted_append (h : Enclosed (· ≠ '\n') part) (rest : List Char) :
    scanQuoted (part ++ rest) = (scanQuoted rest).prepend part := by
  induction h with
  | nil => rfl
  | plain hq hb _ ih =>
    rw [List.cons_append, scanQuoted_cons hq hb, ih]
    rfl
  | escape hl _ ih =>
    rw [List.cons_append, List.cons_append, scanQuoted_pair hl, ih]
    rfl

theorem closes_of_scanQuoted (h : (scanQuoted rest).closed = true) :
    Closes rest (scanQuoted rest).body (scanQuoted rest).rest := by
  refine ⟨by simpa using scanQuoted_closed h, (enclosed_scanQuoted rest).mono ?_⟩
  exact fun _ _ => trivial

def literal (start : Nat) (rest : List Char) : Lexeme :=
  let stop := start + 1 + byteLength (scanQuoted rest).body
  if (scanQuoted rest).closed then .quoted (scanQuoted rest).body ⟨start, stop + 1⟩
  else .unterminated ⟨start, stop⟩

theorem literal_of_closed (h : (scanQuoted rest).closed = true) (offset : Nat) :
    literal offset rest = .quoted (scanQuoted rest).body
      ⟨offset, offset + 1 + byteLength (scanQuoted rest).body + 1⟩ := if_pos h

theorem literal_of_open (h : ¬ (scanQuoted rest).closed = true) (offset : Nat) :
    literal offset rest =
      .unterminated ⟨offset, offset + 1 + byteLength (scanQuoted rest).body⟩ := if_neg h

theorem scan_quote (offset : Nat) (rest : List Char) : scan offset ('"' :: rest) =
    literal offset rest :: scan (literal offset rest).span.stop (scanQuoted rest).rest := by
  rw [scan, if_neg (by decide), if_neg (by decide), if_neg (by decide), if_neg (by decide),
    if_pos rfl]
  unfold literal
  dsimp only
  split <;> rfl

/-- A lexeme that starts at a quote is the text that opens there. -/
theorem eq_literal_of_mem (h : Remains source offset cs) (hl : l ∈ scan offset cs)
    (hquote : Remains source l.span.start ('"' :: rest)) : l = literal l.span.start rest := by
  -- Any other lexeme starts at a character that is no quote.
  have other {c : Char} {start : Nat} {cs : List Char} (hc : c ≠ '"')
      (h : Remains source start (c :: cs)) (hquote : Remains source start ('"' :: rest)) : False := by
    simpa [hc] using h.unique hquote
  fun_induction scan offset cs with
  | case1 => cases hl
  | case2 offset c _ hgap ih => exact ih (remains_char h (utf8Size_of_isGap hgap)) hl
  | case3 offset _ _ ih => exact ih (remains_comment h) hl
  | case4 offset _ _ _ ih =>
    rcases List.mem_cons.mp hl with rfl | hl
    · exact (other (by decide) h hquote).elim
    · exact ih (remains_char h rfl) hl
  | case5 offset _ _ _ _ ih =>
    rcases List.mem_cons.mp hl with rfl | hl
    · exact (other (by decide) h hquote).elim
    · exact ih (remains_char h rfl) hl
  | case6 offset rest' text stop hclosed _ _ _ _ ih =>
    rcases List.mem_cons.mp hl with rfl | hl
    · obtain rfl : rest' = rest := (List.cons.inj (h.unique hquote)).2
      rw [literal, if_pos hclosed]
      rfl
    · exact ih (remains_closed h hclosed) hl
  | case7 offset rest' text stop hopen _ _ _ _ ih =>
    rcases List.mem_cons.mp hl with rfl | hl
    · obtain rfl : rest' = rest := (List.cons.inj (h.unique hquote)).2
      rw [literal, if_neg hopen]
      rfl
    · exact ih (remains_open h (by simpa using hopen)) hl
  | case8 offset c rest' _ _ _ _ hc _ chars stop ih =>
    have hrest : c :: rest' = chars ++ rest'.dropWhile isAtomChar :=
      congrArg _ List.takeWhile_append_dropWhile.symm
    rcases List.mem_cons.mp hl with rfl | hl
    · exact (other hc h hquote).elim
    · exact ih (hrest ▸ h).past hl
  | case9 offset c rest' hgap hcomment hopening hclosing hc hatom ih =>
    have hsize := utf8Size_of_stray hgap hcomment hopening hclosing hc hatom
    rcases List.mem_cons.mp hl with rfl | hl
    · exact (other hc h hquote).elim
    · exact ih (remains_char h hsize) hl

/-! ## The lexeme at a quote -/

variable (start : Nat)

theorem literal_append (h : Enclosed (· ≠ '\n') part) (hcut : (scanQuoted tail).body = []) :
    literal start (part ++ tail) =
      if (scanQuoted tail).closed then .quoted part ⟨start, start + 1 + byteLength part + 1⟩
      else .unterminated ⟨start, start + 1 + byteLength part⟩ := by
  simp [literal, scanQuoted_append h, QuotedScan.prepend, hcut]

/-- A backslash before a line feed breaks the text off. -/
theorem literal_of_cut (h : Enclosed (· ≠ '\n') part) :
    literal start (part ++ '\\' :: '\n' :: tail) =
      .unterminated ⟨start, start + 1 + byteLength part⟩ := by
  have hscan : scanQuoted ('\\' :: '\n' :: tail) = ⟨[], false, '\\' :: '\n' :: tail⟩ := rfl
  rw [literal_append start h (by rw [hscan]), hscan]
  rfl

/-- The text up to its closing quote is the lexeme exactly if nothing breaks it off. -/
theorem literal_eq_quoted_iff (h : Closes rest body after) :
    literal start rest = .quoted body ⟨start, start + 1 + byteLength body + 1⟩ ↔
      Enclosed (· ≠ '\n') body := by
  obtain ⟨rfl, hbody⟩ := h
  constructor
  · intro hl
    rcases hbody.of_kind_or (· ≠ '\n') with hbody | ⟨part, letter, tail, rfl, hpart, hletter⟩
    · exact hbody
    · rw [Decidable.not_not.mp hletter, List.append_assoc, List.cons_append, List.cons_append,
        literal_of_cut start hpart] at hl
      cases hl
  · intro hbody
    have hscan : scanQuoted ('"' :: after) = ⟨[], true, after⟩ := rfl
    rw [literal_append start hbody (by rw [hscan]), hscan]
    rfl

/-- The text is unterminated exactly if it is never closed or something breaks it off. -/
theorem literal_eq_unterminated_iff :
    (∃ stop, literal start rest = .unterminated ⟨start, stop⟩) ↔
      (∀ body after, ¬ Closes rest body after) ∨ BreaksOff rest := by
  constructor
  · rintro ⟨stop, hl⟩
    by_cases hclosed : ∃ body after, Closes rest body after
    · obtain ⟨body, after, h⟩ := hclosed
      rcases h.2.of_kind_or (· ≠ '\n') with hbody | ⟨part, letter, tail, rfl, hpart, hletter⟩
      · rw [(literal_eq_quoted_iff start h).mpr hbody] at hl
        cases hl
      · refine .inr ⟨part, tail ++ '"' :: after, ?_, hpart⟩
        rw [h.1, Decidable.not_not.mp hletter]
        simp
    · exact .inl fun body after h => hclosed ⟨body, after, h⟩
  · rintro (hopen | ⟨part, tail, rfl, hpart⟩)
    · have hscan : ¬ (scanQuoted rest).closed = true := by
        intro hclosed
        exact hopen _ _ (closes_of_scanQuoted hclosed)
      exact ⟨_, if_neg hscan⟩
    · exact ⟨_, literal_of_cut start hpart⟩

end Lexeme

/-! ## Reading -/

namespace Form

open Text (Closes Enclosed FirstBadEscape byteLength decode)
open Lexeme (Breaks Unbroken)

inductive Contains (form : Form) : List Form → Prop
  | head {forms : List Form} : Contains form (form :: forms)
  | tail {other : Form} {forms : List Form} : Contains form forms → Contains form (other :: forms)
  | item {items forms : List Form} {span : Span} :
      Contains form items → Contains form (.list items span :: forms)

variable {forms : List Form} {ls ls' : List Lexeme} {l : Lexeme} {body before rest : List Char}
  {span : Span} {source : String}

/-- Forms contain the texts that they were read from. -/
theorem Yields.contains_text (h : Yields forms ls) (hl : .quoted body span ∈ ls) :
    ∃ chars, decode (span.start + 1) body = .ok chars ∧
      Contains (.text (String.ofList chars) span) forms := by
  induction h with
  | nil => cases hl
  | atom _ ih =>
    obtain ⟨chars, hdecode, hmem⟩ := ih (by simpa using hl)
    exact ⟨chars, hdecode, .tail hmem⟩
  | @text body' chars span' _ _ hdecode _ ih =>
    rcases List.mem_cons.mp hl with heq | hl
    · cases heq
      exact ⟨chars, hdecode, .head⟩
    · obtain ⟨chars, hdecode, hmem⟩ := ih hl
      exact ⟨chars, hdecode, .tail hmem⟩
  | list _ _ ihitems ih =>
    simp only [List.mem_cons, List.mem_append, reduceCtorEq, false_or] at hl
    rcases hl with hl | hl
    · obtain ⟨chars, hdecode, hmem⟩ := ihitems hl
      exact ⟨chars, hdecode, .item hmem⟩
    · obtain ⟨chars, hdecode, hmem⟩ := ih hl
      exact ⟨chars, hdecode, .tail hmem⟩

theorem mem_of_unterminatedString (hsize : source.utf8ByteSize ≤ Span.maxOffset)
    (h : read source = .error (.unterminatedString span)) :
    .unterminated span ∈ Lexeme.ofSource source := by
  have hsound := ofLexemes_sound (Lexeme.lexed_ofSource hsize)
  rw [← read, h] at hsound
  cases hsound with
  | broken heq _ hbreaks =>
    cases hbreaks
    rw [heq]
    simp

/-- The first lexeme that breaks a rule is the error. -/
theorem read_of_breaks {e : ReadError} (hsize : source.utf8ByteSize ≤ Span.maxOffset)
    (hls : Lexeme.ofSource source = ls ++ l :: ls') (hunbroken : Unbroken ls)
    (hbreaks : Breaks (Lexeme.level ls) l e) : read source = .error e :=
  ofLexemes_of_firstFault (Lexeme.lexed_ofSource hsize) (.broken hls hunbroken hbreaks)

/-- At each opening quote that a lexeme starts at, in a text of which each offset fits: if the
quoted text is closed after `body`, it is one lexeme up to its closing quote exactly if no backslash
in `body` protects a line feed. Then it is read as the text that `body` spells, or its first bad
escape is the error. A text that is never closed is unterminated, and so is one that a backslash
before a line feed breaks off; the reader finds no other text unterminated. -/
theorem read_literal (hsize : source.utf8ByteSize ≤ Span.maxOffset)
    (hsource : source.toList = before ++ '"' :: rest)
    (hls : Lexeme.ofSource source = ls ++ l :: ls') (hstart : l.span.start = byteLength before) :
    (∀ body after, Closes rest body after →
      (l = .quoted body ⟨byteLength before, byteLength before + 1 + byteLength body + 1⟩ ↔
        Enclosed (· ≠ '\n') body) ∧
      (Enclosed (· ≠ '\n') body →
        (∀ forms, read source = .ok forms →
          ∃ chars, decode (byteLength before + 1) body = .ok chars ∧
            Contains (.text (String.ofList chars) l.span) forms) ∧
        (Unbroken ls → Unbroken (ls ++ [l]) ∨
          ∃ bad, FirstBadEscape (byteLength before + 1) body bad ∧
            read source = .error (.invalidEscape bad.letter bad.span)))) ∧
    (read source = .error (.unterminatedString l.span) →
      (∀ body after, ¬ Closes rest body after) ∨ Lexeme.BreaksOff rest) ∧
    (Unbroken ls → (∀ body after, ¬ Closes rest body after) ∨ Lexeme.BreaksOff rest →
      read source = .error (.unterminatedString l.span)) := by
  have hlexed := Lexeme.lexed_ofSource hsize
  have hmem : l ∈ Lexeme.ofSource source := by simp [hls]
  have hquote : Text.Remains source (byteLength before) ('"' :: rest) := ⟨before, hsource, rfl⟩
  -- Whatever lexeme starts at the quote is that of the text which opens there.
  have hliteral {l' : Lexeme} (hl : l' ∈ Lexeme.ofSource source)
      (hstart : l'.span.start = byteLength before) :
      l' = Lexeme.literal (byteLength before) rest := by
    rw [← hstart] at hquote ⊢
    rw [Lexeme.ofSource_eq_scan hsize] at hl
    exact Lexeme.eq_literal_of_mem (Text.remains_start source) hl hquote
  have hl := hliteral hmem hstart
  refine ⟨fun body after hcloses => ?_, fun hread => ?_, fun hunbroken hopen => ?_⟩
  · have hiff := Lexeme.literal_eq_quoted_iff (byteLength before) hcloses
    rw [← hl] at hiff
    refine ⟨hiff, fun hbody => ?_⟩
    obtain rfl := hiff.mpr hbody
    constructor
    · intro forms hforms
      have hsound := ofLexemes_sound hlexed
      rw [← read, hforms] at hsound
      exact hsound.2.contains_text hmem
    · intro hunbroken
      rcases Text.escaped_or_firstBadEscape (hcloses.2.escaped) (byteLength before + 1) with
        hescaped | ⟨bad, hbad⟩
      · refine .inl (Lexeme.unbroken_append_singleton.mpr ⟨hunbroken, fun e hbreaks => ?_⟩)
        cases hbreaks with
        | badEscape hbad => exact Text.not_firstBadEscape_of_escaped hescaped hbad
      · exact .inr ⟨bad, hbad, read_of_breaks hsize hls hunbroken (.badEscape hbad)⟩
  · have hunterminated := hliteral (mem_of_unterminatedString hsize hread) hstart
    rw [← Lexeme.literal_eq_unterminated_iff (byteLength before)]
    refine ⟨l.span.stop, ?_⟩
    rw [← hunterminated, ← hstart]
  · obtain ⟨stop, hstop⟩ := (Lexeme.literal_eq_unterminated_iff (byteLength before)).mpr hopen
    obtain rfl := hl.trans hstop
    exact read_of_breaks hsize hls hunbroken .unterminated

/-- An accented letter, an escaped quote, and an escape that is none of the five. -/
theorem read_literal_badEscape :
    let source := "\"é\\\"\\q\" x"
    let body := ['é', '\\', '"', '\\', 'q']
    source.toList = [] ++ '"' :: (body ++ '"' :: [' ', 'x']) ∧
      Lexeme.ofSource source = [] ++ .quoted body ⟨0, 8⟩ :: [.atom ['x'] ⟨9, 10⟩] ∧
      Enclosed (· ≠ '\n') body ∧
      ∃ bad, FirstBadEscape 1 body bad ∧
        read source = .error (.invalidEscape bad.letter bad.span) := by
  intro source body
  have hsource : source.toList = [] ++ '"' :: (body ++ '"' :: [' ', 'x']) := by decide
  have hls : Lexeme.ofSource source =
      [] ++ .quoted body ⟨0, 8⟩ :: [.atom ['x'] ⟨9, 10⟩] := by decide +kernel
  have hbody : Enclosed (· ≠ '\n') body :=
    .plain (by decide) (by decide) (.escape (by decide) (.escape (by decide) .nil))
  have hcloses : Closes (body ++ '"' :: [' ', 'x']) body [' ', 'x'] :=
    ⟨rfl, hbody.mono fun _ _ => trivial⟩
  have hsize : source.utf8ByteSize ≤ Span.maxOffset := by decide +kernel
  have hread := (read_literal hsize hsource hls rfl).1 body [' ', 'x'] hcloses
  refine ⟨hsource, hls, hbody, ?_⟩
  rcases (hread.2 hbody).2 Lexeme.unbroken_nil with hunbroken | herror
  · have hbad : FirstBadEscape 1 body ⟨'q', ⟨5, 7⟩⟩ :=
      ⟨['é', '\\', '"'], [], rfl, .plain (by decide) (.escape (by decide) .nil), by decide, rfl, rfl⟩
    exact absurd (.badEscape hbad) (hunbroken [] _ [] _ rfl)
  · exact herror

/-- A text that is closed, and unterminated for the reader: a backslash in it protects a line
feed. -/
theorem newline_breaks_literal :
    let source := "\"a\\\nb\""
    Closes (source.toList.drop 1) ['a', '\\', '\n', 'b'] [] ∧
      Lexeme.ofSource source = [.unterminated ⟨0, 2⟩, .atom ['\\'] ⟨2, 3⟩, .atom ['b'] ⟨4, 5⟩,
        .unterminated ⟨5, 6⟩] ∧
      read source = .error (.unterminatedString ⟨0, 2⟩) := by
  intro source
  have hls : Lexeme.ofSource source = [] ++ .unterminated ⟨0, 2⟩ ::
      [.atom ['\\'] ⟨2, 3⟩, .atom ['b'] ⟨4, 5⟩, .unterminated ⟨5, 6⟩] := by decide +kernel
  have hbody : Enclosed (fun _ => True) ['a', '\\', '\n', 'b'] :=
    .plain (by decide) (by decide) (.escape trivial (.plain (by decide) (by decide) .nil))
  have hread : read source = .error (.unterminatedString ⟨0, 2⟩) :=
    read_of_breaks (by decide +kernel) hls Lexeme.unbroken_nil .unterminated
  exact ⟨⟨by decide, hbody⟩, hls, hread⟩

end Form

end TokenMachine
