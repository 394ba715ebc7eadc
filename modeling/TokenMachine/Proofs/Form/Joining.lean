/-
  TokenMachine.Proofs.Form.Joining — texts joined at the end of a line are read one by one.

  A line feed is in no atom, it ends a comment, and a quoted text that is closed before it does
  not reach it. So the lexemes of a text, if none of them is broken off, are the same whatever
  comes after the line feed (`Lexeme.scan_append_newline`). What comes after it is scanned as a
  text of its own, its spans further on by what is before it (`Lexeme.scan_shift`).

  Reading looks at the spans of lexemes only to put them into forms and errors. So where no list
  is open, it goes on with the lexemes that follow as it does with those of a text of its own
  (`Form.foldlM_takeLexeme_after`), and the forms read, or the error, are those of that text,
  shifted (`Form.read_append_line`).
-/

import TokenMachine.Proofs.Form.Literals

namespace TokenMachine

theorem Span.merge_shift (s t : Span) (n : Nat) :
    (s.shift n).merge (t.shift n) = (s.merge t).shift n := by
  simp only [merge, shift, mk.injEq]
  omega

/-! ## Further on in a text -/

namespace Text

def BadEscape.shift (n : Nat) (bad : BadEscape) : BadEscape := { bad with span := bad.span.shift n }

theorem map_mapError {α β ε : Type} (f : α → β) (g : ε → ε) (x : Except ε α) :
    (x.mapError g).map f = (x.map f).mapError g := by
  cases x <;> rfl

theorem decode_shift (offset n : Nat) (body : List Char) :
    decode (offset + n) body = (decode offset body).mapError (BadEscape.shift n) := by
  fun_induction decode offset body with
  | case1 => rfl
  | case2 offset letter rest next c hc ih =>
    have hnext : offset + n + 1 + letter.utf8Size = next + n := by omega
    rw [decode_escape hc, hnext, ih, map_mapError]
  | case3 offset letter rest next hnone =>
    have hnext : offset + n + 1 + letter.utf8Size = next + n := by omega
    rw [decode_badEscape hnone, hnext]
    rfl
  | case4 offset c rest hc ih =>
    have hnext : offset + n + c.utf8Size = offset + c.utf8Size + n := by omega
    rw [decode, hnext, ih, map_mapError]
    exact hc

/-- A run of characters that ends before `c` at the latest is the same whatever comes after. -/
theorem takeWhile_append_stop {p : Char → Bool} {c : Char} (hc : p c = false)
    (cs rest : List Char) : (cs ++ c :: rest).takeWhile p = cs.takeWhile p := by
  induction cs with
  | nil => simp [hc]
  | cons d cs ih => simp only [List.cons_append, List.takeWhile_cons, ih]

theorem dropWhile_append_stop {p : Char → Bool} {c : Char} (hc : p c = false)
    (cs rest : List Char) : (cs ++ c :: rest).dropWhile p = cs.dropWhile p ++ c :: rest := by
  induction cs with
  | nil => simp [hc]
  | cons d cs ih =>
    simp only [List.cons_append, List.dropWhile_cons, ih]
    split <;> rfl

end Text

/-! ## Lexemes -/

namespace Lexeme

open Text (byteLength)

variable {offset : Nat} {cs rest : List Char} {c : Char}

def shift (n : Nat) : Lexeme → Lexeme
  | opening span => opening (span.shift n)
  | closing span => closing (span.shift n)
  | quoted body span => quoted body (span.shift n)
  | unterminated span => unterminated (span.shift n)
  | atom chars span => atom chars (span.shift n)
  | stray c span => stray c (span.shift n)

theorem literal_shift (offset n : Nat) (rest : List Char) :
    literal (offset + n) rest = (literal offset rest).shift n := by
  have hstop : offset + n + 1 + byteLength (scanQuoted rest).body =
      offset + 1 + byteLength (scanQuoted rest).body + n := by omega
  unfold literal
  dsimp only
  rw [hstop]
  split
  · show _ = Lexeme.quoted _ _
    simp only [Span.shift, quoted.injEq, Span.mk.injEq, true_and]
    omega
  · rfl

theorem span_shift (n : Nat) (l : Lexeme) : (l.shift n).span = l.span.shift n := by
  cases l <;> rfl

/-- The lexemes of a text do not depend on where it begins, but for their spans. -/
theorem scan_shift (offset n : Nat) (cs : List Char) :
    scan (offset + n) cs = (scan offset cs).map (shift n) := by
  have hsucc (offset : Nat) : offset + n + 1 = offset + 1 + n := by omega
  fun_induction scan offset cs with
  | case1 =>
    rw [scan]
    rfl
  | case2 offset c rest hgap ih => rw [scan_gap hgap, hsucc, ih]
  | case3 offset rest _ ih =>
    rw [scan_comment, hsucc, Nat.add_right_comm, ih]
  | case4 offset rest _ _ ih =>
    rw [scan_opening, hsucc, ih]
    rfl
  | case5 offset rest _ _ _ ih =>
    rw [scan_closing, hsucc, ih]
    rfl
  | case6 offset rest text stop hclosed _ _ _ _ ih =>
    rw [scan_quote, literal_shift, span_shift, literal_of_closed hclosed, List.map_cons, ← ih]
    rfl
  | case7 offset rest text stop hopen _ _ _ _ ih =>
    rw [scan_quote, literal_shift, span_shift, literal_of_open hopen, List.map_cons, ← ih]
    rfl
  | case8 offset c rest _ _ _ _ _ hatom chars stop ih =>
    rw [scan_run hatom, Nat.add_right_comm, ih]
    rfl
  | case9 offset c rest hgap hcomment hopening hclosing hquote hatom ih =>
    rw [scan_stray hgap hcomment hopening hclosing hquote hatom, hsucc, ih]
    rfl

/-- A quoted text that is closed does not depend on what comes after. -/
theorem scanQuoted_append_of_closed (h : (scanQuoted cs).closed = true) (rest : List Char) :
    scanQuoted (cs ++ rest) = ⟨(scanQuoted cs).body, true, (scanQuoted cs).rest ++ rest⟩ := by
  have hbody := enclosed_scanQuoted cs
  have hcs := scanQuoted_closed h
  generalize (scanQuoted cs).body = body at hbody hcs
  generalize (scanQuoted cs).rest = after at hcs
  rw [hcs, List.append_assoc, List.append_assoc, scanQuoted_append hbody]
  simp [scanQuoted, QuotedScan.prepend]

theorem byteLength_byte (hc : c.utf8Size = 1) (cs : List Char) :
    byteLength (c :: cs) = 1 + byteLength cs := by
  rw [byteLength, hc]

theorem byteLength_run (p : Char → Bool) (cs : List Char) :
    byteLength (cs.takeWhile p) + byteLength (cs.dropWhile p) = byteLength cs := by
  rw [← Text.byteLength_append, List.takeWhile_append_dropWhile]

/-- Before a line feed a text is scanned as if nothing came after, unless a quoted text of it is
not closed. -/
theorem scan_append_newline (h : ∀ span, .unterminated span ∉ scan offset cs)
    (rest : List Char) : scan offset (cs ++ '\n' :: rest) =
      scan offset cs ++ scan (offset + byteLength cs + 1) rest := by
  -- What comes after begins where the rest of the text ends, whatever was taken of it.
  generalize hstop : offset + byteLength cs + 1 = stop
  have later {l : Lexeme} {ls : List Lexeme} (h : ∀ span, .unterminated span ∉ l :: ls) :
      ∀ span, .unterminated span ∉ ls := fun span hmem => h span (List.mem_cons_of_mem _ hmem)
  fun_induction scan offset cs with
  | case1 offset =>
    rw [List.nil_append, scan_gap rfl, ← hstop]
    rfl
  | case2 offset c cs hgap ih =>
    rw [byteLength_byte (utf8Size_of_isGap hgap)] at hstop
    rw [List.cons_append, scan_gap hgap]
    exact ih h (by omega)
  | case3 offset cs _ ih =>
    have hline := byteLength_run (· != '\n') cs
    rw [byteLength_byte rfl] at hstop
    rw [List.cons_append, scan_comment, Text.takeWhile_append_stop rfl,
      Text.dropWhile_append_stop rfl]
    exact ih h (by omega)
  | case4 offset cs _ _ ih =>
    rw [byteLength_byte rfl] at hstop
    rw [List.cons_append, scan_opening, ih (later h) (by omega)]
    rfl
  | case5 offset cs _ _ _ ih =>
    rw [byteLength_byte rfl] at hstop
    rw [List.cons_append, scan_closing, ih (later h) (by omega)]
    rfl
  | case6 offset cs text close hclosed _ _ _ _ ih =>
    have hscan := scanQuoted_append_of_closed hclosed ('\n' :: rest)
    have hlength : byteLength cs = byteLength text.body + 1 + byteLength text.rest := by
      conv_lhs => rw [scanQuoted_closed hclosed]
      simp only [Text.byteLength_append]
      rfl
    rw [byteLength_byte rfl] at hstop
    rw [List.cons_append, scan_quote, literal_of_closed (by rw [hscan]), hscan]
    refine congrArg _ (ih (later h) ?_)
    omega
  | case7 offset cs text stop hopen _ _ _ _ ih =>
    exact absurd List.mem_cons_self (h _)
  | case8 offset c cs _ _ _ _ _ hatom chars close ih =>
    have hrun := byteLength_run isAtomChar cs
    have hlength : byteLength chars = c.utf8Size + byteLength (cs.takeWhile isAtomChar) := rfl
    rw [byteLength] at hstop
    rw [List.cons_append, scan_run hatom, Text.takeWhile_append_stop rfl,
      Text.dropWhile_append_stop rfl]
    refine congrArg _ (ih (later h) ?_)
    omega
  | case9 offset c cs hgap hcomment hopening hclosing hquote hatom ih =>
    have hc := utf8Size_of_stray hgap hcomment hopening hclosing hquote hatom
    rw [byteLength_byte hc] at hstop
    rw [List.cons_append, scan_stray hgap hcomment hopening hclosing hquote hatom,
      ih (later h) (by omega)]
    rfl

end Lexeme

/-! ## Forms -/

def ReadError.shift (n : Nat) : ReadError → ReadError
  | unterminatedString span => unterminatedString (span.shift n)
  | invalidEscape escape span => invalidEscape escape (span.shift n)
  | unexpectedCloseParen span => unexpectedCloseParen (span.shift n)
  | unclosedParen span => unclosedParen (span.shift n)
  | unrecognizedCharacter c span => unrecognizedCharacter c (span.shift n)
  | nestingTooDeep limit span => nestingTooDeep limit (span.shift n)

namespace Form

mutual

def shift (n : Nat) : Form → Form
  | .number raw span => .number raw (span.shift n)
  | .text value span => .text value (span.shift n)
  | .symbol name span => .symbol name (span.shift n)
  | .list items span => .list (shiftItems n items) (span.shift n)

def shiftItems (n : Nat) : List Form → List Form
  | [] => []
  | item :: rest => item.shift n :: shiftItems n rest

end

variable {n : Nat} {earlier forms : List Form} {ls : List Lexeme}

theorem shiftItems_eq_map (n : Nat) (forms : List Form) :
    shiftItems n forms = forms.map (shift n) := by
  induction forms with
  | nil => rfl
  | cons form forms ih => rw [shiftItems, ih, List.map_cons]

theorem ofAtom_shift (chars : List Char) (span : Span) (n : Nat) :
    ofAtom chars (span.shift n) = (ofAtom chars span).shift n := by
  unfold ofAtom
  split <;> rfl

def OpenList.shift (n : Nat) (list : OpenList) : OpenList :=
  ⟨list.start.shift n, list.items.map (Form.shift n)⟩

/-- What is pending of a text that comes `n` bytes further on, after forms that were read. -/
def Pending.after (p : Pending) (earlier : List Form) (n : Nat) : Pending :=
  ⟨p.lists.map (OpenList.shift n), p.forms.map (shift n) ++ earlier.reverse⟩

/-- What is read of a text `n` bytes further on: a value made of the one read of it where it begins,
or the error, shifted. -/
def moved {α β : Type} (n : Nat) (f : α → β) : Except ReadError α → Except ReadError β
  | .ok a => .ok (f a)
  | .error e => .error (e.shift n)

theorem add_after (p : Pending) (form : Form) (earlier : List Form) (n : Nat) :
    (p.after earlier n).add (form.shift n) = (p.add form).after earlier n := by
  obtain ⟨lists, top⟩ := p
  cases lists <;> rfl

/-- Taking a lexeme looks at no span, nor at the forms before. -/
theorem takeLexeme_after (p : Pending) (l : Lexeme) :
    takeLexeme (p.after earlier n) (l.shift n) =
      moved n (·.after earlier n) (takeLexeme p l) := by
  cases l with
  | opening span =>
    have hlength : (p.after earlier n).lists.length = p.lists.length := List.length_map _
    simp only [Lexeme.shift, takeLexeme, hlength]
    split <;> rfl
  | closing span =>
    obtain ⟨lists, top⟩ := p
    cases lists with
    | nil => rfl
    | cons innermost outer =>
      let list := Form.list innermost.items.reverse (innermost.start.merge span)
      have hshift : list.shift n = .list (innermost.shift n).items.reverse
          ((innermost.shift n).start.merge (span.shift n)) := by
        simp only [list, shift, shiftItems_eq_map, OpenList.shift, Span.merge_shift,
          List.map_reverse]
      have hadd := add_after ⟨outer, top⟩ list earlier n
      rw [hshift] at hadd
      exact congrArg Except.ok hadd
  | quoted body span =>
    have hdecode := Text.decode_shift (span.start + 1) n body
    rw [Nat.add_right_comm] at hdecode
    simp only [Lexeme.shift, takeLexeme, Span.shift, hdecode]
    cases Text.decode (span.start + 1) body with
    | error bad => rfl
    | ok chars =>
      have hadd := add_after p (.text (String.ofList chars) span) earlier n
      exact congrArg Except.ok hadd
  | unterminated span | stray c span => rfl
  | atom chars span =>
    have hadd := add_after p (ofAtom chars span) earlier n
    rw [← ofAtom_shift] at hadd
    exact congrArg Except.ok hadd

theorem foldlM_takeLexeme_after (p : Pending) (ls : List Lexeme) (earlier : List Form) (n : Nat) :
    (ls.map (Lexeme.shift n)).foldlM takeLexeme (p.after earlier n) =
      moved n (·.after earlier n) (ls.foldlM takeLexeme p) := by
  induction ls generalizing p with
  | nil => rfl
  | cons l ls ih =>
    rw [List.map_cons, List.foldlM_cons, List.foldlM_cons, takeLexeme_after]
    cases takeLexeme p l with
    | error e => rfl
    | ok q => exact ih q

theorem finish_after (p : Pending) (earlier : List Form) (n : Nat) : finish (p.after earlier n) =
    moved n (fun forms => earlier ++ forms.map (shift n)) (finish p) := by
  obtain ⟨lists, top⟩ := p
  cases lists with
  | nil => simp [finish, Pending.after, moved]
  | cons innermost outer => rfl

/-- Where the lexemes so far are read, no list is open, and what follows is read on its own. -/
theorem ofLexemes_append (h : ofLexemes ls = .ok forms) (ls' : List Lexeme) (n : Nat) :
    ofLexemes (ls ++ ls'.map (Lexeme.shift n)) =
      moved n (fun later => forms ++ later.map (shift n)) (ofLexemes ls') := by
  have hfold : ls.foldlM takeLexeme .empty = .ok (Pending.empty.after forms n) := by
    unfold ofLexemes at h
    cases hp : ls.foldlM takeLexeme .empty with
    | error e =>
      rw [hp] at h
      cases h
    | ok p =>
      obtain ⟨lists, top⟩ := p
      rw [hp] at h
      cases lists with
      | nil =>
        cases h
        simp [Pending.after, Pending.empty]
      | cons innermost outer => cases h
  have hlater := foldlM_takeLexeme_after .empty ls' forms n
  rw [ofLexemes, List.foldlM_append, hfold]
  show (ls'.map (Lexeme.shift n)).foldlM takeLexeme _ >>= finish = _
  rw [hlater, ofLexemes]
  cases ls'.foldlM takeLexeme .empty with
  | error e => rfl
  | ok p => exact finish_after p forms n

/-- A text that can be read, a line feed, and another text, which together are not too long for
their offsets: this is read as the forms of the one and then those of the other, further on by the
bytes of the first text and the line feed. If the other text cannot be read, its error is the error,
further on by as much. -/
theorem read_append_line {first second : String} (h : read first = .ok forms)
    (hsize : (first ++ "\n" ++ second).utf8ByteSize ≤ Span.maxOffset) :
    let n := first.utf8ByteSize + 1
    (∀ later, read second = .ok later →
      read (first ++ "\n" ++ second) = .ok (forms ++ later.map (shift n))) ∧
    ∀ e, read second = .error e → read (first ++ "\n" ++ second) = .error (e.shift n) := by
  intro n
  have hsum : first.utf8ByteSize + 1 + second.utf8ByteSize ≤ Span.maxOffset := by
    rwa [String.utf8ByteSize_append, String.utf8ByteSize_append] at hsize
  have hfirst : Lexeme.ofSource first = Lexeme.scan 0 first.toList :=
    Lexeme.ofSource_eq_scan (by omega)
  have hsecond : Lexeme.ofSource second = Lexeme.scan 0 second.toList :=
    Lexeme.ofSource_eq_scan (by omega)
  have hterminated : ∀ span, .unterminated span ∉ Lexeme.scan 0 first.toList :=
    hfirst ▸ ((read_verdict first (by omega)).1.mp ⟨forms, h⟩).terminated
  have hlexemes : Lexeme.ofSource (first ++ "\n" ++ second) =
      Lexeme.ofSource first ++ (Lexeme.ofSource second).map (Lexeme.shift n) := by
    have htext : (first ++ "\n" ++ second).toList = first.toList ++ '\n' :: second.toList := by
      simp
    have hn : 0 + Text.byteLength first.toList + 1 = 0 + n := by
      rw [← Text.utf8ByteSize_eq]
      omega
    rw [Lexeme.ofSource_eq_scan hsize, htext, Lexeme.scan_append_newline hterminated, hn,
      Lexeme.scan_shift, hfirst, hsecond]
  have hread : read (first ++ "\n" ++ second) =
      moved n (fun later => forms ++ later.map (shift n)) (read second) := by
    rw [read, hlexemes]
    exact ofLexemes_append h _ n
  refine ⟨fun later hlater => ?_, fun e he => ?_⟩
  · rw [hread, hlater]
    rfl
  · rw [hread, he]
    rfl

/-- A comment without a line feed of its own, and letters of two bytes on both sides. -/
theorem read_append_line_comment :
    let first := "(f \"é\") ; note"
    read first = .ok [.list [.symbol "f" ⟨1, 2⟩, .text "é" ⟨3, 7⟩] ⟨0, 8⟩] ∧
      read "(é x)" = .ok [.list [.symbol "é" ⟨1, 3⟩, .symbol "x" ⟨4, 5⟩] ⟨0, 6⟩] ∧
      read (first ++ "\n" ++ "(é x)") =
        .ok [.list [.symbol "f" ⟨1, 2⟩, .text "é" ⟨3, 7⟩] ⟨0, 8⟩,
          .list [.symbol "é" ⟨17, 19⟩, .symbol "x" ⟨20, 21⟩] ⟨16, 22⟩] ∧
      read "x \"é\\q\"" = .error (.invalidEscape 'q' ⟨5, 7⟩) ∧
      read (first ++ "\n" ++ "x \"é\\q\"") = .error (.invalidEscape 'q' ⟨21, 23⟩) := by
  intro first
  have hfirst : read first = .ok [.list [.symbol "f" ⟨1, 2⟩, .text "é" ⟨3, 7⟩] ⟨0, 8⟩] := by
    have hlexemes : Lexeme.ofSource first =
        [.opening ⟨0, 1⟩, .atom ['f'] ⟨1, 2⟩, .quoted ['é'] ⟨3, 7⟩, .closing ⟨7, 8⟩] := by
      decide +kernel
    rw [read, hlexemes]
    rfl
  have hok : read "(é x)" = .ok [.list [.symbol "é" ⟨1, 3⟩, .symbol "x" ⟨4, 5⟩] ⟨0, 6⟩] := by
    have hlexemes : Lexeme.ofSource "(é x)" =
        [.opening ⟨0, 1⟩, .atom ['é'] ⟨1, 3⟩, .atom ['x'] ⟨4, 5⟩, .closing ⟨5, 6⟩] := by
      decide +kernel
    rw [read, hlexemes]
    rfl
  have herror : read "x \"é\\q\"" = .error (.invalidEscape 'q' ⟨5, 7⟩) := by
    have hlexemes : Lexeme.ofSource "x \"é\\q\"" =
        [.atom ['x'] ⟨0, 1⟩, .quoted ['é', '\\', 'q'] ⟨2, 8⟩] := by
      decide +kernel
    rw [read, hlexemes]
    rfl
  have hsize : (first ++ "\n" ++ "(é x)").utf8ByteSize ≤ Span.maxOffset := by decide +kernel
  have hsize' : (first ++ "\n" ++ "x \"é\\q\"").utf8ByteSize ≤ Span.maxOffset := by
    decide +kernel
  exact ⟨hfirst, hok, (read_append_line hfirst hsize).1 _ hok, herror,
    (read_append_line hfirst hsize').2 _ herror⟩

end Form

end TokenMachine
