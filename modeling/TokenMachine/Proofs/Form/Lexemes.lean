/-
  TokenMachine.Proofs.Form.Lexemes — what the lexemes of a source text are like.

  Each lexeme covers the characters that it was scanned from, a quoted text those of its body and
  of both quotes (`Lexeme.placed_scan`). So in a text of which each offset fits, what is read back
  through the spans is what was scanned (`Lexeme.ofSource_eq_scan`). There the lexemes stand one
  after the other, a parenthesis takes one byte, and in a quoted body each backslash has the
  character that it protects (`Lexeme.lexed_ofSource`). Such a body is decoded exactly if those
  characters are letters of the five escapes, and the first that is not one is the error
  (`Text.decode_eq_error_iff`).
-/

import TokenMachine.Form.Lexeme
import TokenMachine.Proofs.Text.Places
import TokenMachine.Text.Escape

namespace TokenMachine

/-! ## Escapes -/

namespace Text

def escapeLetters : List Char := ['"', '\\', 'n', 't', 'r']

/-- From the left, each backslash stands before a letter of a kind, and these two go together. -/
inductive Escaped (letters : Char → Prop) : List Char → Prop
  | nil : Escaped letters []
  | plain {c : Char} {cs : List Char} : c ≠ '\\' → Escaped letters cs → Escaped letters (c :: cs)
  | escape {letter : Char} {cs : List Char} :
      letters letter → Escaped letters cs → Escaped letters ('\\' :: letter :: cs)

/-- The first escape of a body that is none of the five; the body begins at `offset`. -/
def FirstBadEscape (offset : Nat) (body : List Char) (bad : BadEscape) : Prop :=
  ∃ before after, body = before ++ '\\' :: bad.letter :: after ∧
    Escaped (· ∈ escapeLetters) before ∧ bad.letter ∉ escapeLetters ∧
    bad.span.start = offset + byteLength before ∧
    bad.span.stop = bad.span.start + 1 + bad.letter.utf8Size

variable {offset : Nat} {c letter : Char} {cs body : List Char} {bad : BadEscape}

theorem map_eq_error {α β ε : Type} {f : α → β} {x : Except ε α} {e : ε} :
    x.map f = .error e ↔ x = .error e := by
  cases x <;> simp [Except.map]

/-- What is no backslash at the end, and none before another character, is no backslash. -/
theorem ne_backslash {rest : List Char} (hlast : c = '\\' → rest = [] → False)
    (hpair : ∀ letter tail, c = '\\' → rest = letter :: tail → False) : c ≠ '\\' := by
  intro hc
  cases rest with
  | nil => exact hlast hc rfl
  | cons letter tail => exact hpair letter tail hc rfl

theorem unescape?_eq_none_iff : unescape? letter = none ↔ letter ∉ escapeLetters := by
  unfold unescape?
  split <;> simp_all [escapeLetters]

theorem byteLength_escape (letter : Char) (cs : List Char) :
    byteLength ('\\' :: letter :: cs) = 1 + letter.utf8Size + byteLength cs := by
  have hslash : '\\'.utf8Size = 1 := rfl
  rw [byteLength, byteLength, hslash, Nat.add_assoc]

theorem decode_plain (h : c ≠ '\\') :
    decode offset (c :: cs) = (decode (offset + c.utf8Size) cs).map (c :: ·) := by
  rw [decode.eq_def]
  split <;> simp_all

theorem decode_escape (h : unescape? letter = some c) :
    decode offset ('\\' :: letter :: cs) =
      (decode (offset + 1 + letter.utf8Size) cs).map (c :: ·) := by
  simp [decode, h]

theorem decode_badEscape (h : unescape? letter = none) :
    decode offset ('\\' :: letter :: cs) =
      .error ⟨letter, ⟨offset, offset + 1 + letter.utf8Size⟩⟩ := by
  simp [decode, h]

/-- Decoding comes through whatever has the five escapes only. -/
theorem decode_append_of_escaped (h : Escaped (· ∈ escapeLetters) body) (offset : Nat)
    (rest : List Char) :
    ∃ chars, decode offset (body ++ rest) =
      (decode (offset + byteLength body) rest).map (chars ++ ·) := by
  induction h generalizing offset with
  | nil =>
    refine ⟨[], ?_⟩
    rw [List.nil_append, byteLength, Nat.add_zero]
    cases decode offset rest <;> rfl
  | @plain c body hc _ ih =>
    obtain ⟨chars, ih⟩ := ih (offset + c.utf8Size)
    refine ⟨c :: chars, ?_⟩
    rw [List.cons_append, decode_plain hc, ih, byteLength, Nat.add_assoc]
    cases decode _ rest <;> rfl
  | @escape letter body hl _ ih =>
    obtain ⟨c, hc⟩ := Option.ne_none_iff_exists'.mp fun hnone => unescape?_eq_none_iff.mp hnone hl
    obtain ⟨chars, ih⟩ := ih (offset + 1 + letter.utf8Size)
    have hoffset : offset + 1 + letter.utf8Size + byteLength body =
        offset + byteLength ('\\' :: letter :: body) := by
      rw [byteLength_escape]
      omega
    refine ⟨c :: chars, ?_⟩
    rw [List.cons_append, List.cons_append, decode_escape hc, ih, hoffset]
    cases decode _ rest <;> rfl

theorem decode_of_escaped (h : Escaped (· ∈ escapeLetters) body) (offset : Nat) :
    ∃ chars, decode offset body = .ok chars := by
  obtain ⟨chars, hchars⟩ := decode_append_of_escaped h offset []
  rw [List.append_nil] at hchars
  exact ⟨_, hchars⟩

theorem FirstBadEscape.plain (hc : c ≠ '\\')
    (h : FirstBadEscape (offset + c.utf8Size) cs bad) : FirstBadEscape offset (c :: cs) bad := by
  obtain ⟨before, after, rfl, hbefore, hletter, hstart, hstop⟩ := h
  refine ⟨c :: before, after, rfl, .plain hc hbefore, hletter, ?_, hstop⟩
  rw [hstart, byteLength, Nat.add_assoc]

theorem FirstBadEscape.escape (hl : letter ∈ escapeLetters)
    (h : FirstBadEscape (offset + 1 + letter.utf8Size) cs bad) :
    FirstBadEscape offset ('\\' :: letter :: cs) bad := by
  obtain ⟨before, after, rfl, hbefore, hletter, hstart, hstop⟩ := h
  refine ⟨'\\' :: letter :: before, after, rfl, .escape hl hbefore, hletter, ?_, hstop⟩
  rw [hstart, byteLength_escape]
  omega

/-- Decoding fails with exactly the first escape that is none of the five. -/
theorem decode_eq_error_iff : decode offset body = .error bad ↔ FirstBadEscape offset body bad := by
  constructor
  · intro h
    fun_induction decode offset body with
    | case1 => cases h
    | case2 offset letter rest next c hc ih =>
      have hl : letter ∈ escapeLetters := by
        refine Decidable.of_not_not fun hl => ?_
        rw [unescape?_eq_none_iff.mpr hl] at hc
        cases hc
      exact .escape hl (ih (map_eq_error.mp h))
    | case3 offset letter rest next hnone =>
      cases h
      exact ⟨[], rest, rfl, .nil, unescape?_eq_none_iff.mp hnone, rfl, rfl⟩
    | case4 offset c rest hc ih =>
      have h := map_eq_error.mp h
      by_cases hslash : c = '\\'
      · -- The last character of the body: nothing is left that it could protect.
        cases rest with
        | nil => cases h
        | cons letter rest => exact (hc letter rest hslash rfl).elim
      · exact .plain hslash (ih h)
  · rintro ⟨before, after, rfl, hbefore, hletter, hstart, hstop⟩
    obtain ⟨chars, hchars⟩ := decode_append_of_escaped hbefore offset ('\\' :: bad.letter :: after)
    obtain ⟨letter, start, stop⟩ := bad
    rw [hchars, decode_badEscape (unescape?_eq_none_iff.mpr hletter)]
    simp only at hstart hstop
    rw [hstop, hstart]
    rfl

theorem not_firstBadEscape_of_escaped (h : Escaped (· ∈ escapeLetters) body) :
    ¬ FirstBadEscape offset body bad := by
  intro hbad
  obtain ⟨chars, hchars⟩ := decode_of_escaped h offset
  rw [decode_eq_error_iff.mpr hbad] at hchars
  cases hchars

/-- A body whose escapes are whole has one that is bad, or has the five escapes only. -/
theorem escaped_or_firstBadEscape (h : Escaped (fun _ => True) body) (offset : Nat) :
    Escaped (· ∈ escapeLetters) body ∨ ∃ bad, FirstBadEscape offset body bad := by
  induction h generalizing offset with
  | nil => exact .inl .nil
  | @plain c _ hc _ ih =>
    rcases ih (offset + c.utf8Size) with h | ⟨bad, hbad⟩
    · exact .inl (.plain hc h)
    · exact .inr ⟨bad, hbad.plain hc⟩
  | @escape letter cs _ _ ih =>
    by_cases hl : letter ∈ escapeLetters
    · rcases ih (offset + 1 + letter.utf8Size) with h | ⟨bad, hbad⟩
      · exact .inl (.escape hl h)
      · exact .inr ⟨bad, hbad.escape hl⟩
    · exact .inr ⟨⟨letter, ⟨offset, offset + 1 + letter.utf8Size⟩⟩, [], cs, rfl, .nil, hl, rfl, rfl⟩

end Text

/-! ## Scanning -/

namespace Lexeme

open Text (Escaped)

def Formed : Lexeme → Prop
  | opening span | closing span => span.stop = span.start + 1
  | quoted body _ => Escaped (fun _ => True) body
  | unterminated _ | atom _ _ | stray _ _ => True

structure Lexed (offset : Nat) (ls : List Lexeme) : Prop where
  formed : ∀ l ∈ ls, l.Formed
  from_offset : ∀ l ∈ ls, offset ≤ l.span.start
  ordered : ls.Pairwise fun l l' => l.span.stop ≤ l'.span.start

variable {offset offset' : Nat} {l : Lexeme} {ls ls' : List Lexeme}

theorem lexed_nil (offset : Nat) : Lexed offset [] := ⟨nofun, nofun, .nil⟩

theorem Lexed.mono (h : Lexed offset' ls) (hle : offset ≤ offset') : Lexed offset ls :=
  ⟨h.formed, fun l hl => Nat.le_trans hle (h.from_offset l hl), h.ordered⟩

/-- A lexeme that starts at `offset` comes before those that start where it stops, or later. -/
theorem Lexed.cons (h : Lexed offset' ls) (hl : l.Formed) (hstart : l.span.start = offset)
    (hle : offset ≤ offset') (hstop : l.span.stop ≤ offset') : Lexed offset (l :: ls) where
  formed := List.forall_mem_cons.mpr ⟨hl, h.formed⟩
  from_offset := List.forall_mem_cons.mpr ⟨Nat.le_of_eq hstart.symm, (h.mono hle).from_offset⟩
  ordered := .cons (fun l' hl' => Nat.le_trans hstop (h.from_offset l' hl')) h.ordered

theorem Lexed.of_append (h : Lexed offset (ls ++ ls')) : Lexed offset ls where
  formed l hl := h.formed l (List.mem_append_left _ hl)
  from_offset l hl := h.from_offset l (List.mem_append_left _ hl)
  ordered := (List.pairwise_append.mp h.ordered).1

/-- A quoted text that is closed has whole escapes. -/
theorem escaped_scanQuoted {cs : List Char} (h : (scanQuoted cs).closed = true) :
    Escaped (fun _ => True) (scanQuoted cs).body := by
  fun_induction scanQuoted cs with
  | case1 | case3 | case4 => cases h
  | case2 => exact .nil
  | case5 c rest hc ih => exact .escape trivial (ih h)
  | case6 c rest _ hlast _ hpair ih =>
    exact .plain (Text.ne_backslash hlast hpair) (ih h)

theorem lexed_scan (offset : Nat) (cs : List Char) : Lexed offset (scan offset cs) := by
  fun_induction scan offset cs with
  | case1 offset => exact lexed_nil offset
  | case2 offset c rest _ ih => exact ih.mono (Nat.le_succ offset)
  | case3 offset rest _ ih => exact ih.mono (by omega)
  | case4 offset rest _ _ ih | case5 offset rest _ _ _ ih =>
    exact ih.cons rfl rfl (Nat.le_succ offset) (Nat.le_refl _)
  | case6 offset rest text stop hclosed _ _ _ _ ih =>
    exact ih.cons (escaped_scanQuoted hclosed) rfl (by omega) (Nat.le_refl _)
  | case7 offset rest text stop _ _ _ _ _ ih =>
    exact ih.cons trivial rfl (by omega) (Nat.le_refl _)
  | case8 offset c rest _ _ _ _ _ _ chars stop ih =>
    exact ih.cons trivial rfl (Nat.le_add_right ..) (Nat.le_refl _)
  | case9 offset c rest _ _ _ _ _ _ ih =>
    exact ih.cons trivial rfl (Nat.le_succ offset) (Nat.le_refl _)

/-! ## Places -/

section

open Text (Remains byteLength)

variable {text : String} {offset : Nat} {cs : List Char} {c : Char} {l : Lexeme}

/-- The characters of the lexeme, quotes included. An unterminated text keeps none. -/
def chars? : Lexeme → Option (List Char)
  | opening _ => some ['(']
  | closing _ => some [')']
  | quoted body _ => some ('"' :: (body ++ ['"']))
  | unterminated _ => none
  | atom chars _ => some chars
  | stray c _ => some [c]

structure Placed (text : String) (l : Lexeme) : Prop where
  marks : l.span.Marks text
  covers : ∀ chars ∈ l.chars?, l.span.Covers text chars

theorem utf8Size_of_isGap (h : isGap c = true) : c.utf8Size = 1 := by
  simp only [isGap, Bool.or_eq_true, decide_eq_true_eq] at h
  rcases h with (((rfl | rfl) | rfl) | rfl) | rfl <;> rfl

theorem utf8Size_of_isControl (h : isControl c = true) : c.utf8Size = 1 := by
  simp only [isControl, Bool.or_eq_true, decide_eq_true_eq] at h
  refine Char.utf8Size_eq_one_iff.mpr (UInt32.le_iff_toNat_le.mpr ?_)
  show c.toNat ≤ 127
  omega

theorem scanQuoted_closed (h : (scanQuoted cs).closed = true) :
    cs = (scanQuoted cs).body ++ ['"'] ++ (scanQuoted cs).rest := by
  fun_induction scanQuoted cs with
  | case1 | case3 | case4 => cases h
  | case2 => rfl
  | case5 c rest _ ih => simpa [QuotedScan.prepend] using ih h
  | case6 c rest _ _ _ _ ih => simpa [QuotedScan.prepend] using ih h

theorem scanQuoted_open (h : (scanQuoted cs).closed = false) :
    cs = (scanQuoted cs).body ++ (scanQuoted cs).rest := by
  fun_induction scanQuoted cs with
  | case1 | case3 | case4 => rfl
  | case2 => cases h
  | case5 c rest _ ih => simpa [QuotedScan.prepend] using ih h
  | case6 c rest _ _ _ _ ih => simpa [QuotedScan.prepend] using ih h

/-- A lexeme covers the part of the text that it was scanned from. -/
theorem placed_of_remains (part : List Char) {rest : List Char}
    (h : Remains text offset (part ++ rest)) (hpart : part ≠ []) (hstart : l.span.start = offset)
    (hstop : l.span.stop = offset + byteLength part) (hl : ∀ chars ∈ l.chars?, part = chars) :
    l.Placed text :=
  have hcovers := h.covers hstart hstop
  ⟨hcovers.marks hpart, fun chars hchars => hl chars hchars ▸ hcovers⟩

/-- One more character of the text is read. -/
theorem remains_char (h : Remains text offset (c :: cs)) (hc : c.utf8Size = 1) :
    Remains text (offset + 1) cs := by
  have htail := h.tail
  rwa [hc] at htail

/-- A comment is read, up to the end of its line. -/
theorem remains_comment {rest : List Char} (h : Remains text offset (';' :: rest)) :
    Remains text (offset + 1 + byteLength (rest.takeWhile (· != '\n')))
      (rest.dropWhile (· != '\n')) := by
  have hline := remains_char h rfl
  rw [← List.takeWhile_append_dropWhile (p := (· != '\n')) (l := rest)] at hline
  exact hline.past

/-- A quoted text is split into its quotes, its body and what follows. -/
theorem quoted_eq_append {rest : List Char} (h : (scanQuoted rest).closed = true) :
    '"' :: rest = '"' :: ((scanQuoted rest).body ++ ['"']) ++ (scanQuoted rest).rest :=
  congrArg _ (scanQuoted_closed h)

theorem byteLength_quoted (body : List Char) :
    offset + 1 + byteLength body + 1 = offset + byteLength ('"' :: (body ++ ['"'])) := by
  rw [byteLength, Text.byteLength_append, ← Nat.add_assoc, ← Nat.add_assoc]
  rfl

theorem remains_closed {rest : List Char} (h : Remains text offset ('"' :: rest))
    (hclosed : (scanQuoted rest).closed = true) :
    Remains text (offset + 1 + byteLength (scanQuoted rest).body + 1) (scanQuoted rest).rest := by
  rw [quoted_eq_append hclosed] at h
  rw [byteLength_quoted]
  exact h.past

theorem remains_open {rest : List Char} (h : Remains text offset ('"' :: rest))
    (hopen : (scanQuoted rest).closed = false) :
    Remains text (offset + 1 + byteLength (scanQuoted rest).body) (scanQuoted rest).rest := by
  have hrest := remains_char h rfl
  rw [scanQuoted_open hopen] at hrest
  exact hrest.past

/-- What is no gap, no lexeme of its own and in no atom is a control. -/
theorem utf8Size_of_stray (hgap : ¬ isGap c = true) (hcomment : c ≠ ';') (hopening : c ≠ '(')
    (hclosing : c ≠ ')') (hquote : c ≠ '"') (hatom : ¬ isAtomChar c = true) : c.utf8Size = 1 := by
  refine utf8Size_of_isControl ?_
  simp_all [isAtomChar, isDelimiter, isGap]

theorem placed_scan (h : Remains text offset cs) : ∀ l ∈ scan offset cs, l.Placed text := by
  fun_induction scan offset cs with
  | case1 => exact List.forall_mem_nil _
  | case2 offset c rest hgap ih => exact ih (remains_char h (utf8Size_of_isGap hgap))
  | case3 offset rest _ ih => exact ih (remains_comment h)
  | case4 offset rest _ _ ih =>
    exact List.forall_mem_cons.mpr ⟨placed_of_remains ['('] h (List.cons_ne_nil _ _) rfl rfl
      (by simp [chars?]), ih (remains_char h rfl)⟩
  | case5 offset rest _ _ _ ih =>
    exact List.forall_mem_cons.mpr ⟨placed_of_remains [')'] h (List.cons_ne_nil _ _) rfl rfl
      (by simp [chars?]), ih (remains_char h rfl)⟩
  | case6 offset rest quoted stop hclosed _ _ _ _ ih =>
    have hrest := ih (remains_closed h hclosed)
    rw [quoted_eq_append hclosed] at h
    exact List.forall_mem_cons.mpr ⟨placed_of_remains _ h (List.cons_ne_nil _ _) rfl
      (byteLength_quoted _) (by simp [chars?, quoted]), hrest⟩
  | case7 offset rest quoted stop hopen _ _ _ _ ih =>
    have hopen : quoted.closed = false := by simpa using hopen
    have hquoted : '"' :: rest = '"' :: quoted.body ++ quoted.rest :=
      congrArg _ (scanQuoted_open hopen)
    have hlength : stop = offset + byteLength ('"' :: quoted.body) := by
      rw [byteLength, ← Nat.add_assoc]
      rfl
    have hrest := ih (remains_open h hopen)
    rw [hquoted] at h
    exact List.forall_mem_cons.mpr
      ⟨placed_of_remains _ h (List.cons_ne_nil _ _) rfl hlength (by simp [chars?]), hrest⟩
  | case8 offset c rest _ _ _ _ _ _ chars stop ih =>
    have hatom : c :: rest = chars ++ rest.dropWhile isAtomChar :=
      congrArg _ List.takeWhile_append_dropWhile.symm
    rw [hatom] at h
    exact List.forall_mem_cons.mpr
      ⟨placed_of_remains _ h (List.cons_ne_nil _ _) rfl rfl (by simp [chars?]), ih h.past⟩
  | case9 offset c rest hgap hcomment hopening hclosing hquote hatom ih =>
    have hc := utf8Size_of_stray hgap hcomment hopening hclosing hquote hatom
    refine List.forall_mem_cons.mpr ⟨placed_of_remains [c] h (List.cons_ne_nil _ _) rfl ?_
      (by simp [chars?]), ih (remains_char h hc)⟩
    rw [Text.byteLength_singleton, hc]
    rfl

end

/-! ## Reading back -/

variable {source : String}

theorem reread_of_placed (h : l.Placed source) (hsize : source.utf8ByteSize ≤ Span.maxOffset) :
    reread source.toList l = l := by
  have hspan : Span.ofRange l.span.start l.span.stop = l.span :=
    Span.ofRange_of_marks h.marks hsize
  have hslice {chars : List Char} (hchars : l.chars? = some chars) :
      Text.slice? source.toList l.span.start l.span.stop = some chars :=
    (h.covers chars hchars).slice?_eq
  cases l with
  | opening | closing | unterminated => exact congrArg _ hspan
  | quoted body span =>
    have hbody : Text.slice? ('"' :: (body ++ ['"'])) 1
        (Text.byteLength ('"' :: (body ++ ['"'])) - 1) = some body := by
      rw [← List.cons_append, Text.byteLength_append]
      exact Text.slice?_append ['"'] body ['"']
    simp only [reread, hspan, hslice rfl, Option.getD_some, hbody]
    rfl
  | atom chars span =>
    simp only [reread, hspan, hslice rfl, Option.getD_some]
    rfl
  | stray c span =>
    simp only [reread, hspan, hslice rfl, Option.getD_some, List.head?_cons]
    rfl

/-- In a text of which each offset fits, the lexemes are those scanned. -/
theorem ofSource_eq_scan (hsize : source.utf8ByteSize ≤ Span.maxOffset) :
    ofSource source = scan 0 source.toList := by
  have hplaced := placed_scan (Text.remains_start source)
  rw [ofSource, List.map_congr_left fun l hl => reread_of_placed (hplaced l hl) hsize, List.map_id']

theorem lexed_ofSource (hsize : source.utf8ByteSize ≤ Span.maxOffset) :
    Lexed 0 (ofSource source) := by
  rw [ofSource_eq_scan hsize]
  exact lexed_scan 0 source.toList

theorem placed_ofSource (hsize : source.utf8ByteSize ≤ Span.maxOffset) :
    ∀ l ∈ ofSource source, l.Placed source := by
  rw [ofSource_eq_scan hsize]
  exact placed_scan (Text.remains_start source)

end Lexeme

end TokenMachine
