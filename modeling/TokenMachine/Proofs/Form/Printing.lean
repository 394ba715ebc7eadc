/-
  TokenMachine.Proofs.Form.Printing — printed forms are read back.

  A printed atom is one lexeme if no character goes on with it, a printed text is one
  lexeme whatever is in it, and a list is its items between two parentheses. So where
  what follows does not go on with an atom, reading takes the printed form to one form
  more, pending, and goes on behind it (`ReadsBack`): by induction on the form, the lists
  inside it being no deeper than there is room for (`Printable.readsBack`). Forms that are
  printed one after the other with a gap between them are read back one by one, be they the
  items of a list or the lines of a text (`readsBack_joined`).
-/

import TokenMachine.Form.Reader
import TokenMachine.Proofs.Form.Lexemes

namespace TokenMachine

/-! ## Characters of numerals -/

namespace Decimal

variable {c : Char} {cs : List Char}

theorem mem_splitSign (h : c ∈ cs) : c ∈ numeralMarks ∨ c ∈ (splitSign cs).2 := by
  unfold splitSign
  split
  · next rest =>
    rcases List.mem_cons.mp h with rfl | h
    · exact .inl (by decide)
    · exact .inr h
  · next rest =>
    rcases List.mem_cons.mp h with rfl | h
    · exact .inl (by decide)
    · exact .inr h
  · exact .inr h

/-- A numeral is not empty, and made of digits and a few marks. -/
theorem mem_of_isNumeral (h : isNumeral cs = true) :
    cs ≠ [] ∧ ∀ c ∈ cs, c ∈ numeralMarks ∨ c.isDigit = true := by
  simp only [isNumeral, Bool.and_eq_true, List.all_eq_true, Bool.or_eq_true,
    decide_eq_true_eq] at h
  obtain ⟨⟨hfirst, hchars⟩, -⟩ := h
  constructor
  · rintro rfl
    cases hfirst
  · intro c hc
    rcases mem_splitSign hc with hmark | hrest
    · exact .inl hmark
    · exact (hchars c hrest).symm

end Decimal

/-! ## Lexemes of printed forms -/

namespace Text

/-- What is between the quotes of a printed text is decoded to the text. -/
theorem decode_escaped (offset : Nat) (cs : List Char) : decode offset (escape cs) = .ok cs := by
  induction cs generalizing offset with
  | nil => rfl
  | cons c cs ih =>
    rw [escape_cons, escapeChar]
    cases hl : escapeLetter? c with
    | some letter => simp [decode, unescape?_of_escapeLetter? hl, ih, Except.map]
    | none =>
      have hc := (escapeLetter?_eq_none hl).2
      simp [decode, hc, ih, Except.map]

end Text

namespace Lexeme

open Text (byteLength escape)

variable {c : Char} {chars rest : List Char} {offset : Nat}

def EndsAtom (rest : List Char) : Prop := ∀ c ∈ rest.head?, isAtomChar c = false

theorem endsAtom_nil : EndsAtom [] := nofun

theorem endsAtom_closing (rest : List Char) : EndsAtom (')' :: rest) := by
  rintro _ ⟨⟩
  rfl

theorem endsAtom_gap (h : isGap c = true) (rest : List Char) : EndsAtom (c :: rest) := by
  rintro _ ⟨⟩
  simp only [isGap, Bool.or_eq_true, decide_eq_true_eq] at h
  rcases h with (((rfl | rfl) | rfl) | rfl) | rfl <;> decide

theorem isAtomChar_of_mem_numeralMarks (h : c ∈ Decimal.numeralMarks) : isAtomChar c = true :=
  List.all_eq_true.mp (by decide : Decimal.numeralMarks.all isAtomChar = true) c h

theorem isAtomChar_of_isDigit (h : c.isDigit = true) : isAtomChar c = true := by
  have hrange : 48 ≤ c.toNat ∧ c.toNat ≤ 57 := by
    simpa [Char.isDigit, UInt32.le_iff_toNat_le] using h
  have hne {d : Char} (hd : d.toNat < 48) : c ≠ d := by
    rintro rfl
    omega
  have hspace : c ≠ ' ' := hne (by decide)
  have hopening : c ≠ '(' := hne (by decide)
  have hclosing : c ≠ ')' := hne (by decide)
  have hquote : c ≠ '"' := hne (by decide)
  have hcomment : c ≠ ';' := by
    rintro rfl
    exact absurd hrange.2 (by decide)
  simp only [isAtomChar, isControl, isDelimiter, hspace, hopening, hclosing, hquote, hcomment]
  simp
  omega

/-- No atom begins like anything else. -/
theorem not_special_of_isAtomChar (h : isAtomChar c = true) :
    isGap c = false ∧ c ≠ ';' ∧ c ≠ '(' ∧ c ≠ ')' ∧ c ≠ '"' := by
  refine ⟨?_, ?_, ?_, ?_, ?_⟩
  · refine Bool.eq_false_iff.mpr fun hgap => ?_
    rw [endsAtom_gap hgap [] c rfl] at h
    cases h
  all_goals
    rintro rfl
    cases h

theorem scan_gap (h : isGap c = true) : scan offset (c :: rest) = scan (offset + 1) rest := by
  rw [scan, if_pos h]

theorem scan_opening : scan offset ('(' :: rest) =
    .opening ⟨offset, offset + 1⟩ :: scan (offset + 1) rest := by
  rw [scan]
  rfl

theorem scan_closing : scan offset (')' :: rest) =
    .closing ⟨offset, offset + 1⟩ :: scan (offset + 1) rest := by
  rw [scan]
  rfl

theorem scan_comment (offset : Nat) (rest : List Char) : scan offset (';' :: rest) =
    scan (offset + 1 + byteLength (rest.takeWhile (· != '\n'))) (rest.dropWhile (· != '\n')) := by
  rw [scan]
  rfl

/-- An atom is the longest run of its characters. -/
theorem scan_run (hc : isAtomChar c = true) (offset : Nat) (rest : List Char) :
    let chars := c :: rest.takeWhile isAtomChar
    scan offset (c :: rest) = .atom chars ⟨offset, offset + byteLength chars⟩ ::
      scan (offset + byteLength chars) (rest.dropWhile isAtomChar) := by
  obtain ⟨hgap, hcomment, hopening, hclosing, hquote⟩ := not_special_of_isAtomChar hc
  rw [scan, if_neg (by simp [hgap]), if_neg hcomment, if_neg hopening, if_neg hclosing,
    if_neg hquote, if_pos hc]

theorem scan_stray (hgap : ¬ isGap c = true) (hcomment : c ≠ ';') (hopening : c ≠ '(')
    (hclosing : c ≠ ')') (hquote : c ≠ '"') (hatom : ¬ isAtomChar c = true) (offset : Nat)
    (rest : List Char) :
    scan offset (c :: rest) = .stray c ⟨offset, offset + 1⟩ :: scan (offset + 1) rest := by
  rw [scan, if_neg hgap, if_neg hcomment, if_neg hopening, if_neg hclosing, if_neg hquote,
    if_neg hatom]

theorem scan_atom (offset : Nat) (hne : chars ≠ [])
    (h : ∀ c ∈ chars, isAtomChar c = true) (hend : EndsAtom rest) :
    scan offset (chars ++ rest) = .atom chars ⟨offset, offset + byteLength chars⟩ ::
      scan (offset + byteLength chars) rest := by
  obtain ⟨c, chars, rfl⟩ := List.exists_cons_of_ne_nil hne
  obtain ⟨hc, hchars⟩ := List.forall_mem_cons.mp h
  rw [List.cons_append, scan_run hc, Text.takeWhile_run hchars hend, Text.dropWhile_run hchars hend]

theorem scanQuoted_cons (hq : c ≠ '"') (hb : c ≠ '\\') :
    scanQuoted (c :: rest) = (scanQuoted rest).prepend [c] := by
  rw [scanQuoted.eq_def]
  split <;> simp_all

theorem scanQuoted_pair (h : c ≠ '\n') :
    scanQuoted ('\\' :: c :: rest) = (scanQuoted rest).prepend ['\\', c] := by
  rw [scanQuoted]
  exact h

/-- What is printed between quotes reaches up to the closing quote. -/
theorem scanQuoted_escape (cs rest : List Char) :
    scanQuoted (escape cs ++ '"' :: rest) = ⟨escape cs, true, rest⟩ := by
  induction cs with
  | nil => rfl
  | cons c cs ih =>
    rw [Text.escape_cons, List.append_assoc, Text.escapeChar]
    cases hl : Text.escapeLetter? c with
    | some letter =>
      have hletter : letter ≠ '\n' := by
        rintro rfl
        cases Text.unescape?_of_escapeLetter? hl
      rw [List.cons_append, List.cons_append, List.nil_append, scanQuoted_pair hletter, ih]
      rfl
    | none =>
      obtain ⟨hq, hb⟩ := Text.escapeLetter?_eq_none hl
      rw [List.cons_append, List.nil_append, scanQuoted_cons hq hb, ih]
      rfl

theorem scan_quoted (offset : Nat) (cs rest : List Char) :
    ∃ stop, scan offset (Text.quoted cs ++ rest) =
      .quoted (escape cs) ⟨offset, stop⟩ :: scan stop rest := by
  refine ⟨offset + 1 + byteLength (escape cs) + 1, ?_⟩
  rw [Text.quoted, List.cons_append, List.append_assoc, List.singleton_append, scan,
    if_neg (by decide), if_neg (by decide), if_neg (by decide), if_neg (by decide), if_pos rfl]
  dsimp only
  rw [scanQuoted_escape]
  rfl

end Lexeme

/-! ## Reading printed forms -/

namespace Form

open Lexeme (EndsAtom isAtomChar isGap scan)

mutual

def bare : Form → Form
  | .number raw _ => .number raw .dummy
  | .text value _ => .text value .dummy
  | .symbol name _ => .symbol name .dummy
  | .list items _ => .list (bareItems items) .dummy

def bareItems : List Form → List Form
  | [] => []
  | item :: rest => item.bare :: bareItems rest

end

theorem bareItems_eq_map (forms : List Form) : bareItems forms = forms.map bare := by
  induction forms with
  | nil => rfl
  | cons form forms ih => rw [bareItems, ih, List.map_cons]

/-- A form whose printed form says what it is, with lists nested at most `room` deep: its numbers
are numerals, and its symbols are atoms that are none. -/
inductive Printable : Nat → Form → Prop
  | number {room : Nat} {raw : String} {span : Span} :
      Decimal.isNumeral raw.toList = true → Printable room (.number raw span)
  | text {room : Nat} {value : String} {span : Span} : Printable room (.text value span)
  | symbol {room : Nat} {name : String} {span : Span} :
      name ≠ "" → (∀ c ∈ name.toList, isAtomChar c = true) →
      Decimal.isNumeral name.toList = false → Printable room (.symbol name span)
  | list {room : Nat} {items : List Form} {span : Span} :
      (∀ item ∈ items, Printable room item) → Printable (room + 1) (.list items span)

/-- Where `cs` stands before what goes on with no atom, and `room` more lists may be opened, reading
adds forms that are `forms` up to their spans. -/
def ReadsBack (room : Nat) (cs : List Char) (forms : List Form) : Prop :=
  ∀ (p : Pending) (offset : Nat) (rest : List Char),
    p.lists.length + room ≤ maxNesting → EndsAtom rest →
    ∃ (forms' : List Form) (stop : Nat), forms'.map bare = forms.map bare ∧
      (scan offset (cs ++ rest)).foldlM takeLexeme p =
        (scan stop rest).foldlM takeLexeme (forms'.foldl Pending.add p)

variable {room : Nat} {form : Form} {forms forms' : List Form}

theorem lists_foldl_add (forms : List Form) (p : Pending) :
    (forms.foldl Pending.add p).lists.length = p.lists.length := by
  induction forms generalizing p with
  | nil => rfl
  | cons form forms ih =>
    obtain ⟨lists, top⟩ := p
    rw [List.foldl_cons, ih]
    cases lists <;> rfl

theorem foldl_add_inner (forms : List Form) (start : Span) (items : List Form)
    (outer : List OpenList) (top : List Form) :
    forms.foldl Pending.add ⟨⟨start, items⟩ :: outer, top⟩ =
      ⟨⟨start, forms.reverse ++ items⟩ :: outer, top⟩ := by
  induction forms generalizing items with
  | nil => rfl
  | cons form forms ih => simpa [Pending.add] using ih (form :: items)

theorem foldl_add_top (forms top : List Form) :
    forms.foldl Pending.add ⟨[], top⟩ = ⟨[], forms.reverse ++ top⟩ := by
  induction forms generalizing top with
  | nil => rfl
  | cons form forms ih => simpa [Pending.add] using ih (form :: top)

theorem readsBack_nil (room : Nat) : ReadsBack room [] [] :=
  fun _ offset _ _ _ => ⟨[], offset, rfl, rfl⟩

theorem ReadsBack.append_gap {cs cs' : List Char} {gap : Char} (h : ReadsBack room cs forms)
    (hgap : isGap gap = true) (h' : ReadsBack room cs' forms') :
    ReadsBack room (cs ++ [gap] ++ cs') (forms ++ forms') := by
  intro p offset rest hroom hend
  rw [List.append_assoc, List.append_assoc, List.singleton_append]
  obtain ⟨read, stop, hbare, hread⟩ := h p offset (gap :: (cs' ++ rest)) hroom
    (Lexeme.endsAtom_gap hgap _)
  have hroom' : (read.foldl Pending.add p).lists.length + room ≤ maxNesting := by
    rw [lists_foldl_add]
    exact hroom
  obtain ⟨read', stop', hbare', hread'⟩ := h' (read.foldl Pending.add p) (stop + 1) rest hroom' hend
  refine ⟨read ++ read', stop', ?_, ?_⟩
  · rw [List.map_append, List.map_append, hbare, hbare']
  · rw [hread, Lexeme.scan_gap hgap, hread', List.foldl_append]

/-- Forms with a gap between them are read one after the other. -/
theorem readsBack_joined {gap : Char} (hgap : isGap gap = true)
    (h : ∀ form ∈ forms, ReadsBack room form.chars [form]) :
    ReadsBack room ([gap].intercalate (forms.map chars)) forms := by
  induction forms with
  | nil => exact readsBack_nil room
  | cons form forms ih =>
    obtain ⟨hform, hforms⟩ := List.forall_mem_cons.mp h
    cases forms with
    | nil => simpa using hform
    | cons second forms =>
      rw [List.map_cons, List.map_cons, List.intercalate_cons_cons]
      exact hform.append_gap hgap (ih hforms)

theorem readsBack_atom {chars : List Char} (hne : chars ≠ [])
    (h : ∀ c ∈ chars, isAtomChar c = true) (hform : ∀ span, (ofAtom chars span).bare = form.bare) :
    ReadsBack room chars [form] := by
  intro p offset rest _ hend
  refine ⟨[ofAtom chars ⟨offset, offset + Text.byteLength chars⟩],
    offset + Text.byteLength chars, by simp [hform], ?_⟩
  rw [Lexeme.scan_atom offset hne h hend]
  rfl

theorem readsBack_text (value : String) (span : Span) :
    ReadsBack room (Text.quoted value.toList) [.text value span] := by
  intro p offset rest _ _
  obtain ⟨stop, hscan⟩ := Lexeme.scan_quoted offset value.toList rest
  refine ⟨[.text value ⟨offset, stop⟩], stop, rfl, ?_⟩
  have htake (span : Span) : takeLexeme p (.quoted (Text.escape value.toList) span) =
      .ok (p.add (.text value span)) := by
    simp [takeLexeme, Text.decode_escaped]
  rw [hscan, List.foldlM_cons, htake]
  rfl

/-- A list is read back between its parentheses, with room for one list less inside. -/
theorem readsBack_list {cs : List Char} {items : List Form} (h : ReadsBack room cs items)
    (span : Span) : ReadsBack (room + 1) ('(' :: (cs ++ [')'])) [.list items span] := by
  rintro ⟨lists, top⟩ offset rest hroom -
  have hopen : takeLexeme ⟨lists, top⟩ (.opening ⟨offset, offset + 1⟩) =
      .ok ⟨⟨⟨offset, offset + 1⟩, []⟩ :: lists, top⟩ := by
    rw [takeLexeme, if_neg]
    dsimp only at hroom ⊢
    omega
  have hroom' : (⟨⟨offset, offset + 1⟩, []⟩ :: lists).length + room ≤ maxNesting := by
    rw [List.length_cons]
    dsimp only at hroom
    omega
  obtain ⟨read, stop, hbare, hread⟩ := h ⟨⟨⟨offset, offset + 1⟩, []⟩ :: lists, top⟩ (offset + 1)
    (')' :: rest) hroom' (Lexeme.endsAtom_closing rest)
  refine ⟨[.list read (.merge ⟨offset, offset + 1⟩ ⟨stop, stop + 1⟩)], stop + 1, ?_, ?_⟩
  · simp only [List.map_cons, List.map_nil, bare, bareItems_eq_map, hbare]
  · rw [List.cons_append, List.append_assoc, List.singleton_append, Lexeme.scan_opening,
      List.foldlM_cons, hopen]
    show (scan (offset + 1) (cs ++ ')' :: rest)).foldlM takeLexeme _ = _
    rw [hread, foldl_add_inner, Lexeme.scan_closing, List.foldlM_cons, takeLexeme]
    simp only [List.append_nil, List.reverse_reverse]
    rfl

theorem itemChars_eq_intercalate (items : List Form) :
    itemChars items = [' '].intercalate (items.map chars) := by
  induction items with
  | nil => rfl
  | cons item items ih =>
    cases items with
    | nil => simp [itemChars]
    | cons second items => simp [itemChars, List.intercalate_cons_cons, ih]

/-- A printed form is read back, if its atoms say what they are and there is room for its lists. -/
theorem Printable.readsBack (h : form.Printable room) : ReadsBack room form.chars [form] := by
  induction h with
  | @number _ raw span hraw =>
    obtain ⟨hne, hchars⟩ := Decimal.mem_of_isNumeral hraw
    rw [chars]
    refine readsBack_atom hne ?_ ?_
    · intro c hc
      rcases hchars c hc with hmark | hdigit
      · exact Lexeme.isAtomChar_of_mem_numeralMarks hmark
      · exact Lexeme.isAtomChar_of_isDigit hdigit
    · intro span'
      rw [ofAtom, if_pos hraw, String.ofList_toList, bare, bare]
  | text => exact readsBack_text _ _
  | @symbol _ name span hne hchars hraw =>
    rw [chars]
    refine readsBack_atom (by simpa using hne) hchars ?_
    intro span'
    rw [ofAtom, if_neg (by simp [hraw]), String.ofList_toList, bare, bare]
  | list _ ih =>
    rw [chars, itemChars_eq_intercalate]
    exact readsBack_list (readsBack_joined rfl ih) _

/-- Forms that are printed, each on a line of its own, are read back as they were, up to where they
stand, if the text is not too long for its offsets. -/
theorem read_render (h : ∀ form ∈ forms, form.Printable maxNesting)
    (hsize : ("\n".intercalate (forms.map render)).utf8ByteSize ≤ Span.maxOffset) :
    ∃ forms', read ("\n".intercalate (forms.map render)) = .ok forms' ∧
      forms'.map bare = forms.map bare := by
  have htext : ("\n".intercalate (forms.map render)).toList =
      ['\n'].intercalate (forms.map chars) := by
    simp [String.toList_intercalate, render, Function.comp_def]
  obtain ⟨forms', stop, hbare, hread⟩ :=
    readsBack_joined (show isGap '\n' = true from rfl)
      (fun form hform => (h form hform).readsBack) .empty 0 [] (Nat.le_of_eq (Nat.zero_add _))
      Lexeme.endsAtom_nil
  refine ⟨forms', ?_, hbare⟩
  rw [List.append_nil, ← htext, Pending.empty, foldl_add_top, scan] at hread
  rw [read, ofLexemes, Lexeme.ofSource_eq_scan hsize, Pending.empty, hread]
  simp [finish]

/-- A list in a list with a text that has a quote, a backslash, a line feed, a parenthesis and a
comment's semicolon in it, and a symbol that is almost a number. -/
def awkwardForms : List Form :=
  [.list [.symbol "é" ⟨7, 9⟩, .list [.number "-1.5e3" .dummy, .text "\"\\\n(;" .dummy] .dummy]
    ⟨5, 6⟩, .list [] .dummy, .symbol "-1.5e" .dummy]

theorem awkwardForms_read_render :
    (∀ form ∈ awkwardForms, form.Printable maxNesting) ∧
      "\n".intercalate (awkwardForms.map render) =
        "(é (-1.5e3 \"\\\"\\\\\\n(;\"))\n()\n-1.5e" ∧
      ∃ forms, read "(é (-1.5e3 \"\\\"\\\\\\n(;\"))\n()\n-1.5e" = .ok forms ∧
        forms.map bare = awkwardForms.map bare := by
  have hnumber (room : Nat) : Printable room (.number "-1.5e3" .dummy) :=
    .number (by decide +kernel)
  have hletter : Printable 255 (.symbol "é" ⟨7, 9⟩) :=
    .symbol (by decide) (List.all_eq_true.mp (by decide)) (by decide +kernel)
  have hsymbol : Printable 256 (.symbol "-1.5e" .dummy) :=
    .symbol (by decide) (List.all_eq_true.mp (by decide)) (by decide +kernel)
  have hforms : ∀ form ∈ awkwardForms, form.Printable maxNesting := by
    simp only [awkwardForms, List.forall_mem_cons]
    refine ⟨.list ?_, .list nofun, hsymbol, nofun⟩
    simp only [List.forall_mem_cons]
    refine ⟨hletter, .list ?_, nofun⟩
    simp only [List.forall_mem_cons]
    exact ⟨hnumber _, .text, nofun⟩
  have hprinted : "\n".intercalate (awkwardForms.map render) =
      "(é (-1.5e3 \"\\\"\\\\\\n(;\"))\n()\n-1.5e" := by decide +kernel
  have hsize : ("\n".intercalate (awkwardForms.map render)).utf8ByteSize ≤ Span.maxOffset := by
    rw [hprinted]
    decide +kernel
  exact ⟨hforms, hprinted, hprinted ▸ read_render hforms hsize⟩

end Form

end TokenMachine
