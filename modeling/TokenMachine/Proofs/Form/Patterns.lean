/-
  TokenMachine.Proofs.Form.Patterns — the lexemes of a text are the longest matches of patterns.

  Two patterns match what stands between lexemes, and five the lexemes; a quoted text that is not
  terminated has one of its own (`Pattern.Matches`). From each place on the longest part is taken
  that any of them matches, and where none matches, a character is a stray (`Lexes`).

  The scan never compares matches: it tells from the next character what the longest one is, and
  how far that goes. Where no other match is longer, it takes just this one (`scan_of_longest`);
  so two patterns that match the same part make the same lexeme of it (`Matches.lexeme?_eq`), and
  scanning is the only way to go by the longest matches (`lexes_iff`).
-/

import TokenMachine.Proofs.Form.Literals

namespace TokenMachine.Lexeme

open Text (Enclosed byteLength)

inductive Pattern where
  | gap
  | comment
  | opening
  | closing
  | quoted
  | unterminated
  | atom

namespace Pattern

def gaps : List Char := [' ', '\t', '\r', '\n', '\x0c']

def marks : List Char := ['(', ')', '"', ';']

/-- What the patterns match. Between the quotes stand characters other than a quote and a backslash,
and backslashes each before any character but a line feed. -/
def Matches : Pattern → List Char → Prop
  | gap, part => part ≠ [] ∧ ∀ c ∈ part, c ∈ gaps
  | comment, part => ∃ line, part = ';' :: line ∧ '\n' ∉ line
  | opening, part => part = ['(']
  | closing, part => part = [')']
  | quoted, part => ∃ body, part = '"' :: (body ++ ['"']) ∧ Enclosed (· ≠ '\n') body
  | unterminated, part => ∃ body, part = '"' :: body ∧ Enclosed (· ≠ '\n') body
  | atom, part =>
    part ≠ [] ∧ ∀ c ∈ part, c ∉ gaps ∧ c ∉ marks ∧ 0x1F < c.toNat ∧ c.toNat ≠ 0x7F

def lexeme? (part : List Char) (span : Span) : Pattern → Option Lexeme
  | gap | comment => none
  | opening => some (.opening span)
  | closing => some (.closing span)
  | quoted => some (.quoted part.tail.dropLast span)
  | unterminated => some (.unterminated span)
  | atom => some (.atom part span)

/-- The pattern matches a part of a text, and none matches a longer part from there on. -/
structure Longest (p : Pattern) (part rest : List Char) : Prop where
  holds : p.Matches part
  length_le : ∀ (q : Pattern) part', part' <+: part ++ rest → q.Matches part' →
    part'.length ≤ part.length

end Pattern

/-- From each place on, `offset` bytes into a text, the longest match is taken. -/
inductive Lexes : Nat → List Char → List Lexeme → Prop
  | nil {offset : Nat} : Lexes offset [] []
  | longest {offset : Nat} {p : Pattern} {part rest : List Char} {ls : List Lexeme} :
      p.Longest part rest → Lexes (offset + byteLength part) rest ls →
      Lexes offset (part ++ rest)
        ((p.lexeme? part ⟨offset, offset + byteLength part⟩).toList ++ ls)
  | stray {offset : Nat} {c : Char} {rest : List Char} {ls : List Lexeme} :
      (∀ (p : Pattern) part, part <+: c :: rest → ¬ p.Matches part) →
      Lexes (offset + c.utf8Size) rest ls →
      Lexes offset (c :: rest) (.stray c ⟨offset, offset + c.utf8Size⟩ :: ls)

variable {p q : Pattern} {offset : Nat} {c : Char} {cs part more rest : List Char} {span : Span}

/-! ## Matches -/

theorem isGap_iff : isGap c = true ↔ c ∈ Pattern.gaps := by
  simp [isGap, Pattern.gaps, or_assoc]

theorem isDelimiter_iff : isDelimiter c = true ↔ c ∈ Pattern.marks := by
  simp [isDelimiter, Pattern.marks, or_assoc]

theorem isAtomChar_iff : isAtomChar c = true ↔
    c ∉ Pattern.gaps ∧ c ∉ Pattern.marks ∧ 0x1F < c.toNat ∧ c.toNat ≠ 0x7F := by
  rw [← isGap_iff, ← isDelimiter_iff]
  constructor
  · intro h
    have hgap := (not_special_of_isAtomChar h).1
    simp only [isAtomChar, isControl, Bool.not_eq_true', Bool.or_eq_false_iff,
      decide_eq_false_iff_not] at h
    obtain ⟨⟨-, hlow, hdelete⟩, hmark⟩ := h
    exact ⟨by simp [hgap], by simp [hmark], Nat.not_lt.mp hlow, hdelete⟩
  · rintro ⟨hgap, hmark, hlow, hdelete⟩
    have hspace : c ≠ ' ' := by
      rintro rfl
      exact hgap rfl
    simp [isAtomChar, isControl, hspace, hmark, hdelete]
    omega

namespace Pattern

theorem Matches.ne_nil (h : p.Matches part) : part ≠ [] := by
  cases p with
  | gap | atom => exact h.1
  | opening | closing =>
    rw [show part = _ from h]
    exact List.cons_ne_nil _ _
  | comment | quoted | unterminated =>
    obtain ⟨_, rfl, -⟩ := h
    exact List.cons_ne_nil _ _

/-- If some part is matched, one is the longest. -/
theorem exists_longest (h : p.Matches part) (hpart : part <+: cs) :
    ∃ q part' rest, cs = part' ++ rest ∧ Longest q part' rest := by
  induction hn : cs.length - part.length using Nat.strong_induction_on generalizing p part with
  | _ n ih =>
  by_cases hlonger : ∃ q part', part' <+: cs ∧ Matches q part' ∧ part.length < part'.length
  · obtain ⟨q, part', hpart', hq, hlt⟩ := hlonger
    have hle := hpart'.length_le
    exact ih _ (by omega) hq hpart' rfl
  · obtain ⟨rest, rfl⟩ := hpart
    exact ⟨p, part, rest, rfl, h, fun q part' hpart' hq =>
      Nat.not_lt.mp fun hlt => hlonger ⟨q, part', hpart', hq, hlt⟩⟩

/-- A longest match does not go on. -/
theorem Longest.not_append (more : List Char) (h : p.Longest part (more ++ rest))
    (hmore : more ≠ []) (q : Pattern) : ¬ q.Matches (part ++ more) := by
  intro hq
  have hle := h.length_le q _ (by rw [← List.append_assoc]; exact List.prefix_append _ _) hq
  have := List.length_pos_iff.mpr hmore
  rw [List.length_append] at hle
  omega

end Pattern

/-! ## Scanning -/

theorem scan_gaps (h : ∀ c ∈ part, isGap c = true) (offset : Nat) (rest : List Char) :
    scan offset (part ++ rest) = scan (offset + byteLength part) rest := by
  induction part generalizing offset with
  | nil => rfl
  | cons c part ih =>
    obtain ⟨hc, hpart⟩ := List.forall_mem_cons.mp h
    rw [List.cons_append, scan_gap hc, ih hpart, byteLength, utf8Size_of_isGap hc, Nat.add_assoc]

/-- Where no match goes on with a text between quotes, it is neither closed nor continued. -/
theorem scanQuoted_of_longest {body : List Char} (hbody : Enclosed (· ≠ '\n') body)
    (h : Pattern.Longest .unterminated ('"' :: body) rest) :
    scanQuoted rest = ⟨[], false, rest⟩ := by
  -- Each way to go on is a longer match.
  have hlonger (more : List Char) {rest' : List Char} (hrest : rest = more ++ rest')
      (hmore : more ≠ []) (henclosed : Enclosed (· ≠ '\n') more) : False := by
    rw [hrest] at h
    exact h.not_append more hmore .unterminated ⟨body ++ more, rfl, hbody.append henclosed⟩
  cases rest with
  | nil => rfl
  | cons c tail =>
    by_cases hquote : c = '"'
    · subst hquote
      exact (h.not_append ['"'] nofun .quoted ⟨body, rfl, hbody⟩).elim
    · by_cases hslash : c = '\\'
      · subst hslash
        cases tail with
        | nil => rfl
        | cons letter tail =>
          by_cases hletter : letter = '\n'
          · subst hletter
            rfl
          · exact (hlonger ['\\', letter] rfl nofun (.escape hletter .nil)).elim
      · exact (hlonger [c] rfl nofun (.plain hquote hslash .nil)).elim

/-- The scan takes the longest match. -/
theorem scan_of_longest (h : p.Longest part rest) (offset : Nat) : scan offset (part ++ rest) =
    (p.lexeme? part ⟨offset, offset + byteLength part⟩).toList ++
      scan (offset + byteLength part) rest := by
  have hmatch := h.holds
  cases p with
  | gap => exact scan_gaps (fun c hc => isGap_iff.mpr (hmatch.2 c hc)) offset rest
  | comment =>
    obtain ⟨line, rfl, hline⟩ := hmatch
    have hrun : ∀ c ∈ line, (c != '\n') = true := fun c hc =>
      bne_iff_ne.mpr fun heq => hline (heq ▸ hc)
    have hend : ∀ c ∈ rest.head?, (c != '\n') = false := by
      intro c hc
      obtain ⟨rest, rfl⟩ := List.head?_eq_some_iff.mp hc
      refine bne_eq_false_iff_eq.mpr (Decidable.of_not_not fun hne => ?_)
      refine h.not_append [c] nofun .comment ⟨line ++ [c], rfl, ?_⟩
      simp [hline, Ne.symm hne]
    rw [List.cons_append, scan_comment, Text.takeWhile_run hrun hend, Text.dropWhile_run hrun hend,
      Nat.add_assoc]
    rfl
  | opening =>
    cases hmatch
    exact scan_opening
  | closing =>
    cases hmatch
    exact scan_closing
  | quoted =>
    obtain ⟨body, rfl, hbody⟩ := hmatch
    have hscan : scanQuoted (body ++ '"' :: rest) = ⟨body, true, rest⟩ := by
      simp [scanQuoted_append hbody, scanQuoted, QuotedScan.prepend]
    have htext : '"' :: (body ++ ['"']) ++ rest = '"' :: (body ++ '"' :: rest) := by simp
    rw [htext, scan_quote, literal_of_closed (by rw [hscan]), hscan, byteLength_quoted]
    simp [Pattern.lexeme?, span]
  | unterminated =>
    obtain ⟨body, rfl, hbody⟩ := hmatch
    have hscan : scanQuoted (body ++ rest) = ⟨body, false, rest⟩ := by
      simp [scanQuoted_append hbody, scanQuoted_of_longest hbody h, QuotedScan.prepend]
    rw [List.cons_append, scan_quote, literal_of_open (by simp [hscan]), hscan, Nat.add_assoc]
    rfl
  | atom =>
    have hend : EndsAtom rest := by
      intro c hc
      obtain ⟨rest, rfl⟩ := List.head?_eq_some_iff.mp hc
      refine Bool.eq_false_iff.mpr fun hatom => ?_
      refine h.not_append [c] nofun .atom ⟨by simp, fun d hd => ?_⟩
      rcases List.mem_append.mp hd with hd | hd
      · exact hmatch.2 d hd
      · exact isAtomChar_iff.mp (List.mem_singleton.mp hd ▸ hatom)
    exact scan_atom offset hmatch.1 (fun c hc => isAtomChar_iff.mpr (hmatch.2 c hc)) hend

theorem scan_of_no_match (h : ∀ (p : Pattern) part, part <+: c :: rest → ¬ p.Matches part)
    (offset : Nat) : scan offset (c :: rest) =
      .stray c ⟨offset, offset + c.utf8Size⟩ :: scan (offset + c.utf8Size) rest := by
  have hnone (p : Pattern) : ¬ p.Matches [c] := h p [c] (List.prefix_append [c] rest)
  have hgap : ¬ isGap c = true := fun hc =>
    hnone .gap ⟨nofun, by simpa using isGap_iff.mp hc⟩
  have hatom : ¬ isAtomChar c = true := fun hc =>
    hnone .atom ⟨nofun, by simpa using isAtomChar_iff.mp hc⟩
  have hcomment : c ≠ ';' := fun hc => hnone .comment ⟨[], by rw [hc], nofun⟩
  have hopening : c ≠ '(' := fun hc => hnone .opening (congrArg (fun c => [c]) hc)
  have hclosing : c ≠ ')' := fun hc => hnone .closing (congrArg (fun c => [c]) hc)
  have hquote : c ≠ '"' := fun hc => hnone .unterminated ⟨[], by rw [hc], .nil⟩
  rw [utf8Size_of_stray hgap hcomment hopening hclosing hquote hatom]
  exact scan_stray hgap hcomment hopening hclosing hquote hatom offset rest

/-! ## Lexing -/

/-- Two patterns that match the same part make the same of it. -/
theorem Pattern.Matches.lexeme?_eq (hp : p.Matches part) (hq : q.Matches part) (offset : Nat) :
    let span : Span := ⟨offset, offset + byteLength part⟩
    p.lexeme? part span = q.lexeme? part span := by
  have hlongest {p : Pattern} (hp : p.Matches part) : p.Longest part [] :=
    ⟨hp, fun _ _ hpart _ => by simpa using hpart.length_le⟩
  have hscan := (scan_of_longest (hlongest hp) offset).symm.trans
    (scan_of_longest (hlongest hq) offset)
  have hhead := congrArg List.head? (List.append_cancel_right hscan)
  rwa [Option.head?_toList, Option.head?_toList] at hhead

/-- Going by the longest matches leads to the lexemes scanned, and to no others. -/
theorem lexes_iff {ls : List Lexeme} : Lexes offset cs ls ↔ scan offset cs = ls := by
  constructor
  · intro h
    induction h with
    | nil => rw [scan]
    | longest h _ ih => rw [scan_of_longest h, ih]
    | stray h _ ih => rw [scan_of_no_match h, ih]
  · rintro rfl
    induction hn : cs.length using Nat.strong_induction_on generalizing offset cs with
    | _ n ih =>
    cases cs with
    | nil =>
      rw [scan]
      exact .nil
    | cons c rest =>
      by_cases hmatch : ∃ (p : Pattern) (part : List Char), part <+: c :: rest ∧ p.Matches part
      · obtain ⟨p, part, hpart, hp⟩ := hmatch
        obtain ⟨q, part', rest', heq, hlongest⟩ := Pattern.exists_longest hp hpart
        have hlength := congrArg List.length heq
        have hpos := List.length_pos_iff.mpr hlongest.holds.ne_nil
        rw [List.length_append] at hlength
        rw [heq, scan_of_longest hlongest]
        exact .longest hlongest (ih _ (by omega) rfl)
      · have hnone : ∀ (p : Pattern) part, part <+: c :: rest → ¬ p.Matches part :=
          fun p part hpart hp => hmatch ⟨p, part, hpart, hp⟩
        rw [scan_of_no_match hnone]
        exact .stray hnone (ih _ (by rw [← hn]; exact Nat.lt_succ_self _) rfl)

/-- The lexemes of a text of which each offset fits are its longest matches, one after the other. -/
theorem lexes_ofSource_iff {source : String} {ls : List Lexeme}
    (hsize : source.utf8ByteSize ≤ Span.maxOffset) :
    Lexes 0 source.toList ls ↔ ofSource source = ls := by
  rw [ofSource_eq_scan hsize]
  exact lexes_iff

end TokenMachine.Lexeme
