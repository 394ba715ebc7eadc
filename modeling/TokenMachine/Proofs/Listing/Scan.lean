/-
  TokenMachine.Proofs.Listing.Scan — the words of a text, by its layout.

  At the start of a word the scanner does one of four things, by the character there: it
  passes white space or a comment, or takes a quoted or a bare word (`scanWords_blank`,
  `scanWords_comment`, `scanWords_quote`, `scanWords_bare`). A quoted word holds the text
  that its body writes, however it writes it (`readQuoted_body`).

  `Scans cs ws`: from wherever its text begins, the scanner takes `cs` to words of the
  spellings `ws` — the text of each and whether it is quoted. White space adds no word,
  a written word adds itself whatever its characters are (`scans_written`), provided
  white space or the end of the text comes after it.
-/

import TokenMachine.Listing.Word
import TokenMachine.Proofs.Text.Places

namespace TokenMachine.Listing

open Text

/-! ## Quoted words -/

theorem readQuoted_cons {c : Char} (h : c ≠ '"') (h' : c ≠ '\\') (offset : Nat) (cs : List Char) :
    readQuoted offset (c :: cs) = (readQuoted (offset + c.utf8Size) cs).cons c := by
  rw [readQuoted.eq_def]
  split <;> simp_all

/-- Between quotes, `body` is one way to write `text`: each character stands for itself, unless it
is a quote or a backslash, or is written as its escape, if it has one. -/
inductive BodyOf : List Char → List Char → Prop
  | nil : BodyOf [] []
  | plain {c : Char} {text body : List Char} :
      c ≠ '"' → c ≠ '\\' → BodyOf text body → BodyOf (c :: text) (c :: body)
  | escape {c letter : Char} {text body : List Char} :
      escapeLetter? c = some letter → BodyOf text body →
      BodyOf (c :: text) ('\\' :: letter :: body)

/-- Any text can be written between quotes. -/
theorem bodyOf_escape (text : List Char) : BodyOf text (escape text) := by
  induction text with
  | nil => exact .nil
  | cons c text ih =>
    rw [escape_cons]
    cases hl : escapeLetter? c with
    | some letter => simpa [escapeChar, hl] using BodyOf.escape hl ih
    | none =>
      obtain ⟨hq, hb⟩ := escapeLetter?_eq_none hl
      simpa [escapeChar, hl] using BodyOf.plain hq hb ih

/-- What is written between quotes is read back, up to the closing quote. -/
theorem readQuoted_body {text body : List Char} (h : BodyOf text body) (offset : Nat)
    (rest : List Char) : readQuoted offset (body ++ '"' :: rest) =
      .closed text (offset + byteLength body + 1) rest := by
  induction h generalizing offset with
  | nil => rfl
  | plain hq hb _ ih =>
    rw [List.cons_append, readQuoted_cons hq hb, ih, byteLength, ← Nat.add_assoc]
    rfl
  | @escape c letter text body hl _ ih =>
    have hoffset : offset + 1 + letter.utf8Size + byteLength body =
        offset + byteLength ('\\' :: letter :: body) := by
      have hslash : '\\'.utf8Size = 1 := rfl
      simp only [byteLength, hslash]
      omega
    simp only [List.cons_append]
    rw [readQuoted]
    simp only [unescape?_of_escapeLetter? hl]
    rw [ih, hoffset]
    rfl

/-! ## What stands at the start of a word -/

theorem scanWords_blank {c : Char} (h : isBlank c = true) (offset : Nat) (rest : List Char) :
    scanWords offset (c :: rest) = scanWords (offset + c.utf8Size) rest := by
  rw [scanWords, if_pos h]

/-- A comment is passed up to the end of its line, or of the text. -/
theorem scanWords_comment {line rest : List Char} (h : '\n' ∉ line)
    (hend : ∀ c ∈ rest.head?, c = '\n') (offset : Nat) :
    scanWords offset ('#' :: (line ++ rest)) =
      scanWords (offset + byteLength ('#' :: line)) rest := by
  have hhash : '#'.utf8Size = 1 := rfl
  have hrun : ∀ c ∈ line, (c != '\n') = true := fun c hc =>
    bne_iff_ne.mpr (ne_of_mem_of_not_mem hc h)
  have hstop : ∀ c ∈ rest.head?, (c != '\n') = false := fun c hc => by simp [hend c hc]
  rw [scanWords, if_neg (by decide), if_pos rfl, takeWhile_run hrun hstop, dropWhile_run hrun hstop,
    byteLength, hhash, Nat.add_assoc]

theorem scanWords_quote (offset : Nat) (cs : List Char) : scanWords offset ('"' :: cs) =
    match readQuoted (offset + 1) cs with
    | .closed chars stop rest => do
      .ok (⟨String.ofList chars, true, .ofRange offset stop⟩ :: (← scanWords stop rest))
    | .badEscape bad => .error (.invalidEscape bad)
    | .unterminated =>
      .error (.unterminatedQuote (.ofRange offset (offset + 1 + byteLength cs))) := by
  rw [scanWords, if_neg (by decide), if_neg (by decide), if_pos rfl]
  split <;> simp only [*]

def EndsWord (rest : List Char) : Prop := ∀ c ∈ rest.head?, isBlank c = true

theorem endsWord_nil : EndsWord [] := fun _ hd => by cases hd

theorem endsWord_cons {c : Char} (hc : isBlank c = true) (rest : List Char) :
    EndsWord (c :: rest) := by
  intro d hd
  cases hd
  exact hc

theorem scanWords_bare {c : Char} {word rest : List Char} (hc : c ≠ '#') (hq : c ≠ '"')
    (hb : ∀ d ∈ c :: word, isBlank d = false) (he : EndsWord rest) (offset : Nat) :
    scanWords offset (c :: word ++ rest) =
      (do .ok (⟨String.ofList (c :: word), false,
          .ofRange offset (offset + byteLength (c :: word))⟩ ::
        (← scanWords (offset + byteLength (c :: word)) rest))) := by
  obtain ⟨hcb, hword⟩ := List.forall_mem_cons.mp hb
  have hrun : ∀ d ∈ word, (!isBlank d) = true := fun d hd => by simp [hword d hd]
  have hend : ∀ d ∈ rest.head?, (!isBlank d) = false := fun d hd => by simp [he d hd]
  rw [List.cons_append, scanWords, if_neg (by simp [hcb]), if_neg hc, if_neg hq]
  dsimp only
  rw [takeWhile_run hrun hend, dropWhile_run hrun hend]

/-! ## Layouts -/

def Word.spelling (w : Word) : String × Bool := (w.text, w.quoted)

def Scans (cs : List Char) (ws : List (String × Bool)) : Prop :=
  ∀ offset, ∃ words, scanWords offset cs = .ok words ∧ words.map Word.spelling = ws

theorem scans_nil : Scans [] [] := fun offset => ⟨[], by rw [scanWords], rfl⟩

theorem scans_blank {c : Char} {rest : List Char} {ws : List (String × Bool)}
    (hc : isBlank c = true) (h : Scans rest ws) : Scans (c :: rest) ws := by
  intro offset
  obtain ⟨words, hw, hs⟩ := h (offset + c.utf8Size)
  exact ⟨words, by rw [scanWords_blank hc, hw], hs⟩

theorem scans_blanks {gap rest : List Char} {ws : List (String × Bool)}
    (hg : ∀ c ∈ gap, isBlank c = true) (h : Scans rest ws) : Scans (gap ++ rest) ws := by
  induction gap with
  | nil => exact h
  | cons c gap ih =>
    obtain ⟨hc, hgap⟩ := List.forall_mem_cons.mp hg
    exact scans_blank hc (ih hgap)

theorem scans_quoted (word : List Char) {rest : List Char} {ws : List (String × Bool)}
    (h : Scans rest ws) :
    Scans (quoted word ++ rest) ((String.ofList word, true) :: ws) := by
  intro offset
  have hread := readQuoted_body (bodyOf_escape word) (offset + 1) rest
  generalize offset + 1 + byteLength (escape word) + 1 = stop at hread
  obtain ⟨words, hw, hs⟩ := h stop
  refine ⟨⟨String.ofList word, true, .ofRange offset stop⟩ :: words, ?_,
    by rw [List.map_cons, hs]; rfl⟩
  simp only [quoted, List.cons_append, List.append_assoc, List.nil_append]
  rw [scanWords_quote, hread]
  dsimp only
  rw [hw]
  rfl

theorem isBlank_of_all {cs : List Char} (h : cs.all (fun c => !isBlank c) = true) :
    ∀ c ∈ cs, isBlank c = false := by
  simpa using h

theorem scans_plain (c : Char) (word : List Char) {rest : List Char} {ws : List (String × Bool)}
    (hc : c ≠ '#') (hq : c ≠ '"') (hb : ∀ d ∈ c :: word, isBlank d = false) (he : EndsWord rest)
    (h : Scans rest ws) : Scans (c :: word ++ rest) ((String.ofList (c :: word), false) :: ws) := by
  intro offset
  obtain ⟨words, hw, hs⟩ := h (offset + byteLength (c :: word))
  refine ⟨⟨String.ofList (c :: word), false,
    .ofRange offset (offset + byteLength (c :: word))⟩ :: words, ?_, by rw [List.map_cons, hs]; rfl⟩
  rw [scanWords_bare hc hq hb he, hw]
  rfl

/-- What a written word is read back as: quoted iff it has to be. -/
def spell (s : String) : String × Bool := (s, needsQuotes s.toList)

theorem needsQuotes_eq_false {word : List Char} (h : needsQuotes word = false) :
    ∃ c rest, word = c :: rest ∧ c ≠ '#' ∧ c ≠ '.' ∧ c ≠ ':' ∧
      ∀ d ∈ word, isBlank d = false ∧ d ≠ '"' := by
  cases word with
  | nil => cases h
  | cons c rest =>
    simp only [needsQuotes, Bool.or_eq_false_iff, decide_eq_false_iff_not, List.any_eq_false,
      Bool.or_eq_true, decide_eq_true_eq, not_or, Bool.not_eq_true] at h
    obtain ⟨⟨⟨hh, hd⟩, hp⟩, hall⟩ := h
    exact ⟨c, rest, rfl, hh, hd, hp, hall⟩

/-- A written word is read back as itself, whatever characters it holds. -/
theorem scans_written {s : String} {rest : List Char} {ws : List (String × Bool)}
    (he : EndsWord rest) (h : Scans rest ws) :
    Scans (written s.toList ++ rest) (spell s :: ws) := by
  unfold written spell
  split
  · next hq =>
    have := scans_quoted s.toList h
    rwa [String.ofList_toList, ← hq] at this
  · next hq =>
    have hq' : needsQuotes s.toList = false := by simpa using hq
    obtain ⟨c, word, hw, hh, -, -, hall⟩ := needsQuotes_eq_false hq'
    rw [hw] at hall
    have := scans_plain c word hh (hall c List.mem_cons_self).2 (fun d hd => (hall d hd).1) he h
    rw [← hw, String.ofList_toList] at this
    rw [hq']
    exact this

end TokenMachine.Listing
