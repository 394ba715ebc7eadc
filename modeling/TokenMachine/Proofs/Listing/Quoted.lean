/-
  TokenMachine.Proofs.Listing.Quoted — a quoted word is a quoted text of source.

  A listing reads a quoted word character by character, and resolves its escapes as it goes;
  source is scanned for the closing quote first, and then what is between the quotes is decoded.
  A backslash before a line feed breaks a text off in source, and is no escape in a listing, so
  neither takes it. All else the two take alike: where the scan of source is closed, the word is
  what decoding makes of the body, or the bad escape is the same (`readQuoted_of_closed`), and
  where a word is closed, so is the scan (`closed_of_readQuoted`). So a text that is one quoted
  text of source is one quoted word, of the same characters, and the other way round
  (`read_iff_assemble`).
-/

import TokenMachine.Proofs.Form.Literals
import TokenMachine.Proofs.Listing.Blocks
import TokenMachine.Proofs.Listing.Scan
import TokenMachine.Proofs.Listing.Spans

namespace TokenMachine

def Span.whole (text : String) : Span := ⟨0, text.utf8ByteSize⟩

namespace Listing

open Lexeme (scanQuoted)
open Text (byteLength decode)

variable {offset stop : Nat} {cs chars rest : List Char} {text t : String}

/-! ## Quoted words -/

def QuotedWord.ofBody (offset : Nat) (body rest : List Char) : QuotedWord :=
  match decode offset body with
  | .ok chars => .closed chars (offset + byteLength body + 1) rest
  | .error bad => .badEscape ⟨bad.letter, .ofRange bad.span.start bad.span.stop⟩

theorem QuotedWord.ofBody_plain {c : Char} (hb : c ≠ '\\') (offset : Nat) (body rest : List Char) :
    ofBody offset (c :: body) rest = (ofBody (offset + c.utf8Size) body rest).cons c := by
  unfold ofBody
  rw [Text.decode_plain hb, byteLength, ← Nat.add_assoc]
  cases decode (offset + c.utf8Size) body <;> rfl

theorem QuotedWord.ofBody_escape {letter c : Char} (h : Text.unescape? letter = some c)
    (offset : Nat) (body rest : List Char) :
    ofBody offset ('\\' :: letter :: body) rest =
      (ofBody (offset + 1 + letter.utf8Size) body rest).cons c := by
  have hlength : offset + byteLength ('\\' :: letter :: body) =
      offset + 1 + letter.utf8Size + byteLength body := by
    rw [Text.byteLength_escape]
    omega
  unfold ofBody
  rw [Text.decode_escape h, hlength]
  cases decode (offset + 1 + letter.utf8Size) body <;> rfl

/-- Where a scan of source finds the closing quote, a word is what the quotes hold, decoded. -/
theorem readQuoted_of_closed (h : (scanQuoted cs).closed = true) (offset : Nat) :
    readQuoted offset cs = .ofBody offset (scanQuoted cs).body (scanQuoted cs).rest := by
  fun_induction scanQuoted cs generalizing offset with
  | case1 | case3 | case4 => cases h
  | case2 => rfl
  | case5 letter rest _ ih =>
    have hbody : (scanQuoted rest).closed = true := h
    cases hc : Text.unescape? letter with
    | some c =>
      rw [readQuoted]
      simp only [hc]
      rw [ih hbody, ← QuotedWord.ofBody_escape hc]
      rfl
    | none =>
      show readQuoted offset _ = QuotedWord.ofBody offset ('\\' :: letter :: _) _
      rw [readQuoted, QuotedWord.ofBody, Text.decode_badEscape hc]
      simp only [hc]
  | case6 c rest hq hlast _ hpair ih =>
    have hb := Text.ne_backslash hlast hpair
    rw [readQuoted_cons hq hb, ih h, ← QuotedWord.ofBody_plain hb]
    rfl

theorem closed_of_readQuoted (h : readQuoted offset cs = .closed chars stop rest) :
    (scanQuoted cs).closed = true := by
  fun_induction readQuoted offset cs generalizing chars with
  | case1 | case3 | case5 => cases h
  | case2 => rfl
  | case4 offset letter rest next c hc =>
    rename_i ih
    obtain ⟨chars', h⟩ := QuotedWord.cons_eq_closed h
    have hletter : letter ≠ '\n' := by
      rintro rfl
      cases hc
    rw [Lexeme.scanQuoted_pair hletter]
    exact ih h
  | case6 offset c rest hq hlast hpair ih =>
    obtain ⟨chars', h⟩ := QuotedWord.cons_eq_closed h
    have hb := Text.ne_backslash hlast hpair
    rw [Lexeme.scanQuoted_cons hq hb]
    exact ih h

/-- A word that is read is the decoded body of a scan that is closed. -/
theorem readQuoted_eq_closed_iff : readQuoted offset cs = .closed chars stop rest ↔
    (scanQuoted cs).closed = true ∧ decode offset (scanQuoted cs).body = .ok chars ∧
      offset + byteLength (scanQuoted cs).body + 1 = stop ∧ (scanQuoted cs).rest = rest := by
  constructor
  · intro h
    have hclosed := closed_of_readQuoted h
    rw [readQuoted_of_closed hclosed, QuotedWord.ofBody] at h
    cases hdecode : decode offset (scanQuoted cs).body with
    | error bad =>
      rw [hdecode] at h
      cases h
    | ok chars' =>
      rw [hdecode] at h
      cases h
      exact ⟨hclosed, rfl, rfl, rfl⟩
  · rintro ⟨hclosed, hdecode, rfl, rfl⟩
    rw [readQuoted_of_closed hclosed, QuotedWord.ofBody, hdecode]

/-! ## Texts that are one quoted text -/

theorem utf8ByteSize_of_closed (h : text.toList = '"' :: cs)
    (hclosed : (scanQuoted cs).closed = true) : text.utf8ByteSize =
      1 + byteLength (scanQuoted cs).body + 1 + byteLength (scanQuoted cs).rest := by
  have hquoted : 0 + 1 + byteLength (scanQuoted cs).body + 1 = 0 + _ :=
    Lexeme.byteLength_quoted (scanQuoted cs).body
  rw [Text.utf8ByteSize_eq, h, Lexeme.quoted_eq_append hclosed, Text.byteLength_append]
  omega

/-- Nothing remains after a quoted text that ends with the text it is in. -/
theorem rest_eq_nil_of_whole (h : text.toList = '"' :: cs) (hclosed : (scanQuoted cs).closed = true)
    (hstop : 1 + byteLength (scanQuoted cs).body + 1 = text.utf8ByteSize) :
    (scanQuoted cs).rest = [] := by
  have hlength := utf8ByteSize_of_closed h hclosed
  by_contra hne
  have := Text.byteLength_pos hne
  omega

theorem read_eq_text_iff (h : text.toList = '"' :: cs)
    (hsize : text.utf8ByteSize ≤ Span.maxOffset) :
    Form.read text = .ok [.text t (.whole text)] ↔
      readQuoted 1 cs = .closed t.toList text.utf8ByteSize [] := by
  have hlexemes : Lexeme.ofSource text = Lexeme.literal 0 cs ::
      Lexeme.scan (Lexeme.literal 0 cs).span.stop (scanQuoted cs).rest := by
    rw [Lexeme.ofSource_eq_scan hsize, h, Lexeme.scan_quote]
  rw [readQuoted_eq_closed_iff]
  constructor
  · intro hread
    obtain ⟨-, hyields⟩ := ((Form.read_verdict text hsize).2.1 _).mp hread
    generalize hforms : [Form.text t (.whole text)] = forms at hyields
    generalize hls : Lexeme.ofSource text = ls at hyields
    cases hyields with
    | nil | list => cases hforms
    | @atom chars span =>
      unfold Form.ofAtom at hforms
      split at hforms <;> cases hforms
    | @text body chars span _ _ hdecode hrest =>
      cases hforms
      obtain ⟨hliteral, -⟩ := List.cons.inj (hlexemes.symm.trans hls)
      by_cases hclosed : (scanQuoted cs).closed = true
      · rw [Lexeme.literal_of_closed hclosed] at hliteral
        obtain ⟨rfl, hspan⟩ := Lexeme.quoted.inj hliteral
        have hstop : 0 + 1 + byteLength (scanQuoted cs).body + 1 = text.utf8ByteSize :=
          congrArg Span.stop hspan
        rw [Nat.zero_add] at hstop
        have hdecode : decode 1 (scanQuoted cs).body = .ok chars := hdecode
        rw [String.toList_ofList]
        exact ⟨hclosed, hdecode, hstop, rest_eq_nil_of_whole h hclosed hstop⟩
      · rw [Lexeme.literal_of_open hclosed] at hliteral
        cases hliteral
  · rintro ⟨hclosed, hdecode, hstop, hrest⟩
    have hspan : (⟨0, 0 + 1 + byteLength (scanQuoted cs).body + 1⟩ : Span) = .whole text := by
      rw [Nat.zero_add, hstop, Span.whole]
    have hlexeme : Lexeme.ofSource text = [.quoted (scanQuoted cs).body (.whole text)] := by
      rw [hlexemes, hrest, Lexeme.literal_of_closed hclosed, hspan, Lexeme.scan]
    have htake : Form.takeLexeme .empty (.quoted (scanQuoted cs).body (.whole text)) =
        .ok ⟨[], [.text t (.whole text)]⟩ := by
      simp [Form.takeLexeme, Span.whole, hdecode, Form.Pending.add, Form.Pending.empty]
    rw [Form.read, hlexeme, Form.ofLexemes, List.foldlM_cons, htake]
    rfl

/-- A program of one token and no function has one word for it, which comes first. -/
theorem ofWords_eq_token {w : Word} {words : List Word} {token : Token}
    (h : ofWords (w :: words) = .ok ⟨[token], .empty⟩) : w.token = token := by
  obtain ⟨items, hspells⟩ := exists_spells_of_ofWords h
  have hwords := hspells.words_eq
  cases items with
  | nil => cases hwords
  | cons item items =>
    cases item with
    | token w' hw =>
      obtain ⟨rfl, -⟩ := List.cons.inj hwords
      exact (List.cons.inj hspells.main_eq).1.symm
    | block b => cases hspells.functions_eq

theorem assemble_eq_token_iff (h : text.toList = '"' :: cs)
    (hsize : text.utf8ByteSize ≤ Span.maxOffset) :
    assemble text = .ok ⟨[⟨t, .whole text⟩], .empty⟩ ↔
      readQuoted 1 cs = .closed t.toList text.utf8ByteSize [] := by
  have hwords : Word.ofListing text = _ := (congrArg (scanWords 0) h).trans (scanWords_quote 0 cs)
  unfold assemble
  rw [hwords, Nat.zero_add]
  constructor
  · intro hp
    cases hq : readQuoted 1 cs with
    | badEscape bad =>
      rw [hq] at hp
      cases hp
    | unterminated =>
      rw [hq] at hp
      cases hp
    | closed chars stop rest =>
      rw [hq] at hp
      cases hrest : scanWords stop rest with
      | error e =>
        simp only [hrest] at hp
        cases hp
      | ok words =>
        simp only [hrest] at hp
        have htoken := ofWords_eq_token hp
        obtain ⟨rfl, hspan⟩ := Token.mk.inj htoken
        have hclamped : min stop Span.maxOffset = text.utf8ByteSize := congrArg Span.stop hspan
        obtain ⟨hclosed, -, hstop, rfl⟩ := readQuoted_eq_closed_iff.mp hq
        have hlength := utf8ByteSize_of_closed h hclosed
        obtain rfl : stop = text.utf8ByteSize := by omega
        rw [rest_eq_nil_of_whole h hclosed hstop, String.toList_ofList]
  · intro hq
    have hspan : Span.ofRange 0 text.utf8ByteSize = .whole text :=
      Span.ofRange_eq (Nat.zero_le _) hsize
    rw [hq]
    simp only [scanWords, hspan]
    rw [String.ofList_toList]
    rfl

/-- A text that begins with a quote, and of which each offset fits: it is read as one text `t`,
which is all of it, exactly if as a listing it is one token `t` of the main stream, which is all of
it, and has no functions. -/
theorem read_iff_assemble (h : text.toList.head? = some '"')
    (hsize : text.utf8ByteSize ≤ Span.maxOffset) (t : String) :
    Form.read text = .ok [.text t (.whole text)] ↔
      assemble text = .ok ⟨[⟨t, .whole text⟩], .empty⟩ := by
  obtain ⟨cs, hcs⟩ := List.head?_eq_some_iff.mp h
  rw [read_eq_text_iff hcs hsize, assemble_eq_token_iff hcs hsize]

/-- A letter of two bytes, a line feed with and without a backslash, and a quote; and a text that
neither takes, for a backslash before a line feed. -/
theorem read_iff_assemble_escapes :
    let text := "\"é\\n\n\\\"\""
    let broken := "\"a\\\nb\""
    text.toList.head? = some '"' ∧ broken.toList.head? = some '"' ∧
      Form.read text = .ok [.text "é\n\n\"" (.whole text)] ∧
      assemble text = .ok ⟨[⟨"é\n\n\"", .whole text⟩], .empty⟩ ∧
      ∀ t, Form.read broken ≠ .ok [.text t (.whole broken)] ∧
        assemble broken ≠ .ok ⟨[⟨t, .whole broken⟩], .empty⟩ := by
  intro text broken
  have htext : text.toList.head? = some '"' := by decide
  have hbroken : broken.toList.head? = some '"' := by decide
  have hsize : text.utf8ByteSize ≤ Span.maxOffset := by decide +kernel
  have hsize' : broken.utf8ByteSize ≤ Span.maxOffset := by decide +kernel
  have hread : Form.read text = .ok [.text "é\n\n\"" (.whole text)] := by
    have hlexemes : Lexeme.ofSource text =
        [.quoted ['é', '\\', 'n', '\n', '\\', '"'] ⟨0, 9⟩] := by decide +kernel
    rw [Form.read, hlexemes]
    rfl
  have herror : Form.read broken = .error (.unterminatedString ⟨0, 2⟩) := by
    have hlexemes : Lexeme.ofSource broken =
        [.unterminated ⟨0, 2⟩, .atom ['\\'] ⟨2, 3⟩, .atom ['b'] ⟨4, 5⟩, .unterminated ⟨5, 6⟩] := by
      decide +kernel
    rw [Form.read, hlexemes]
    rfl
  refine ⟨htext, hbroken, hread, (read_iff_assemble htext hsize _).mp hread, fun t => ?_⟩
  have hnot : Form.read broken ≠ .ok [.text t (.whole broken)] := by
    rw [herror]
    intro h
    cases h
  exact ⟨hnot, fun hp => hnot ((read_iff_assemble hbroken hsize' t).mpr hp)⟩

end Listing

end TokenMachine
