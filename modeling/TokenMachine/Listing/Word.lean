/-
  TokenMachine.Listing.Word — the words of an opcode listing.

  Words stand between white space. `#` at the start of a word begins a comment, up to
  the end of the line; inside a word it is a character like any other. A word that
  begins with a quote is quoted: it runs to the next quote that no backslash
  protects, and may hold white space and the five escapes. It ends there, whatever
  follows.
-/

import TokenMachine.Text.Blank
import TokenMachine.Text.Escape

namespace TokenMachine.Listing

structure Word where
  text : String
  quoted : Bool
  span : Span
  deriving DecidableEq, Repr

inductive WordError where
  | unterminatedQuote (span : Span)
  | invalidEscape (bad : Text.BadEscape)
  deriving DecidableEq, Repr

/-- What follows an opening quote. -/
inductive QuotedWord where
  /-- A word that ends before the byte `stop`, and the text after it. -/
  | closed (text : List Char) (stop : Nat) (rest : List Char)
  | badEscape (bad : Text.BadEscape)
  | unterminated
  deriving DecidableEq, Repr

def QuotedWord.cons (c : Char) : QuotedWord → QuotedWord
  | closed text stop rest => closed (c :: text) stop rest
  | badEscape bad => badEscape bad
  | unterminated => unterminated

/-- Read a quoted word from just after its opening quote, which is where `offset` is. -/
def readQuoted (offset : Nat) : List Char → QuotedWord
  | [] => .unterminated
  | '"' :: rest => .closed [] (offset + 1) rest
  | ['\\'] => .unterminated
  | '\\' :: letter :: rest =>
    let next := offset + 1 + letter.utf8Size
    match Text.unescape? letter with
    | some c => (readQuoted next rest).cons c
    | none => .badEscape ⟨letter, .ofRange offset next⟩
  | c :: rest => (readQuoted (offset + c.utf8Size) rest).cons c

theorem length_rest_lt_of_readQuoted {offset stop : Nat} {cs text rest : List Char}
    (h : readQuoted offset cs = .closed text stop rest) : rest.length < cs.length := by
  have cons_eq {c : Char} {w : QuotedWord} {t : List Char} (hw : w.cons c = .closed t stop rest) :
      ∃ t', w = .closed t' stop rest := by
    cases w <;> simp_all [QuotedWord.cons]
  fun_induction readQuoted offset cs generalizing text
  · simp at h
  · simp only [QuotedWord.closed.injEq] at h; simp [h.2.2]
  · simp at h
  · next ih =>
    obtain ⟨t', ht⟩ := cons_eq h
    have := ih ht
    simp only [List.length_cons]; omega
  · simp at h
  · next ih =>
    obtain ⟨t', ht⟩ := cons_eq h
    have := ih ht
    simp only [List.length_cons]; omega

/-- The words of a text of which the first `offset` bytes were read already. -/
def scanWords (offset : Nat) : List Char → Except WordError (List Word)
  | [] => .ok []
  | c :: rest =>
    if Text.isBlank c then scanWords (offset + c.utf8Size) rest
    else if c = '#' then
      scanWords (offset + 1 + Text.byteLength (rest.takeWhile (· != '\n')))
        (rest.dropWhile (· != '\n'))
    else if c = '"' then
      match h : readQuoted (offset + 1) rest with
      | .closed text stop rest' => do
        .ok (⟨String.ofList text, true, .ofRange offset stop⟩ :: (← scanWords stop rest'))
      | .badEscape bad => .error (.invalidEscape bad)
      | .unterminated =>
        .error (.unterminatedQuote (.ofRange offset (offset + 1 + Text.byteLength rest)))
    else
      let text := c :: rest.takeWhile fun c => !Text.isBlank c
      let stop := offset + Text.byteLength text
      do .ok (⟨String.ofList text, false, .ofRange offset stop⟩ ::
        (← scanWords stop (rest.dropWhile fun c => !Text.isBlank c)))
termination_by cs => cs.length
decreasing_by
  · simp
  · have := (List.dropWhile_sublist (· != '\n') (l := rest)).length_le
    simp only [List.length_cons]; omega
  · have := length_rest_lt_of_readQuoted h
    simp only [List.length_cons]; omega
  · have := (List.dropWhile_sublist (fun c => !Text.isBlank c) (l := rest)).length_le
    simp only [List.length_cons]; omega

/-- The words of a listing. -/
def Word.ofListing (listing : String) : Except WordError (List Word) := scanWords 0 listing.toList

/-! ## Writing words -/

/-- Whether a word has to be quoted: it is empty, it could be taken for a comment or a directive,
or it holds white space or a quote. -/
def needsQuotes : List Char → Bool
  | [] => true
  | c :: rest =>
    c = '#' || c = '.' || c = ':' || (c :: rest).any fun c => Text.isBlank c || c = '"'

/-- The written form of a word. -/
def written (word : List Char) : List Char := if needsQuotes word then Text.quoted word else word

end TokenMachine.Listing
