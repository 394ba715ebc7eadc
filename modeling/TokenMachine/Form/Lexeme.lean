/-
  TokenMachine.Form.Lexeme — the lexical units of source text.

  Space, tab, carriage return, line feed and form feed stand between lexemes, and so
  does a comment, from `;` to the end of its line. The lexemes are parentheses,
  quoted texts, and atoms: the longest runs of characters that are none of these and
  no ASCII control. Any other character is a stray.

  A quoted text ends at the first quote that no backslash protects. A backslash
  protects any character but a line feed: before a line feed, or at the end of the
  text, the quoted text breaks off just before the backslash, unterminated.

  A lexeme keeps its span, and its characters are read back from there. In a text of
  which each offset fits into a span, they are those scanned.
-/

import TokenMachine.Span
import TokenMachine.Text.Slice

namespace TokenMachine

inductive Lexeme where
  | opening (span : Span)
  | closing (span : Span)
  /-- A quoted text; `body` is what stands between the quotes, escapes and all. -/
  | quoted (body : List Char) (span : Span)
  | unterminated (span : Span)
  | atom (chars : List Char) (span : Span)
  | stray (c : Char) (span : Span)
  deriving DecidableEq, Repr

namespace Lexeme

def span : Lexeme → Span
  | opening span | closing span | quoted _ span | unterminated span | atom _ span | stray _ span =>
    span

def isGap (c : Char) : Bool := c = ' ' || c = '\t' || c = '\r' || c = '\n' || c = '\x0c'

def isControl (c : Char) : Bool := c.toNat < 0x20 || c.toNat = 0x7F

def isDelimiter (c : Char) : Bool := c = '(' || c = ')' || c = '"' || c = ';'

def isAtomChar (c : Char) : Bool := !(c = ' ' || isControl c || isDelimiter c)

/-- How far a quoted text reaches: what its quotes hold, whether there is a closing one, and the
text after it. -/
structure QuotedScan where
  body : List Char
  closed : Bool
  rest : List Char
  deriving DecidableEq, Repr

def QuotedScan.prepend (cs : List Char) (s : QuotedScan) : QuotedScan :=
  { s with body := cs ++ s.body }

/-- Scan a quoted text from just after its opening quote. -/
def scanQuoted : List Char → QuotedScan
  | [] => ⟨[], false, []⟩
  | '"' :: rest => ⟨[], true, rest⟩
  | ['\\'] => ⟨[], false, ['\\']⟩
  | '\\' :: '\n' :: rest => ⟨[], false, '\\' :: '\n' :: rest⟩
  | '\\' :: c :: rest => (scanQuoted rest).prepend ['\\', c]
  | c :: rest => (scanQuoted rest).prepend [c]

theorem length_rest_scanQuoted_le (cs : List Char) : (scanQuoted cs).rest.length ≤ cs.length := by
  fun_induction scanQuoted cs <;> simp_all [QuotedScan.prepend] <;> omega

theorem length_dropWhile_le (p : Char → Bool) (cs : List Char) :
    (cs.dropWhile p).length ≤ cs.length :=
  (List.dropWhile_sublist p).length_le

/-- The lexemes of a text of which the first `offset` bytes were read already. -/
def scan (offset : Nat) : List Char → List Lexeme
  | [] => []
  | c :: rest =>
    if isGap c then scan (offset + 1) rest
    else if c = ';' then
      scan (offset + 1 + Text.byteLength (rest.takeWhile (· != '\n'))) (rest.dropWhile (· != '\n'))
    else if c = '(' then .opening ⟨offset, offset + 1⟩ :: scan (offset + 1) rest
    else if c = ')' then .closing ⟨offset, offset + 1⟩ :: scan (offset + 1) rest
    else if c = '"' then
      let text := scanQuoted rest
      let stop := offset + 1 + Text.byteLength text.body
      if text.closed then .quoted text.body ⟨offset, stop + 1⟩ :: scan (stop + 1) text.rest
      else .unterminated ⟨offset, stop⟩ :: scan stop text.rest
    else if isAtomChar c then
      let chars := c :: rest.takeWhile isAtomChar
      let stop := offset + Text.byteLength chars
      .atom chars ⟨offset, stop⟩ :: scan stop (rest.dropWhile isAtomChar)
    else .stray c ⟨offset, offset + 1⟩ :: scan (offset + 1) rest
termination_by cs => cs.length
decreasing_by
  all_goals simp only [List.length_cons]
  all_goals grind [length_rest_scanQuoted_le, length_dropWhile_le]

/-- The lexeme as its span has it: clamped, and holding the characters of the text that are there.
Where the text is cut inside a character, there are none. -/
def reread (text : List Char) (l : Lexeme) : Lexeme :=
  let span := Span.ofRange l.span.start l.span.stop
  let chars := (Text.slice? text span.start span.stop).getD []
  match l with
  | opening _ => opening span
  | closing _ => closing span
  | quoted _ _ => quoted ((Text.slice? chars 1 (Text.byteLength chars - 1)).getD []) span
  | unterminated _ => unterminated span
  | atom _ _ => atom chars span
  | stray _ _ => stray (chars.head?.getD '\uFFFD') span

/-- The lexemes of a source text. -/
def ofSource (source : String) : List Lexeme :=
  (scan 0 source.toList).map (reread source.toList)

end Lexeme

end TokenMachine
