/-
  TokenMachine.Token.Render — tokens and cursors as one line of text, to look at them.
-/

import TokenMachine.Text.Literal
import TokenMachine.Token

namespace TokenMachine

/-- The text as a literal, and the span. -/
def Token.render (t : Token) : String := Text.Literal.ofText t.text ++ "@" ++ t.span.render

/-- The place in the stream, and the length of the whole stream. -/
def Cursor.render (c : Cursor) : String :=
  "OpcodeStream \x7b pos: " ++ toString c.position ++ ", len: " ++ toString c.streamLength ++
    " \x7d"

end TokenMachine
