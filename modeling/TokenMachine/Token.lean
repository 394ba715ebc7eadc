/-
  TokenMachine.Token — tokens, and forward cursors over a stream of them.

  A stream is a list of tokens. A cursor is a place in a stream: how many tokens
  were passed, and those that remain. It only ever moves forward.

  `Cursor.fetch` decodes the instruction at a cursor: an action is one token, a
  literal is two. Everything that walks a stream does so by it, so no operand is
  ever taken for a tag.
-/

import TokenMachine.Opcode
import TokenMachine.Span

namespace TokenMachine

structure Token where
  text : String
  span : Span
  deriving DecidableEq, Repr

structure Cursor where
  /-- The number of tokens passed. -/
  position : Nat
  rest : List Token
  deriving DecidableEq, Repr

namespace Cursor

/-- A cursor before the first token. -/
def start (tokens : List Token) : Cursor := ⟨0, tokens⟩

def isEmpty (c : Cursor) : Bool := c.rest.isEmpty

/-- The length of the whole stream. -/
def streamLength (c : Cursor) : Nat := c.position + c.rest.length

/-- The next token, and the cursor after it. -/
def next? (c : Cursor) : Option (Token × Cursor) :=
  match c.rest with
  | [] => none
  | token :: rest => some (token, ⟨c.position + 1, rest⟩)

end Cursor

/-- A decoded instruction. -/
inductive Instr where
  | literal (kind : Literal) (operand : String)
  | action (act : Action)
  deriving DecidableEq, Repr

def Instr.opcode : Instr → Opcode
  | literal kind _ => .literal kind
  | action act => .action act

/-- What stands at a cursor. -/
inductive Fetched where
  | exhausted
  /-- A token that is no tag. -/
  | unknown (tag : Token)
  /-- A literal's tag with no operand after it. -/
  | truncated (kind : Literal) (tag : Token)
  | ready (instr : Instr) (tag : Token) (next : Cursor)
  deriving DecidableEq, Repr

namespace Cursor

def fetch (c : Cursor) : Fetched :=
  match c.next? with
  | none => .exhausted
  | some (tag, afterTag) =>
    match Opcode.ofTag? tag.text with
    | none => .unknown tag
    | some (.action act) => .ready (.action act) tag afterTag
    | some (.literal kind) =>
      match afterTag.next? with
      | none => .truncated kind tag
      | some (operand, next) => .ready (.literal kind operand.text) tag next

theorem next?_eq_some {c c' : Cursor} {t : Token} (h : c.next? = some (t, c')) :
    c.rest = t :: c'.rest ∧ c'.position = c.position + 1 := by
  unfold next? at h
  split at h
  · simp at h
  · next hr => simp only [Option.some.injEq, Prod.mk.injEq] at h; obtain ⟨rfl, rfl⟩ := h; exact ⟨hr, rfl⟩

theorem next?_eq_none {c : Cursor} : c.next? = none ↔ c.rest = [] := by
  unfold next?
  split <;> simp_all

theorem streamLength_next? {c c' : Cursor} {t : Token} (h : c.next? = some (t, c')) :
    c'.streamLength = c.streamLength := by
  obtain ⟨hr, hp⟩ := next?_eq_some h
  simp only [streamLength, hr, hp, List.length_cons]
  omega

/-- Decoding an instruction takes at least its tag from what remains. -/
theorem length_lt_of_fetch {c next : Cursor} {i : Instr} {t : Token}
    (h : c.fetch = .ready i t next) : next.rest.length < c.rest.length := by
  unfold fetch at h
  split at h
  · simp at h
  · next ht =>
    have h1 := (next?_eq_some ht).1
    split at h
    · simp at h
    · simp only [Fetched.ready.injEq] at h; obtain ⟨-, -, rfl⟩ := h; simp [h1]
    · split at h
      · simp at h
      · next ho =>
        have h2 := (next?_eq_some ho).1
        simp only [Fetched.ready.injEq] at h; obtain ⟨-, -, rfl⟩ := h
        simp only [h1, h2, List.length_cons]; omega

/-- Decoding passes over tokens; it neither drops nor adds one. -/
theorem streamLength_fetch {c next : Cursor} {i : Instr} {t : Token}
    (h : c.fetch = .ready i t next) : next.streamLength = c.streamLength := by
  unfold fetch at h
  split at h
  · simp at h
  · next ht =>
    split at h
    · simp at h
    · simp only [Fetched.ready.injEq] at h; obtain ⟨-, -, rfl⟩ := h; exact streamLength_next? ht
    · split at h
      · simp at h
      · next ho =>
        simp only [Fetched.ready.injEq] at h; obtain ⟨-, -, rfl⟩ := h
        rw [streamLength_next? ho, streamLength_next? ht]

end Cursor

end TokenMachine
