/-
  TokenMachine.Machine.Skip — passing over a branch that is not taken.

  A skip moves a cursor just past the marker that ends the branch. It decodes every
  instruction on its way: a nested `if … end` is passed over whole, and an operand is
  never a marker. An `else` of the branch's own depth ends a skip that allows it and
  is a structural error for one that does not.
-/

import TokenMachine.Machine.Fault
import TokenMachine.Token

namespace TokenMachine

/-- A place in a stream: a token, or the end. -/
structure Site where
  position : Nat
  token : Option Token
  deriving DecidableEq, Repr

/-- A fault, and where it was found if that is not the instruction being executed. -/
structure Trap where
  fault : Fault
  site : Option Site
  deriving DecidableEq, Repr

/-- Skip the rest of a branch. `depth` counts the nested branches that are open in it, `skipped` the
tokens passed so far: one for every tag, and one more for an operand. -/
def Cursor.skip (allowElse : Bool) (depth skipped : Nat) (c : Cursor) :
    Except Trap (Marker × Cursor × Nat) :=
  match h : c.fetch with
  | .exhausted => .error ⟨.streamUnderflow, none⟩
  | .truncated _ _ => .error ⟨.streamUnderflow, none⟩
  | .unknown tag => .error ⟨.unknownOpcode tag.text, some ⟨c.position, some tag⟩⟩
  | .ready (.literal _ _) _ next => next.skip allowElse depth (skipped + 1 + 1)
  | .ready (.action .branch) _ next => next.skip allowElse (depth + 1) (skipped + 1)
  | .ready (.action .close) _ next =>
    match depth with
    | 0 => .ok (.close, next, skipped + 1)
    | outer + 1 => next.skip allowElse outer (skipped + 1)
  | .ready (.action .otherwise) tag next =>
    if depth = 0 then
      if allowElse then .ok (.otherwise, next, skipped + 1)
      else .error ⟨.structuralError "second `else` in one `if`", some ⟨c.position, some tag⟩⟩
    else next.skip allowElse depth (skipped + 1)
  | .ready (.action _) _ next => next.skip allowElse depth (skipped + 1)
termination_by c.rest.length
decreasing_by all_goals exact Cursor.length_lt_of_fetch h

theorem Cursor.length_le_of_skip {allowElse : Bool} {depth skipped count : Nat} {c next : Cursor}
    {m : Marker} (hs : c.skip allowElse depth skipped = .ok (m, next, count)) :
    next.rest.length ≤ c.rest.length := by
  fun_induction Cursor.skip allowElse depth skipped c
  all_goals grind [→ Cursor.length_lt_of_fetch]

end TokenMachine
