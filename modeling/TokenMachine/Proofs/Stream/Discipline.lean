/-
  TokenMachine.Proofs.Stream.Discipline — streams in which every name is used at once.

  In a disciplined stream every literal has a value, each `ident` stands just before an
  instruction that takes a name, no such instruction stands anywhere else, and `return`
  stands only in the bodies of functions. A cursor that moves through such a stream is
  before a disciplined rest, or between an `ident` and its instruction (`Cursor.Orderly`);
  a skip always ends before a disciplined rest (`Cursor.Orderly.skip`).
-/

import TokenMachine.Machine.Step
import TokenMachine.Proofs.Stream.Grammar

namespace TokenMachine

def Action.takesName : Action → Bool
  | .load | .bind | .call => true
  | .binary _ | .print | .branch | .otherwise | .close | .ret => false

/-- The stream uses every name at once; `inCall` says whether it is the body of a function. -/
inductive Disciplined (inCall : Bool) : List Token → Prop
  | nil : Disciplined inCall []
  | literal {kind : Literal} {tag operand : Token} {rest : List Token} {v : Value} :
      tag.text = kind.tag → kind ≠ .name → kind.value operand.text = .ok v →
      Disciplined inCall rest → Disciplined inCall (tag :: operand :: rest)
  | named {act : Action} {ident name tag : Token} {rest : List Token} :
      ident.text = Literal.name.tag → tag.text = act.tag → act.takesName = true →
      Disciplined inCall rest → Disciplined inCall (ident :: name :: tag :: rest)
  | action {act : Action} {tag : Token} {rest : List Token} :
      tag.text = act.tag → act.takesName = false → (act = .ret → inCall = true) →
      Disciplined inCall rest → Disciplined inCall (tag :: rest)

theorem Disciplined.append {inCall : Bool} {ts us : List Token} (ht : Disciplined inCall ts)
    (hu : Disciplined inCall us) : Disciplined inCall (ts ++ us) := by
  induction ht with
  | nil => exact hu
  | literal h hk hv _ ih => exact .literal h hk hv ih
  | named h ha hn _ ih => exact .named h ha hn ih
  | action h hn hr _ ih => exact .action h hn hr ih

namespace Cursor

variable {inCall : Bool} {c next : Cursor} {i : Instr} {tag : Token}

/-- Just after an `ident`: the next instruction takes the name. -/
def AwaitsName (inCall : Bool) (c : Cursor) : Prop :=
  ∃ act tag next, c.fetch = .ready (.action act) tag next ∧ act.takesName = true ∧
    Disciplined inCall next.rest

inductive Leads (inCall : Bool) (next : Cursor) : Instr → Prop
  | literal {kind : Literal} {operand : String} {v : Value} :
      kind ≠ .name → kind.value operand = .ok v → Disciplined inCall next.rest →
      Leads inCall next (.literal kind operand)
  | ident {name : String} : next.AwaitsName inCall → Leads inCall next (.literal .name name)
  | action {act : Action} :
      act.takesName = false → (act = .ret → inCall = true) → Disciplined inCall next.rest →
      Leads inCall next (.action act)

theorem leads_of_fetch (h : Disciplined inCall c.rest) (hf : c.fetch = .ready i tag next) :
    Leads inCall next i := by
  obtain ⟨pos, ts⟩ := c
  cases h with
  | nil => cases hf
  | literal ht hk hv hrest =>
    rw [fetch_literal ht] at hf
    cases hf
    exact .literal hk hv hrest
  | named hi ht hn hrest =>
    rw [fetch_literal hi] at hf
    cases hf
    exact .ident ⟨_, _, _, fetch_action ht, hn, hrest⟩
  | action ht hn hr hrest =>
    rw [fetch_action ht] at hf
    cases hf
    exact .action hn hr hrest

def Orderly (inCall : Bool) (c : Cursor) : Prop :=
  Disciplined inCall c.rest ∨ c.AwaitsName inCall

/-- After an action everything is in order; after a literal, at least nothing is lost. -/
theorem Orderly.fetch (h : c.Orderly inCall) (hf : c.fetch = .ready i tag next) :
    next.Orderly inCall ∧ (∀ act, i = .action act → Disciplined inCall next.rest) := by
  rcases h with h | ⟨act, tag', next', hf', -, hrest⟩
  · cases leads_of_fetch h hf with
    | literal _ _ hrest => exact ⟨.inl hrest, nofun⟩
    | ident ha => exact ⟨.inr ha, nofun⟩
    | action _ _ hrest => exact ⟨.inl hrest, fun _ _ => hrest⟩
  · rw [hf] at hf'
    cases hf'
    exact ⟨.inl hrest, fun _ _ => hrest⟩

/-- A skip never ends between an `ident` and its instruction. -/
theorem Orderly.skip {allowElse : Bool} {depth skipped count : Nat} {marker : Marker}
    (h : c.Orderly inCall) (hs : c.skip allowElse depth skipped = .ok (marker, next, count)) :
    Disciplined inCall next.rest := by
  fun_induction Cursor.skip allowElse depth skipped c with
  | case1 | case2 | case3 | case9 => cases hs
  | case4 c depth skipped kind operand tag' next' hf ih => exact ih (h.fetch hf).1 hs
  | case5 c depth skipped tag' next' hf ih => exact ih (h.fetch hf).1 hs
  | case6 c skipped tag' next' hf => cases hs; exact (h.fetch hf).2 _ rfl
  | case7 c skipped tag' next' hf outer ih => exact ih (h.fetch hf).1 hs
  | case8 c skipped tag' next' hf => cases hs; exact (h.fetch hf).2 _ rfl
  | case10 c depth skipped tag' next' hf _ ih => exact ih (h.fetch hf).1 hs
  | case11 c depth skipped act tag' next' _ _ _ hf ih => exact ih (h.fetch hf).1 hs

end Cursor

end TokenMachine
