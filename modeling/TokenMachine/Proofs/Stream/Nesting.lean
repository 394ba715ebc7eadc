/-
  TokenMachine.Proofs.Stream.Nesting — how checking and skipping follow the nesting of a stream.

  Three loops walk a stream: the check before a run, the skip over a branch, and the
  machine. The first two are opened here, one equation for each kind of instruction, so
  that no later proof unfolds them. What a checked stream has left is checked too, with
  the branches that one instruction opens and closes (`verify_eq_ok_iff`); and a skip in
  a checked stream always arrives, at a place where the check goes on (`skip_of_verify`).
-/

import TokenMachine.Machine.Cost
import TokenMachine.Machine.Skip
import TokenMachine.Proofs.FunctionTable
import TokenMachine.Verify

namespace TokenMachine

def Instr.isPlain : Instr → Bool
  | .action .branch | .action .otherwise | .action .close => false
  | _ => true

def Instr.operands : Instr → Nat
  | .literal _ _ => 1
  | .action _ => 0

theorem Instr.isPlain_or_marker (i : Instr) : i.isPlain = true ∨ i = .action .branch ∨
    i = .action .otherwise ∨ i = .action .close := by
  unfold isPlain
  split <;> simp

namespace Cursor

variable {c next : Cursor} {i : Instr} {tag : Token} {allowElse : Bool}
  {depth skipped count : Nat} {stream : StreamName} {opens outer : List OpenIf} {o : OpenIf}

/-- Induction along a stream: a property of every cursor, if it passes from what remains after an
instruction to the cursor before it. -/
theorem fetch_induction {P : Cursor → Prop}
    (step : ∀ c, (∀ i tag next, c.fetch = .ready i tag next → P next) → P c) (c : Cursor) : P c :=
  step c fun _ _ next h =>
    have : next.rest.length < c.rest.length := length_lt_of_fetch h
    fetch_induction step next
termination_by c.rest.length

/-! ## Skipping, one instruction at a time -/

theorem skip_plain (h : c.fetch = .ready i tag next) (hi : i.isPlain = true) :
    c.skip allowElse depth skipped =
      next.skip allowElse depth (skipped + 1 + i.operands) := by
  rw [Cursor.skip]
  split
  all_goals simp only [h, Fetched.ready.injEq, reduceCtorEq] at *
  case h_4 hx => rw [hx.1, hx.2.2]; rfl
  case h_5 hx => rw [hx.1] at hi; cases hi
  case h_6 hx => rw [hx.1] at hi; cases hi
  case h_7 hx => rw [hx.1] at hi; cases hi
  case h_8 hx => rw [hx.1, hx.2.2]; rfl

theorem skip_branch (h : c.fetch = .ready (.action .branch) tag next) :
    c.skip allowElse depth skipped = next.skip allowElse (depth + 1) (skipped + 1) := by
  rw [Cursor.skip]
  split <;> simp_all

theorem skip_close_succ (h : c.fetch = .ready (.action .close) tag next) :
    c.skip allowElse (depth + 1) skipped = next.skip allowElse depth (skipped + 1) := by
  rw [Cursor.skip]
  split <;> simp_all

theorem skip_close_zero (h : c.fetch = .ready (.action .close) tag next) :
    c.skip allowElse 0 skipped = .ok (.close, next, skipped + 1) := by
  rw [Cursor.skip]
  split <;> simp_all

theorem skip_otherwise_succ (h : c.fetch = .ready (.action .otherwise) tag next) :
    c.skip allowElse (depth + 1) skipped = next.skip allowElse (depth + 1) (skipped + 1) := by
  rw [Cursor.skip]
  split <;> simp_all

theorem skip_otherwise_zero (h : c.fetch = .ready (.action .otherwise) tag next) :
    c.skip true 0 skipped = .ok (.otherwise, next, skipped + 1) := by
  rw [Cursor.skip]
  split <;> simp_all

theorem skip_exhausted (h : c.fetch = .exhausted) :
    c.skip allowElse depth skipped = .error ⟨.streamUnderflow, none⟩ := by
  rw [Cursor.skip]
  split <;> simp_all

theorem skip_truncated {kind : Literal} (h : c.fetch = .truncated kind tag) :
    c.skip allowElse depth skipped = .error ⟨.streamUnderflow, none⟩ := by
  rw [Cursor.skip]
  split <;> simp_all

theorem skip_unknown (h : c.fetch = .unknown tag) :
    c.skip allowElse depth skipped =
      .error ⟨.unknownOpcode tag.text, some ⟨c.position, some tag⟩⟩ := by
  rw [Cursor.skip]
  split <;> simp_all

theorem skip_otherwise_refused (h : c.fetch = .ready (.action .otherwise) tag next) :
    c.skip false 0 skipped = .error
      ⟨.structuralError "second `else` in one `if`", some ⟨c.position, some tag⟩⟩ := by
  rw [Cursor.skip]
  split <;> simp_all

/-- A skip is decoding, again and again: it ends at a cursor, and with a count, that are to the
first as those after one instruction are to those before it. -/
theorem rel_of_skip {R : Cursor → Nat → Cursor → Nat → Prop} {marker : Marker}
    (hfetch : ∀ {c next : Cursor} {i : Instr} {tag : Token} (skipped : Nat),
      c.fetch = .ready i tag next → R c skipped next (skipped + 1 + i.operands))
    (htrans : ∀ {c mid next : Cursor} {skipped passed count : Nat},
      R c skipped mid passed → R mid passed next count → R c skipped next count)
    (h : c.skip allowElse depth skipped = .ok (marker, next, count)) : R c skipped next count := by
  fun_induction Cursor.skip allowElse depth skipped c with
  | case1 | case2 | case3 | case9 => cases h
  | case6 _ _ _ _ hx => cases h; exact hfetch _ hx
  | case8 _ _ _ _ hx => cases h; exact hfetch _ hx
  | case4 _ _ _ _ _ _ _ hx ih => exact htrans (hfetch _ hx) (ih h)
  | case5 _ _ _ _ _ hx ih => exact htrans (hfetch _ hx) (ih h)
  | case7 _ _ _ _ hx _ ih => exact htrans (hfetch _ hx) (ih h)
  | case10 _ _ _ _ _ hx _ ih => exact htrans (hfetch _ hx) (ih h)
  | case11 _ _ _ _ _ _ _ _ _ hx ih => exact htrans (hfetch _ hx) (ih h)

/-! ## Checking, one instruction at a time -/

theorem verify_exhausted (h : c.fetch = .exhausted) :
    c.verify stream opens = .ok () ↔ opens = [] := by
  rw [Cursor.verify.eq_def]
  split <;> simp_all
  cases opens <;> simp

theorem verify_plain (h : c.fetch = .ready i tag next) (hi : i.isPlain = true) :
    c.verify stream opens = next.verify stream opens := by
  rw [Cursor.verify.eq_def]
  split
  all_goals simp only [h, Fetched.ready.injEq, reduceCtorEq] at *
  case h_4 hx => rw [hx.1] at hi; cases hi
  case h_5 hx => rw [hx.1] at hi; cases hi
  case h_6 hx => rw [hx.1] at hi; cases hi
  case h_7 hx => rw [hx.2.2]

theorem verify_branch (h : c.fetch = .ready (.action .branch) tag next) :
    c.verify stream opens = next.verify stream (⟨tag.span, false⟩ :: opens) := by
  rw [Cursor.verify.eq_def]
  split <;> simp_all

theorem verify_otherwise (h : c.fetch = .ready (.action .otherwise) tag next) :
    c.verify stream (⟨o.span, false⟩ :: outer) = next.verify stream (⟨o.span, true⟩ :: outer) := by
  rw [Cursor.verify.eq_def]
  split <;> simp_all

theorem verify_close (h : c.fetch = .ready (.action .close) tag next) :
    c.verify stream (o :: outer) = next.verify stream outer := by
  rw [Cursor.verify.eq_def]
  split <;> simp_all

/-- What an instruction does to the branches that are open, the innermost first. -/
inductive Nests (span : Span) : Instr → List OpenIf → List OpenIf → Prop
  | plain {i : Instr} {opens : List OpenIf} : i.isPlain = true → Nests span i opens opens
  | branch {opens : List OpenIf} : Nests span (.action .branch) opens (⟨span, false⟩ :: opens)
  | otherwise {at_ : Span} {outer : List OpenIf} :
      Nests span (.action .otherwise) (⟨at_, false⟩ :: outer) (⟨at_, true⟩ :: outer)
  | close {o : OpenIf} {outer : List OpenIf} : Nests span (.action .close) (o :: outer) outer

theorem verify_of_nests {opens' : List OpenIf} (h : c.fetch = .ready i tag next)
    (hn : Nests tag.span i opens opens') : c.verify stream opens = next.verify stream opens' := by
  cases hn with
  | plain hi => exact verify_plain h hi
  | branch => exact verify_branch h
  | @otherwise at_ outer => exact verify_otherwise (o := ⟨at_, false⟩) h
  | close => exact verify_close h

/-- A stream is well formed from here on if it ends here with nothing open, or if its next
instruction fits and the rest is well formed after it. -/
theorem verify_eq_ok_iff : c.verify stream opens = .ok () ↔
    (c.fetch = .exhausted ∧ opens = []) ∨
      ∃ i tag next opens', c.fetch = .ready i tag next ∧ Nests tag.span i opens opens' ∧
        next.verify stream opens' = .ok () := by
  constructor
  · intro h
    rw [Cursor.verify.eq_def] at h
    split at h
    · next hx =>
      cases opens with
      | nil => exact .inl ⟨hx, rfl⟩
      | cons o outer => cases h
    · cases h
    · cases h
    · next tag next hx => exact .inr ⟨_, tag, next, _, hx, .branch, h⟩
    · next tag next hx =>
      cases opens with
      | nil => cases h
      | cons o outer =>
        obtain ⟨at_, seen⟩ := o
        cases seen with
        | false => exact .inr ⟨_, tag, next, _, hx, .otherwise, h⟩
        | true => cases h
    · next tag next hx =>
      cases opens with
      | nil => cases h
      | cons o outer => exact .inr ⟨_, tag, next, _, hx, .close, h⟩
    · next i tag next hb ho hc hx =>
      have hi : i.isPlain = true := by
        unfold Instr.isPlain
        split <;> simp_all
      exact .inr ⟨_, tag, next, _, hx, .plain hi, h⟩
  · rintro (⟨hx, rfl⟩ | ⟨i, tag, next, opens', hx, hn, h⟩)
    · exact (verify_exhausted hx).mpr rfl
    · rw [verify_of_nests hx hn]; exact h

theorem verify_of_fetch (hv : c.verify stream opens = .ok ()) (h : c.fetch = .ready i tag next) :
    ∃ opens', Nests tag.span i opens opens' ∧ next.verify stream opens' = .ok () := by
  rcases verify_eq_ok_iff.mp hv with ⟨hx, -⟩ | ⟨i', tag', next', opens', hx, hn, hv'⟩
  · rw [h] at hx; cases hx
  · rw [h] at hx; cases hx; exact ⟨opens', hn, hv'⟩

/-! ## Skipping in a checked stream -/

def opensAfterSkip (o : OpenIf) (outer : List OpenIf) : Marker → List OpenIf
  | .otherwise => { o with seenElse := true } :: outer
  | .close => outer

/-- A skip out of the branch `o`, from inside the branches `inner` of it, ends at the `end` of `o`,
or at its `else` where it still has one and the skip allows it; and the check goes on from there. -/
theorem skip_of_verify (inner : List OpenIf)
    (h : c.verify stream (inner ++ o :: outer) = .ok ())
    (ho : allowElse = !o.seenElse) :
    ∃ marker next count, c.skip allowElse inner.length skipped = .ok (marker, next, count) ∧
      (marker = .otherwise → o.seenElse = false) ∧
      next.verify stream (opensAfterSkip o outer marker) = .ok () := by
  induction c using fetch_induction generalizing inner skipped with
  | step c ih =>
  rcases verify_eq_ok_iff.mp h with ⟨-, hnil⟩ | ⟨i, tag, next, opens', hx, hnest, hnext⟩
  · simp at hnil
  -- The skip counts the branches of `inner`, so the cases are those of its innermost one.
  cases inner with
  | nil =>
    cases hnest with
    | plain hi =>
      rw [skip_plain hx hi]
      exact ih _ _ _ hx [] hnext
    | branch =>
      rw [skip_branch hx]
      exact ih _ _ _ hx [⟨tag.span, false⟩] hnext
    | otherwise =>
      rw [ho]
      exact ⟨.otherwise, next, _, skip_otherwise_zero hx, fun _ => rfl, hnext⟩
    | close => exact ⟨.close, next, _, skip_close_zero hx, nofun, hnext⟩
  | cons innermost inner =>
    cases hnest with
    | plain hi =>
      rw [skip_plain hx hi]
      exact ih _ _ _ hx (innermost :: inner) hnext
    | branch =>
      rw [skip_branch hx]
      exact ih _ _ _ hx (⟨tag.span, false⟩ :: innermost :: inner) hnext
    | @otherwise at_ =>
      rw [List.length_cons, skip_otherwise_succ hx]
      exact ih _ _ _ hx (⟨at_, true⟩ :: inner) hnext
    | close =>
      rw [List.length_cons, skip_close_succ hx]
      exact ih _ _ _ hx inner hnext

/-- The skip of a branch that has not seen its `else`. -/
theorem skip_then_of_verify {at_ : Span} (h : c.verify stream (⟨at_, false⟩ :: outer) = .ok ()) :
    ∃ marker next count, c.skip true 0 0 = .ok (marker, next, count) ∧
      next.verify stream (opensAfterSkip ⟨at_, false⟩ outer marker) = .ok () := by
  obtain ⟨marker, next, count, hs, -, hv⟩ := skip_of_verify [] h (Eq.refl true)
  exact ⟨marker, next, count, hs, hv⟩

/-- The skip of a branch after its `else`. -/
theorem skip_else_of_verify {at_ : Span} (h : c.verify stream (⟨at_, true⟩ :: outer) = .ok ()) :
    ∃ next count, c.skip false 0 0 = .ok (.close, next, count) ∧
      next.verify stream outer = .ok () := by
  obtain ⟨marker, next, count, hs, hm, hv⟩ := skip_of_verify [] h (Eq.refl false)
  cases marker with
  | otherwise => cases hm rfl
  | close => exact ⟨next, count, hs, hv⟩

end Cursor

/-! ## Whole programs -/

theorem forM_eq_ok_iff {α ε : Type} {f : α → Except ε Unit} {l : List α} :
    l.forM f = .ok () ↔ ∀ a ∈ l, f a = .ok () := by
  induction l with
  | nil => exact ⟨fun _ => nofun, fun _ => rfl⟩
  | cons a l ih =>
    rw [List.forall_mem_cons, ← ih]
    refine State.bind_eq_ok.trans ?_
    constructor
    · rintro ⟨⟨⟩, ha, hl⟩
      exact ⟨ha, hl⟩
    · rintro ⟨ha, hl⟩
      exact ⟨(), ha, hl⟩

/-- A program is well formed if its main stream and the body of each function are. -/
theorem Program.verify_eq_ok_iff {p : Program} : p.verify = .ok () ↔
    (Cursor.start p.main).verify .main [] = .ok () ∧
      ∀ f ∈ p.functions.defs, (Cursor.start f.body).verify (.function f.name) [] = .ok () := by
  simp only [← FunctionTable.mem_sorted (t := p.functions)]
  rw [← forM_eq_ok_iff]
  refine State.bind_eq_ok.trans ?_
  constructor
  · rintro ⟨⟨⟩, hm, hl⟩
    exact ⟨hm, hl⟩
  · rintro ⟨hm, hl⟩
    exact ⟨(), hm, hl⟩

end TokenMachine
