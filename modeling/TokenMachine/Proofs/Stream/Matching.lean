/-
  TokenMachine.Proofs.Stream.Matching — the `else` and the `end` that belong to an `if`.

  A skip counts the branches that open and close on its way. So what it passes before the
  marker that ends it is well nested, unless it came by a second `else` inside one of those
  branches, which it does not look for (`Opened.skip`). In a checked stream there is none, and
  every `if` has its `end`, and at most one `else` before it (`BranchAt`): they are there
  (`Opened.exists_branchAt`), no others are (`BranchAt.unique`), and the skips end at them
  (`BranchAt.skips`). A cursor in a part of a stream decodes and skips as it does in the whole
  (`fetch_extend`, `skip_extend`).
-/

import TokenMachine.Proofs.Stream.Verdict

namespace TokenMachine

namespace Cursor

variable {c next : Cursor} {allowElse : Bool} {marker : Marker}
  {depth skipped count : Nat}

/-! ## What a skip leaves as it is -/

def extend (c : Cursor) (after : List Token) : Cursor := ⟨c.position, c.rest ++ after⟩

theorem fetch_extend {i : Instr} {tag : Token} (h : c.fetch = .ready i tag next)
    (after : List Token) : (c.extend after).fetch = .ready i tag (next.extend after) := by
  cases Fetches.of_eq h with
  | literal htag => exact fetch_literal htag
  | action htag => exact fetch_action htag

theorem skip_extend (h : c.skip allowElse depth skipped = .ok (marker, next, count))
    (after : List Token) :
    (c.extend after).skip allowElse depth skipped = .ok (marker, next.extend after, count) := by
  fun_induction Cursor.skip allowElse depth skipped c with
  | case1 | case2 | case3 | case9 => cases h
  | case4 c depth skipped kind operand tag next' hx ih =>
    have hplain : (Instr.literal kind operand).isPlain = true := rfl
    rw [skip_plain (fetch_extend hx after) hplain]
    exact ih h
  | case5 c depth skipped tag next' hx ih => rw [skip_branch (fetch_extend hx after), ih h]
  | case6 c skipped tag next' hx =>
    cases h
    exact skip_close_zero (fetch_extend hx after)
  | case7 c skipped tag next' hx outer ih => rw [skip_close_succ (fetch_extend hx after), ih h]
  | case8 c skipped tag next' hx ha =>
    cases h
    cases ha
    exact skip_otherwise_zero (fetch_extend hx after)
  | case10 c depth skipped tag next' hx hd ih =>
    obtain ⟨depth, rfl⟩ := Nat.exists_eq_succ_of_ne_zero hd
    rw [skip_otherwise_succ (fetch_extend hx after), ih h]
  | case11 c depth skipped act tag next' hb hc ho hx ih =>
    have hi : (Instr.action act).isPlain = true := by
      rcases (Instr.action act).isPlain_or_marker with hi | hi | hi | hi
      · exact hi
      · exact absurd (Instr.action.inj hi) hb
      · exact absurd (Instr.action.inj hi) ho
      · exact absurd (Instr.action.inj hi) hc
    rw [skip_plain (fetch_extend hx after) hi]
    exact ih h

/-- A skip that allows no `else` ends at an `end`. -/
theorem skip_false (h : c.skip false depth skipped = .ok (marker, next, count)) :
    marker = .close := by
  generalize hf : false = allowElse at h
  fun_induction Cursor.skip allowElse depth skipped c with
  | case1 | case2 | case3 | case9 => cases h
  | case6 => cases h; rfl
  | case8 _ _ _ _ _ ha => rw [← hf] at ha; cases ha
  | case4 _ _ _ _ _ _ _ _ ih | case5 _ _ _ _ _ _ ih | case7 _ _ _ _ _ _ ih
  | case10 _ _ _ _ _ _ _ ih | case11 _ _ _ _ _ _ _ _ _ _ ih => exact ih h

/-- A skip passes over tokens; it neither drops nor adds one. -/
theorem streamLength_skip (h : c.skip allowElse depth skipped = .ok (marker, next, count)) :
    next.streamLength = c.streamLength :=
  rel_of_skip (R := fun c _ next _ => next.streamLength = c.streamLength)
    (fun _ => streamLength_fetch) (fun hmid hnext => hnext.trans hmid) h

/-! ## Cursors only move forward -/

theorem position_of_fetch {i : Instr} {tag : Token} (h : c.fetch = .ready i tag next) :
    next.position = c.position + 1 + i.operands := by
  cases Fetches.of_eq h <;> rfl

theorem position_lt_of_fetch {i : Instr} {tag : Token} (h : c.fetch = .ready i tag next) :
    c.position < next.position := by
  rw [position_of_fetch h]
  omega

theorem position_lt_of_skip (h : c.skip allowElse depth skipped = .ok (marker, next, count)) :
    c.position < next.position :=
  rel_of_skip (R := fun c _ next _ => c.position < next.position)
    (fun _ => position_lt_of_fetch) Nat.lt_trans h

/-- A skip counts the tokens that it moves past: one and its operand for each instruction. -/
theorem count_of_skip (h : c.skip allowElse depth skipped = .ok (marker, next, count)) :
    count + c.position = skipped + next.position := by
  refine rel_of_skip (R := fun c skipped next count =>
    count + c.position = skipped + next.position) ?_ ?_ h
  · intro c next i tag skipped hx
    rw [position_of_fetch hx]
    omega
  · intro c mid next skipped passed count hmid hnext
    omega

structure Passes (c : Cursor) (part : List Token) (tag : Token) (next : Cursor) : Prop where
  rest : c.rest = part ++ tag :: next.rest
  position : next.position = c.position + part.length + 1

variable {part taken : List Token} {tag : Token} {mid : Cursor}

theorem passes_action {act : Action} (h : c.fetch = .ready (.action act) tag next) :
    c.Passes [] tag next ∧ tag.text = act.tag := by
  cases Fetches.of_eq h with
  | action htag => exact ⟨⟨rfl, rfl⟩, htag⟩

theorem Passes.prepend (hrest : c.rest = taken ++ mid.rest)
    (hpos : mid.position = c.position + taken.length) (h : mid.Passes part tag next) :
    c.Passes (taken ++ part) tag next where
  rest := by rw [hrest, h.rest, List.append_assoc]
  position := by rw [h.position, hpos, List.length_append]; omega

end Cursor

/-! ## What a skip passes -/

namespace Opened

variable {opens outer inner : List OpenIf} {ts us rest : List Token} {tag : Token}

theorem within (h : Opened outer ts) (hin : Opened inner us) :
    Opened (inner ++ outer) (ts ++ us) := by
  induction hin with
  | outside hu => exact h.append hu
  | inThen _ hb ht ih => simpa using inThen ih hb ht
  | inElse _ hb ht ho he ih => simpa using inElse ih hb ht ho he

/-- No well-nested stream goes on with an `else` in a branch that has one. -/
theorem not_otherwise {at_ : Span} (h : Opened (⟨at_, true⟩ :: outer) ts)
    (htag : tag.text = Action.otherwise.tag) : ¬ WellNested (ts ++ tag :: rest) := by
  intro hw
  have hfault : FirstFault .main (ts ++ tag :: rest) (.duplicateElse .main tag.span) :=
    ⟨ts, _, _, rfl, h, .duplicate htag rfl⟩
  have he := Cursor.verify_start_eq_error_iff.mpr hfault
  rw [hw.verify_start] at he
  cases he

/-- A skip that has come inside the branches `inner`, by `ts`, passes on over a part that is well
nested together with `ts`; unless it comes by an `else` in a branch that has one, inside the branch
that it skips. -/
theorem skip {c next : Cursor} {allowElse : Bool} {marker : Marker} {skipped count : Nat}
    (h : Opened inner ts)
    (hs : c.skip allowElse inner.length skipped = .ok (marker, next, count)) :
    (∃ part tag, c.Passes part tag next ∧ tag.text = marker.action.tag ∧
      WellNested (ts ++ part)) ∨
    ∃ part tag mid at_ outer, c.Passes part tag mid ∧ mid.position < next.position ∧
      tag.text = Action.otherwise.tag ∧ Opened (⟨at_, true⟩ :: outer) (ts ++ part) := by
  induction c using Cursor.fetch_induction generalizing inner ts skipped with
  | step c ih =>
  cases hx : c.fetch with
  | exhausted => rw [Cursor.skip_exhausted hx] at hs; cases hs
  | unknown tag => rw [Cursor.skip_unknown hx] at hs; cases hs
  | truncated kind tag => rw [Cursor.skip_truncated hx] at hs; cases hs
  | ready i tag mid =>
    -- The skip goes on over an instruction that fits, with what is open after it.
    have go {inner' : List OpenIf} {skipped : Nat} (hn : Cursor.Nests tag.span i inner inner')
        (hs : mid.skip allowElse inner'.length skipped = .ok (marker, next, count)) :
        (∃ part tag, c.Passes part tag next ∧ tag.text = marker.action.tag ∧
          WellNested (ts ++ part)) ∨
        ∃ part tag mid at_ outer, c.Passes part tag mid ∧ mid.position < next.position ∧
          tag.text = Action.otherwise.tag ∧ Opened (⟨at_, true⟩ :: outer) (ts ++ part) := by
      obtain ⟨taken, hrest, hpos, h'⟩ := h.fetch hx hn
      rcases ih i tag mid hx h' hs with
        ⟨part, tag', hpass, htag, hw⟩ | ⟨part, tag', mid', at_, outer, hpass, hlt, htag, hopen⟩
      · exact .inl ⟨taken ++ part, tag', hpass.prepend hrest hpos, htag,
          List.append_assoc .. ▸ hw⟩
      · exact .inr ⟨taken ++ part, tag', mid', at_, outer, hpass.prepend hrest hpos, hlt, htag,
          List.append_assoc .. ▸ hopen⟩
    rcases i.isPlain_or_marker with hi | rfl | rfl | rfl
    · rw [Cursor.skip_plain hx hi] at hs
      exact go (.plain hi) hs
    · rw [Cursor.skip_branch hx] at hs
      exact go .branch hs
    · obtain ⟨hpass, htag⟩ := Cursor.passes_action hx
      rcases inner with _ | ⟨⟨at_, seen⟩, outer⟩
      · cases allowElse with
        | false => rw [List.length_nil, Cursor.skip_otherwise_refused hx] at hs; cases hs
        | true =>
          rw [List.length_nil, Cursor.skip_otherwise_zero hx] at hs
          cases hs
          cases h with
          | outside hw => exact .inl ⟨[], tag, hpass, htag, (List.append_nil ts).symm ▸ hw⟩
      · rw [List.length_cons, Cursor.skip_otherwise_succ hx] at hs
        cases seen with
        | false => exact go .otherwise hs
        | true =>
          exact .inr ⟨[], tag, mid, at_, outer, hpass, Cursor.position_lt_of_skip hs, htag,
            (List.append_nil ts).symm ▸ h⟩
    · obtain ⟨hpass, htag⟩ := Cursor.passes_action hx
      cases inner with
      | nil =>
        rw [List.length_nil, Cursor.skip_close_zero hx] at hs
        cases hs
        cases h with
        | outside hw => exact .inl ⟨[], tag, hpass, htag, (List.append_nil ts).symm ▸ hw⟩
      | cons o outer =>
        rw [List.length_cons, Cursor.skip_close_succ hx] at hs
        exact go .close hs

/-- In a well-nested stream the skip of a branch arrives, past a part that is well nested. -/
theorem skip_of_wellNested {o : OpenIf} (h : Opened (o :: outer) ts)
    (hw : WellNested (ts ++ rest)) :
    ∃ marker part tag next count,
      Cursor.skip (!o.seenElse) 0 0 ⟨ts.length, rest⟩ = .ok (marker, next, count) ∧
      Cursor.Passes ⟨ts.length, rest⟩ part tag next ∧ tag.text = marker.action.tag ∧
      WellNested part ∧ (marker = .otherwise → o.seenElse = false) := by
  have hv : Cursor.verify .main (o :: outer) ⟨ts.length, rest⟩ = .ok () :=
    (h.verify .main rest).symm.trans (hw.verify_start .main)
  obtain ⟨marker, next, count, hs, hm, -⟩ := Cursor.skip_of_verify [] hv rfl
  rcases (outside .nil).skip hs with
    ⟨part, tag, hpass, htag, hpart⟩ | ⟨part, tag, mid, at_, inner, hpass, -, htag, hopen⟩
  · exact ⟨marker, part, tag, next, count, hs, hpass, htag, hpart, hm⟩
  · have hrest : rest = part ++ tag :: mid.rest := hpass.rest
    rw [hrest, ← List.append_assoc] at hw
    exact absurd hw ((h.within hopen).not_otherwise htag)

end Opened

/-! ## The markers of an `if` -/

/-- In the stream the `if` at this position has its `end` at `e`, and its `else` at `k?` if it has
one: between them all is well nested, and a word that is an operand is no marker. -/
inductive BranchAt : List Token → Nat → Option Nat → Nat → Prop
  | ifThen {before thenPart rest : List Token} {branch close : Token} :
      branch.text = Action.branch.tag → close.text = Action.close.tag → WellNested thenPart →
      BranchAt (before ++ branch :: (thenPart ++ close :: rest)) before.length none
        (before.length + thenPart.length + 1)
  | ifElse {before thenPart elsePart rest : List Token} {branch otherwise close : Token} :
      branch.text = Action.branch.tag → otherwise.text = Action.otherwise.tag →
      close.text = Action.close.tag → WellNested thenPart → WellNested elsePart →
      BranchAt (before ++ branch :: (thenPart ++ otherwise :: (elsePart ++ close :: rest)))
        before.length (some (before.length + thenPart.length + 1))
        (before.length + thenPart.length + 1 + elsePart.length + 1)

/-- Every `if` of a well-nested stream has its markers. -/
theorem Opened.exists_branchAt {opens : List OpenIf} {before rest : List Token} {branch : Token}
    (h : Opened opens before) (hb : branch.text = Action.branch.tag)
    (hw : WellNested (before ++ branch :: rest)) :
    ∃ k? e, BranchAt (before ++ branch :: rest) before.length k? e := by
  have hthen : Opened (⟨branch.span, false⟩ :: opens) (before ++ [branch]) := .inThen h hb .nil
  have hwthen : WellNested (before ++ [branch] ++ rest) := by simpa using hw
  obtain ⟨marker, thenPart, tag, next, -, -, hpass, htag, ht, -⟩ := hthen.skip_of_wellNested hwthen
  have hrest : rest = thenPart ++ tag :: next.rest := hpass.rest
  subst hrest
  cases marker with
  | close => exact ⟨_, _, .ifThen hb htag ht⟩
  | otherwise =>
    have helse : Opened (⟨branch.span, true⟩ :: opens)
        (before ++ branch :: thenPart ++ tag :: []) := .inElse h hb ht htag .nil
    have hwelse : WellNested (before ++ branch :: thenPart ++ [tag] ++ next.rest) := by
      simpa using hw
    obtain ⟨marker, elsePart, tag', next', -, -, hpass', htag', he, hm⟩ :=
      helse.skip_of_wellNested hwelse
    have hrest' : next.rest = elsePart ++ tag' :: next'.rest := hpass'.rest
    rw [hrest']
    cases marker with
    | close => exact ⟨_, _, .ifElse hb htag htag' ht he⟩
    | otherwise => cases hm rfl

namespace BranchAt

variable {tokens : List Token} {i e e' : Nat} {k? k?' : Option Nat}

/-- What follows the `if`, in its parts. -/
theorem parts (h : BranchAt tokens i k? e) :
    (∃ thenPart close rest, k? = none ∧ e = i + 1 + thenPart.length ∧
      tokens.drop (i + 1) = thenPart ++ close :: rest ∧
      close.text = Action.close.tag ∧ WellNested thenPart) ∨
    ∃ thenPart otherwise elsePart close rest, k? = some (i + 1 + thenPart.length) ∧
      e = i + 1 + thenPart.length + 1 + elsePart.length ∧
      tokens.drop (i + 1) = thenPart ++ otherwise :: (elsePart ++ close :: rest) ∧
      otherwise.text = Action.otherwise.tag ∧ close.text = Action.close.tag ∧
      WellNested thenPart ∧ WellNested elsePart := by
  have hdrop (before rest : List Token) (branch : Token) :
      (before ++ branch :: rest).drop (before.length + 1) = rest := by simp [List.drop_append]
  cases h with
  | ifThen hb hc ht => exact .inl ⟨_, _, _, rfl, Nat.add_right_comm .., hdrop .., hc, ht⟩
  | ifElse hb ho hc ht he =>
    refine .inr ⟨_, _, _, _, _, ?_, ?_, hdrop .., ho, hc, ht, he⟩
    · rw [Nat.add_right_comm]
    · omega

/-- The skip of the branch for true ends at the `else`, and that of the branch for false, or of the
only one, at the `end`. -/
theorem skips (h : BranchAt tokens i k? e) :
    ∃ marker next count,
      Cursor.skip true 0 0 ⟨i + 1, tokens.drop (i + 1)⟩ = .ok (marker, next, count) ∧
      match k? with
      | none => marker = .close ∧ next.position = e + 1
      | some k => marker = .otherwise ∧ next.position = k + 1 ∧
          ∃ last count, next.skip false 0 0 = .ok (.close, last, count) ∧
            last.position = e + 1 := by
  rcases h.parts with ⟨thenPart, close, rest, rfl, rfl, hdrop, hc, ht⟩ |
    ⟨thenPart, otherwise, elsePart, close, rest, rfl, rfl, hdrop, ho, hc, ht, he⟩
  · rw [hdrop]
    exact ⟨.close, _, _, ht.skip_to_close _ hc true _ _ _, rfl, rfl⟩
  · rw [hdrop]
    exact ⟨.otherwise, _, _, ht.skip_to_otherwise _ ho _ _ _, rfl, rfl, _, _,
      he.skip_to_close _ hc false _ _ _, rfl⟩

/-- An `if` has no other markers than these. -/
theorem unique (h : BranchAt tokens i k? e) (h' : BranchAt tokens i k?' e') :
    k?' = k? ∧ e' = e := by
  obtain ⟨marker, next, count, hs, hm⟩ := h.skips
  obtain ⟨marker', next', count', hs', hm'⟩ := h'.skips
  rw [hs] at hs'
  cases hs'
  cases k? with
  | none =>
    cases k?' with
    | none => exact ⟨rfl, Nat.succ.inj (hm'.2.symm.trans hm.2)⟩
    | some k' => cases hm.1.symm.trans hm'.1
  | some k =>
    cases k?' with
    | none => cases hm.1.symm.trans hm'.1
    | some k' =>
      obtain ⟨-, hk, last, count, hlast, he⟩ := hm
      obtain ⟨-, hk', last', count', hlast', he'⟩ := hm'
      rw [hlast] at hlast'
      cases hlast'
      exact ⟨congrArg some (Nat.succ.inj (hk'.symm.trans hk)), Nat.succ.inj (he'.symm.trans he)⟩

end BranchAt

end TokenMachine
