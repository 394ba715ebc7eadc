/-
  TokenMachine.Proofs.Machine.Skipping — where a skip stops, and what it passes.

  A skip counts the branches that open and close on its way, and looks for nothing else in them:
  inside a nested branch any number of `else` may stand. What it passes over whole is decoded
  instruction by instruction and balanced, with no `else` of the depth where it began
  (`Skippable`); what it has passed so far is such a part for each branch that it is still inside
  (`Entered`). At every place it goes on, into a branch, out of one or past an instruction, or it
  ends there (`SkipEnds`). So it ends at the first place where it may, and how it ends says what
  stands before that place (`skip_eq_iff`): the marker it stops at is the matching one, and its
  error is at the first token that it cannot pass (`skip_verdict`).
-/

import TokenMachine.Proofs.Machine.Effect
import TokenMachine.Proofs.Stream.Matching

namespace TokenMachine

/-! ## What is passed -/

/-- A part that is passed over whole, with every `if` closed by its `end`. Only where it is nested
in an `if` may an `else` stand, and there any number of them. -/
inductive Skippable : Bool → List Token → Prop
  | nil {nested : Bool} : Skippable nested []
  | literal {nested : Bool} {kind : Literal} {tag operand : Token} {rest : List Token} :
      tag.text = kind.tag → Skippable nested rest → Skippable nested (tag :: operand :: rest)
  | plain {nested : Bool} {act : Action} {tag : Token} {rest : List Token} :
      tag.text = act.tag → (Instr.action act).isPlain = true → Skippable nested rest →
      Skippable nested (tag :: rest)
  | otherwise {tag : Token} {rest : List Token} :
      tag.text = Action.otherwise.tag → Skippable true rest → Skippable true (tag :: rest)
  | branch {nested : Bool} {branch close : Token} {inner rest : List Token} :
      branch.text = Action.branch.tag → close.text = Action.close.tag →
      Skippable true inner → Skippable nested rest →
      Skippable nested (branch :: inner ++ close :: rest)

inductive Entered : Nat → List Token → Prop
  | outside {ts : List Token} : Skippable false ts → Entered 0 ts
  | inside {depth : Nat} {branch : Token} {ts inner : List Token} :
      Entered depth ts → branch.text = Action.branch.tag → Skippable true inner →
      Entered (depth + 1) (ts ++ branch :: inner)

inductive Instr.Enters : Instr → Nat → Nat → Prop
  | plain {i : Instr} {depth : Nat} : i.isPlain = true → i.Enters depth depth
  | branch {depth : Nat} : Enters (.action .branch) depth (depth + 1)
  | otherwise {depth : Nat} : Enters (.action .otherwise) (depth + 1) (depth + 1)
  | close {depth : Nat} : Enters (.action .close) (depth + 1) depth

/-- How a skip that has passed `skipped` tokens ends in front of `rest`, which begins at `position`,
if it is inside `depth` branches there. -/
inductive SkipEnds (allowElse : Bool) (position skipped : Nat) :
    Nat → List Token → Except Trap (Marker × Cursor × Nat) → Prop
  | close {tag : Token} {rest : List Token} :
      tag.text = Action.close.tag →
      SkipEnds allowElse position skipped 0 (tag :: rest)
        (.ok (.close, ⟨position + 1, rest⟩, skipped + 1))
  | otherwise {tag : Token} {rest : List Token} :
      tag.text = Action.otherwise.tag → allowElse = true →
      SkipEnds allowElse position skipped 0 (tag :: rest)
        (.ok (.otherwise, ⟨position + 1, rest⟩, skipped + 1))
  | secondElse {tag : Token} {rest : List Token} :
      tag.text = Action.otherwise.tag → allowElse = false →
      SkipEnds allowElse position skipped 0 (tag :: rest)
        (.error ⟨.structuralError "second `else` in one `if`", some ⟨position, some tag⟩⟩)
  | unknown {depth : Nat} {tag : Token} {rest : List Token} :
      Opcode.ofTag? tag.text = none →
      SkipEnds allowElse position skipped depth (tag :: rest)
        (.error ⟨.unknownOpcode tag.text, some ⟨position, some tag⟩⟩)
  | exhausted {depth : Nat} :
      SkipEnds allowElse position skipped depth [] (.error ⟨.streamUnderflow, none⟩)
  | truncated {depth : Nat} {kind : Literal} {tag : Token} :
      tag.text = kind.tag →
      SkipEnds allowElse position skipped depth [tag] (.error ⟨.streamUnderflow, none⟩)

variable {c next : Cursor} {i : Instr} {tag : Token} {allowElse nested : Bool}
  {depth depth' position skipped : Nat} {ts us rest : List Token}
  {r : Except Trap (Marker × Cursor × Nat)}

theorem Skippable.append (ht : Skippable nested ts) (hu : Skippable nested us) :
    Skippable nested (ts ++ us) := by
  induction ht with
  | nil => exact hu
  | literal h _ ih => exact .literal h (ih hu)
  | plain h hp _ ih => exact .plain h hp (ih hu)
  | otherwise h _ ih => exact .otherwise h (ih hu)
  | branch hb hc hinner _ _ ih => simpa using branch hb hc hinner (ih hu)

/-- A skip counts each token of what it passes over whole. -/
theorem Skippable.skip (h : Skippable nested ts) (hdepth : nested = true → 0 < depth)
    (skipped position : Nat) (rest : List Token) :
    Cursor.skip allowElse depth skipped ⟨position, ts ++ rest⟩ =
      Cursor.skip allowElse depth (skipped + ts.length) ⟨position + ts.length, rest⟩ := by
  -- The skip comes to the same place by the parts of the stream and by the whole of it.
  have arrive {skipped skipped' m n : Nat} {rest : List Token} (depth : Nat)
      (hskipped : skipped = skipped') (hmn : m = n) :
      Cursor.skip allowElse depth skipped ⟨m, rest⟩ =
        Cursor.skip allowElse depth skipped' ⟨n, rest⟩ := by rw [hskipped, hmn]
  induction h generalizing depth skipped position rest with
  | nil => rfl
  | literal h _ ih =>
    rw [List.cons_append, List.cons_append, Cursor.skip_plain (Cursor.fetch_literal h) rfl,
      ih hdepth]
    apply arrive <;> simp only [List.length_cons, Instr.operands] <;> omega
  | plain h hp _ ih =>
    rw [List.cons_append, Cursor.skip_plain (Cursor.fetch_action h) hp, ih hdepth]
    apply arrive <;> simp only [List.length_cons, Instr.operands] <;> omega
  | otherwise h _ ih =>
    obtain ⟨outer, rfl⟩ := Nat.exists_eq_succ_of_ne_zero (Nat.ne_of_gt (hdepth rfl))
    rw [List.cons_append, Cursor.skip_otherwise_succ (Cursor.fetch_action h), ih hdepth]
    apply arrive <;> simp only [List.length_cons] <;> omega
  | branch hb hc _ _ ihinner ih =>
    simp only [List.cons_append, List.append_assoc]
    rw [Cursor.skip_branch (Cursor.fetch_action hb), ihinner fun _ => Nat.succ_pos _,
      Cursor.skip_close_succ (Cursor.fetch_action hc), ih hdepth]
    apply arrive <;> simp only [List.length_cons, List.length_append] <;> omega

namespace Entered

theorem append (h : Entered depth ts) (hu : Skippable (decide (0 < depth)) us) :
    Entered depth (ts ++ us) := by
  cases h with
  | outside ht => exact .outside (ht.append hu)
  | inside h hb hinner => simpa using inside h hb (hinner.append hu)

/-- The `end` of the innermost branch puts the whole of it behind. -/
theorem close (h : Entered (depth + 1) ts) (htag : tag.text = Action.close.tag) :
    Entered depth (ts ++ [tag]) := by
  cases h with
  | inside h hb hinner => simpa using h.append (.branch hb htag hinner .nil)

/-- An instruction that may be passed is passed. -/
theorem fetch (h : Entered depth ts) (hx : c.fetch = .ready i tag next)
    (he : i.Enters depth depth') :
    ∃ taken, c.rest = taken ++ next.rest ∧ next.position = c.position + taken.length ∧
      Entered depth' (ts ++ taken) := by
  cases Cursor.Fetches.of_eq hx with
  | @literal _ _ _ operand _ htag =>
    cases he
    exact ⟨[tag, operand], rfl, rfl, h.append (.literal htag .nil)⟩
  | action htag =>
    refine ⟨[tag], rfl, rfl, ?_⟩
    cases he with
    | plain hi => exact h.append (.plain htag hi .nil)
    | branch => exact inside h htag .nil
    | otherwise => exact h.append (.otherwise htag .nil)
    | close => exact h.close htag

/-- A skip comes to a place inside `depth` branches with that depth, and has counted each token
before it. -/
theorem skip (h : Entered depth ts) (allowElse : Bool) (position : Nat) (rest : List Token) :
    Cursor.skip allowElse 0 0 ⟨position, ts ++ rest⟩ =
      Cursor.skip allowElse depth ts.length ⟨position + ts.length, rest⟩ := by
  induction h generalizing rest with
  | outside ht => rw [ht.skip nofun, Nat.zero_add]
  | @inside depth branch ts inner _ hb hinner ih =>
    have hlength : (ts ++ branch :: inner).length = ts.length + 1 + inner.length := by
      simp only [List.length_append, List.length_cons]
      omega
    rw [List.append_assoc, ih, List.cons_append, Cursor.skip_branch (Cursor.fetch_action hb),
      hinner.skip fun _ => Nat.succ_pos _, hlength, Nat.add_assoc position, Nat.add_assoc position]

end Entered

/-! ## Where it ends -/

namespace Cursor

theorem skip_of_ends (h : SkipEnds allowElse position skipped depth rest r) :
    skip allowElse depth skipped ⟨position, rest⟩ = r := by
  cases h with
  | close htag => exact skip_close_zero (fetch_action htag)
  | otherwise htag ha =>
    subst ha
    exact skip_otherwise_zero (fetch_action htag)
  | secondElse htag ha =>
    subst ha
    exact skip_otherwise_refused (fetch_action htag)
  | unknown hop => exact skip_unknown (fetch_unknown hop)
  | exhausted => exact skip_exhausted (fetch_nil position)
  | truncated htag => exact skip_truncated (fetch_truncated htag)

/-- At every place a skip goes on or ends. -/
theorem enters_or_ends (c : Cursor) (allowElse : Bool) (depth skipped : Nat) :
    (∃ i tag next depth', c.fetch = .ready i tag next ∧ i.Enters depth depth') ∨
      ∃ r, SkipEnds allowElse c.position skipped depth c.rest r := by
  cases hx : c.fetch with
  | exhausted =>
    cases Fetches.of_eq hx
    exact .inr ⟨_, .exhausted⟩
  | unknown tag =>
    cases Fetches.of_eq hx with
    | unknown hop => exact .inr ⟨_, .unknown hop⟩
  | truncated kind tag =>
    cases Fetches.of_eq hx with
    | truncated htag => exact .inr ⟨_, .truncated htag⟩
  | ready i tag next =>
    have enters {depth' : Nat} (he : i.Enters depth depth') :
        ∃ i' tag' next' depth', Fetched.ready i tag next = .ready i' tag' next' ∧
          i'.Enters depth depth' := ⟨i, tag, next, depth', rfl, he⟩
    rcases i.isPlain_or_marker with hi | rfl | rfl | rfl
    · exact .inl (enters (.plain hi))
    · exact .inl (enters .branch)
    · cases depth with
      | succ outer => exact .inl (enters .otherwise)
      | zero =>
        cases Fetches.of_eq hx with
        | action htag =>
          cases allowElse with
          | true => exact .inr ⟨_, .otherwise htag rfl⟩
          | false => exact .inr ⟨_, .secondElse htag rfl⟩
    · cases depth with
      | succ outer => exact .inl (enters .close)
      | zero =>
        cases Fetches.of_eq hx with
        | action htag => exact .inr ⟨_, .close htag⟩

/-- Wherever a skip has come to, there is a place from there on that it cannot pass. -/
theorem exists_ends (allowElse : Bool) (h : Entered depth ts)
    (hpos : c.position = position + ts.length) :
    ∃ passed rest depth' r, ts ++ c.rest = passed ++ rest ∧ Entered depth' passed ∧
      SkipEnds allowElse (position + passed.length) passed.length depth' rest r := by
  -- An instruction that is passed goes over from what remains to what is behind.
  induction c using fetch_induction generalizing depth ts with
  | step c ih =>
  rcases c.enters_or_ends allowElse depth ts.length with ⟨i, tag, next, depth', hx, he⟩ | ⟨r, hr⟩
  · obtain ⟨taken, hrest, hnext, h'⟩ := h.fetch hx he
    rw [hrest, ← List.append_assoc]
    apply ih i tag next hx h'
    rw [hnext, hpos, List.length_append, Nat.add_assoc]
  · exact ⟨ts, c.rest, depth, r, rfl, h, hpos ▸ hr⟩

/-- A skip ends as it must at the first place that it cannot pass. -/
theorem skip_eq_iff : c.skip allowElse 0 0 = r ↔
    ∃ passed rest depth, c.rest = passed ++ rest ∧ Entered depth passed ∧
      SkipEnds allowElse (c.position + passed.length) passed.length depth rest r := by
  have ends {passed rest : List Token} {depth : Nat} {r : Except Trap (Marker × Cursor × Nat)}
      (hrest : c.rest = passed ++ rest) (hentered : Entered depth passed)
      (hends : SkipEnds allowElse (c.position + passed.length) passed.length depth rest r) :
      c.skip allowElse 0 0 = r := by
    have hc : c = ⟨c.position, passed ++ rest⟩ := by rw [← hrest]
    rw [hc, hentered.skip]
    exact skip_of_ends hends
  constructor
  · rintro rfl
    have hpos : c.position = c.position + ([] : List Token).length := rfl
    obtain ⟨passed, rest, depth, r, hrest, hentered, hends⟩ :=
      exists_ends allowElse (.outside .nil) hpos
    rw [ends hrest hentered hends]
    exact ⟨passed, rest, depth, hrest, hentered, hends⟩
  · intro ⟨passed, rest, depth, hrest, hentered, hends⟩
    exact ends hrest hentered hends

theorem skip_eq_ok_iff {marker : Marker} {count : Nat} :
    c.skip allowElse 0 0 = .ok (marker, next, count) ↔
      ∃ part tag, c.Passes part tag next ∧ Skippable false part ∧ tag.text = marker.action.tag ∧
        (marker = .otherwise → allowElse = true) ∧ count = part.length + 1 := by
  rw [skip_eq_iff]
  constructor
  · intro ⟨part, rest, depth, hrest, hentered, hends⟩
    cases hends with
    | @close tag _ htag =>
      cases hentered with
      | outside hpart => exact ⟨part, tag, ⟨hrest, rfl⟩, hpart, htag, nofun, rfl⟩
    | @otherwise tag _ htag ha =>
      cases hentered with
      | outside hpart => exact ⟨part, tag, ⟨hrest, rfl⟩, hpart, htag, fun _ => ha, rfl⟩
  · intro ⟨part, tag, hpasses, hpart, htag, ha, hcount⟩
    have hnext : next = ⟨c.position + part.length + 1, next.rest⟩ := by rw [← hpasses.position]
    refine ⟨part, tag :: next.rest, 0, hpasses.rest, .outside hpart, ?_⟩
    rw [hnext, hcount]
    cases marker with
    | close => exact .close htag
    | otherwise => exact .otherwise htag (ha rfl)

/-- A skip succeeds exactly if what remains is a part that is balanced, decoded instruction by
instruction and has no `else` but in an `if` of its own, then the `end`, or an `else` where that is
allowed, and then anything. It ends just after that marker, with a count of the tokens of the part
and the marker, which the machine adds to the tokens skipped. It fails at the first token that is
no tag, at the first `else` of its own depth where none is allowed, or at the end of the tokens,
whichever comes first. -/
theorem skip_verdict (c : Cursor) (allowElse : Bool) :
    (∀ marker next count, c.skip allowElse 0 0 = .ok (marker, next, count) ↔
      ∃ part tag, c.Passes part tag next ∧ Skippable false part ∧ tag.text = marker.action.tag ∧
        (marker = .otherwise → allowElse = true) ∧ count = part.length + 1) ∧
    (∀ trap, c.skip allowElse 0 0 = .error trap ↔
      ∃ passed rest depth, c.rest = passed ++ rest ∧ Entered depth passed ∧
        SkipEnds allowElse (c.position + passed.length) passed.length depth rest (.error trap)) ∧
    ∀ (s : State) (opened : Marker → List Block) (part : List Token) (tag : Token)
      (marker : Marker) (next : Cursor) (count : Nat), s.frames.current.cursor = c →
      c.skip allowElse 0 0 = .ok (marker, next, count) → c.Passes part tag next →
      ∃ s', s.skipTo allowElse opened = .ok s' ∧ s'.frames.current.cursor = next ∧
        s'.counters.skippedTokens = s.counters.skippedTokens + (part.length + 1) := by
  refine ⟨fun marker next count => skip_eq_ok_iff, fun trap => skip_eq_iff, ?_⟩
  intro s opened part tag marker next count hcursor hskip hpasses
  subst hcursor
  refine ⟨_, State.skipTo_eq_ok_iff.mpr ⟨marker, next, count, hskip, rfl⟩, ?_, ?_⟩
  · simp [State.passed]
  · have hposition := hpasses.position
    have hcount := count_of_skip hskip
    simp only [State.passed]
    omega

end Cursor

end TokenMachine
