/-
  TokenMachine.Proofs.Stream.Grammar — the grammar of well-nested streams.

  A stream is well nested if it is empty, or an instruction that is no marker and a
  well-nested rest, or an `if` with its branches, well nested each, its `end` and a
  well-nested rest. A loop that follows the nesting (`FollowsNesting`) passes over such
  a stream whole and leaves what it counts as it was; the check and the skip are two
  such loops (`WellNested.verify`, `WellNested.skip`).
-/

import TokenMachine.Proofs.Stream.Nesting

namespace TokenMachine

/-! ## What stands at the head of a stream -/

namespace Cursor

variable {tag operand : Token} {rest : List Token} {pos : Nat}

theorem fetch_nil (pos : Nat) : fetch ⟨pos, []⟩ = .exhausted := rfl

theorem fetch_literal {kind : Literal} (h : tag.text = kind.tag) :
    fetch ⟨pos, tag :: operand :: rest⟩ =
      .ready (.literal kind operand.text) tag ⟨pos + 2, rest⟩ := by
  have : Opcode.ofTag? tag.text = some (.literal kind) := h ▸ Opcode.ofTag?_tag (.literal kind)
  simp [fetch, next?, this]

theorem fetch_action {act : Action} (h : tag.text = act.tag) :
    fetch ⟨pos, tag :: rest⟩ = .ready (.action act) tag ⟨pos + 1, rest⟩ := by
  have : Opcode.ofTag? tag.text = some (.action act) := h ▸ Opcode.ofTag?_tag (.action act)
  simp [fetch, next?, this]

theorem fetch_unknown (h : Opcode.ofTag? tag.text = none) :
    fetch ⟨pos, tag :: rest⟩ = .unknown tag := by
  simp [fetch, next?, h]

theorem fetch_truncated {kind : Literal} (h : tag.text = kind.tag) :
    fetch ⟨pos, [tag]⟩ = .truncated kind tag := by
  have : Opcode.ofTag? tag.text = some (.literal kind) := h ▸ Opcode.ofTag?_tag (.literal kind)
  simp [fetch, next?, this]

inductive Fetches : Cursor → Fetched → Prop
  | exhausted {pos : Nat} : Fetches ⟨pos, []⟩ .exhausted
  | unknown {pos : Nat} {tag : Token} {rest : List Token} :
      Opcode.ofTag? tag.text = none → Fetches ⟨pos, tag :: rest⟩ (.unknown tag)
  | truncated {pos : Nat} {kind : Literal} {tag : Token} :
      tag.text = kind.tag → Fetches ⟨pos, [tag]⟩ (.truncated kind tag)
  | literal {pos : Nat} {kind : Literal} {tag operand : Token} {rest : List Token} :
      tag.text = kind.tag →
      Fetches ⟨pos, tag :: operand :: rest⟩
        (.ready (.literal kind operand.text) tag ⟨pos + 2, rest⟩)
  | action {pos : Nat} {act : Action} {tag : Token} {rest : List Token} :
      tag.text = act.tag →
      Fetches ⟨pos, tag :: rest⟩ (.ready (.action act) tag ⟨pos + 1, rest⟩)

theorem fetches (c : Cursor) : c.Fetches c.fetch := by
  obtain ⟨pos, rest⟩ := c
  cases rest with
  | nil => exact .exhausted
  | cons tag rest =>
    cases hop : Opcode.ofTag? tag.text with
    | none =>
      have hx : fetch ⟨pos, tag :: rest⟩ = .unknown tag := fetch_unknown hop
      exact hx ▸ .unknown hop
    | some op =>
      have htag : tag.text = op.tag := Opcode.ofTag?_eq_some_iff.mp hop
      cases op with
      | action act =>
        have hx : fetch ⟨pos, tag :: rest⟩ = _ := fetch_action htag
        exact hx ▸ .action htag
      | literal kind =>
        cases rest with
        | nil =>
          have hx : fetch ⟨pos, [tag]⟩ = .truncated kind tag := fetch_truncated htag
          exact hx ▸ .truncated htag
        | cons operand rest =>
          have hx : fetch ⟨pos, tag :: operand :: rest⟩ = _ := fetch_literal htag
          exact hx ▸ .literal htag

theorem Fetches.of_eq {c : Cursor} {f : Fetched} (h : c.fetch = f) : c.Fetches f := h ▸ c.fetches

end Cursor

/-! ## Loops that follow the nesting -/

/-- The loop passes over every instruction that is no marker, and keeps what is open: an `if`
opens its first branch, its `else` makes that the second, and its `end` closes either. It counts
the tokens that it passes. -/
structure FollowsNesting {σ β : Type} (walk : σ → Nat → Cursor → β)
    (inThen inElse : Token → σ → σ) : Prop where
  plain : ∀ {c next : Cursor} {i : Instr} {tag : Token} {x : σ} {n : Nat},
    c.fetch = .ready i tag next → i.isPlain = true →
    walk x n c = walk x (n + 1 + i.operands) next
  branch : ∀ {c next : Cursor} {tag : Token} {x : σ} {n : Nat},
    c.fetch = .ready (.action .branch) tag next → walk x n c = walk (inThen tag x) (n + 1) next
  otherwise : ∀ {c next : Cursor} {o tag : Token} {x : σ} {n : Nat},
    c.fetch = .ready (.action .otherwise) tag next →
    walk (inThen o x) n c = walk (inElse o x) (n + 1) next
  closeThen : ∀ {c next : Cursor} {o tag : Token} {x : σ} {n : Nat},
    c.fetch = .ready (.action .close) tag next → walk (inThen o x) n c = walk x (n + 1) next
  closeElse : ∀ {c next : Cursor} {o tag : Token} {x : σ} {n : Nat},
    c.fetch = .ready (.action .close) tag next → walk (inElse o x) n c = walk x (n + 1) next

namespace Cursor

theorem followsNesting_skip (allowElse : Bool) :
    FollowsNesting (fun depth n c => skip allowElse depth n c) (fun _ depth => depth + 1)
      (fun _ depth => depth + 1) where
  plain := skip_plain
  branch := skip_branch
  otherwise := skip_otherwise_succ
  closeThen := skip_close_succ
  closeElse := skip_close_succ

theorem followsNesting_verify (stream : StreamName) :
    FollowsNesting (fun opens _ c => verify stream opens c)
      (fun o opens => ⟨o.span, false⟩ :: opens)
      (fun o opens => ⟨o.span, true⟩ :: opens) where
  plain := verify_plain
  branch := verify_branch
  otherwise {_ _ o _ _ _} h := verify_otherwise (o := ⟨o.span, false⟩) h
  closeThen := verify_close
  closeElse := verify_close

end Cursor

/-! ## The grammar -/

inductive WellNested : List Token → Prop
  | nil : WellNested []
  | literal {kind : Literal} {tag operand : Token} {rest : List Token} :
      tag.text = kind.tag → WellNested rest → WellNested (tag :: operand :: rest)
  | plain {act : Action} {tag : Token} {rest : List Token} :
      tag.text = act.tag → (Instr.action act).isPlain = true → WellNested rest →
      WellNested (tag :: rest)
  | ifThen {branch close : Token} {thenPart rest : List Token} :
      branch.text = Action.branch.tag → close.text = Action.close.tag →
      WellNested thenPart → WellNested rest →
      WellNested (branch :: thenPart ++ close :: rest)
  | ifElse {branch otherwise close : Token} {thenPart elsePart rest : List Token} :
      branch.text = Action.branch.tag → otherwise.text = Action.otherwise.tag →
      close.text = Action.close.tag →
      WellNested thenPart → WellNested elsePart → WellNested rest →
      WellNested (branch :: thenPart ++ otherwise :: elsePart ++ close :: rest)

namespace WellNested

variable {ts us : List Token}

theorem append (ht : WellNested ts) (hu : WellNested us) : WellNested (ts ++ us) := by
  induction ht with
  | nil => exact hu
  | literal h _ ih => exact .literal h ih
  | plain h hp _ ih => exact .plain h hp ih
  | ifThen hb hc hthen _ _ ih => simpa using ifThen hb hc hthen ih
  | ifElse hb ho hc hthen helse _ _ _ ih => simpa using ifElse hb ho hc hthen helse ih

/-- A loop that follows the nesting passes over a well-nested stream, and has it open after the
stream what it had before. -/
theorem walk {σ β : Type} {walk : σ → Nat → Cursor → β} {inThen inElse : Token → σ → σ}
    (hw : FollowsNesting walk inThen inElse) (h : WellNested ts) (x : σ) (n pos : Nat)
    (rest : List Token) :
    walk x n ⟨pos, ts ++ rest⟩ = walk x (n + ts.length) ⟨pos + ts.length, rest⟩ := by
  -- The cursor comes to the same place by the parts of the stream and by the whole of it.
  have arrive {n n' pos pos' : Nat} {rest : List Token} (x : σ) (hn : n = n') (hpos : pos = pos') :
      walk x n ⟨pos, rest⟩ = walk x n' ⟨pos', rest⟩ := by rw [hn, hpos]
  induction h generalizing x n pos rest with
  | nil => rfl
  | literal h _ ih =>
    rw [List.cons_append, List.cons_append, hw.plain (Cursor.fetch_literal h) rfl, ih]
    apply arrive <;> simp only [List.length_cons, Instr.operands] <;> omega
  | plain h hp _ ih =>
    rw [List.cons_append, hw.plain (Cursor.fetch_action h) hp, ih]
    apply arrive <;> simp only [List.length_cons, Instr.operands] <;> omega
  | @ifThen branch _ _ _ hb hc _ _ ihthen ih =>
    simp only [List.cons_append, List.append_assoc]
    rw [hw.branch (Cursor.fetch_action hb), ihthen,
      hw.closeThen (o := branch) (Cursor.fetch_action hc), ih]
    apply arrive <;> simp only [List.length_cons, List.length_append] <;> omega
  | @ifElse branch _ _ _ _ _ hb ho hc _ _ _ ihthen ihelse ih =>
    simp only [List.cons_append, List.append_assoc]
    rw [hw.branch (Cursor.fetch_action hb), ihthen,
      hw.otherwise (o := branch) (Cursor.fetch_action ho), ihelse,
      hw.closeElse (o := branch) (Cursor.fetch_action hc), ih]
    apply arrive <;> simp only [List.length_cons, List.length_append] <;> omega

/-- A skip passes over a well-nested stream, whatever is open around it. -/
theorem skip (h : WellNested ts) (allowElse : Bool) (depth skipped pos : Nat)
    (rest : List Token) :
    Cursor.skip allowElse depth skipped ⟨pos, ts ++ rest⟩ =
      Cursor.skip allowElse depth (skipped + ts.length) ⟨pos + ts.length, rest⟩ :=
  walk (Cursor.followsNesting_skip allowElse) h depth skipped pos rest

/-- The check passes over a well-nested stream, and leaves what is open as it was. -/
theorem verify (h : WellNested ts) (stream : StreamName) (opens : List OpenIf) (pos : Nat)
    (rest : List Token) :
    Cursor.verify stream opens ⟨pos, ts ++ rest⟩ =
      Cursor.verify stream opens ⟨pos + ts.length, rest⟩ :=
  walk (Cursor.followsNesting_verify stream) h opens 0 pos rest

/-- A well-nested stream is well formed. -/
theorem verify_start (h : WellNested ts) (stream : StreamName) :
    (Cursor.start ts).verify stream [] = .ok () := by
  have hv := h.verify stream [] 0 []
  rw [List.append_nil] at hv
  rw [Cursor.start, hv]
  exact (Cursor.verify_exhausted (Cursor.fetch_nil _)).mpr rfl

/-! ## The skips of a branch -/

/-- A false condition skips to just after the `else`. -/
theorem skip_to_otherwise (h : WellNested ts) (tag : Token)
    (ht : tag.text = Action.otherwise.tag) (skipped pos : Nat) (rest : List Token) :
    Cursor.skip true 0 skipped ⟨pos, ts ++ tag :: rest⟩ =
      .ok (.otherwise, ⟨pos + ts.length + 1, rest⟩, skipped + ts.length + 1) := by
  rw [h.skip]
  exact Cursor.skip_otherwise_zero (Cursor.fetch_action ht)

/-- A skip of a branch without `else` ends just after its `end`. -/
theorem skip_to_close (h : WellNested ts) (tag : Token) (ht : tag.text = Action.close.tag)
    (allowElse : Bool) (skipped pos : Nat) (rest : List Token) :
    Cursor.skip allowElse 0 skipped ⟨pos, ts ++ tag :: rest⟩ =
      .ok (.close, ⟨pos + ts.length + 1, rest⟩, skipped + ts.length + 1) := by
  rw [h.skip]
  exact Cursor.skip_close_zero (Cursor.fetch_action ht)

end WellNested

end TokenMachine
