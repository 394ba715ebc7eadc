/-
  TokenMachine.Proofs.Stream.Spelling — streams that differ in spans alone.

  Two cursors spell the same (`Cursor.SameText`) if they are as far in their streams and what
  remains has the same texts. They then decode to the same instruction, and to cursors that
  spell the same; so they are skipped to the same place, and one is well formed if the other is.
  Programs that spell the same look up functions that do.
-/

import TokenMachine.Proofs.Listing.RoundTrip
import TokenMachine.Proofs.Stream.Nesting

namespace TokenMachine

/-- The same place of two streams whose tokens have the same texts from there on. -/
structure Cursor.SameText (c c' : Cursor) : Prop where
  position : c.position = c'.position
  texts : c.rest.map (·.text) = c'.rest.map (·.text)

def Fetched.SameText : Fetched → Fetched → Prop
  | .exhausted, f => f = .exhausted
  | .unknown tag, f => ∃ tag', f = .unknown tag' ∧ tag.text = tag'.text
  | .truncated kind tag, f => ∃ tag', f = .truncated kind tag' ∧ tag.text = tag'.text
  | .ready i tag next, f =>
    ∃ tag' next', f = .ready i tag' next' ∧ tag.text = tag'.text ∧ next.SameText next'

def Site.spelling (s : Site) : Nat × Option String := (s.position, s.token.map (·.text))

structure Trap.SameText (t t' : Trap) : Prop where
  fault : t.fault = t'.fault
  site : t.site.map Site.spelling = t'.site.map Site.spelling

namespace Cursor

variable {c c' : Cursor} {stream stream' : StreamName} {opens opens' : List OpenIf}

theorem sameText_start {ts ts' : List Token} (h : ts.map (·.text) = ts'.map (·.text)) :
    (start ts).SameText (start ts') := ⟨rfl, h⟩

theorem SameText.next? (h : c.SameText c') : (c.next? = none ∧ c'.next? = none) ∨
    ∃ token next token' next', c.next? = some (token, next) ∧ c'.next? = some (token', next') ∧
      token.text = token'.text ∧ next.SameText next' := by
  obtain ⟨pos, rest⟩ := c
  obtain ⟨pos', rest'⟩ := c'
  obtain ⟨hpos, htexts⟩ := h
  cases rest with
  | nil =>
    cases rest' with
    | nil => exact .inl ⟨rfl, rfl⟩
    | cons => cases htexts
  | cons token rest =>
    cases rest' with
    | nil => cases htexts
    | cons token' rest' =>
      obtain ⟨htoken, hrest⟩ := List.cons.inj htexts
      exact .inr ⟨token, _, token', _, rfl, rfl, htoken, congrArg (· + 1) hpos, hrest⟩

theorem SameText.fetch (h : c.SameText c') : c.fetch.SameText c'.fetch := by
  unfold Cursor.fetch
  rcases h.next? with ⟨hn, hn'⟩ | ⟨tag, after, tag', after', hn, hn', htag, hafter⟩
  · rw [hn, hn']
    rfl
  rw [hn, hn']
  dsimp only
  rw [← htag]
  cases Opcode.ofTag? tag.text with
  | none => exact ⟨tag', rfl, htag⟩
  | some op =>
    cases op with
    | action act => exact ⟨tag', after', rfl, htag, hafter⟩
    | literal kind =>
      rcases hafter.next? with ⟨ho, ho'⟩ | ⟨operand, next, operand', next', ho, ho', htext, hnext⟩
      · simp only [ho, ho']
        exact ⟨tag', rfl, htag⟩
      · simp only [ho, ho', htext]
        exact ⟨tag', next', rfl, htag, hnext⟩

/-! ## Skipping -/

/-- The second skip comes to the same marker as the first, or fails for the same cause at the same
place. -/
def SkipsAlike :
    Except Trap (Marker × Cursor × Nat) → Except Trap (Marker × Cursor × Nat) → Prop
  | .ok (marker, next, count), r => ∃ next', r = .ok (marker, next', count) ∧ next.SameText next'
  | .error trap, r => ∃ trap', r = .error trap' ∧ trap.SameText trap'

theorem SameText.skip (h : c.SameText c') (allowElse : Bool) (depth skipped : Nat) :
    SkipsAlike (c.skip allowElse depth skipped) (c'.skip allowElse depth skipped) := by
  induction c using fetch_induction generalizing depth skipped c' with
  | step c ih =>
  have hf := h.fetch
  cases hx : c.fetch with
  | exhausted =>
    rw [hx] at hf
    rw [skip_exhausted hx, skip_exhausted hf]
    exact ⟨_, rfl, rfl, rfl⟩
  | unknown tag =>
    rw [hx] at hf
    obtain ⟨tag', hx', htag⟩ := hf
    rw [skip_unknown hx, skip_unknown hx']
    exact ⟨_, rfl, congrArg Fault.unknownOpcode htag, by simp [Site.spelling, h.position, htag]⟩
  | truncated kind tag =>
    rw [hx] at hf
    obtain ⟨tag', hx', -⟩ := hf
    rw [skip_truncated hx, skip_truncated hx']
    exact ⟨_, rfl, rfl, rfl⟩
  | ready i tag next =>
    rw [hx] at hf
    obtain ⟨tag', next', hx', htag, hnext⟩ := hf
    rcases i.isPlain_or_marker with hi | rfl | rfl | rfl
    · rw [skip_plain hx hi, skip_plain hx' hi]
      exact ih _ _ _ hx hnext depth _
    · rw [skip_branch hx, skip_branch hx']
      exact ih _ _ _ hx hnext (depth + 1) _
    · cases depth with
      | zero =>
        cases allowElse with
        | false =>
          rw [skip_otherwise_refused hx, skip_otherwise_refused hx']
          exact ⟨_, rfl, rfl, by simp [Site.spelling, h.position, htag]⟩
        | true =>
          rw [skip_otherwise_zero hx, skip_otherwise_zero hx']
          exact ⟨_, rfl, hnext⟩
      | succ depth =>
        rw [skip_otherwise_succ hx, skip_otherwise_succ hx']
        exact ih _ _ _ hx hnext (depth + 1) _
    · cases depth with
      | zero =>
        rw [skip_close_zero hx, skip_close_zero hx']
        exact ⟨_, rfl, hnext⟩
      | succ depth =>
        rw [skip_close_succ hx, skip_close_succ hx']
        exact ih _ _ _ hx hnext depth _

section

variable {allowElse : Bool} {depth skipped count : Nat} {marker : Marker} {next : Cursor}
  {trap : Trap}

theorem SameText.skip_eq_ok (h : c.SameText c')
    (hskip : c.skip allowElse depth skipped = .ok (marker, next, count)) :
    ∃ next', c'.skip allowElse depth skipped = .ok (marker, next', count) ∧
      next.SameText next' := by
  have hskips := h.skip allowElse depth skipped
  rw [hskip] at hskips
  exact hskips

theorem SameText.skip_eq_error (h : c.SameText c')
    (hskip : c.skip allowElse depth skipped = .error trap) :
    ∃ trap', c'.skip allowElse depth skipped = .error trap' ∧ trap.SameText trap' := by
  have hskips := h.skip allowElse depth skipped
  rw [hskip] at hskips
  exact hskips

end

/-! ## Checking -/

/-- An instruction fits wherever as many branches are open that have seen an `else` alike. -/
theorem Nests.sameText {span : Span} (span' : Span) {i : Instr} {after : List OpenIf}
    (hn : Nests span i opens after) (ho : opens.map (·.seenElse) = opens'.map (·.seenElse)) :
    ∃ after', Nests span' i opens' after' ∧
      after.map (·.seenElse) = after'.map (·.seenElse) := by
  cases hn with
  | plain hi => exact ⟨opens', .plain hi, ho⟩
  | branch => exact ⟨_, .branch, congrArg (false :: ·) ho⟩
  | otherwise =>
    obtain ⟨⟨at_, _⟩, outer', rfl, rfl, houter⟩ := List.map_eq_cons_iff.mp ho.symm
    exact ⟨_, .otherwise, congrArg (true :: ·) houter.symm⟩
  | close =>
    obtain ⟨o', outer', rfl, -, houter⟩ := List.map_eq_cons_iff.mp ho.symm
    exact ⟨_, .close, houter.symm⟩

theorem SameText.verify (h : c.SameText c') (ho : opens.map (·.seenElse) = opens'.map (·.seenElse))
    (hv : c.verify stream opens = .ok ()) : c'.verify stream' opens' = .ok () := by
  induction c using fetch_induction generalizing c' opens opens' with
  | step c ih =>
  have hf := h.fetch
  rcases verify_eq_ok_iff.mp hv with ⟨hx, rfl⟩ | ⟨i, tag, next, after, hx, hn, hv'⟩
  · rw [hx] at hf
    exact (verify_exhausted hf).mpr (List.map_eq_nil_iff.mp ho.symm)
  · rw [hx] at hf
    obtain ⟨tag', next', hx', -, hnext⟩ := hf
    obtain ⟨after', hn', ho'⟩ := hn.sameText tag'.span ho
    rw [verify_of_nests hx' hn']
    exact ih _ _ _ hx hnext ho' hv'

end Cursor

/-! ## Programs -/

namespace Program.SameText

variable {p q : Program} {name : String} {f : FunctionDef}

theorem symm (h : p.SameText q) : q.SameText p := ⟨h.1.symm, fun name => (h.2 name).symm⟩

theorem get?_eq_none (h : p.SameText q) (hf : p.functions.get? name = none) :
    q.functions.get? name = none := by
  have hname := h.2 name
  rw [hf] at hname
  exact Option.map_eq_none_iff.mp hname.symm

theorem exists_get? (h : p.SameText q) (hf : p.functions.get? name = some f) :
    ∃ g, q.functions.get? name = some g ∧ f.params = g.params ∧
      f.body.map (·.text) = g.body.map (·.text) := by
  have hname := h.2 name
  rw [hf] at hname
  obtain ⟨g, hg, hfg⟩ := Option.map_eq_some_iff.mp hname.symm
  obtain ⟨-, hrest⟩ := Prod.mk.inj hfg
  obtain ⟨hparams, hbody⟩ := Prod.mk.inj hrest
  exact ⟨g, hg, hparams.symm, hbody.symm⟩

/-- The check does not look at spans, but in what it reports. -/
theorem verify (h : p.SameText q) (hv : p.verify = .ok ()) : q.verify = .ok () := by
  obtain ⟨hmain, hbodies⟩ := verify_eq_ok_iff.mp hv
  refine verify_eq_ok_iff.mpr ⟨(Cursor.sameText_start h.1).verify rfl hmain, ?_⟩
  intro g hg
  obtain ⟨f, hf, -, hbody⟩ := h.symm.exists_get? (FunctionTable.get?_eq_some_iff.mpr ⟨hg, rfl⟩)
  exact (Cursor.sameText_start hbody.symm).verify rfl
    (hbodies f (FunctionTable.get?_eq_some_iff.mp hf).1)

end Program.SameText

end TokenMachine
