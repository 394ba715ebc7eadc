/-
  TokenMachine.Proofs.Machine.Coverage — a run that succeeds has checked its streams.

  Nothing need be checked before a run. What a frame has passed of its stream, by instructions
  and by skips, is a stream of the grammar cut off inside the branches that are its blocks
  (`Frame.Reads`): an instruction that did not fit would have failed, and a skip passes what is
  well nested. It has one gap: a skip does not look for a second `else` inside the branches
  that it passes over. So each step keeps this of every frame, or skips over such an `else`
  (`Frame.Reads.moves`), and then that is the first fault of the stream. At the end of a stream
  no block is open, and what was passed is all of it: a stream that was run to its end is well
  formed, or its first fault is a second `else` in a branch that was skipped
  (`Program.run_covers`).
-/

import TokenMachine.Proofs.Machine.Moves

namespace TokenMachine

/-! ## A second `else` -/

/-- At this position of the stream stands an `else` whose branch has one already, inside another
branch. -/
def ExtraElse (tokens : List Token) (position : Nat) (tag : Token) : Prop :=
  ∃ passed rest at_ around, tokens = passed ++ tag :: rest ∧ passed.length = position ∧
    tag.text = Action.otherwise.tag ∧ Opened (⟨at_, true⟩ :: around) passed ∧ around ≠ []

/-- The check refuses it. -/
theorem ExtraElse.verify {tokens : List Token} {position : Nat} {tag : Token}
    (h : ExtraElse tokens position tag) (stream : StreamName) :
    (Cursor.start tokens).verify stream [] = .error (.duplicateElse stream tag.span) := by
  obtain ⟨passed, rest, at_, around, htokens, -, htag, hopen, -⟩ := h
  exact Cursor.verify_start_eq_error_iff.mpr
    ⟨passed, _, _, htokens, hopen, .duplicate htag rfl⟩

/-- The marker that a skip ends at is that of the branch that it skips. -/
theorem Opened.marker {o : OpenIf} {outer : List OpenIf} {ts : List Token} {marker : Marker}
    {tag : Token} (h : Opened (o :: outer) ts) (htag : tag.text = marker.action.tag)
    (hm : marker = .otherwise → o.seenElse = false) :
    Opened (Cursor.opensAfterSkip o outer marker) (ts ++ [tag]) := by
  obtain ⟨at_, seen⟩ := o
  cases marker with
  | otherwise =>
    cases hm rfl
    exact h.otherwise htag
  | close => exact h.close htag

/-! ## What a frame has passed -/

/-- What the frame has passed of the stream is of the grammar, cut off inside its blocks. -/
def Frame.Reads (tokens : List Token) (f : Frame) : Prop :=
  ∃ passed opens, tokens = passed ++ f.cursor.rest ∧ f.cursor.position = passed.length ∧
    Opened opens passed ∧ f.blocks = opens.map OpenIf.block

namespace Frame

variable {tokens : List Token} {f g : Frame} {i : Instr} {tag : Token} {next : Cursor}

theorem reads_start (tokens : List Token) (env : Env) : (start tokens env).Reads tokens :=
  ⟨[], [], rfl, rfl, .outside .nil, rfl⟩

/-- A frame that moves on has passed what is of the grammar, or has skipped over a second `else`. -/
theorem Reads.moves (h : f.Reads tokens) (hx : f.cursor.fetch = .ready i tag next)
    (hm : f.Moves next i g) :
    g.Reads tokens ∨ ∃ position tag, ExtraElse tokens position tag ∧
      f.cursor.position < position ∧ position + 1 < g.cursor.position := by
  obtain ⟨passed, opens, rfl, hpos, hopen, hb⟩ := h
  obtain ⟨opens', hn⟩ := hm.nests hb tag.span
  obtain ⟨taken, hrest, hnext, hopen'⟩ := hopen.fetch hx hn
  have hblocks : f.blocks = opens.map OpenIf.block ++ [] := by rw [hb, List.append_nil]
  rcases hm.of_nests hn hblocks with
    ⟨hcursor, hb'⟩ | ⟨o, outer, marker, skipped, rfl, hskip, hb'⟩
  · refine .inl ⟨passed ++ taken, opens', ?_, ?_, hopen', by rw [hb', List.append_nil]⟩
    · rw [hrest, hcursor, List.append_assoc]
    · rw [hcursor, hnext, hpos, List.length_append]
  · rcases (Opened.outside .nil).skip hskip with
      ⟨part, last, hpass, hlast, hpart⟩ | ⟨part, extra, mid, at_, inner, hpass, hlt, hextra, hin⟩
    · have hmarker : marker = .otherwise → o.seenElse = false := by
        rintro rfl
        cases hseen : o.seenElse with
        | false => rfl
        | true =>
          rw [hseen] at hskip
          cases Cursor.skip_false hskip
      refine .inl ⟨passed ++ taken ++ part ++ [last], _, ?_, ?_,
        (hopen'.append hpart).marker hlast hmarker, by rw [hb', List.append_nil]⟩
      · rw [hrest, hpass.rest]
        simp
      · rw [hpass.position, hnext, hpos]
        simp only [List.length_append, List.length_singleton]
    · have hlt' := Cursor.position_lt_of_fetch hx
      refine .inr ⟨(passed ++ taken ++ part).length, extra,
        ⟨_, mid.rest, at_, inner ++ o :: outer, ?_, rfl, hextra, hopen'.within hin, by simp⟩,
        ?_, ?_⟩
      · rw [hrest, hpass.rest]
        simp
      · simp only [List.length_append]
        omega
      · have hmid := hpass.position
        simp only [List.length_append]
        omega

/-- A frame that is done has passed all of its stream. -/
theorem Reads.wellNested (h : f.Reads tokens) (hx : f.cursor.fetch = .exhausted)
    (hb : f.blocks = []) : WellNested tokens := by
  obtain ⟨passed, opens, rfl, -, hopen, hopens⟩ := h
  rw [hb] at hopens
  cases List.map_eq_nil_iff.mp hopens.symm
  rw [Cursor.rest_of_exhausted hx, List.append_nil]
  cases hopen with
  | outside hw => exact hw

end Frame

/-! ## Whole runs -/

namespace Program

variable {p : Program} {limit : Nat} {s : State} {tokens : List Token}

def SkipsOver (p : Program) (limit : Nat) (tokens : List Token) (position : Nat) : Prop :=
  ∃ s t, p.Reachable limit s ∧ s.step p = .next t ∧ p.streamOf s.frames.backtrace = tokens ∧
    t.frames.backtrace = s.frames.backtrace ∧ s.frames.current.cursor.position < position ∧
    position + 1 < t.frames.current.cursor.position

/-- The stream is well formed, or its first fault is an extra `else`, inside a branch that the run
skipped. -/
def Covers (p : Program) (limit : Nat) (stream : StreamName) (tokens : List Token) : Prop :=
  (Cursor.start tokens).verify stream [] = .ok () ∨
    ∃ position tag,
      (Cursor.start tokens).verify stream [] = .error (.duplicateElse stream tag.span) ∧
      ExtraElse tokens position tag ∧ p.SkipsOver limit tokens position

def RunsOut (p : Program) (limit : Nat) (f : FunctionDef) : Prop :=
  ∃ s t call outer, p.Reachable limit s ∧ s.frames.calls = call :: outer ∧
    p.functions.get? call.site.function = some f ∧
    s.frames.current.cursor.fetch = .exhausted ∧ s.step p = .next t

/-- Every frame has passed what is of the grammar, unless the run skipped over an extra `else` of
its stream. -/
def Tracked (p : Program) (limit : Nat) (tokens : List Token) (f : Frame) : Prop :=
  f.Reads tokens ∨ ∃ position tag, ExtraElse tokens position tag ∧ p.SkipsOver limit tokens position

theorem tracked_step {t : State} (hs : p.Reachable limit s) (h : s.frames.Each p (p.Tracked limit))
    (hstep : s.step p = .next t) : t.frames.Each p (p.Tracked limit) := by
  cases State.goes_of_step hstep with
  | @moves i tag next g hx hm ht =>
    have hcurrent : t.frames.current = g := by rw [ht, CallStack.current_setCurrent]
    have hback : t.frames.backtrace = s.frames.backtrace := by
      rw [ht, CallStack.backtrace_setCurrent]
    rw [ht]
    refine h.setCurrent ?_
    rcases h.current with hreads | hskips
    · rcases hreads.moves hx hm with hreads' | ⟨position, tag, hextra, hlt, hlt'⟩
      · exact .inl hreads'
      · exact .inr ⟨position, tag, hextra, s, t, hs, hstep, rfl, hback, hlt, hcurrent ▸ hlt'⟩
    · exact .inr hskips
  | @calls tag next g name f env hx hm hf ht =>
    rw [ht]
    refine (h.setCurrent ?_).enter ?_
    · rcases h.current with hreads | hskips
      · rcases hreads.moves hx hm with hreads' | ⟨position, tag, hextra, hlt, hlt'⟩
        · exact .inl hreads'
        · -- A call is one token, so nothing is skipped by it.
          cases hm with
          | plain =>
            have hnext := (Cursor.passes_action hx).1.position
            simp only [List.length_nil] at hnext
            dsimp only at hlt'
            omega
      · exact .inr hskips
    · have hstream : p.streamOf [⟨name, tag.span⟩] = f.body := streamOf_cons hf []
      exact .inl (hstream ▸ Frame.reads_start f.body env)
  | leaves _ hpop => exact h.pop? hpop

theorem tracked_of_reachable (hs : p.Reachable limit s) : s.frames.Each p (p.Tracked limit) := by
  induction hs with
  | refl => exact ⟨.inl (Frame.reads_start p.main .empty), nofun⟩
  | tail hs hstep ih => exact tracked_step hs ih hstep

/-- A stream that a reachable frame is done with is covered. -/
theorem covers_of_done (hs : p.Reachable limit s) (stream : StreamName)
    (hstream : p.streamOf s.frames.backtrace = tokens)
    (hx : s.frames.current.cursor.fetch = .exhausted) (hb : s.frames.current.blocks = []) :
    p.Covers limit stream tokens := by
  subst hstream
  rcases (tracked_of_reachable hs).current with hreads | ⟨position, tag, hextra, hskips⟩
  · exact .inl ((hreads.wellNested hx hb).verify_start stream)
  · exact .inr ⟨position, tag, hextra.verify stream, hextra, hskips⟩

/-- If a run succeeds, its main stream is well formed, whether it was checked or not, or its first
fault is a second `else` of a branch inside one that the run skipped; and so is the body of each
function that a call of the run came to the end of. -/
theorem run_covers {config : Config} {outcome : Outcome}
    (h : (p.run config).result = .ok outcome) :
    p.Covers config.maxCallDepth .main p.main ∧
      ∀ f, p.RunsOut config.maxCallDepth f →
        p.Covers config.maxCallDepth (.function f.name) f.body := by
  constructor
  · obtain ⟨s, hs, ⟨hhalt, -⟩ | ⟨e, -, hrun⟩⟩ := p.exists_last config
    · obtain ⟨hx, hb, hpop⟩ := State.step_eq_halted_iff.mp hhalt
      refine covers_of_done hs .main ?_ hx hb
      have hcalls : s.frames.calls = [] := by
        simpa [CallStack.inCall] using CallStack.pop?_eq_none.mp hpop
      rw [CallStack.backtrace, hcalls]
      rfl
    · rw [hrun] at h
      cases h
  · rintro f ⟨s, t, call, outer, hs, hcalls, hf, hx, hstep⟩
    rcases State.step_eq_next_iff.mp hstep with ⟨-, hb, -⟩ | ⟨hx', -⟩
    · refine covers_of_done hs _ ?_ hx hb
      rw [CallStack.backtrace, hcalls]
      exact streamOf_cons hf _
    · rw [hx] at hx'
      cases hx'

/-- The main stream skips a branch with an `if` that has its `else` twice, and then calls `f`, which
skips to an `else` and comes to its end. -/
def skipsExtra : Program where
  main := word <$> ["bool", "no", "if", "bool", "true", "if", "else", "else", "end", "end",
    "ident", "f", "call"]
  functions := ⟨[⟨"f", [], word <$> ["bool", "else", "if", "end", "string", "end", "print"],
    .dummy⟩], by simp⟩
where
  word (text : String) : Token := ⟨text, .dummy⟩

/-- The check refuses it and it runs. What is refused is the second `else`, which the run skipped
over; of the body of `f` it has seen all. -/
theorem skipsExtra_covers :
    (Cursor.start skipsExtra.main).verify .main [] = .error (.duplicateElse .main .dummy) ∧
    (∃ outcome, (skipsExtra.run ⟨1⟩).result = .ok outcome) ∧
    (∃ position tag, ExtraElse skipsExtra.main position tag ∧
      skipsExtra.SkipsOver 1 skipsExtra.main position) ∧
    ∃ f ∈ skipsExtra.functions.defs, skipsExtra.RunsOut 1 f ∧
      skipsExtra.Covers 1 (.function f.name) f.body := by
  have hverify : (Cursor.start skipsExtra.main).verify .main [] =
      .error (.duplicateElse .main .dummy) := by cbv
  have hskip : Cursor.skip true 0 0 ⟨3, skipsExtra.main.drop 3⟩ =
      .ok (.close, ⟨10, skipsExtra.main.drop 10⟩, 7) := by cbv
  obtain ⟨f, hmem, hf⟩ : ∃ f ∈ skipsExtra.functions.defs,
      skipsExtra.functions.get? "f" = some f := ⟨_, List.mem_cons_self, rfl⟩
  have hskip' : Cursor.skip true 0 0 ⟨3, f.body.drop 3⟩ =
      .ok (.close, ⟨4, f.body.drop 4⟩, 1) := by
    cases hf
    cbv
  -- The run up to the end of the body of `f`, and on to its own end.
  obtain ⟨s, t, hs, hcall, hx, hstep, hhalt⟩ : ∃ s t, skipsExtra.Reachable 1 s ∧
      (∃ frame, s.frames.calls = [⟨⟨"f", .dummy⟩, frame⟩]) ∧
      s.frames.current.cursor.fetch = .exhausted ∧ s.step skipsExtra = .next t ∧
      t.step skipsExtra = .halted := by
    cases hf
    exact ⟨_, _, .tail (.tail (.tail (.tail (.tail (.tail (.tail (.tail .refl rfl)
      (State.step_eq_next_iff.mpr (.execute rfl (.branchFalse rfl hskip)))) rfl) rfl) rfl)
      (State.step_eq_next_iff.mpr (.execute rfl (.branchFalse rfl hskip')))) rfl) rfl,
      ⟨_, rfl⟩, rfl, rfl, rfl⟩
  have hrun : (skipsExtra.run ⟨1⟩).result = .ok ⟨t.stack.reverse, t.counters⟩ := by
    have hreach : skipsExtra.Reachable 1 t := .tail hs hstep
    have hlast : skipsExtra.run ⟨1⟩ = t.run skipsExtra := Reachable.run_eq hreach
    rw [hlast, State.run_of_halted hhalt]
  obtain ⟨hmain, hbodies⟩ := run_covers hrun
  refine ⟨hverify, ⟨_, hrun⟩, ?_, f, hmem, ?_⟩
  · rcases hmain with hok | ⟨position, tag, -, hextra, hskips⟩
    · rw [hverify] at hok
      cases hok
    · exact ⟨position, tag, hextra, hskips⟩
  · obtain ⟨frame, hcalls⟩ := hcall
    have hout : skipsExtra.RunsOut 1 f := ⟨s, t, _, _, hs, hcalls, hf, hx, hstep⟩
    exact ⟨hout, hbodies f hout⟩

end Program

end TokenMachine
