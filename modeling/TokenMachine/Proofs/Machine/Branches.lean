/-
  TokenMachine.Proofs.Machine.Branches — the branches of an `if` exclude each other, and rejoin.

  A true condition leads into the part up to the `else`, or to the `end` where there is none, and
  a false one into the part between them, or past the `end` at once. Inside a part a frame stays,
  whatever is opened, skipped or called there, with its blocks on top of those it came in with
  (`Frame.Inside`), until it meets the marker at the end of the part; that marker takes it past
  the `end` of the `if`, with the blocks it had before (`Closes.moves`). So a run that keeps the
  frame open executes in it only what is in the part, and comes to the token after the `end`,
  unless it returns from the frame or fails before (`State.keeps_until`,
  `State.exists_until`).
-/

import TokenMachine.Proofs.Machine.Coverage

namespace TokenMachine

/-! ## A part of a stream -/

/-- The frame is in the part of its stream from `start` to `stop`, before `after`: what is left of
the part is well formed after the blocks that were opened in it, and around these are `outer`. -/
def Frame.Inside (start stop : Nat) (after : List Token) (outer : List Block) (f : Frame) : Prop :=
  ∃ stream opens c, Cursor.verify stream opens c = .ok () ∧ start ≤ c.position ∧
    c.streamLength = stop ∧ f.cursor = c.extend after ∧
    f.blocks = opens.map OpenIf.block ++ outer

namespace Frame

variable {f g : Frame} {start stop : Nat} {part after : List Token} {outer : List Block} {i : Instr}
  {tag : Token} {next : Cursor}

theorem inside_start (h : WellNested part) (start : Nat) (after : List Token) (env : Env)
    (outer : List Block) :
    Inside start (start + part.length) after outer ⟨⟨start, part ++ after⟩, env, outer⟩ := by
  have hv := h.verify .main [] start []
  rw [List.append_nil] at hv
  have hend : Cursor.verify .main [] ⟨start + part.length, []⟩ = .ok () :=
    (Cursor.verify_exhausted (Cursor.fetch_nil _)).mpr rfl
  exact ⟨.main, [], ⟨start, part⟩, hv.trans hend, Nat.le_refl _, rfl, rfl, rfl⟩

theorem Inside.bounds (h : f.Inside start stop after outer) :
    start ≤ f.cursor.position ∧ f.cursor.position ≤ stop := by
  obtain ⟨stream, opens, c, -, hstart, hstop, hcursor, -⟩ := h
  rw [hcursor, ← hstop]
  exact ⟨hstart, Nat.le_add_right _ _⟩

/-- A frame inside a part decodes an instruction of it, and stays inside as it moves on; or it is
at the end of the part, with the blocks it came in with. -/
theorem Inside.moves_or_ends (h : f.Inside start stop after outer) :
    (∃ i tag next, f.cursor.fetch = .ready i tag next ∧
      ∀ g, f.Moves next i g → g.Inside start stop after outer) ∨
    (f.cursor = ⟨stop, after⟩ ∧ f.blocks = outer) := by
  obtain ⟨stream, opens, c, hv, hstart, hstop, hcursor, hb⟩ := h
  rcases Cursor.verify_eq_ok_iff.mp hv with ⟨hx, rfl⟩ | ⟨i, tag, c', opens', hx, hn, hv'⟩
  · have hrest := Cursor.rest_of_exhausted hx
    refine .inr ⟨?_, hb⟩
    rw [hcursor, Cursor.extend, ← hstop, Cursor.streamLength, hrest]
    rfl
  · refine .inl ⟨i, tag, c'.extend after, hcursor ▸ Cursor.fetch_extend hx after, fun g hm => ?_⟩
    have hstart' := Nat.le_trans hstart (Nat.le_of_lt (Cursor.position_lt_of_fetch hx))
    have hstop' := (Cursor.streamLength_fetch hx).trans hstop
    rcases hm.of_nests hn hb with ⟨hg, hb'⟩ | ⟨o, opens₀, marker, skipped, rfl, hskip, hb'⟩
    · exact ⟨stream, opens', c', hv', hstart', hstop', hg, hb'⟩
    · -- The skip ends inside the part, since the part is well formed by itself.
      obtain ⟨marker', c'', count, hskip', -, hv''⟩ := Cursor.skip_of_verify [] hv' rfl
      have hextend := Cursor.skip_extend hskip' after
      obtain ⟨rfl, hg⟩ := Prod.mk.inj (Except.ok.inj (hskip.symm.trans hextend))
      obtain ⟨hg, -⟩ := Prod.mk.inj hg
      have hlt := Cursor.position_lt_of_skip hskip'
      exact ⟨stream, _, c'', hv'', Nat.le_trans hstart' (Nat.le_of_lt hlt),
        (Cursor.streamLength_skip hskip').trans hstop', hg, hb'⟩

end Frame

/-! ## The end of a part -/

/-- At `stop` the stream goes on with the marker that ends a part: with the `end`, or with the
`else` after the part for true, the part for false and then the `end`. The `end` is at `e`. -/
inductive Closes (stop : Nat) : Block → List Token → Nat → Prop
  | close {block : Block} {tag : Token} {rest : List Token} :
      tag.text = Action.close.tag → Closes stop block (tag :: rest) stop
  | otherwise {tag close : Token} {elsePart rest : List Token} :
      tag.text = Action.otherwise.tag → close.text = Action.close.tag → WellNested elsePart →
      Closes stop .whenTrue (tag :: (elsePart ++ close :: rest)) (stop + 1 + elsePart.length)

namespace Closes

variable {stop e : Nat} {block : Block} {after : List Token} {outer : List Block} {f g : Frame}

/-- The marker takes a frame in the part past the `end`, and closes the block of the part. -/
theorem moves (h : Closes stop block after e) (hcursor : f.cursor = ⟨stop, after⟩)
    (hb : f.blocks = block :: outer) :
    ∃ act tag next, f.cursor.fetch = .ready (.action act) tag next ∧ act ≠ .call ∧
      ∀ g, f.Moves next (.action act) g → g.cursor.position = e + 1 ∧ g.blocks = outer := by
  rw [hcursor]
  cases h with
  | close htag =>
    refine ⟨.close, _, _, Cursor.fetch_action htag, nofun, fun g hm => ?_⟩
    cases hm with
    | plain hi => cases hi
    | close hblocks =>
      rw [hb] at hblocks
      exact ⟨rfl, (List.cons.inj hblocks).2.symm⟩
  | otherwise htag hclose helse =>
    refine ⟨.otherwise, _, _, Cursor.fetch_action htag, nofun, fun g hm => ?_⟩
    cases hm with
    | plain hi => cases hi
    | otherwise hblocks hskip =>
      rw [helse.skip_to_close _ hclose] at hskip
      cases hskip
      rw [hb] at hblocks
      exact ⟨rfl, (List.cons.inj hblocks).2.symm⟩

end Closes

/-! ## Until a frame comes past a place -/

/-- From a frame with `P` instructions lead to frames with `P`, until one that is no call leads
past `e`, to the token after it and to these blocks. -/
def LeadsPast (P : Frame → Prop) (e : Nat) (blocks : List Block) : Prop :=
  ∀ f, P f → ∃ i tag next, f.cursor.fetch = .ready i tag next ∧
    ((∀ g, f.Moves next i g → P g) ∨
      (i ≠ .action .call ∧
        ∀ g, f.Moves next i g → g.cursor.position = e + 1 ∧ g.blocks = blocks))

theorem Frame.leadsPast_inside {start stop e : Nat} {block : Block} {after : List Token}
    (h : Closes stop block after e) (outer : List Block) :
    LeadsPast (Inside start stop after (block :: outer)) e outer := by
  intro f hf
  rcases hf.moves_or_ends with ⟨i, tag, next, hx, hin⟩ | ⟨hcursor, hb⟩
  · exact ⟨i, tag, next, hx, .inl hin⟩
  · obtain ⟨act, tag, next, hx, hact, hout⟩ := h.moves hcursor hb
    exact ⟨.action act, tag, next, hx, .inr ⟨fun hi => hact (Instr.action.inj hi), hout⟩⟩

namespace State

open CallStack (Over)

variable {p : Program} {s t u v : State} {P : Frame → Prop} {e : Nat}

/-- Zero or more steps, after each of which at least `depth` calls are open: the frame that is above
as many is not left. -/
def Keeps (p : Program) (depth : Nat) : State → State → Prop :=
  Relation.ReflTransGen fun s t => s.step p = .next t ∧ depth ≤ t.frames.depth

theorem Keeps.steps {depth : Nat} (h : Keeps p depth s t) : Steps p s t :=
  Relation.ReflTransGen.mono (fun _ _ hstep => hstep.1) _ _ h

/-- The current frame of `s` is current again, at the token after position `e`, with the blocks it
has in `s`; and the frames under it are as they are in `s`. -/
def RejoinsAt (s : State) (e : Nat) (t : State) : Prop :=
  ∃ g, t.frames = s.frames.setCurrent g ∧ g.cursor.position = e + 1 ∧
    g.blocks = s.frames.current.blocks

def ReturnsFrom (p : Program) (depth : Nat) (s : State) : Prop :=
  s.frames.depth = depth ∧ ∃ tag next t,
    s.frames.current.cursor.fetch = .ready (.action .ret) tag next ∧ s.step p = .next t ∧
    t.frames.depth < depth

/-- Steps keep a frame, or one of them leaves it. -/
theorem Steps.keeps_or_leaves (h : Steps p s t) (depth : Nat) :
    Keeps p depth s t ∨
      ∃ u v, Keeps p depth s u ∧ u.step p = .next v ∧ v.frames.depth < depth := by
  induction h with
  | refl => exact .inl .refl
  | @tail t t' _ hstep ih =>
    rcases ih with hk | hleft
    · by_cases hd : depth ≤ t'.frames.depth
      · exact .inl (.tail hk ⟨hstep, hd⟩)
      · exact .inr ⟨t, t', hk, hstep, Nat.lt_of_not_le hd⟩
    · exact .inr hleft

/-- On the way past `e`: the frame has `P`, or it came past `e` in a state that rejoins. -/
inductive Until (p : Program) (P : Frame → Prop) (e : Nat) (s t u : State) : Prop
  | before {g : Frame} : s.frames.Over g u.frames → P g → Until p P e s t u
  | past {v : State} {g : Frame} :
      Keeps p s.frames.depth t v → s.RejoinsAt e v → Keeps p s.frames.depth v u →
      s.frames.Over g u.frames → e < g.cursor.position → Until p P e s t u

theorem until_step (hP : LeadsPast P e s.frames.current.blocks) (hk : Keeps p s.frames.depth t u)
    (h : Until p P e s t u) (hs : u.step p = .next v) (hd : s.frames.depth ≤ v.frames.depth) :
    Until p P e s t v := by
  cases h with
  | @before g hover hg =>
    rcases over_step hover hs with
      hover' | ⟨-, ⟨i, tag, next, g', hx, hm, hover', hcall⟩ | ⟨-, hlt⟩⟩
    · exact .before hover' hg
    · obtain ⟨i', tag', next', hx', hmoves⟩ := hP g hg
      rw [hx] at hx'
      cases hx'
      rcases hmoves with hin | ⟨hne, hout⟩
      · exact .before hover' (hin g' hm)
      · have hset := hcall.resolve_left hne
        obtain ⟨hpos, hb⟩ := hout g' hm
        have hlt : e < g'.cursor.position := hpos ▸ Nat.lt_succ_self e
        exact .past (.tail hk ⟨hs, hd⟩) ⟨g', hset, hpos, hb⟩ .refl hover' hlt
    · exact absurd hd (Nat.not_le.mpr hlt)
  | @past w g hkw hrejoins hwu hover hlt =>
    have hwv : Keeps p s.frames.depth w v := .tail hwu ⟨hs, hd⟩
    rcases over_step hover hs with
      hover' | ⟨-, ⟨i, tag, next, g', hx, hm, hover', -⟩ | ⟨-, hlt'⟩⟩
    · exact .past hkw hrejoins hwv hover' hlt
    · exact .past hkw hrejoins hwv hover' (Nat.lt_trans hlt (hm.position_lt hx))
    · exact absurd hd (Nat.not_le.mpr hlt')

theorem keeps_until (hP : LeadsPast P e s.frames.current.blocks) (ht : Until p P e s t t)
    (hk : Keeps p s.frames.depth t u) : Until p P e s t u := by
  induction hk with
  | refl => exact ht
  | tail hk hstep ih => exact until_step hP hk ih hstep.1 hstep.2

/-- A run comes past `e`, unless it returns from the frame or fails before. -/
theorem exists_until (hP : LeadsPast P e s.frames.current.blocks) (ht : Until p P e s t t) :
    ∃ u, Keeps p s.frames.depth t u ∧
      (s.RejoinsAt e u ∨ ReturnsFrom p s.frames.depth u ∨ ∃ err, u.step p = .failed err) := by
  obtain ⟨w, hw, hend⟩ := exists_end p t
  rcases hw.keeps_or_leaves s.frames.depth with hk | ⟨u, v, hk, hs, hlt⟩
  · cases keeps_until hP ht hk with
    | past hkv hrejoins => exact ⟨_, hkv, .inl hrejoins⟩
    | @before g hover hg =>
      refine ⟨w, hk, .inr (.inr ?_)⟩
      refine hend.resolve_left fun hhalt => ?_
      -- A run halts in the main stream, and at the end of it.
      obtain ⟨hx, -, hpop⟩ := step_eq_halted_iff.mp hhalt
      have hcalls : w.frames.calls = [] := by
        simpa [CallStack.inCall] using CallStack.pop?_eq_none.mp hpop
      have hdepth : w.frames.depth = 0 := by rw [w.frames.depth_eq, hcalls]; rfl
      have hset := hover.eq_of_depth (hdepth ▸ Nat.zero_le _)
      obtain ⟨i, tag, next, hx', -⟩ := hP g hg
      rw [hset, CallStack.current_setCurrent, hx'] at hx
      cases hx
  · cases keeps_until hP ht hk with
    | past hkv hrejoins => exact ⟨_, hkv, .inl hrejoins⟩
    | @before g hover hg =>
      obtain ⟨i, tag, next, hx, -⟩ := hP g hg
      rcases over_step hover hs with hover' | ⟨hset, ⟨_, _, _, _, -, -, hover', -⟩ | ⟨hleaves, -⟩⟩
      · exact absurd hover'.depth_le (Nat.not_le.mpr hlt)
      · exact absurd hover'.depth_le (Nat.not_le.mpr hlt)
      · have hcurrent : u.frames.current = g := by rw [hset, CallStack.current_setCurrent]
        cases hleaves with
        | ranOut hx' =>
          rw [hcurrent, hx] at hx'
          cases hx'
        | returned hx' =>
          have hdepth : u.frames.depth = s.frames.depth := by
            rw [hset, CallStack.depth_setCurrent]
          exact ⟨u, hk, .inr (.inl ⟨hdepth, _, _, v, hx', hs, hlt⟩)⟩

end State

/-! ## The way into a branch -/

/-- The places of the branch that the condition chooses, of an `if` at `i` with its `else` at `k?`
and its `end` at `e`, and of the marker at its end. -/
def Taken (i : Nat) (k? : Option Nat) (e : Nat) (condition : Bool) (position : Nat) : Prop :=
  match condition, k? with
  | true, some k => i < position ∧ position ≤ k
  | true, none => i < position ∧ position ≤ e
  | false, some k => k < position ∧ position ≤ e
  | false, none => False

namespace State

variable {p : Program} {s : State} {tag : Token} {next : Cursor} {rest : Stack}

theorem step_branchTrue (hx : s.frames.current.cursor.fetch = .ready (.action .branch) tag next)
    (hst : s.stack = .boolean true :: rest) :
    ∃ t, s.step p = .next t ∧ t.frames = s.frames.setCurrent
      ⟨next, s.frames.current.env, .whenTrue :: s.frames.current.blocks⟩ :=
  ⟨_, step_eq_next_iff.mpr (.execute hx (.branchTrue hst)), by simp⟩

theorem step_branchFalse {marker : Marker} {after : Cursor} {skipped : Nat}
    (hx : s.frames.current.cursor.fetch = .ready (.action .branch) tag next)
    (hst : s.stack = .boolean false :: rest)
    (hskip : next.skip true 0 0 = .ok (marker, after, skipped)) :
    ∃ t, s.step p = .next t ∧ t.frames = s.frames.setCurrent
      ⟨after, s.frames.current.env, blocksAfterSkip s.frames.current.blocks marker⟩ := by
  have hskip' : (s.dispatch next).frames.current.cursor.skip true 0 0 =
      .ok (marker, after, skipped) := by simpa using hskip
  exact ⟨_, step_eq_next_iff.mpr (.execute hx (.branchFalse hst hskip')), by simp [passed]⟩

/-- An `if` leads into the part that its condition chooses, or past its `end` where that part is
none. -/
theorem exists_step_branch {tokens : List Token} {i e : Nat} {k? : Option Nat} {condition : Bool}
    (hx : s.frames.current.cursor.fetch = .ready (.action .branch) tag ⟨i + 1, tokens.drop (i + 1)⟩)
    (hst : s.stack = .boolean condition :: rest) (hb : BranchAt tokens i k? e) :
    ∃ t P, s.step p = .next t ∧ LeadsPast P e s.frames.current.blocks ∧
      (∀ g, P g → Taken i k? e condition g.cursor.position) ∧ Until p P e s t t := by
  rcases hb.parts with ⟨thenPart, close, after, rfl, rfl, hdrop, hc, ht⟩ |
    ⟨thenPart, otherwise, elsePart, close, after, rfl, rfl, hdrop, ho, hc, ht, he⟩
  · rw [hdrop] at hx
    cases condition with
    | true =>
      obtain ⟨t, hstep, hset⟩ := step_branchTrue (p := p) hx hst
      refine ⟨t, _, hstep, Frame.leadsPast_inside (.close hc) _, fun g hg => hg.bounds,
        .before (.inl hset) (Frame.inside_start ht (i + 1) _ _ _)⟩
    | false =>
      obtain ⟨t, hstep, hset⟩ := step_branchFalse (p := p) hx hst (ht.skip_to_close _ hc true _ _ _)
      exact ⟨t, fun _ => False, hstep, fun _ h => h.elim, fun _ h => h.elim,
        .past .refl ⟨_, hset, rfl, rfl⟩ .refl (.inl hset) (Nat.lt_succ_self _)⟩
  · rw [hdrop] at hx
    cases condition with
    | true =>
      obtain ⟨t, hstep, hset⟩ := step_branchTrue (p := p) hx hst
      exact ⟨t, _, hstep, Frame.leadsPast_inside (.otherwise ho hc he) _, fun g hg => hg.bounds,
        .before (.inl hset) (Frame.inside_start ht (i + 1) _ _ _)⟩
    | false =>
      obtain ⟨t, hstep, hset⟩ := step_branchFalse (p := p) hx hst (ht.skip_to_otherwise _ ho _ _ _)
      exact ⟨t, _, hstep, Frame.leadsPast_inside (.close hc) _, fun g hg => hg.bounds,
        .before (.inl hset) (Frame.inside_start he _ _ _ _)⟩

end State

/-! ## Whole runs -/

namespace Program

open State (Keeps ReturnsFrom)

variable {p : Program} {limit : Nat} {s : State}

theorem wellNested_streamOf (hp : p.verify = .ok ()) (calls : Backtrace) :
    WellNested (p.streamOf calls) := by
  obtain ⟨hmain, hbodies⟩ := p.verify_verdict.1.mp hp
  cases calls with
  | nil => exact hmain
  | cons site outer =>
    cases hf : p.functions.get? site.function with
    | none => simpa [streamOf, hf] using WellNested.nil
    | some f =>
      rw [streamOf_cons hf]
      exact hbodies f (FunctionTable.get?_eq_some_iff.mp hf).1

/-- In a checked program every frame has passed what is of the grammar. -/
theorem reads_of_reachable (hp : p.verify = .ok ()) (hs : p.Reachable limit s) :
    s.frames.current.Reads (p.streamOf s.frames.backtrace) := by
  rcases (tracked_of_reachable hs).current with hreads | ⟨position, tag, hextra, -⟩
  · exact hreads
  · have hok := (wellNested_streamOf hp s.frames.backtrace).verify_start .main
    rw [hextra.verify] at hok
    cases hok

/-- The branches of an `if` exclude each other and rejoin. In a checked program, where a frame is
about to execute an `if` with a truth value on the stack, the `if` has one `end`, and no or one
`else`. It is executed, and from then on, as long as the frame is not left, all that it executes is
in the branch that the value chooses, up to the marker at its end, until it comes to the token after
the `end` with the blocks that it had before the `if`. And it comes there, unless it is left by a
`return` or the run fails. -/
theorem branch_rejoins {tag : Token} {next : Cursor} {condition : Bool} {rest : Stack}
    (hp : p.verify = .ok ()) (hs : p.Reachable limit s)
    (hx : s.frames.current.cursor.fetch = .ready (.action .branch) tag next)
    (hst : s.stack = .boolean condition :: rest) :
    ∃ k? e t,
      BranchAt (p.streamOf s.frames.backtrace) s.frames.current.cursor.position k? e ∧
      (∀ k?' e', BranchAt (p.streamOf s.frames.backtrace) s.frames.current.cursor.position k?' e' →
        k?' = k? ∧ e' = e) ∧
      s.step p = .next t ∧
      (∀ u, Keeps p s.frames.depth t u → u.frames.depth = s.frames.depth →
        Taken s.frames.current.cursor.position k? e condition u.frames.current.cursor.position ∨
        (e < u.frames.current.cursor.position ∧
          ∃ v, Keeps p s.frames.depth t v ∧ s.RejoinsAt e v ∧ Keeps p s.frames.depth v u)) ∧
      ∃ u, Keeps p s.frames.depth t u ∧
        (s.RejoinsAt e u ∨ ReturnsFrom p s.frames.depth u ∨ ∃ err, u.step p = .failed err) := by
  have hw := wellNested_streamOf hp s.frames.backtrace
  obtain ⟨passed, opens, htokens, hpos, hopen, -⟩ := reads_of_reachable hp hs
  obtain ⟨hpass, htag⟩ := Cursor.passes_action hx
  have hrest : s.frames.current.cursor.rest = tag :: next.rest := hpass.rest
  rw [htokens, hrest] at hw
  obtain ⟨k?, e, hbranch⟩ := hopen.exists_branchAt htag hw
  rw [← hrest, ← htokens, ← hpos] at hbranch
  have hnext : next = ⟨s.frames.current.cursor.position + 1,
      (p.streamOf s.frames.backtrace).drop (s.frames.current.cursor.position + 1)⟩ := by
    have hdrop : (passed ++ tag :: next.rest).drop (passed.length + 1) = next.rest := by
      simp [List.drop_append]
    rw [htokens, hrest, hpos, hdrop, ← hpos]
    exact congrArg (Cursor.mk · next.rest) hpass.position
  obtain ⟨t, P, hstep, hP, htaken, ht⟩ := State.exists_step_branch (p := p) (hnext ▸ hx) hst hbranch
  refine ⟨k?, e, t, hbranch, fun _ _ => hbranch.unique, hstep, fun u hk hdepth => ?_,
    State.exists_until hP ht⟩
  cases State.keeps_until hP ht hk with
  | @before g hover hg =>
    rw [hover.eq_of_depth (Nat.le_of_eq hdepth), CallStack.current_setCurrent]
    exact .inl (htaken g hg)
  | @past v g htv hrejoins hvu hover hlt =>
    refine .inr ⟨?_, v, htv, hrejoins, hvu⟩
    rw [hover.eq_of_depth (Nat.le_of_eq hdepth), CallStack.current_setCurrent]
    exact hlt

/-- In the branch for true the main stream calls `f`, which returns out of an open branch, and has
an `if` of its own; operands are spelled like markers. -/
def nestsBranches : Program where
  main := word <$> ["bool", "true", "if", "ident", "f", "call", "bool", "if", "if", "string", "end",
    "else", "string", "else", "end", "print", "else", "string", "end", "end"]
  functions := ⟨[⟨"f", [], word <$> ["bool", "true", "if", "bool", "true", "return", "else", "end"],
    .dummy⟩], by simp⟩
where
  word (text : String) : Token := ⟨text, .dummy⟩

/-- The `else` of the first `if` is at 16 and its `end` at 19. The main stream executes what is
between 2 and 16 and rejoins at 20. -/
theorem nestsBranches_rejoins :
    nestsBranches.verify = .ok () ∧
    ∃ s t, nestsBranches.Reachable 1 s ∧ s.frames.current.cursor.position = 2 ∧
      s.stack = [.boolean true] ∧ s.step nestsBranches = .next t ∧
      BranchAt nestsBranches.main 2 (some 16) 19 ∧
      (∀ u, Keeps nestsBranches 0 t u → u.frames.depth = 0 → u.frames.current.cursor.position ≤ 19 →
        2 < u.frames.current.cursor.position ∧ u.frames.current.cursor.position ≤ 16) ∧
      ∃ u, Keeps nestsBranches 0 t u ∧ s.RejoinsAt 19 u := by
  have hp : nestsBranches.verify = .ok () := by cbv
  have hskip : Cursor.skip true 0 0 ⟨3, nestsBranches.main.drop 3⟩ =
      .ok (.otherwise, ⟨17, nestsBranches.main.drop 17⟩, 14) := by cbv
  have hskip' : Cursor.skip false 0 0 ⟨17, nestsBranches.main.drop 17⟩ =
      .ok (.close, ⟨20, nestsBranches.main.drop 20⟩, 3) := by cbv
  have hinner : Cursor.skip true 0 0 ⟨9, nestsBranches.main.drop 9⟩ =
      .ok (.otherwise, ⟨12, nestsBranches.main.drop 12⟩, 3) := by cbv
  obtain ⟨s, tag, next, hs, hx, hst, hpos, hcalls⟩ : ∃ s tag next, nestsBranches.Reachable 1 s ∧
      s.frames.current.cursor.fetch = .ready (.action .branch) tag next ∧
      s.stack = [.boolean true] ∧ s.frames.current.cursor.position = 2 ∧ s.frames.calls = [] :=
    ⟨_, _, _, .tail .refl rfl, rfl, rfl, rfl, rfl⟩
  have hdepth : s.frames.depth = 0 := by rw [s.frames.depth_eq, hcalls]; rfl
  have hstream : nestsBranches.streamOf s.frames.backtrace = nestsBranches.main := by
    rw [CallStack.backtrace, hcalls]
    rfl
  obtain ⟨last, hlast, hhalt⟩ : ∃ u, nestsBranches.Reachable 1 u ∧ u.step nestsBranches = .halted :=
    ⟨_, .tail (.tail (.tail (.tail (.tail (.tail (.tail (.tail (.tail (.tail (.tail (.tail (.tail
      (.tail .refl rfl) rfl) rfl) rfl) rfl) rfl) rfl) rfl) rfl)
      (State.step_eq_next_iff.mpr (.execute rfl (.branchFalse rfl hinner)))) rfl) rfl) rfl)
      (State.step_eq_next_iff.mpr (.execute rfl (.otherwise rfl hskip'))), rfl⟩
  obtain ⟨k?, e, t, hbranch, -, hstep, hall, hend⟩ := branch_rejoins hp hs hx hst
  rw [hdepth] at hall hend
  rw [hpos, hstream] at hbranch
  rw [hpos] at hall
  obtain ⟨marker, next', count, hnext', hmarker⟩ := hbranch.skips
  rw [hskip] at hnext'
  cases hnext'
  cases k? with
  | none => cases hmarker.1
  | some k =>
    obtain ⟨-, hk, last, count, hlast', he⟩ := hmarker
    rw [hskip'] at hlast'
    cases hlast'
    obtain rfl : 16 = k := Nat.succ.inj hk
    obtain rfl : 19 = e := Nat.succ.inj he
    refine ⟨hp, s, t, hs, hpos, hst, hstep, hbranch, fun u hu hdu hle => ?_, ?_⟩
    · rcases hall u hu hdu with htaken | ⟨hlt, -⟩
      · exact htaken
      · exact absurd hle (Nat.not_le.mpr hlt)
    · obtain ⟨u, hu, hrejoins | ⟨-, _, _, _, -, -, hlt⟩ | ⟨err, hfail⟩⟩ := hend
      · exact ⟨u, hu, hrejoins⟩
      · exact absurd hlt (Nat.not_lt_zero _)
      · -- The run does not fail, as it halts.
        have hreach : nestsBranches.Reachable 1 u := hs.tail hstep |>.trans hu.steps
        have hfailed : nestsBranches.run ⟨1⟩ = u.run nestsBranches := Reachable.run_eq hreach
        have hhalted : nestsBranches.run ⟨1⟩ = _ := Reachable.run_eq hlast
        rw [State.run_of_failed hfail] at hfailed
        rw [State.run_of_halted hhalt, hfailed] at hhalted
        cases congrArg Execution.result hhalted

end Program

end TokenMachine
