/-
  TokenMachine.Proofs.Machine.Moves — what a step does to the frames.

  Whatever a step does to the stack, it does one of three things to the frames (`State.Goes`):
  the current frame moves on, or it moves on and a call is put on top of it, or the innermost
  call is left. A frame moves on (`Frame.Moves`) past the instruction, and then its blocks are
  the branches that the instruction opens and closes; or further, past the rest of a branch that
  is skipped, and then they are those open where the skip ended (`Frame.Moves.of_nests`).
  A frame that a run keeps open is followed by it through the calls made from it
  (`CallStack.Over`, `over_step`).
-/

import TokenMachine.Proofs.Machine.Isolation
import TokenMachine.Proofs.Machine.Location
import TokenMachine.Proofs.Machine.Structure
import TokenMachine.Proofs.Stream.Matching

namespace TokenMachine

open State (blocksAfterSkip)

/-! ## One frame -/

/-- What an instruction, of which `next` is past, does to the frame that it is executed in. -/
inductive Frame.Moves (f : Frame) (next : Cursor) : Instr → Frame → Prop
  | plain {i : Instr} {env : Env} : i.isPlain = true → Moves f next i ⟨next, env, f.blocks⟩
  | branchTrue : Moves f next (.action .branch) ⟨next, f.env, .whenTrue :: f.blocks⟩
  | branchFalse {marker : Marker} {after : Cursor} {skipped : Nat} :
      next.skip true 0 0 = .ok (marker, after, skipped) →
      Moves f next (.action .branch) ⟨after, f.env, blocksAfterSkip f.blocks marker⟩
  | otherwise {outer : List Block} {marker : Marker} {after : Cursor} {skipped : Nat} :
      f.blocks = .whenTrue :: outer → next.skip false 0 0 = .ok (marker, after, skipped) →
      Moves f next (.action .otherwise) ⟨after, f.env, outer⟩
  | close {block : Block} {outer : List Block} :
      f.blocks = block :: outer → Moves f next (.action .close) ⟨next, f.env, outer⟩

namespace Frame.Moves

variable {f g : Frame} {i : Instr} {tag : Token} {next : Cursor} {opens opens' : List OpenIf}
  {outer : List Block}

theorem position_lt (h : f.Moves next i g) (hx : f.cursor.fetch = .ready i tag next) :
    f.cursor.position < g.cursor.position := by
  have hnext := Cursor.position_lt_of_fetch hx
  cases h with
  | plain | branchTrue | close => exact hnext
  | branchFalse hskip | otherwise _ hskip =>
    exact Nat.lt_trans hnext (Cursor.position_lt_of_skip hskip)

/-- An instruction that a frame could execute fits the branches that are its blocks. -/
theorem nests (h : f.Moves next i g) (hb : f.blocks = opens.map OpenIf.block) (span : Span) :
    ∃ opens', Cursor.Nests span i opens opens' := by
  cases h with
  | plain hi => exact ⟨_, .plain hi⟩
  | branchTrue | branchFalse => exact ⟨_, .branch⟩
  | otherwise hblocks =>
    rcases opens with _ | ⟨⟨at_, _ | _⟩, opens⟩
    · rw [hblocks] at hb; cases hb
    · exact ⟨_, .otherwise⟩
    · rw [hblocks] at hb; cases hb
  | close hblocks =>
    cases opens with
    | nil => rw [hblocks] at hb; cases hb
    | cons o opens => exact ⟨_, .close⟩

/-- A frame whose innermost blocks are branches open for the check moves past the instruction, and
they become what is open then; or past the rest of the branch that is innermost then, and they
become what is open where the skip ended. -/
theorem of_nests {span : Span} (h : f.Moves next i g) (hn : Cursor.Nests span i opens opens')
    (hb : f.blocks = opens.map OpenIf.block ++ outer) :
    (g.cursor = next ∧ g.blocks = opens'.map OpenIf.block ++ outer) ∨
    ∃ o opens₀ marker skipped, opens' = o :: opens₀ ∧
      next.skip (!o.seenElse) 0 0 = .ok (marker, g.cursor, skipped) ∧
      g.blocks = (Cursor.opensAfterSkip o opens₀ marker).map OpenIf.block ++ outer := by
  cases h with
  | plain hi =>
    cases hn with
    | plain => exact .inl ⟨rfl, hb⟩
    | _ => cases hi
  | branchTrue =>
    cases hn with
    | plain hi => cases hi
    | branch => exact .inl ⟨rfl, congrArg (Block.whenTrue :: ·) hb⟩
  | @branchFalse marker _ _ hskip =>
    cases hn with
    | plain hi => cases hi
    | branch =>
      refine .inr ⟨_, _, marker, _, rfl, hskip, ?_⟩
      cases marker with
      | otherwise => exact congrArg (Block.whenFalse :: ·) hb
      | close => exact hb
  | otherwise hblocks hskip =>
    cases hn with
    | plain hi => cases hi
    | otherwise =>
      have hclose := Cursor.skip_false hskip
      subst hclose
      rw [hblocks] at hb
      exact .inr ⟨_, _, .close, _, rfl, hskip, (List.cons.inj hb).2⟩
  | close hblocks =>
    cases hn with
    | plain hi => cases hi
    | close =>
      rw [hblocks] at hb
      exact .inl ⟨rfl, (List.cons.inj hb).2⟩

end Frame.Moves

/-! ## The frames of a step -/

namespace State

inductive Goes (p : Program) (s t : State) : Prop
  | moves {i : Instr} {tag : Token} {next : Cursor} {g : Frame} :
      s.frames.current.cursor.fetch = .ready i tag next → s.frames.current.Moves next i g →
      t.frames = s.frames.setCurrent g → Goes p s t
  | calls {tag : Token} {next : Cursor} {g : Frame} {name : String} {f : FunctionDef} {env : Env} :
      s.frames.current.cursor.fetch = .ready (.action .call) tag next →
      s.frames.current.Moves next (.action .call) g → p.functions.get? name = some f →
      t.frames = (s.frames.setCurrent g).enter ⟨⟨name, tag.span⟩, .start f.body env⟩ →
      Goes p s t
  | leaves {call : Call} : s.Leaves t → s.frames.pop? = some (call, t.frames) → Goes p s t

variable {p : Program} {s t : State}

theorem goes_of_step (hs : s.step p = .next t) : s.Goes p t := by
  rcases step_eq_next_iff.mp hs with ⟨hx, -, hpop⟩ | @⟨i, tag, next, _, hx, he⟩
  · exact .leaves (.ranOut hx rfl) hpop
  -- An instruction that leaves the blocks as they are moves the frame to `next`.
  have plain (env : Env) (hi : i.isPlain = true) :
      s.frames.current.Moves next i ⟨next, env, s.frames.current.blocks⟩ := .plain hi
  cases he with
  | literal | load | binary | print => exact .moves hx (plain _ rfl) rfl
  | @bind name v _ _ => exact .moves hx (plain (s.frames.current.env.bind name v) rfl) (by simp)
  | branchTrue => exact .moves hx .branchTrue (by simp)
  | branchFalse _ hskip =>
    simp only [frames_dispatch, CallStack.current_setCurrent] at hskip
    exact .moves hx (.branchFalse hskip) (by simp [passed])
  | otherwise hblocks hskip =>
    simp only [frames_dispatch, CallStack.current_setCurrent] at hblocks hskip
    exact .moves hx (.otherwise hblocks hskip) (by simp [passed])
  | close hblocks =>
    simp only [frames_dispatch, CallStack.current_setCurrent] at hblocks
    exact .moves hx (.close hblocks) (by simp)
  | call _ hf => exact .calls hx (plain _ rfl) hf rfl
  | ret hpop hst =>
    have hpop' := CallStack.pop?_setCurrent hpop s.frames.current
    rw [frames_dispatch, CallStack.setCurrent_setCurrent, CallStack.setCurrent_current] at hpop'
    exact .leaves (.returned hx hst hst.symm) hpop'

end State

namespace CallStack

/-! ## A property of every frame and the stream it is in -/

def Each (p : Program) (P : List Token → Frame → Prop) (s : CallStack) : Prop :=
  P p.main s.top ∧ ∀ call ∈ s.calls, P (p.streamOf [call.site]) call.frame

variable {p : Program} {P : List Token → Frame → Prop} {s s' : CallStack} {call : Call}

theorem Each.current (h : s.Each p P) : P (p.streamOf s.backtrace) s.current := by
  obtain ⟨top, calls, depth, limit, hd⟩ := s
  cases calls with
  | nil => exact h.1
  | cons call rest => exact h.2 call List.mem_cons_self

theorem Each.setCurrent (h : s.Each p P) {f : Frame} (hf : P (p.streamOf s.backtrace) f) :
    (s.setCurrent f).Each p P := by
  obtain ⟨top, calls, depth, limit, hd⟩ := s
  cases calls with
  | nil => exact ⟨hf, h.2⟩
  | cons call rest =>
    obtain ⟨-, hrest⟩ := List.forall_mem_cons.mp h.2
    exact ⟨h.1, List.forall_mem_cons.mpr ⟨hf, hrest⟩⟩

theorem Each.enter (h : s.Each p P) (hf : P (p.streamOf [call.site]) call.frame) :
    (s.enter call).Each p P :=
  ⟨h.1, List.forall_mem_cons.mpr ⟨hf, h.2⟩⟩

theorem Each.pop? (h : s.Each p P) (hp : s.pop? = some (call, s')) : s'.Each p P := by
  obtain ⟨hcalls, htop, -⟩ := pop?_eq_some hp
  obtain ⟨-, hrest⟩ := List.forall_mem_cons.mp (hcalls ▸ h.2)
  exact ⟨htop ▸ h.1, hrest⟩

/-! ## A frame that stays open -/

/-- The frames are those of `base` with `g` for the current one, alone or under calls made since. -/
def Over (base : CallStack) (g : Frame) (s : CallStack) : Prop :=
  s = base.setCurrent g ∨ ∃ site, (base.setCurrent g).Under site s

variable {base : CallStack} {g : Frame}

theorem Over.depth_le (h : base.Over g s) : base.depth ≤ s.depth := by
  rcases h with rfl | ⟨site, hu⟩
  · exact Nat.le_of_eq (depth_setCurrent ..).symm
  · exact Nat.le_of_lt (base.depth_setCurrent g ▸ hu.depth_lt)

/-- With no more calls open than in `base`, the frame is the current one. -/
theorem Over.eq_of_depth (h : base.Over g s) (hd : s.depth ≤ base.depth) :
    s = base.setCurrent g := by
  rcases h with rfl | ⟨site, hu⟩
  · rfl
  · exact absurd (base.depth_setCurrent g ▸ hu.depth_lt) (Nat.not_lt.mpr hd)

end CallStack

namespace State

open CallStack (Over)

variable {p : Program} {u v : State} {base : CallStack} {g : Frame}

/-- A step of a call made since leaves the frame as it is. A step of the frame itself moves it, with
a call on top of it only if that is the instruction, or leaves it. -/
theorem over_step (h : base.Over g u.frames) (hs : u.step p = .next v) :
    base.Over g v.frames ∨ (u.frames = base.setCurrent g ∧
      ((∃ i tag next g', g.cursor.fetch = .ready i tag next ∧ g.Moves next i g' ∧
          base.Over g' v.frames ∧ (i = .action .call ∨ v.frames = base.setCurrent g')) ∨
        (u.Leaves v ∧ v.frames.depth < base.depth))) := by
  rcases h with heq | ⟨site, hu⟩
  · refine .inr ⟨heq, ?_⟩
    have hcurrent : u.frames.current = g := by rw [heq, CallStack.current_setCurrent]
    have hset (g' : Frame) : u.frames.setCurrent g' = base.setCurrent g' := by
      rw [heq, CallStack.setCurrent_setCurrent]
    cases goes_of_step hs with
    | @moves i tag next g' hx hm hv =>
      rw [hset] at hv
      exact .inl ⟨i, tag, next, g', hcurrent ▸ hx, hcurrent ▸ hm, .inl hv, .inr hv⟩
    | @calls tag next g' name f env hx hm hf hv =>
      rw [hset] at hv
      exact .inl ⟨_, tag, next, g', hcurrent ▸ hx, hcurrent ▸ hm,
        .inr ⟨_, hv ▸ CallStack.under_enter _ _ _⟩, .inl rfl⟩
    | leaves hl hpop =>
      have hdepth := CallStack.depth_of_pop? hpop
      rw [heq, CallStack.depth_setCurrent] at hdepth
      exact .inr ⟨hl, by omega⟩
  · rcases under_or_leaves hu hs with hu' | ⟨heq, -⟩
    · exact .inl (.inr ⟨site, hu'⟩)
    · exact .inl (.inl heq)

end State

end TokenMachine
