/-
  TokenMachine.Proofs.Machine.Isolation — what a call cannot touch, until it is left.

  The frames that were open when a call was made lie under the call as they were
  (`CallStack.Under`): every instruction works on the current frame, a call puts one on top,
  and only the innermost is ever closed. So each step either leaves them there or closes the
  call itself and leaves exactly them (`under_or_leaves`), by a `return`, which keeps the stack
  as it is, or at the end of the body, which pushes nothing (`Leaves`). What a run does within
  a call follows by induction along the run (`under_of_within`), and with what the call starts
  from it is all that a caller can see of it (`Program.call_isolated`).
-/

import TokenMachine.Proofs.FunctionTable
import TokenMachine.Proofs.Machine.Reach

namespace TokenMachine

/-! ## Binding a function's parameters -/

namespace Env

/-- Bind one after the other; of two values for one name the later one stays. -/
def bindAll (env : Env) (values : List (String × Value)) : Env :=
  values.foldl (fun env b => env.bind b.1 b.2) env

theorem lookup_bindAll (env : Env) (values : List (String × Value)) (name : String) :
    (env.bindAll values).lookup name = (values.reverse.lookup name).or (env.lookup name) := by
  induction values generalizing env with
  | nil => rfl
  | cons b values ih =>
    obtain ⟨param, v⟩ := b
    have hrest := ih (env.bind param v)
    rw [List.reverse_cons, List.lookup_append, Option.or_assoc]
    refine hrest.trans (congrArg _ ?_)
    by_cases hn : name = param
    · subst hn
      simp
    · have hlookup : [(param, v)].lookup name = none := by simp [hn]
      rw [lookup_bind_of_ne env v hn, hlookup, Option.none_or]

end Env

theorem Stack.popArgs_eq_ok_iff {env env' : Env} {params : List String} {st st' : Stack} :
    st.popArgs env params = .ok (env', st') ↔ ∃ args : List Value,
      st = args ++ st' ∧ args.length = params.length ∧ env' = env.bindAll (params.zip args) := by
  induction params generalizing env st with
  | nil =>
    simp only [popArgs, Except.ok.injEq, Prod.mk.injEq, List.length_nil, List.length_eq_zero_iff]
    constructor
    · rintro ⟨rfl, rfl⟩
      exact ⟨[], rfl, rfl, rfl⟩
    · rintro ⟨_, rfl, rfl, rfl⟩
      exact ⟨rfl, rfl⟩
  | cons param params ih =>
    cases st with
    | nil =>
      constructor
      · intro h
        cases h
      · rintro ⟨args, hst, hlen, -⟩
        obtain ⟨rfl, -⟩ := List.append_eq_nil_iff.mp hst.symm
        cases hlen
    | cons v st =>
      rw [popArgs, ih]
      constructor
      · rintro ⟨args, rfl, hlen, rfl⟩
        exact ⟨v :: args, rfl, congrArg (· + 1) hlen, rfl⟩
      · rintro ⟨_ | ⟨w, args⟩, hst, hlen, rfl⟩
        · cases hlen
        · cases hst
          exact ⟨args, rfl, Nat.succ.inj hlen, rfl⟩

/-! ## The frames under a call -/

namespace CallStack

/-- The frames of `caller` are in `s` as they were, under the call made at `site` and the calls
that were opened since. -/
structure Under (caller : CallStack) (site : CallSite) (s : CallStack) : Prop where
  top : s.top = caller.top
  calls : ∃ above frame, s.calls = above ++ ⟨site, frame⟩ :: caller.calls
  limit : s.limit = caller.limit

variable {caller s s' : CallStack} {site : CallSite} {call : Call}

theorem eq_of_frames (htop : s.top = s'.top) (hcalls : s.calls = s'.calls)
    (hlimit : s.limit = s'.limit) : s = s' := by
  obtain ⟨top, calls, depth, limit, hd⟩ := s
  obtain ⟨top', calls', depth', limit', hd'⟩ := s'
  cases htop
  cases hcalls
  cases hlimit
  cases hd
  cases hd'
  rfl

theorem under_enter (caller : CallStack) (site : CallSite) (frame : Frame) :
    caller.Under site (caller.enter ⟨site, frame⟩) :=
  ⟨rfl, ⟨[], frame, rfl⟩, rfl⟩

theorem Under.depth_lt (h : caller.Under site s) : caller.depth < s.depth := by
  obtain ⟨above, frame, hcalls⟩ := h.calls
  rw [caller.depth_eq, s.depth_eq, hcalls, List.length_append, List.length_cons]
  omega

theorem Under.setCurrent (h : caller.Under site s) (f : Frame) :
    caller.Under site (s.setCurrent f) := by
  obtain ⟨htop, ⟨above, frame, hcalls⟩, hlimit⟩ := h
  -- The current frame is that of the call itself, or of one above it.
  cases above with
  | nil =>
    obtain ⟨hcalls', htop'⟩ := setCurrent_of_cons hcalls f
    exact ⟨htop'.trans htop, ⟨[], f, hcalls'⟩, (limit_setCurrent s f).trans hlimit⟩
  | cons innermost above =>
    obtain ⟨hcalls', htop'⟩ := setCurrent_of_cons hcalls f
    exact ⟨htop'.trans htop, ⟨_ :: above, frame, hcalls'⟩, (limit_setCurrent s f).trans hlimit⟩

theorem Under.enter (h : caller.Under site s) (call : Call) : caller.Under site (s.enter call) := by
  obtain ⟨htop, ⟨above, frame, hcalls⟩, hlimit⟩ := h
  exact ⟨htop, ⟨call :: above, frame, congrArg (call :: ·) hcalls⟩, hlimit⟩

/-- Closing the innermost call closes one above, or leaves the caller's frames. -/
theorem Under.pop? (h : caller.Under site s) (hp : s.pop? = some (call, s')) :
    caller.Under site s' ∨ s' = caller := by
  obtain ⟨htop, ⟨above, frame, hcalls⟩, hlimit⟩ := h
  obtain ⟨hpopped, htop', hlimit'⟩ := pop?_eq_some hp
  rw [hpopped] at hcalls
  cases above with
  | nil =>
    obtain ⟨-, hcalls⟩ := List.cons.inj hcalls
    exact .inr (eq_of_frames (htop'.trans htop) hcalls (hlimit'.trans hlimit))
  | cons innermost above =>
    exact .inl ⟨htop'.trans htop, ⟨above, frame, (List.cons.inj hcalls).2⟩, hlimit'.trans hlimit⟩

end CallStack

namespace State

open CallStack (Under)

variable {p : Program} {span : Span} {s t u v : State} {i : Instr} {caller : CallStack}
  {site : CallSite}

/-! ## A step within a call -/

/-- How a call is left: by a `return`, or at the end of its body. Either way the stack stays what
it was, and a `return` leaves its value on top. -/
inductive Leaves (s t : State) : Prop
  | returned {tag : Token} {next : Cursor} {value : Value} {rest : Stack} :
      s.frames.current.cursor.fetch = .ready (.action .ret) tag next →
      s.stack = value :: rest → t.stack = s.stack → Leaves s t
  | ranOut : s.frames.current.cursor.fetch = .exhausted → t.stack = s.stack → Leaves s t

theorem Effect.under (h : Effect p span s i t) (hu : caller.Under site s.frames) :
    caller.Under site t.frames ∨ (t.frames = caller ∧ i = .action .ret ∧ t.stack = s.stack ∧
      ∃ value rest, s.stack = value :: rest) := by
  cases h with
  | ret hpop hst =>
    rcases hu.pop? hpop with hu' | rfl
    · exact .inl hu'
    · exact .inr ⟨rfl, rfl, hst.symm, _, _, hst⟩
  | call => exact .inl (hu.enter _)
  | literal | load | binary | print => exact .inl hu
  | bind | branchTrue | close => exact .inl (hu.setCurrent _)
  | branchFalse | otherwise => exact .inl (hu.setCurrent _)

/-- A step within a call leaves the frames under it as they are, or leaves the call. -/
theorem under_or_leaves (hu : caller.Under site s.frames) (hs : s.step p = .next t) :
    caller.Under site t.frames ∨ (t.frames = caller ∧ s.Leaves t) := by
  rcases step_eq_next_iff.mp hs with ⟨hx, -, hpop⟩ | ⟨hx, he⟩
  · rcases hu.pop? hpop with hu' | rfl
    · exact .inl hu'
    · exact .inr ⟨rfl, .ranOut hx rfl⟩
  · rcases he.under (hu.setCurrent _) with hu' | ⟨hframes, rfl, hstack, value, rest, hst⟩
    · exact .inl hu'
    · exact .inr ⟨hframes, .returned hx hst hstack⟩

/-! ## From a call until it is left -/

/-- Zero or more steps, after each of which more than `depth` calls are open. -/
def Within (p : Program) (depth : Nat) : State → State → Prop :=
  Relation.ReflTransGen fun s t => s.step p = .next t ∧ depth < t.frames.depth

theorem under_of_within (hu : caller.Under site s.frames) (hw : Within p caller.depth s t) :
    caller.Under site t.frames := by
  induction hw with
  | refl => exact hu
  | tail _ hstep ih =>
    obtain ⟨hstep, hdepth⟩ := hstep
    rcases under_or_leaves ih hstep with hu' | ⟨hframes, -⟩
    · exact hu'
    · rw [hframes] at hdepth
      exact absurd hdepth (Nat.lt_irrefl _)

/-- The step after which the call is no longer open leaves it. -/
theorem leaves_of_within (hu : caller.Under site s.frames) (hw : Within p caller.depth s t)
    (hs : t.step p = .next u) (hdepth : u.frames.depth ≤ caller.depth) :
    u.frames = caller ∧ t.Leaves u := by
  rcases under_or_leaves (under_of_within hu hw) hs with hu' | hleft
  · exact absurd hu'.depth_lt (Nat.not_lt.mpr hdepth)
  · exact hleft

end State

/-- A frame for a call of `f` before its first instruction: nothing is open in it, and it binds
what `env` binds but for the parameters, each of which has the argument in its place. -/
structure Frame.Fresh (frame : Frame) (f : FunctionDef) (args : List Value) (env : Env) : Prop where
  cursor : frame.cursor = .start f.body
  blocks : frame.blocks = []
  lookup : ∀ name, frame.env.lookup name =
    ((f.params.zip args).reverse.lookup name).or (env.lookup name)

theorem Frame.fresh_start (f : FunctionDef) (args : List Value) (env : Env) :
    (Frame.start f.body (env.bindAll (f.params.zip args))).Fresh f args env :=
  ⟨rfl, rfl, env.lookup_bindAll _⟩

theorem Cursor.next?_of_fetch_action {c next : Cursor} {act : Action} {tag : Token}
    (h : c.fetch = .ready (.action act) tag next) : c.next? = some (tag, next) := by
  unfold fetch at h
  split at h
  · cases h
  · next hnext =>
    split at h
    · cases h
    · cases h; exact hnext
    · split at h <;> cases h

namespace Program

open State (Within)

/-- A call is isolated, in whatever state of whatever program it is made. It pops its name and
one argument for each parameter, and starts a fresh frame above the frames of its caller, whose
cursor is past the `call`. Until the call is left those frames stay as they are, and when it is
left they are all the frames there are: so the caller goes on at the token after the `call`, with
its own bindings and open branches, and with the stack as the call leaves it. -/
theorem call_isolated {p : Program} {s t : State} {tag : Token} {next : Cursor}
    (hx : s.frames.current.cursor.fetch = .ready (.action .call) tag next)
    (hs : s.step p = .next t) :
    s.frames.current.cursor.next? = some (tag, next) ∧
    ∃ f args frame, p.functions.get? f.name = some f ∧
      s.stack = .name f.name :: (args ++ t.stack) ∧ args.length = f.params.length ∧
      t.frames = (s.dispatch next).frames.enter ⟨⟨f.name, tag.span⟩, frame⟩ ∧
      frame.Fresh f args s.frames.current.env ∧
      ∀ u, Within p s.frames.depth t u →
        (s.dispatch next).frames.Under ⟨f.name, tag.span⟩ u.frames ∧
        ∀ v, u.step p = .next v → v.frames.depth ≤ s.frames.depth →
          v.frames = (s.dispatch next).frames ∧ v.frames.current.cursor = next ∧ u.Leaves v := by
  refine ⟨Cursor.next?_of_fetch_action hx, ?_⟩
  rcases State.step_eq_next_iff.mp hs with ⟨hx', -, -⟩ | ⟨hx', he⟩
  · rw [hx] at hx'; cases hx'
  rw [hx] at hx'
  cases hx'
  cases he with
  | @call name f env rest stack hst hf _ hargs =>
    obtain ⟨-, rfl⟩ := FunctionTable.get?_eq_some_iff.mp hf
    obtain ⟨args, rfl, hlen, rfl⟩ := Stack.popArgs_eq_ok_iff.mp hargs
    have hframe := Frame.fresh_start f args (s.dispatch next).frames.current.env
    have hunder := CallStack.under_enter (s.dispatch next).frames ⟨f.name, tag.span⟩
      (.start f.body ((s.dispatch next).frames.current.env.bindAll (f.params.zip args)))
    have henv : (s.dispatch next).frames.current.env = s.frames.current.env := by simp
    have hcursor : (s.dispatch next).frames.current.cursor = next := by simp
    have hdepth : (s.dispatch next).frames.depth = s.frames.depth := by simp
    refine ⟨f, args, _, hf, hst, hlen, rfl, henv ▸ hframe, ?_⟩
    rw [← hdepth]
    intro u hu
    refine ⟨State.under_of_within hunder hu, fun v hv hle => ?_⟩
    obtain ⟨hframes, hleaves⟩ := State.leaves_of_within hunder hu hv hle
    exact ⟨hframes, hframes ▸ hcursor, hleaves⟩

/-- `f` has one parameter twice, and returns it out of an open branch. -/
def rebinds : Program where
  main := word <$> ["string", "a", "string", "b", "ident", "f", "call", "print"]
  functions := ⟨[⟨"f", ["x", "x"],
    word <$> ["bool", "true", "if", "ident", "x", "var", "return", "end"], .dummy⟩], by simp⟩
where
  word (text : String) : Token := ⟨text, .dummy⟩

def rebindsCalling : State where
  stack := [.name "f", .text "b", .text "a"]
  frames := (CallStack.start rebinds.main 1).setCurrent ⟨⟨6, rebinds.main.drop 6⟩, .empty, []⟩
  counters := { instructions := 3 }
  printed := []

/-- Of the two arguments the second is bound. When the call is left, that is on the stack, and
`print` is next. -/
theorem rebinds_isolated :
    rebinds.Reachable 1 rebindsCalling ∧
    ∃ t frame, rebindsCalling.step rebinds = .next t ∧ t.stack = [] ∧
      t.frames.calls = [⟨⟨"f", .dummy⟩, frame⟩] ∧ frame.env.lookup "x" = some (.text "a") ∧
      ∃ u v, Within rebinds 0 t u ∧ u.step rebinds = .next v ∧ u.stack = [.text "a"] ∧
        v.stack = u.stack ∧ v.frames.calls = [] ∧ v.frames.current.cursor.position = 7 := by
  have hr : rebinds.Reachable 1 rebindsCalling := .tail (.tail (.tail .refl rfl) rfl) rfl
  have hx : rebindsCalling.frames.current.cursor.fetch =
      .ready (.action .call) ⟨"call", .dummy⟩ ⟨7, rebinds.main.drop 7⟩ := rfl
  obtain ⟨t, hs, u, v, hw, hv, hu, hdepth⟩ : ∃ t, rebindsCalling.step rebinds = .next t ∧
      ∃ u v, Within rebinds 0 t u ∧ u.step rebinds = .next v ∧ u.stack = [.text "a"] ∧
        v.frames.depth = 0 :=
    ⟨_, rfl, _, _, .tail (.tail (.tail (.tail .refl ⟨rfl, Nat.one_pos⟩) ⟨rfl, Nat.one_pos⟩)
      ⟨rfl, Nat.one_pos⟩) ⟨rfl, Nat.one_pos⟩, rfl, rfl, rfl⟩
  obtain ⟨-, f, args, frame, hf, hst, hlen, hframes, hfresh, hleft⟩ := call_isolated hx hs
  obtain ⟨hname, hargs⟩ := List.cons.inj hst
  obtain ⟨hreturned, hcursor, hleaves⟩ := (hleft u hw).2 v hv (Nat.le_of_eq hdepth)
  rw [← Value.name.inj hname] at hf
  cases hf
  obtain ⟨b, a, rfl⟩ := List.length_eq_two.mp hlen
  simp only [List.cons_append, List.nil_append, List.cons.injEq] at hargs
  obtain ⟨rfl, rfl, hstack⟩ := hargs
  have hkept : v.stack = u.stack := by cases hleaves <;> assumption
  refine ⟨hr, t, frame, hs, hstack.symm, by rw [hframes]; rfl, (hfresh.lookup "x").trans rfl, ?_⟩
  exact ⟨u, v, hw, hv, hu, hkept, by rw [hreturned]; rfl, by rw [hcursor]⟩

end Program

end TokenMachine
