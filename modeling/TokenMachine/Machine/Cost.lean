/-
  TokenMachine.Machine.Cost — a bound on the steps that a run can still take.

  Every frame is charged for the tokens it has left and for being left itself, each at
  a rate that grows with the calls that may still be opened above it. A call takes one
  token from its caller, whose rate is more than a whole body at the callee's rate; so
  every step makes the cost smaller (`cost_lt_of_step`), and every run ends.
-/

import TokenMachine.Machine.Step

namespace TokenMachine

/-- More than the charge of a fresh frame for any body of the program. -/
def Program.rate (p : Program) : Nat :=
  (p.functions.defs.map fun f => f.body.length + 2).foldr max 1

/-- What a step is charged in a frame that `depth` calls lie below. -/
def charge (rate limit depth : Nat) : Nat := Nat.pow rate (limit - depth)

theorem charge_pos {rate : Nat} (h : 0 < rate) (limit depth : Nat) : 0 < charge rate limit depth :=
  Nat.pow_pos h

theorem charge_eq_mul (rate : Nat) {limit depth : Nat} (h : depth < limit) :
    charge rate limit depth = rate * charge rate limit (depth + 1) := by
  have : limit - depth = limit - (depth + 1) + 1 := by omega
  unfold charge
  rw [this, Nat.mul_comm]
  rfl

namespace Frame

/-- The tokens left, and the step that leaves the frame. -/
def steps (f : Frame) : Nat := f.cursor.rest.length + 1

def cost (rate limit depth : Nat) (f : Frame) : Nat := f.steps * charge rate limit depth

end Frame

namespace CallStack

def callsCost (rate limit : Nat) : List Call → Nat
  | [] => 0
  | call :: rest => call.frame.cost rate limit (rest.length + 1) + callsCost rate limit rest

def cost (rate : Nat) (s : CallStack) : Nat :=
  s.top.cost rate s.limit 0 + callsCost rate s.limit s.calls

theorem cost_of_nil (rate : Nat) {s : CallStack} (h : s.calls = []) :
    s.cost rate = s.current.cost rate s.limit s.depth := by
  simp [cost, current, h, callsCost, s.depth_eq]

theorem cost_of_cons (rate : Nat) {s : CallStack} {call : Call} {rest : List Call}
    (h : s.calls = call :: rest) :
    s.cost rate = s.top.cost rate s.limit 0 +
      (s.current.cost rate s.limit s.depth + callsCost rate s.limit rest) := by
  simp [cost, current, h, callsCost, s.depth_eq]

/-- Replacing the current frame changes no charge but its own. -/
theorem cost_setCurrent (rate : Nat) (s : CallStack) (f : Frame) :
    (s.setCurrent f).cost rate + s.current.cost rate s.limit s.depth =
      s.cost rate + f.cost rate s.limit s.depth := by
  cases h : s.calls with
  | nil =>
    have hs : (s.setCurrent f).calls = [] := by rw [setCurrent_of_nil h]; exact h
    rw [cost_of_nil rate hs, cost_of_nil rate h]
    simp only [current_setCurrent, limit_setCurrent, depth_setCurrent]
    omega
  | cons call rest =>
    obtain ⟨hs, ht⟩ := setCurrent_of_cons h f
    rw [cost_of_cons rate hs, cost_of_cons rate h]
    simp only [current_setCurrent, limit_setCurrent, depth_setCurrent, ht]
    omega

theorem cost_le_setCurrent (rate : Nat) (s : CallStack) {f : Frame}
    (h : f.steps ≤ s.current.steps) : (s.setCurrent f).cost rate ≤ s.cost rate := by
  have := s.cost_setCurrent rate f
  have : f.cost rate s.limit s.depth ≤ s.current.cost rate s.limit s.depth :=
    Nat.mul_le_mul_right _ h
  omega

/-- A step of the current frame saves its whole rate. -/
theorem cost_add_le_setCurrent (rate : Nat) (s : CallStack) {f : Frame}
    (h : f.steps < s.current.steps) :
    (s.setCurrent f).cost rate + charge rate s.limit s.depth ≤ s.cost rate := by
  have := s.cost_setCurrent rate f
  have hm : (f.steps + 1) * charge rate s.limit s.depth ≤ s.current.cost rate s.limit s.depth :=
    Nat.mul_le_mul_right _ h
  rw [Nat.succ_mul] at hm
  have : f.cost rate s.limit s.depth = f.steps * charge rate s.limit s.depth := rfl
  omega

theorem cost_lt_of_pop? {rate : Nat} (hr : 0 < rate) {s s' : CallStack} {call : Call}
    (h : s.pop? = some (call, s')) : s'.cost rate < s.cost rate := by
  obtain ⟨hc, ht, hl⟩ := pop?_eq_some h
  have : 0 < call.frame.cost rate s.limit (s'.calls.length + 1) :=
    Nat.mul_pos (Nat.succ_pos _) (charge_pos hr _ _)
  simp only [cost, hc, ht, hl, callsCost]
  omega

/-- Opening a call costs less than what one token of the caller is charged. -/
theorem cost_push_lt {rate : Nat} {s s' : CallStack} {call : Call} (h : s.push call = .ok s')
    (hb : call.frame.steps < rate) : s'.cost rate < s.cost rate + charge rate s.limit s.depth := by
  obtain ⟨hd, rfl⟩ := push_eq_ok_iff.1 h
  have := Nat.mul_lt_mul_of_pos_right hb (charge_pos (Nat.zero_lt_of_lt hb) s.limit (s.depth + 1))
  rw [charge_eq_mul rate hd]
  simp only [cost, enter, callsCost, Frame.cost, ← s.depth_eq]
  omega

end CallStack

theorem Program.rate_pos (p : Program) : 0 < p.rate := by
  unfold rate
  induction p.functions.defs.map fun f => f.body.length + 2 with
  | nil => simp
  | cons n rest ih => simp only [List.foldr_cons]; omega

theorem Program.lt_rate_of_get? {p : Program} {name : String} {f : FunctionDef}
    (h : p.functions.get? name = some f) : f.body.length + 1 < p.rate := by
  have hm : f ∈ p.functions.defs := List.mem_of_find?_eq_some h
  unfold rate
  generalize p.functions.defs = defs at hm
  induction defs with
  | nil => simp at hm
  | cons g rest ih =>
    simp only [List.map_cons, List.foldr_cons]
    rcases List.mem_cons.1 hm with rfl | hm
    · omega
    · have := ih hm; omega

namespace State

/-- The most steps that the run can still take. -/
def cost (p : Program) (s : State) : Nat := s.frames.cost p.rate

theorem cost_dispatch_add_le {p : Program} {s : State} {i : Instr} {tag : Token}
    {next : Cursor} (h : s.frames.current.cursor.fetch = .ready i tag next) :
    (s.dispatch next).cost p + charge p.rate s.frames.limit s.frames.depth ≤ s.cost p :=
  s.frames.cost_add_le_setCurrent _ (Nat.succ_lt_succ (Cursor.length_lt_of_fetch h))

theorem bind_eq_ok {α β ε : Type} {x : Except ε α} {f : α → Except ε β} {b : β} :
    (x >>= f) = .ok b ↔ ∃ a, x = .ok a ∧ f a = .ok b := by
  cases x <;> simp [Bind.bind, Except.bind]

theorem atInstruction_eq_ok {α : Type} {x : Except Fault α} {a : α} :
    atInstruction x = .ok a ↔ x = .ok a := by
  cases x <;> simp [atInstruction]

/-! ## No instruction costs more than the token it was decoded from -/

theorem frames_load {s s' : State} (h : s.load = .ok s') : s'.frames = s.frames := by
  obtain ⟨⟨name, stack⟩, -, h⟩ := bind_eq_ok.1 h
  dsimp only at h
  split at h <;> simp_all
  exact h ▸ rfl

theorem frames_binary {s s' : State} {op : BinaryOp} (h : s.binary op = .ok s') :
    s'.frames = s.frames := by
  obtain ⟨⟨lhs, stack⟩, -, h⟩ := bind_eq_ok.1 h
  obtain ⟨⟨rhs, stack⟩, -, h⟩ := bind_eq_ok.1 h
  dsimp only at h
  split at h <;> simp_all
  exact h ▸ rfl

theorem frames_print {s s' : State} (h : s.print = .ok s') : s'.frames = s.frames := by
  obtain ⟨⟨value, stack⟩, -, h⟩ := bind_eq_ok.1 h
  dsimp only at h
  split at h <;> simp_all
  exact h ▸ rfl

theorem cost_bind_le {p : Program} {s s' : State} (h : s.bind = .ok s') :
    s'.cost p ≤ s.cost p := by
  obtain ⟨⟨name, stack⟩, -, h⟩ := bind_eq_ok.1 h
  obtain ⟨⟨value, stack⟩, -, h⟩ := bind_eq_ok.1 h
  simp only [Except.ok.injEq] at h
  subst h
  exact s.frames.cost_le_setCurrent _ (Nat.le_refl _)

theorem cost_close_le {p : Program} {s s' : State} (h : s.close = .ok s') :
    s'.cost p ≤ s.cost p := by
  unfold close at h
  dsimp only at h
  split at h
  · simp only [Except.ok.injEq] at h
    subst h
    exact s.frames.cost_le_setCurrent _ (Nat.le_refl _)
  · simp at h

theorem cost_skipTo_le {p : Program} {s s' : State} {allowElse : Bool}
    {opened : Marker → List Block} (h : s.skipTo allowElse opened = .ok s') :
    s'.cost p ≤ s.cost p := by
  obtain ⟨⟨marker, next, skipped⟩, hs, h⟩ := bind_eq_ok.1 h
  simp only [Except.ok.injEq] at h
  subst h
  exact s.frames.cost_le_setCurrent _ (Nat.succ_le_succ (Cursor.length_le_of_skip hs))

theorem cost_branch_le {p : Program} {s s' : State} (h : s.branch = .ok s') :
    s'.cost p ≤ s.cost p := by
  obtain ⟨⟨condition, stack⟩, -, h⟩ := bind_eq_ok.1 h
  dsimp only at h
  split at h
  · simp only [Except.ok.injEq] at h
    subst h
    exact s.frames.cost_le_setCurrent _ (Nat.le_refl _)
  · exact cost_skipTo_le (s := { s with stack }) h
  · simp at h

theorem cost_otherwise_le {p : Program} {s s' : State} (h : s.otherwise = .ok s') :
    s'.cost p ≤ s.cost p := by
  unfold otherwise at h
  split at h
  · exact cost_skipTo_le h
  · simp at h

theorem cost_call_lt {p : Program} {s s' : State} {span : Span}
    (h : s.call p span = .ok s') :
    s'.cost p < s.cost p + charge p.rate s.frames.limit s.frames.depth := by
  obtain ⟨⟨name, stack⟩, -, h⟩ := bind_eq_ok.1 h
  dsimp only at h
  split at h
  · simp at h
  · next f hf =>
    obtain ⟨_, -, h⟩ := bind_eq_ok.1 h
    obtain ⟨⟨env, stack⟩, -, h⟩ := bind_eq_ok.1 h
    obtain ⟨frames, hp, h⟩ := bind_eq_ok.1 h
    simp only [Except.ok.injEq] at h
    subst h
    exact CallStack.cost_push_lt hp (Program.lt_rate_of_get? hf)

theorem cost_ret_lt {p : Program} {s s' : State} (h : s.ret = .ok s') :
    s'.cost p < s.cost p := by
  unfold ret at h
  split at h
  · simp at h
  · next frames hp =>
    obtain ⟨⟨value, stack⟩, -, h⟩ := bind_eq_ok.1 h
    simp only [Except.ok.injEq] at h
    subst h
    exact CallStack.cost_lt_of_pop? p.rate_pos hp

theorem cost_exec_lt {p : Program} {s s' : State} {span : Span} {i : Instr}
    (h : s.exec p span i = .ok s') :
    s'.cost p < s.cost p + charge p.rate s.frames.limit s.frames.depth := by
  have hpos := charge_pos p.rate_pos s.frames.limit s.frames.depth
  have same (hf : s'.frames = s.frames) : s'.cost p = s.cost p := by
    unfold cost; rw [hf]
  unfold exec at h
  split at h
  · obtain ⟨value, -, h⟩ := bind_eq_ok.1 (atInstruction_eq_ok.1 h)
    simp only [Except.ok.injEq] at h
    subst h
    exact Nat.lt_add_of_pos_right hpos
  · have := same (frames_load (atInstruction_eq_ok.1 h)); omega
  · have := cost_bind_le (p := p) (atInstruction_eq_ok.1 h); omega
  · have := same (frames_binary (atInstruction_eq_ok.1 h)); omega
  · have := same (frames_print (atInstruction_eq_ok.1 h)); omega
  · have := cost_branch_le (p := p) h; omega
  · have := cost_otherwise_le (p := p) h; omega
  · have := cost_close_le (p := p) (atInstruction_eq_ok.1 h); omega
  · exact cost_call_lt (atInstruction_eq_ok.1 h)
  · have := cost_ret_lt (p := p) (atInstruction_eq_ok.1 h); omega

/-- A step that leads to another state makes the cost smaller. -/
theorem cost_lt_of_step {p : Program} {s s' : State} (h : s.step p = .next s') :
    s'.cost p < s.cost p := by
  unfold step at h
  dsimp only at h
  split at h
  · unfold finish at h
    dsimp only at h
    split at h
    · split at h
      · simp at h
      · next hp =>
        simp only [Transition.next.injEq] at h
        subst h
        exact CallStack.cost_lt_of_pop? p.rate_pos hp
    · simp at h
  · simp at h
  · simp at h
  · next hf =>
    split at h
    · next he =>
      simp only [Transition.next.injEq] at h
      subst h
      have h1 := cost_exec_lt he
      have h2 := cost_dispatch_add_le (p := p) hf
      simp only [dispatch, CallStack.limit_setCurrent, CallStack.depth_setCurrent] at h1
      exact Nat.lt_of_lt_of_le h1 h2
    · simp at h

end State

end TokenMachine
