/-
  TokenMachine.Proofs.Machine.Frames — what the operations of a call stack do to its frames.

  `setCurrent` touches the current frame alone, `enter` puts one above it and `pop?`
  takes the innermost away. A property of every frame, told whether the frame is that
  of a call (`All`), is kept by each of them.
-/

import TokenMachine.Machine.CallStack

namespace TokenMachine.CallStack

/-! ## Replacing the current frame -/

@[simp] theorem setCurrent_setCurrent (s : CallStack) (f g : Frame) :
    (s.setCurrent f).setCurrent g = s.setCurrent g := by
  obtain ⟨top, calls, depth, limit, hd⟩ := s
  cases calls <;> rfl

@[simp] theorem setCurrent_current (s : CallStack) : s.setCurrent s.current = s := by
  obtain ⟨top, calls, depth, limit, hd⟩ := s
  cases calls <;> rfl

@[simp] theorem backtrace_enter (s : CallStack) (call : Call) :
    (s.enter call).backtrace = call.site :: s.backtrace := rfl

def inCall (s : CallStack) : Bool := !s.calls.isEmpty

@[simp] theorem inCall_setCurrent (s : CallStack) (f : Frame) :
    (s.setCurrent f).inCall = s.inCall := by
  obtain ⟨top, calls, depth, limit, hd⟩ := s
  cases calls <;> rfl

/-! ## Leaving a call -/

theorem pop?_enter (s : CallStack) (call : Call) : (s.enter call).pop? = some (call, s) := rfl

theorem pop?_eq_none {s : CallStack} : s.pop? = none ↔ s.inCall = false := by
  obtain ⟨top, calls, depth, limit, hd⟩ := s
  cases calls <;> simp [pop?, inCall]

theorem exists_pop?_of_inCall {s : CallStack} (h : s.inCall = true) : ∃ r, s.pop? = some r := by
  cases hp : s.pop? with
  | none => rw [pop?_eq_none.mp hp] at h; cases h
  | some r => exact ⟨r, rfl⟩

/-- Whatever the current frame, the same frames are below it. -/
theorem pop?_setCurrent {s s' : CallStack} {call : Call} (h : s.pop? = some (call, s'))
    (f : Frame) :
    (s.setCurrent f).pop? = some ({ call with frame := f }, s') := by
  obtain ⟨top, calls, depth, limit, hd⟩ := s
  cases calls with
  | nil => cases h
  | cons c rest => cases h; rfl

theorem depth_of_pop? {s s' : CallStack} {call : Call} (h : s.pop? = some (call, s')) :
    s.depth = s'.depth + 1 := by
  obtain ⟨hc, -, -⟩ := pop?_eq_some h
  rw [s.depth_eq, s'.depth_eq, hc, List.length_cons]

theorem isFull_eq_false {s : CallStack} : s.isFull = false ↔ s.depth < s.limit := by
  simp [isFull]

/-! ## A property of every frame -/

/-- `P b f` for every frame `f`, where `b` says whether it is that of a call. -/
def All (P : Bool → Frame → Prop) (s : CallStack) : Prop :=
  P false s.top ∧ ∀ call ∈ s.calls, P true call.frame

variable {P : Bool → Frame → Prop} {s s' : CallStack}

theorem All.imp {Q : Bool → Frame → Prop} (h : s.All P) (hPQ : ∀ b f, P b f → Q b f) : s.All Q :=
  ⟨hPQ _ _ h.1, fun call hc => hPQ _ _ (h.2 call hc)⟩

theorem All.current (h : s.All P) : P s.inCall s.current := by
  obtain ⟨top, calls, depth, limit, hd⟩ := s
  cases calls with
  | nil => exact h.1
  | cons call rest => exact h.2 call (List.mem_cons_self ..)

theorem All.setCurrent (h : s.All P) {f : Frame} (hf : P s.inCall f) : (s.setCurrent f).All P := by
  obtain ⟨top, calls, depth, limit, hd⟩ := s
  cases calls with
  | nil => exact ⟨hf, h.2⟩
  | cons call rest =>
    refine ⟨h.1, ?_⟩
    intro c hc
    rcases List.mem_cons.mp hc with rfl | hc
    · exact hf
    · exact h.2 c (List.mem_cons_of_mem _ hc)

theorem All.enter (h : s.All P) {call : Call} (hf : P true call.frame) : (s.enter call).All P := by
  refine ⟨h.1, ?_⟩
  intro c hc
  rcases List.mem_cons.mp hc with rfl | hc
  · exact hf
  · exact h.2 c hc

theorem All.pop? (h : s.All P) {call : Call} (hp : s.pop? = some (call, s')) : s'.All P := by
  obtain ⟨hc, ht, -⟩ := pop?_eq_some hp
  refine ⟨ht ▸ h.1, ?_⟩
  intro c hm
  exact h.2 c (hc ▸ List.mem_cons_of_mem _ hm)

end TokenMachine.CallStack
