/-
  TokenMachine.Machine.CallStack — frames, and the stack of open calls.

  A frame is a cursor, an environment and the branches open in its stream. The
  top-level frame is always there; the frames of open calls lie above it, and at most
  `limit` of them. The current frame is the innermost. Each frame has its own
  branches, so leaving a call drops exactly those that the callee opened.
-/

import TokenMachine.Machine.Env
import TokenMachine.Machine.Fault
import TokenMachine.Token

namespace TokenMachine

/-- A branch being executed. -/
inductive Block where
  /-- The condition was true; an `else` ends this branch. -/
  | whenTrue
  /-- The condition was false; only `end` ends this branch. -/
  | whenFalse
  deriving DecidableEq, Repr

structure Frame where
  cursor : Cursor
  env : Env
  /-- The open branches, innermost first. -/
  blocks : List Block

namespace Frame

def start (tokens : List Token) (env : Env) : Frame := ⟨.start tokens, env, []⟩

instance : Inhabited Frame := ⟨start [] .empty⟩

end Frame

/-- An open call. -/
structure Call where
  site : CallSite
  frame : Frame

structure CallStack where
  top : Frame
  /-- The open calls, innermost first. -/
  calls : List Call
  /-- The number of open calls. -/
  depth : Nat
  limit : Nat
  depth_eq : depth = calls.length

namespace CallStack

def start (tokens : List Token) (limit : Nat) : CallStack where
  top := .start tokens .empty
  calls := []
  depth := 0
  limit := limit
  depth_eq := rfl

def current (s : CallStack) : Frame :=
  match s.calls with
  | [] => s.top
  | call :: _ => call.frame

/-- Replace the current frame. -/
def setCurrent (s : CallStack) (frame : Frame) : CallStack :=
  match h : s.calls with
  | [] => { s with top := frame }
  | call :: rest =>
    { s with calls := { call with frame } :: rest, depth_eq := by rw [s.depth_eq, h]; rfl }

def isFull (s : CallStack) : Bool := s.limit ≤ s.depth

/-- Refuses if one more call would pass the limit. -/
def checkDepth (s : CallStack) : Except Fault Unit :=
  if s.isFull then .error (.recursionLimitExceeded s.limit) else .ok ()

/-- The stack with one more open call, whatever the limit. -/
def enter (s : CallStack) (call : Call) : CallStack :=
  { s with calls := call :: s.calls, depth := s.depth + 1, depth_eq := by rw [s.depth_eq]; rfl }

def push (s : CallStack) (call : Call) : Except Fault CallStack :=
  s.checkDepth.map fun () => s.enter call

/-- Close the innermost call. The top-level frame is never popped. -/
def pop? (s : CallStack) : Option (Call × CallStack) :=
  match h : s.calls with
  | [] => none
  | call :: rest =>
    some (call, { s with
      calls := rest
      depth := s.depth - 1
      depth_eq := by rw [s.depth_eq, h]; rfl })

def backtrace (s : CallStack) : Backtrace := s.calls.map (·.site)

theorem setCurrent_of_nil {s : CallStack} (h : s.calls = []) (f : Frame) :
    s.setCurrent f = { s with top := f } := by
  unfold setCurrent
  split <;> simp_all

theorem setCurrent_of_cons {s : CallStack} {call : Call} {rest : List Call}
    (h : s.calls = call :: rest) (f : Frame) :
    (s.setCurrent f).calls = { call with frame := f } :: rest ∧ (s.setCurrent f).top = s.top := by
  unfold setCurrent
  split <;> simp_all

@[simp] theorem current_setCurrent (s : CallStack) (f : Frame) : (s.setCurrent f).current = f := by
  unfold current
  cases h : s.calls with
  | nil => simp [setCurrent_of_nil h, h]
  | cons call rest => simp [(setCurrent_of_cons h f).1]

@[simp] theorem depth_setCurrent (s : CallStack) (f : Frame) : (s.setCurrent f).depth = s.depth := by
  unfold setCurrent
  split <;> rfl

@[simp] theorem limit_setCurrent (s : CallStack) (f : Frame) : (s.setCurrent f).limit = s.limit := by
  unfold setCurrent
  split <;> rfl

@[simp] theorem backtrace_setCurrent (s : CallStack) (f : Frame) :
    (s.setCurrent f).backtrace = s.backtrace := by
  unfold backtrace
  cases h : s.calls with
  | nil => simp [setCurrent_of_nil h, h]
  | cons call rest => simp [(setCurrent_of_cons h f).1]

theorem push_eq_ok_iff {s s' : CallStack} {call : Call} :
    s.push call = .ok s' ↔ s.depth < s.limit ∧ s' = s.enter call := by
  simp only [push, checkDepth, isFull, decide_eq_true_eq]
  split
  · next h => simp [Except.map]; omega
  · next h => simp [Except.map, Nat.lt_of_not_le h, eq_comm]

theorem pop?_eq_some {s s' : CallStack} {call : Call} (h : s.pop? = some (call, s')) :
    s.calls = call :: s'.calls ∧ s'.top = s.top ∧ s'.limit = s.limit := by
  unfold pop? at h
  split at h
  · simp at h
  · next hc =>
    simp only [Option.some.injEq, Prod.mk.injEq] at h
    obtain ⟨rfl, rfl⟩ := h
    exact ⟨hc, rfl, rfl⟩

end CallStack

end TokenMachine
