/-
  TokenMachine.Span — byte ranges of a source text.

  A span is the half-open range of bytes that a token or a form was read from. Its offsets
  are 32-bit numbers: in a text of 4 GiB or more, `ofRange` clamps those past the largest.
  The range `0..0` marks generated code, which stands nowhere in a text (`dummy`).
-/

namespace TokenMachine

structure Span where
  start : Nat
  stop : Nat
  deriving DecidableEq, Repr, Inhabited

namespace Span

/-- The span of generated code. -/
def dummy : Span := ⟨0, 0⟩

/-- The largest offset that a span holds. -/
def maxOffset : Nat := 4294967295

/-- The span of a range of bytes; offsets past `maxOffset` are clamped to it. -/
def ofRange (start stop : Nat) : Span := ⟨min start maxOffset, min stop maxOffset⟩

/-- The empty span at one offset. -/
def point (offset : Nat) : Span := ⟨offset, offset⟩

def isEmpty (s : Span) : Bool := s.start == s.stop

def contains (s : Span) (offset : Nat) : Bool := s.start ≤ offset && offset < s.stop

/-- The number of bytes covered, in 32-bit arithmetic: a reversed range wraps around. -/
def length (s : Span) : Nat := (s.stop + (maxOffset + 1) - s.start) % (maxOffset + 1)

/-- The least span that covers both. -/
def merge (s t : Span) : Span := ⟨min s.start t.start, max s.stop t.stop⟩

/-- The same range, `n` bytes further on. -/
def shift (s : Span) (n : Nat) : Span := ⟨s.start + n, s.stop + n⟩

def render (s : Span) : String := s!"{s.start}..{s.stop}"

theorem ofRange_eq {start stop : Nat} (hstart : start ≤ maxOffset) (hstop : stop ≤ maxOffset) :
    ofRange start stop = ⟨start, stop⟩ := by
  rw [ofRange, Nat.min_eq_left hstart, Nat.min_eq_left hstop]

/-- A span with its ends in order has the length that they say. -/
theorem length_eq_sub {s : Span} (h : s.start ≤ s.stop) (hs : s.stop ≤ maxOffset) :
    s.length = s.stop - s.start := by
  simp only [length, maxOffset] at *
  omega

end Span

end TokenMachine
