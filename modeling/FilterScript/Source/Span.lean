/-! # Spans

A span is a half-open range of byte offsets into the UTF-8 form of a source.
-/

namespace FilterScript

/-- The bytes from `start` up to, not including, `stop`. -/
structure Span where
  start : Nat
  stop : Nat
deriving DecidableEq, Repr, Inhabited

namespace Span

/-- The smallest span that covers both. -/
def hull (a b : Span) : Span :=
  ⟨min a.start b.start, max a.stop b.stop⟩

/-- How many bytes a span covers. Offsets are words of 64 bits and so is their
difference: the length of a span that stops before it starts wraps around. -/
def length (a : Span) : Nat :=
  (a.stop + UInt64.size - a.start) % UInt64.size

/-- A span that covers nothing still has a place. -/
def isEmpty (a : Span) : Bool :=
  a.start == a.stop

/-- The span moved to the right by a number of bytes. -/
def shift (a : Span) (bytes : Nat) : Span :=
  ⟨a.start + bytes, a.stop + bytes⟩

/-- Both ends with two dots between them. -/
def text (a : Span) : String :=
  s!"{a.start}..{a.stop}"

theorem length_of_le {a : Span} (h : a.start ≤ a.stop) (hword : a.stop < UInt64.size) :
    a.length = a.stop - a.start := by
  unfold length UInt64.size at *
  omega

theorem hull_shift (a b : Span) (bytes : Nat) :
    (a.shift bytes).hull (b.shift bytes) = (a.hull b).shift bytes := by
  simp only [hull, shift, Span.mk.injEq]
  omega

end Span

end FilterScript
