/-! # Spans

A span of bytes from `start` up to, not including, `stop`. A span given from outside may be
reversed; its length is then zero.
-/

namespace LayoutLint

structure Span where
  start : Nat
  stop : Nat
  deriving DecidableEq, Repr, Inhabited

namespace Span

def zero : Span := ⟨0, 0⟩

def length (s : Span) : Nat := s.stop - s.start

def isEmpty (s : Span) : Bool := s.length == 0

def le (s t : Span) : Bool := s.start < t.start || (s.start == t.start && s.stop ≤ t.stop)

end Span

end LayoutLint
