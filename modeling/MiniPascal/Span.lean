/-!
# Spans

A span is a range of the source, given by the byte offsets of its first character and of the
character after its last one, which are below 2^32 for a source of less than 4 GiB. Spans are
ordered by their start and then by their end.
-/

namespace MiniPascal

/-- The bytes from `start` up to, but not including, `stop`. -/
structure Span where
  start : Nat
  stop : Nat
  deriving DecidableEq, Repr, Inhabited

namespace Span

/-- By start, then by end. -/
def compare (a b : Span) : Ordering :=
  (Ord.compare a.start b.start).then (Ord.compare a.stop b.stop)

/-- The later of two spans. -/
def max (a b : Span) : Span := if a.compare b = .gt then a else b

/-- A span as its two offsets. -/
def text (s : Span) : String := toString s.start ++ ".." ++ toString s.stop

/-- No byte lies in the span. -/
def isEmpty (s : Span) : Bool := s.start == s.stop

end Span

end MiniPascal
