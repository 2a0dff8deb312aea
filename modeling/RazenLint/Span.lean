/-!
# Spans

A span is a stretch of one line between two columns, the second one excluded.
Lines and columns count from zero, and columns count characters.
-/

namespace RazenLint

structure Span where
  line : Nat
  start : Nat
  stop : Nat
deriving DecidableEq, Repr

namespace Span

/-- Number of columns of a span. -/
def length (span : Span) : Nat :=
  span.stop - span.start

def isEmpty (span : Span) : Bool :=
  span.start = span.stop

/-- Whether a span begins where another one ends, or later. -/
def isPast (span other : Span) : Bool :=
  other.line < span.line || (span.line = other.line && other.stop ≤ span.start)

/-- Spans in the order of their lines, then of their columns. -/
def compare (a b : Span) : Ordering :=
  (Ord.compare a.line b.line).then ((Ord.compare a.start b.start).then (Ord.compare a.stop b.stop))

/-- The same columns on a line further down. -/
def shift (span : Span) (lines : Nat) : Span :=
  { span with line := span.line + lines }

/-- The characters of a line that a span covers. -/
def slice (span : Span) (line : List Char) : List Char :=
  (line.drop span.start).take span.length

end Span

end RazenLint
