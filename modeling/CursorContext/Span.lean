/-!
# Spans of lines

A span holds the lines from its start up to, and not including, its stop.  Line numbers are words
of 32 bits; the span of the last of them stops where it starts.

## Main definitions

* `Span`, `Span.ofLine`, `Span.above?`: spans, the span of one line, and that of the line above.
* `Span.text`: the printed form.
-/

namespace CursorContext

/-- The lines from `start` up to, and not including, `stop`. -/
structure Span where
  /-- The first line. -/
  start : UInt32
  /-- The line behind the last one. -/
  stop : UInt32
  deriving DecidableEq, Repr, Inhabited

namespace Span

/-- The line behind a line; the last line stays where it is. -/
def next (line : UInt32) : UInt32 := if line = 4294967295 then line else line + 1

/-- The span of exactly one line. -/
def ofLine (line : UInt32) : Span := ⟨line, next line⟩

/-- The line above the start, unless the span starts at line 0. -/
def above? (s : Span) : Option Span :=
  if s.start = 0 then none else some (ofLine (s.start - 1))

/-- No line is in the span. -/
def isEmpty (s : Span) : Bool := s.stop ≤ s.start

/-- The printed form: both ends with two points between them. -/
def text (s : Span) : String := s!"{s.start.toNat}..{s.stop.toNat}"

@[simp] theorem start_ofLine (line : UInt32) : (ofLine line).start = line := rfl

@[simp] theorem above?_ofLine_zero : (ofLine 0).above? = none := rfl

theorem above?_ofLine {line : UInt32} (h : line ≠ 0) :
    (ofLine line).above? = some (ofLine (line - 1)) := by
  simp [above?, h]

end Span

end CursorContext
