/-!
Positions in a source text, and the spans between them.
-/

namespace MiddleEnd

/-- A position: line and column as a reader counts them, and the offset in bytes. -/
structure Location where
  line : Nat := 0
  column : Nat := 0
  offset : Nat := 0
  deriving DecidableEq

/-- Reading order looks at lines and columns only. -/
def Location.Precedes (a b : Location) : Prop :=
  a.line < b.line ∨ (a.line = b.line ∧ a.column < b.column)

instance (a b : Location) : Decidable (a.Precedes b) :=
  inferInstanceAs (Decidable (_ ∨ _))

/-- A piece of source text, from `start` up to `stop`. -/
structure Span where
  start : Location := {}
  stop : Location := {}
  deriving DecidableEq

namespace Span

def ofOffsets (start stop : Nat) : Span :=
  { start := { offset := start }, stop := { offset := stop } }

def onLine (line start stop : Nat) : Span :=
  { start := { line, column := start }, stop := { line, column := stop } }

def ofPositions (line column line2 column2 : Nat) : Span :=
  { start := { line, column }, stop := { line := line2, column := column2 } }

/-- The least span in reading order that covers both; where two ends stand at the same
line and column, the end of the second span is kept. -/
def merge (a b : Span) : Span where
  start := if a.start.Precedes b.start then a.start else b.start
  stop := if b.stop.Precedes a.stop then a.stop else b.stop

/-- How a span is shown to a reader: the place where it starts. -/
def text (s : Span) : String := s!"{s.start.line}:{s.start.column}"

/-- Offset and length in bytes; a span that ends before it starts is empty. -/
def byteRange (s : Span) : Nat × Nat := (s.start.offset, s.stop.offset - s.start.offset)

end Span
end MiddleEnd
