/-
# Source locations
-/

namespace GradualTyping

/-- A range of bytes of a source text, and the line and column of its first
character, counted from one. -/
structure Span where
  start : Nat := 0
  stop : Nat := 0
  line : Nat := 0
  column : Nat := 0
deriving DecidableEq, Repr, Inhabited

/-- The span that covers two spans; line and column are those of the one that
starts first. -/
def Span.combine (a b : Span) : Span :=
  let first := if a.start ≤ b.start then a else b
  ⟨min a.start b.start, max a.stop b.stop, first.line, first.column⟩

end GradualTyping
