/-
# Settings of the checker
-/

import GradualTyping.Types.Table

namespace GradualTyping

structure Settings where
  /-- The deepest nesting of type operations. -/
  maxDepth : Nat := 100
  /-- How the types of writable fields compare. -/
  fieldVariance : FieldVariance := .invariant
  /-- Report switches that leave members of a finite type over. -/
  requireExhaustiveSwitch : Bool := true
  /-- The number of units that are checked at a time. -/
  jobs : Nat := 1
  /-- The largest number of texts that a template is expanded to. -/
  templateLimit : Nat := 10000
deriving DecidableEq, Repr, Inhabited

/-- The limits of type operations under the settings. -/
def Settings.limits (s : Settings) : Limits := ⟨s.maxDepth, s.templateLimit, s.fieldVariance⟩

end GradualTyping
