/-
# Errors of type operations
-/

import GradualTyping.Types.Basic

namespace GradualTyping

/-- Why an operation on types failed. -/
inductive TypeError where
  /-- The recursion guard tripped; `chain` names the aliases being expanded,
  outermost first. -/
  | depthExceeded (chain : String) (limit : Nat)
  | undefinedType (name : String)
  | argumentCount (name : String) (expected actual : Nat)
  /-- An argument lies outside the bound of its parameter. -/
  | constraintViolation (param actual bound : String)
  /-- The body of an alias is the alias itself. -/
  | circularReference (name : String)
deriving DecidableEq, Repr, Inhabited

def TypeError.message : TypeError → String
  | depthExceeded chain _ =>
    "Type instantiation is excessively deep and possibly infinite: " ++ chain
  | undefinedType name => "Undefined type: " ++ name
  | argumentCount name expected actual =>
    "Type '" ++ name ++ "' expects " ++ Nat.repr expected ++ " type argument(s), got "
      ++ Nat.repr actual
  | constraintViolation param actual bound =>
    "Type '" ++ actual ++ "' does not satisfy the constraint '" ++ bound ++ "' of '" ++ param ++ "'"
  | circularReference name => "Type alias '" ++ name ++ "' circularly references itself"

end GradualTyping
