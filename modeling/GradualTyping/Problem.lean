/-
# What the checker reports

A problem names its cause; the types in it are texts, so a problem can be read
without the table it was found with.
-/

import GradualTyping.Types.Display
import GradualTyping.Program.Span

namespace GradualTyping

/-- What is wrong with a piece of a program. -/
inductive Problem where
  /-- A value does not fit the place it is put to. -/
  | typeMismatch (expected actual : String) (note : Option String)
  /-- Some members of a type are left after all cases. -/
  | nonExhaustive (missing : List String)
  /-- A type argument, written or inferred, lies outside the bound of its parameter. -/
  | unmetConstraint (param inferred bound : String)
  | unknownProperty (property type : String)
  /-- The recursion guard tripped; `chain` names the aliases being expanded. -/
  | depthExceeded (chain : String) (limit : Nat)
  | undefinedName (name : String)
  | undefinedType (name : String)
  | notCallable (type : String)
  /-- `expected` is a number or the text "N or more". -/
  | argumentCount (expected : String) (actual : Nat)
  | typeArgumentCount (name : String) (expected actual : Nat)
  | circularReference (name : String)
deriving DecidableEq, Repr, Inhabited

namespace Problem

def message : Problem → String
  | typeMismatch expected actual _ =>
    "Type '" ++ actual ++ "' is not assignable to type '" ++ expected ++ "'"
  | nonExhaustive missing =>
    "Non-exhaustive match: missing cases " ++ joinTexts ", " missing
  | unmetConstraint param inferred bound =>
    "Type '" ++ inferred ++ "' does not satisfy the constraint '" ++ bound
      ++ "' of type parameter '" ++ param ++ "'"
  | unknownProperty property type =>
    "Property '" ++ property ++ "' does not exist on type '" ++ type ++ "'"
  | depthExceeded chain limit => (TypeError.depthExceeded chain limit).message
  | undefinedName name => "Cannot find name '" ++ name ++ "'"
  | undefinedType name => "Cannot find type '" ++ name ++ "'"
  | notCallable type => "Type '" ++ type ++ "' is not callable"
  | argumentCount expected actual =>
    "Expected " ++ expected ++ " arguments, but got " ++ Nat.repr actual
  | typeArgumentCount name expected actual =>
    (TypeError.argumentCount name expected actual).message
  | circularReference name => (TypeError.circularReference name).message

/-- The problem that an error of a type operation is for the program. -/
def ofTypeError : TypeError → Problem
  | .depthExceeded chain limit => depthExceeded chain limit
  | .undefinedType name => undefinedType name
  | .argumentCount name expected actual => typeArgumentCount name expected actual
  | .constraintViolation param actual bound => unmetConstraint param actual bound
  | .circularReference name => circularReference name

end Problem

/-- A problem at its place. -/
structure CheckError where
  problem : Problem
  span : Span
deriving DecidableEq, Repr, Inhabited

def CheckError.message (e : CheckError) : String := e.problem.message

end GradualTyping
