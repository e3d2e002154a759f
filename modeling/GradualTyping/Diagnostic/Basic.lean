/-
# Diagnostics

A diagnostic is a problem as it is shown: with a stable code, a message, a label
for its place and notes.
-/

import GradualTyping.Problem

namespace GradualTyping

inductive DiagnosticKind where
  | typeMismatch
  | nonExhaustiveMatch
  | unresolvedGenericConstraint
  | unknownProperty
  | recursiveExpansionDepth
  | undefinedName
  | undefinedType
  | notCallable
  | argumentCount
  | invalidTypeArguments
  | circularReference
deriving DecidableEq, Repr, Inhabited

namespace DiagnosticKind

/-- The stable code of a kind. -/
def code : DiagnosticKind → String
  | typeMismatch => "E2001"
  | undefinedName => "E2002"
  | undefinedType => "E2003"
  | notCallable => "E2004"
  | argumentCount => "E2005"
  | unknownProperty => "E2006"
  | nonExhaustiveMatch => "E2007"
  | unresolvedGenericConstraint => "E2008"
  | invalidTypeArguments => "E2009"
  | circularReference => "E2010"
  | recursiveExpansionDepth => "E2011"

/-- The kinds with their names. -/
def names : List (String × DiagnosticKind) :=
  [("type_mismatch", typeMismatch), ("non_exhaustive_match", nonExhaustiveMatch),
    ("unresolved_generic_constraint", unresolvedGenericConstraint),
    ("unknown_property", unknownProperty), ("recursive_expansion_depth", recursiveExpansionDepth),
    ("undefined_name", undefinedName), ("undefined_type", undefinedType),
    ("not_callable", notCallable), ("argument_count", argumentCount),
    ("invalid_type_arguments", invalidTypeArguments), ("circular_reference", circularReference)]

end DiagnosticKind

structure Diagnostic where
  kind : DiagnosticKind
  code : String
  message : String
  span : Span
  label : String
  notes : List String := []
deriving DecidableEq, Repr, Inhabited

namespace Problem

def kind : Problem → DiagnosticKind
  | typeMismatch .. => .typeMismatch
  | nonExhaustive _ => .nonExhaustiveMatch
  | unmetConstraint .. => .unresolvedGenericConstraint
  | unknownProperty .. => .unknownProperty
  | depthExceeded .. => .recursiveExpansionDepth
  | undefinedName _ => .undefinedName
  | undefinedType _ => .undefinedType
  | notCallable _ => .notCallable
  | argumentCount .. => .argumentCount
  | typeArgumentCount .. => .invalidTypeArguments
  | circularReference _ => .circularReference

/-- The label at the place of a problem. -/
def label : Problem → String
  | typeMismatch expected actual _ => "expected '" ++ expected ++ "', found '" ++ actual ++ "'"
  | nonExhaustive _ => "missing cases"
  | unmetConstraint param _ bound => "'" ++ param ++ "' must satisfy '" ++ bound ++ "'"
  | unknownProperty .. => "property not found"
  | depthExceeded .. => "checking of this unit stopped here"
  | undefinedName _ => "not found in this scope"
  | undefinedType _ => "type not found"
  | notCallable _ => "cannot be called"
  | argumentCount .. => "incorrect number of arguments"
  | typeArgumentCount .. => "wrong number of type arguments"
  | circularReference _ => "alias refers to itself"

/-- A suggestion among the notes. -/
def help (text : String) : String := "help: " ++ text

/-- Whether the text of a type shows a union. -/
def showsUnion (type : String) : Bool := type.toList.contains '|'

/-- The notes to a problem. -/
def notes : Problem → List String
  | typeMismatch expected actual note =>
    note.toList ++
      if showsUnion actual && !showsUnion expected then
        [help "narrow the union with a type guard before using it here"]
      else []
  | nonExhaustive missing =>
    if missing.isEmpty then []
    else ["Unhandled: " ++ joinTexts ", " missing,
      help "add a case for every member or a default branch"]
  | unknownProperty _ type =>
    if type = "unknown" then [help "narrow the value with typeof or instanceof first"] else []
  | depthExceeded _ limit => ["recursion limit is " ++ Nat.repr limit]
  | _ => []

end Problem

/-- The diagnostic of an error. -/
def CheckError.diagnostic (e : CheckError) : Diagnostic :=
  { kind := e.problem.kind
    code := e.problem.kind.code
    message := e.message
    span := e.span
    label := e.problem.label
    notes := e.problem.notes }

end GradualTyping
