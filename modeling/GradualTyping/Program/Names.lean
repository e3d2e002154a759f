/-
# The names of operators and keywords in JSON
-/

import GradualTyping.Program.Basic

namespace GradualTyping

def BinaryOp.names : List (String × BinaryOp) :=
  [("add", .add), ("sub", .sub), ("mul", .mul), ("div", .div), ("rem", .rem), ("lt", .lt),
    ("gt", .gt), ("le", .le), ("ge", .ge), ("strict_eq", .strictEq), ("strict_ne", .strictNe),
    ("eq", .eq), ("ne", .ne), ("and", .and), ("or", .or), ("nullish", .nullish),
    ("instance_of", .instanceOf), ("in", .in_)]

def UnaryOp.names : List (String × UnaryOp) := [("not", .not), ("neg", .neg), ("type_of", .typeOf)]

def VarKind.names : List (String × VarKind) := [("let", .let_), ("const", .const)]

def Modifier.names : List (String × Modifier) :=
  [("preserve", .preserve), ("add", .add), ("remove", .remove)]

def Variance.names : List (String × Variance) :=
  [("covariant", .covariant), ("contravariant", .contravariant), ("invariant", .invariant)]

/-- The name of a value in a table of names. -/
def nameIn {α : Type} [DecidableEq α] (names : List (String × α)) (a : α) : String :=
  ((names.find? (·.2 = a)).map (·.1)).getD ""

end GradualTyping
