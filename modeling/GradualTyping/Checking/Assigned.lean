/-
# Assigned variables

The variables that the statements of a loop may assign to; the head of the loop
is entered again with whatever they hold then.  The bodies of functions and
classes inside the loop are not looked at.
-/

import GradualTyping.Program.Basic

namespace GradualTyping

mutual
/-- The variables that an expression assigns to. -/
def Expr.assigned : Expr → List String
  | .mk _ kind _ => kind.assigned

def ExprKind.assigned : ExprKind → List String
  | .assign target value => target.ident?.toList ++ value.assigned
  | .binary _ left right => left.assigned ++ right.assigned
  | .unary _ operand => operand.assigned
  | .await value => value.assigned
  | .nonNull value => value.assigned
  | .as_ value _ => value.assigned
  | .member object _ => object.assigned
  | .index object index => object.assigned ++ index.assigned
  | .call callee _ args => callee.assigned ++ assignedInExprs args
  | .new callee _ args => callee.assigned ++ assignedInExprs args
  | .conditional cond yes no => cond.assigned ++ yes.assigned ++ no.assigned
  | .array elements => assignedInExprs elements
  | .object members => assignedInMembers members
  | _ => []

/-- The variables that a statement assigns to. -/
def Stmt.assigned : Stmt → List String
  | .mk kind _ => kind.assigned

def StmtKind.assigned : StmtKind → List String
  | .var _ _ _ (some init) => init.assigned
  | .expr value => value.assigned
  | .throw_ value => value.assigned
  | .return_ (some value) => value.assigned
  | .if_ cond yes none => cond.assigned ++ assignedIn yes
  | .if_ cond yes (some no) => cond.assigned ++ assignedIn yes ++ assignedIn no
  | .while_ cond body => cond.assigned ++ assignedIn body
  | .switch subject cases => subject.assigned ++ assignedInCases cases
  | .block body => assignedIn body
  | _ => []

def assignedInExprs : List Expr → List String
  | [] => []
  | e :: es => e.assigned ++ assignedInExprs es

def assignedInMembers : List (ObjectMember Expr) → List String
  | [] => []
  | .property _ e :: ms => e.assigned ++ assignedInMembers ms
  | .spread e :: ms => e.assigned ++ assignedInMembers ms

/-- The variables that a list of statements assigns to. -/
def assignedIn : List Stmt → List String
  | [] => []
  | s :: ss => s.assigned ++ assignedIn ss

def assignedInCases : List (SwitchCase Expr Stmt) → List String
  | [] => []
  | ⟨_, body, _⟩ :: cs => assignedIn body ++ assignedInCases cs
end

end GradualTyping
