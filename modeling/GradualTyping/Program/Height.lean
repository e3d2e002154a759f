/-
# The nesting of programs

The height of a statement or an expression bounds how deep the checker descends
into it.
-/

import GradualTyping.Program.Basic

namespace GradualTyping

mutual
/-- The nesting of an expression, counting the expression itself. -/
def Expr.height : Expr → Nat
  | .mk _ kind _ => kind.height + 1

def ExprKind.height : ExprKind → Nat
  | .template parts => heightTemplate parts
  | .object members => heightMembers members
  | .array elements => heightExprs elements
  | .call callee _ args => max callee.height (heightExprs args)
  | .new callee _ args => max callee.height (heightExprs args)
  | .member object _ => object.height
  | .index object index => max object.height index.height
  | .function ⟨_, _, _, _, body⟩ => heightBody body
  | .binary _ left right => max left.height right.height
  | .unary _ operand => operand.height
  | .conditional cond yes no => max cond.height (max yes.height no.height)
  | .await value => value.height
  | .as_ value _ => value.height
  | .nonNull value => value.height
  | .assign target value => max target.height value.height
  | _ => 0

/-- The nesting of a statement, counting the statement itself. -/
def Stmt.height : Stmt → Nat
  | .mk kind _ => kind.height + 1

def StmtKind.height : StmtKind → Nat
  | .class_ ⟨_, _, fields, constructor, methods⟩ =>
    max (heightFields fields) (max (heightConstructor constructor) (heightFunctions methods))
  | .function ⟨_, _, _, _, _, _, _, body⟩ => heightBlock body
  | .var _ _ _ init => heightOption init
  | .expr value => value.height
  | .return_ value => heightOption value
  | .if_ cond yes no => max cond.height (max (heightStmts yes) (heightBlock no))
  | .switch subject cases => max subject.height (heightCases cases)
  | .while_ cond body => max cond.height (heightStmts body)
  | .block body => heightStmts body
  | .throw_ value => value.height
  | _ => 0

def heightExprs : List Expr → Nat
  | [] => 0
  | e :: es => max e.height (heightExprs es)

/-- The nesting of a list of statements, which is one level also when empty. -/
def heightStmts : List Stmt → Nat
  | [] => 1
  | s :: ss => max s.height (heightStmts ss)

def heightOption : Option Expr → Nat
  | none => 0
  | some e => e.height

def heightBlock : Option (List Stmt) → Nat
  | none => 0
  | some ss => heightStmts ss

def heightTemplate : List (TemplatePart Expr) → Nat
  | [] => 0
  | .text _ :: ps => heightTemplate ps
  | .embedded e :: ps => max e.height (heightTemplate ps)

def heightMembers : List (ObjectMember Expr) → Nat
  | [] => 0
  | .property _ e :: ms => max e.height (heightMembers ms)
  | .spread e :: ms => max e.height (heightMembers ms)

def heightBody : FunctionBody Expr Stmt → Nat
  | .block body => heightStmts body
  | .expr e => e.height

def heightFields : List (ClassField Expr) → Nat
  | [] => 0
  | ⟨_, _, _, _, init⟩ :: fs => max (heightOption init) (heightFields fs)

def heightConstructor : Option (ConstructorDecl Stmt) → Nat
  | none => 0
  | some ⟨_, body⟩ => heightStmts body

def heightFunctions : List (FunctionDecl Stmt) → Nat
  | [] => 0
  | ⟨_, _, _, _, _, _, _, body⟩ :: fs => max (heightBlock body) (heightFunctions fs)

def heightCases : List (SwitchCase Expr Stmt) → Nat
  | [] => 0
  | ⟨test, body, _⟩ :: cs => max (max (heightOption test) (heightStmts body)) (heightCases cs)
end

end GradualTyping
