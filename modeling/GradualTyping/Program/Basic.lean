/-
# Programs

A unit is a list of statements.  Every expression carries a number, by which the
checker reports its type, and every statement and expression its span.
-/

import GradualTyping.Program.TypeExpr

namespace GradualTyping

abbrev Param := ParamDecl TypeExpr
abbrev TypeParams := List (TypeParamDecl TypeExpr)

inductive BinaryOp where
  | add
  | sub
  | mul
  | div
  | rem
  | lt
  | gt
  | le
  | ge
  | strictEq
  | strictNe
  | eq
  | ne
  | and
  | or
  | nullish
  | instanceOf
  | in_
deriving DecidableEq, Repr, Inhabited

namespace BinaryOp

def isEquality : BinaryOp → Bool
  | strictEq | strictNe | eq | ne => true
  | _ => false

/-- The two inequalities. -/
def isNegatedEquality : BinaryOp → Bool
  | strictNe | ne => true
  | _ => false

/-- The two comparisons that do not tell `null` from `undefined`. -/
def isLoose : BinaryOp → Bool
  | eq | ne => true
  | _ => false

end BinaryOp

inductive UnaryOp where
  | not
  | neg
  | typeOf
deriving DecidableEq, Repr, Inhabited

inductive VarKind where
  | let_
  | const
deriving DecidableEq, Repr, Inhabited

/-- A function declaration or a method; one without body is only a signature. -/
structure FunctionDecl (σ : Type) where
  name : String
  typeParams : TypeParams := []
  params : List Param
  rest : Option Param := none
  result : Option TypeExpr := none
  predicate : Option (PredicateDecl TypeExpr) := none
  isAsync : Bool := false
  body : Option (List σ) := none
deriving Inhabited

/-- Whether the result of a function is written down. -/
def FunctionDecl.hasResult {σ : Type} (f : FunctionDecl σ) : Bool :=
  f.result.isSome || f.predicate.isSome

structure ClassField (ε : Type) where
  name : String
  type : TypeExpr
  optional : Bool := false
  readonly : Bool := false
  init : Option ε := none
deriving Inhabited

structure ConstructorDecl (σ : Type) where
  params : List Param
  body : List σ
deriving Inhabited

structure ClassDecl (ε σ : Type) where
  name : String
  typeParams : TypeParams := []
  fields : List (ClassField ε) := []
  constructor : Option (ConstructorDecl σ) := none
  methods : List (FunctionDecl σ) := []
deriving Inhabited

/-- A clause of a switch; one without test is the default. -/
structure SwitchCase (ε σ : Type) where
  test : Option ε
  body : List σ
  span : Span := {}
deriving Inhabited

inductive ObjectMember (ε : Type) where
  | property (name : String) (value : ε)
  | spread (value : ε)
deriving Inhabited

inductive FunctionBody (ε σ : Type) where
  | block (body : List σ)
  | expr (value : ε)
deriving Inhabited

/-- A function as an expression. -/
structure FunctionExpr (ε σ : Type) where
  typeParams : TypeParams := []
  params : List Param
  result : Option TypeExpr := none
  isAsync : Bool := false
  body : FunctionBody ε σ
deriving Inhabited

mutual
inductive Expr where
  | mk (id : Nat) (kind : ExprKind) (span : Span)

inductive ExprKind where
  | string (value : String)
  | number (value : Double)
  | bool (value : Bool)
  | bigint (digits : String)
  | null
  | undefined
  | template (parts : List (TemplatePart Expr))
  | ident (name : String)
  | this
  | object (members : List (ObjectMember Expr))
  | array (elements : List Expr)
  | call (callee : Expr) (typeArgs : List TypeExpr) (args : List Expr)
  | new (callee : Expr) (typeArgs : List TypeExpr) (args : List Expr)
  | member (object : Expr) (property : String)
  | index (object index : Expr)
  | function (f : FunctionExpr Expr Stmt)
  | binary (op : BinaryOp) (left right : Expr)
  | unary (op : UnaryOp) (operand : Expr)
  | conditional (cond yes no : Expr)
  | await (value : Expr)
  | as_ (value : Expr) (type : TypeExpr)
  | nonNull (value : Expr)
  | assign (target value : Expr)

inductive Stmt where
  | mk (kind : StmtKind) (span : Span)

inductive StmtKind where
  | typeAlias (name : String) (typeParams : TypeParams) (body : TypeExpr)
  | interface (name : String) (typeParams : TypeParams) (extended : List TypeExpr)
    (members : List (PropertyDecl TypeExpr))
  | class_ (c : ClassDecl Expr Stmt)
  | function (f : FunctionDecl Stmt)
  | var (kind : VarKind) (name : String) (type : Option TypeExpr) (init : Option Expr)
  | expr (value : Expr)
  | return_ (value : Option Expr)
  | if_ (cond : Expr) (yes : List Stmt) (no : Option (List Stmt))
  | switch (subject : Expr) (cases : List (SwitchCase Expr Stmt))
  | while_ (cond : Expr) (body : List Stmt)
  | block (body : List Stmt)
  | throw_ (value : Expr)
  | break_
end

instance : Inhabited Expr := ⟨.mk 0 .null {}⟩
instance : Inhabited Stmt := ⟨.mk .break_ {}⟩

abbrev Case := SwitchCase Expr Stmt
abbrev Class := ClassDecl Expr Stmt

/-- A compilation unit; the source text is only used to show errors. -/
structure CodeUnit where
  path : String
  source : String := ""
  statements : List Stmt
deriving Inhabited

namespace Expr

def id : Expr → Nat
  | mk id _ _ => id

def kind : Expr → ExprKind
  | mk _ kind _ => kind

def span : Expr → Span
  | mk _ _ span => span

/-- The expression at another place. -/
def withSpan (span : Span) : Expr → Expr
  | mk id kind _ => mk id kind span

/-- The name of a plain variable. -/
def ident? (e : Expr) : Option String :=
  match e.kind with
  | .ident name => some name
  | _ => none

/-- An object or array that nothing else can see yet. -/
def isFresh (e : Expr) : Bool :=
  match e.kind with
  | .object _ | .array _ => true
  | _ => false

/-- A function with a parameter that is typed from its context. -/
def isContextSensitive (e : Expr) : Bool :=
  match e.kind with
  | .function f => f.params.any (·.type.isNone)
  | _ => false

end Expr

namespace Stmt

def kind : Stmt → StmtKind
  | mk kind _ => kind

def span : Stmt → Span
  | mk _ span => span

/-- The statement at another place. -/
def withSpan (span : Span) : Stmt → Stmt
  | mk kind _ => mk kind span

end Stmt

end GradualTyping
