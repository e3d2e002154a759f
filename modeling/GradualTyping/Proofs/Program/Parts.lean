/-
# The parts of a program

What a type, an expression or a statement is made of: the expressions in it, its blocks of
statements, and the types and the spans that are written in it (`Written`).
-/

import GradualTyping.Program.Basic

namespace GradualTyping

/-- The expression of a member of an object. -/
def ObjectMember.value {ε : Type} : ObjectMember ε → ε
  | property _ value => value
  | spread value => value

/-- The expression in a part of a template, if there is one. -/
def TemplatePart.embedded? {ε : Type} : TemplatePart ε → Option ε
  | embedded e => some e
  | text _ => none

/-- The expressions that an expression is made of. -/
def ExprKind.parts : ExprKind → List Expr
  | .template parts => parts.filterMap TemplatePart.embedded?
  | .object members => members.map ObjectMember.value
  | .array elements => elements
  | .call callee _ args | .new callee _ args => callee :: args
  | .member base _ => [base]
  | .index base key => [base, key]
  | .function f =>
    match f.body with
    | .expr e => [e]
    | .block _ => []
  | .binary _ left right => [left, right]
  | .unary _ operand => [operand]
  | .conditional cond yes no => [cond, yes, no]
  | .await value | .as_ value _ | .nonNull value => [value]
  | .assign target value => [target, value]
  | _ => []

/-- The blocks of statements in an expression: the body of a function. -/
def ExprKind.blocks : ExprKind → List (List Stmt)
  | .function f =>
    match f.body with
    | .expr _ => []
    | .block body => [body]
  | _ => []

/-- The expressions that a statement is made of. -/
def StmtKind.parts : StmtKind → List Expr
  | .class_ c => c.fields.filterMap (·.init)
  | .var _ _ _ init => init.toList
  | .expr e => [e]
  | .return_ value => value.toList
  | .if_ cond _ _ => [cond]
  | .switch subject cases => subject :: cases.filterMap (·.test)
  | .while_ cond _ => [cond]
  | .throw_ value => [value]
  | _ => []

/-- The blocks of statements in a statement. -/
def StmtKind.blocks : StmtKind → List (List Stmt)
  | .class_ c => (c.constructor.map (·.body)).toList ++ c.methods.filterMap (·.body)
  | .function f => f.body.toList
  | .if_ _ yes no => yes :: no.toList
  | .switch _ cases => cases.map (·.body)
  | .while_ _ body => [body]
  | .block body => [body]
  | _ => []

/-! ### Types and spans -/

/-- The types and the spans that stand in a part of a program. -/
structure Written where
  types : List TypeExpr := []
  spans : List Span := []

/-- The types that a type parameter is written with. -/
def TypeParamDecl.types (p : TypeParamDecl TypeExpr) : List TypeExpr :=
  p.bound.toList ++ p.fallback.toList

/-- What is written in the head of a function; `types` are those of its result. -/
def Written.ofHead (typeParams : TypeParams) (params : List Param) (types : List TypeExpr) :
    Written :=
  ⟨typeParams.flatMap (·.types) ++ params.flatMap (·.type.toList) ++ types, params.map (·.span)⟩

def FunctionDecl.written {σ : Type} (f : FunctionDecl σ) : Written :=
  .ofHead f.typeParams (f.params ++ f.rest.toList)
    (f.result.toList ++ (f.predicate.map (·.type)).toList)

def TypeExpr.written : TypeExpr → Written
  | .named _ args => { types := args }
  | .object properties index => { types := properties.map (·.type) ++ index.toList }
  | .array element => { types := [element] }
  | .tuple elements rest => { types := elements.map (·.type) ++ rest.toList }
  | .function f =>
    .ofHead f.typeParams (f.params ++ f.rest.toList)
      (f.result :: (f.predicate.map (·.type)).toList)
  | .union members | .intersection members => { types := members }
  | .conditional check pattern yes no => { types := [check, pattern, yes, no] }
  | .mapped _ keys value _ _ => { types := [keys, value] }
  | .keyOf operand => { types := [operand] }
  | .indexed base key => { types := [base, key] }
  | .template parts => { types := parts.filterMap TemplatePart.embedded? }
  | _ => {}

def ExprKind.written : ExprKind → Written
  | .call _ typeArgs _ | .new _ typeArgs _ => { types := typeArgs }
  | .function f => .ofHead f.typeParams f.params f.result.toList
  | .as_ _ type => { types := [type] }
  | _ => {}

def StmtKind.written : StmtKind → Written
  | .typeAlias _ typeParams body => .ofHead typeParams [] [body]
  | .interface _ typeParams extended members =>
    .ofHead typeParams [] (extended ++ members.map (·.type))
  | .class_ c =>
    let head := Written.ofHead c.typeParams (c.constructor.toList.flatMap (·.params)) (c.fields.map (·.type))
    ⟨head.types ++ c.methods.flatMap (·.written.types),
      head.spans ++ c.methods.flatMap (·.written.spans)⟩
  | .function f => f.written
  | .var _ _ type _ => { types := type.toList }
  | .switch _ cases => { spans := cases.map (·.span) }
  | _ => {}

end GradualTyping
