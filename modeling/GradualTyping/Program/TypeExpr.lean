/-
# Written types

A type as it is written in a program: names are not resolved yet.  The parts
that hold written types are generic in them, so that `TypeExpr` is one nested
type.
-/

import GradualTyping.Types.Basic
import GradualTyping.Program.Span

namespace GradualTyping

/-- A field of an object type, an interface or a class. -/
structure PropertyDecl (τ : Type) where
  name : String
  type : τ
  optional : Bool := false
  readonly : Bool := false
deriving Inhabited

structure TupleElementDecl (τ : Type) where
  type : τ
  optional : Bool := false
deriving Inhabited

/-- A fixed text or an embedded part of a template. -/
inductive TemplatePart (α : Type) where
  | text (value : String)
  | embedded (part : α)
deriving Inhabited

/-- `param is T` or `asserts param is T` as the result of a function. -/
structure PredicateDecl (τ : Type) where
  param : String
  type : τ
  asserts : Bool := false
deriving Inhabited

/-- A generic parameter with its bound, its default and its variance. -/
structure TypeParamDecl (τ : Type) where
  name : String
  bound : Option τ := none
  fallback : Option τ := none
  variance : Option Variance := none
deriving Inhabited

/-- A parameter; without a type it is typed from its context. -/
structure ParamDecl (τ : Type) where
  name : String
  type : Option τ := none
  optional : Bool := false
  span : Span := {}
deriving Inhabited

/-- A written function type. -/
structure FunctionTypeDecl (τ : Type) where
  typeParams : List (TypeParamDecl τ) := []
  params : List (ParamDecl τ)
  rest : Option (ParamDecl τ) := none
  result : τ
  predicate : Option (PredicateDecl τ) := none
  construct : Bool := false
deriving Inhabited

inductive TypeExpr where
  /-- A name with arguments: a keyword, a type parameter, an alias or a utility. -/
  | named (name : String) (args : List TypeExpr)
  | stringLit (value : String)
  | numberLit (value : Double)
  | boolLit (value : Bool)
  | object (properties : List (PropertyDecl TypeExpr)) (index : Option TypeExpr)
  | array (element : TypeExpr)
  | tuple (elements : List (TupleElementDecl TypeExpr)) (rest : Option TypeExpr)
  | function (f : FunctionTypeDecl TypeExpr)
  | union (members : List TypeExpr)
  | intersection (members : List TypeExpr)
  | conditional (check pattern yes no : TypeExpr)
  | infer (name : String)
  | mapped (param : String) (keys template : TypeExpr) (readonly optional : Modifier)
  | keyOf (operand : TypeExpr)
  | indexed (object index : TypeExpr)
  | template (parts : List (TemplatePart TypeExpr))
  /-- The type of a value. -/
  | typeOf (name : String)
deriving Inhabited

namespace TypeExpr

/-- A name without arguments. -/
def ofName (name : String) : TypeExpr := .named name []

mutual
/-- The nesting of a written type, counting the type itself. -/
def height : TypeExpr → Nat
  | .named _ args => heightList args + 1
  | .object properties index => max (heightProperties properties) (heightOption index) + 1
  | .array element => element.height + 1
  | .tuple elements rest => max (heightElements elements) (heightOption rest) + 1
  | .function f => heightFunction f + 1
  | .union members => heightList members + 1
  | .intersection members => heightList members + 1
  | .conditional check pattern yes no =>
    max (max check.height pattern.height) (max yes.height no.height) + 1
  | .mapped _ keys value _ _ => max keys.height value.height + 1
  | .keyOf operand => operand.height + 1
  | .indexed base key => max base.height key.height + 1
  | .template parts => heightParts parts + 1
  | _ => 1

def heightList : List TypeExpr → Nat
  | [] => 0
  | t :: ts => max t.height (heightList ts)

def heightOption : Option TypeExpr → Nat
  | none => 0
  | some t => t.height

def heightProperties : List (PropertyDecl TypeExpr) → Nat
  | [] => 0
  | ⟨_, t, _, _⟩ :: ps => max t.height (heightProperties ps)

def heightElements : List (TupleElementDecl TypeExpr) → Nat
  | [] => 0
  | ⟨t, _⟩ :: es => max t.height (heightElements es)

def heightParts : List (TemplatePart TypeExpr) → Nat
  | [] => 0
  | .text _ :: ps => heightParts ps
  | .embedded t :: ps => max t.height (heightParts ps)

def heightTypeParams : List (TypeParamDecl TypeExpr) → Nat
  | [] => 0
  | ⟨_, bound, fallback, _⟩ :: ps =>
    max (max (heightOption bound) (heightOption fallback)) (heightTypeParams ps)

def heightParams : List (ParamDecl TypeExpr) → Nat
  | [] => 0
  | ⟨_, type, _, _⟩ :: ps => max (heightOption type) (heightParams ps)

def heightRest : Option (ParamDecl TypeExpr) → Nat
  | none => 0
  | some ⟨_, type, _, _⟩ => heightOption type

def heightPredicate : Option (PredicateDecl TypeExpr) → Nat
  | none => 0
  | some ⟨_, type, _⟩ => type.height

def heightFunction : FunctionTypeDecl TypeExpr → Nat
  | ⟨typeParams, params, rest, result, predicate, _⟩ =>
    max (max (heightTypeParams typeParams) (max (heightParams params) (heightRest rest)))
      (max result.height (heightPredicate predicate))
end

end TypeExpr

end GradualTyping
