/-
# Programs from JSON

Reading is written over a reader for the parts, one level of nesting deeper, and
the nesting of the JSON value bounds the levels.  The kind of a part is given by
its name or by its place in the list of kinds; only the kind of a type that is
no part of anything needs its name.
-/

import GradualTyping.Program.Encode

namespace GradualTyping

open Json

def Span.ofJson? (j : Json) : Option Span := do
  let start ← j.required? "start" toUInt64?
  let stop ← j.required? "end" toUInt64?
  let line ← j.required? "line" toUInt32?
  let column ← j.required? "column" toUInt32?
  return ⟨start, stop, line, column⟩

/-- The span of an object, all zero if it is missing. -/
def spanField? (j : Json) : Option Span := j.defaulted? "span" {} Span.ofJson?

/-- A flag, false if it is missing. -/
def flagField? (j : Json) (name : String) : Option Bool := j.defaulted? name false toBool?

/-- A list, empty if it is missing. -/
def listField? {α : Type} (j : Json) (name : String) (read : Json → Option α) : Option (List α) :=
  j.defaulted? name [] (listOf? read)

/-- The kind of a value, one of `kinds`. -/
def kindField? (j : Json) (kinds : List String) : Option String := j.required? "kind" (tagOf? kinds)

/-- A part of a template that is a text, or of the given kind and in the given field. -/
def readTemplatePart {α : Type} (kind field : String) (read : Json → Option α) (j : Json) :
    Option (TemplatePart α) := do
  let found ← kindField? j ["text", kind]
  if found = "text" then return .text (← j.required? "text" toString?)
  else if found = kind then return .embedded (← j.required? field read)
  else none

namespace TypeExpr

/-- The kinds of written types. -/
def kinds : List String :=
  ["named", "string_lit", "number_lit", "bool_lit", "object", "array", "tuple", "function", "union",
    "intersection", "conditional", "infer", "mapped", "key_of", "indexed_access",
    "template_literal", "type_query"]

variable (read : Json → Option TypeExpr)

def readProperty (j : Json) : Option (PropertyDecl TypeExpr) := do
  let name ← j.required? "name" toString?
  let type ← j.required? "ty" read
  let optional ← flagField? j "optional"
  let readonly ← flagField? j "readonly"
  return ⟨name, type, optional, readonly⟩

def readElement (j : Json) : Option (TupleElementDecl TypeExpr) := do
  let type ← j.required? "ty" read
  let optional ← flagField? j "optional"
  return ⟨type, optional⟩

def readTypeParam (j : Json) : Option (TypeParamDecl TypeExpr) := do
  let name ← j.required? "name" toString?
  let bound ← j.optional? "constraint" read
  let fallback ← j.optional? "default" read
  let variance ← j.optional? "variance" (looseNameOf? Variance.names)
  return ⟨name, bound, fallback, variance⟩

def readParam (j : Json) : Option (ParamDecl TypeExpr) := do
  let name ← j.required? "name" toString?
  let type ← j.optional? "ty" read
  let optional ← flagField? j "optional"
  let span ← spanField? j
  return ⟨name, type, optional, span⟩

def readPredicate (j : Json) : Option (PredicateDecl TypeExpr) := do
  let param ← j.required? "param" toString?
  let type ← j.required? "ty" read
  let asserts ← flagField? j "asserts"
  return ⟨param, type, asserts⟩

def readFunction (j : Json) : Option (FunctionTypeDecl TypeExpr) := do
  let typeParams ← listField? j "type_params" (readTypeParam read)
  let params ← j.required? "params" (listOf? (readParam read))
  let rest ← j.optional? "rest" (readParam read)
  let result ← j.required? "return_type" read
  let predicate ← j.optional? "predicate" (readPredicate read)
  let construct ← flagField? j "construct"
  return ⟨typeParams, params, rest, result, predicate, construct⟩

/-- A written type, with the types in it read by `read`. -/
def readStep (j : Json) : Option TypeExpr := do
  match ← kindField? j kinds with
  | "named" =>
    let name ← j.required? "name" toString?
    let args ← listField? j "args" read
    return .named name args
  | "string_lit" => return .stringLit (← j.required? "value" toString?)
  | "number_lit" => return .numberLit (← j.required? "value" toDouble?)
  | "bool_lit" => return .boolLit (← j.required? "value" toBool?)
  | "object" =>
    let properties ← j.required? "properties" (listOf? (readProperty read))
    let index ← j.optional? "index" read
    return .object properties index
  | "array" => return .array (← j.required? "element" read)
  | "tuple" =>
    let elements ← j.required? "elements" (listOf? (readElement read))
    let rest ← j.optional? "rest" read
    return .tuple elements rest
  | "function" => return .function (← readFunction read j)
  | "union" => return .union (← j.required? "members" (listOf? read))
  | "intersection" => return .intersection (← j.required? "members" (listOf? read))
  | "conditional" =>
    let check ← j.required? "check" read
    let pattern ← j.required? "extends" read
    let yes ← j.required? "true_type" read
    let no ← j.required? "false_type" read
    return .conditional check pattern yes no
  | "infer" => return .infer (← j.required? "name" toString?)
  | "mapped" =>
    let param ← j.required? "param" toString?
    let keys ← j.required? "constraint" read
    let value ← j.required? "template" read
    let readonly ← j.defaulted? "readonly" .preserve (looseNameOf? Modifier.names)
    let optional ← j.defaulted? "optional" .preserve (looseNameOf? Modifier.names)
    return .mapped param keys value readonly optional
  | "key_of" => return .keyOf (← j.required? "operand" read)
  | "indexed_access" =>
    let base ← j.required? "object" read
    let key ← j.required? "index" read
    return .indexed base key
  | "template_literal" => return .template (← j.required? "parts" (listOf? (readTemplatePart "type" "ty" read)))
  | "type_query" => return .typeOf (← j.required? "name" toString?)
  | _ => none

/-- A written type in a JSON value with the given nesting. -/
def readWithin : Nat → Json → Option TypeExpr
  | 0, _ => none
  | n + 1, j => readStep (readWithin n) j

/-- The written type that a JSON value stands for. -/
def ofJson? (j : Json) : Option TypeExpr := do
  let _ ← j.required? "kind" toString?
  readWithin j.height j

end TypeExpr

/-- Readers of the parts of a program. -/
structure ProgramReader where
  type : Json → Option TypeExpr
  expr : Json → Option Expr
  stmt : Json → Option Stmt

namespace ProgramReader

variable (r : ProgramReader)

def typeParams? (j : Json) : Option TypeParams :=
  listField? j "type_params" (TypeExpr.readTypeParam r.type)

def params? (j : Json) : Option (List Param) :=
  j.required? "params" (listOf? (TypeExpr.readParam r.type))

def block? (j : Json) : Option (List Stmt) := listOf? r.stmt j

def function? (j : Json) : Option (FunctionDecl Stmt) := do
  let name ← j.required? "name" toString?
  let typeParams ← r.typeParams? j
  let params ← r.params? j
  let rest ← j.optional? "rest" (TypeExpr.readParam r.type)
  let result ← j.optional? "return_type" r.type
  let predicate ← j.optional? "predicate" (TypeExpr.readPredicate r.type)
  let isAsync ← flagField? j "is_async"
  let body ← j.optional? "body" r.block?
  return ⟨name, typeParams, params, rest, result, predicate, isAsync, body⟩

def classField? (j : Json) : Option (ClassField Expr) := do
  let name ← j.required? "name" toString?
  let type ← j.required? "ty" r.type
  let optional ← flagField? j "optional"
  let readonly ← flagField? j "readonly"
  let init ← j.optional? "init" r.expr
  return ⟨name, type, optional, readonly, init⟩

def constructor? (j : Json) : Option (ConstructorDecl Stmt) := do
  let params ← r.params? j
  let body ← j.required? "body" r.block?
  return ⟨params, body⟩

def class? (j : Json) : Option Class := do
  let name ← j.required? "name" toString?
  let typeParams ← r.typeParams? j
  let fields ← listField? j "fields" r.classField?
  let constructor ← j.optional? "constructor" r.constructor?
  let methods ← listField? j "methods" r.function?
  return ⟨name, typeParams, fields, constructor, methods⟩

def case? (j : Json) : Option Case := do
  let test ← j.optional? "test" r.expr
  let body ← j.required? "body" r.block?
  let span ← spanField? j
  return ⟨test, body, span⟩

def objectMember? (j : Json) : Option (ObjectMember Expr) := do
  match ← kindField? j ["property", "spread"] with
  | "property" =>
    let name ← j.required? "name" toString?
    let value ← j.required? "value" r.expr
    return .property name value
  | "spread" => return .spread (← j.required? "value" r.expr)
  | _ => none

def functionBody? (j : Json) : Option (FunctionBody Expr Stmt) := do
  match ← kindField? j ["block", "expr"] with
  | "block" => return .block (← j.required? "body" r.block?)
  | "expr" => return .expr (← j.required? "expr" r.expr)
  | _ => none

def functionExpr? (j : Json) : Option (FunctionExpr Expr Stmt) := do
  let typeParams ← r.typeParams? j
  let params ← r.params? j
  let result ← j.optional? "return_type" r.type
  let isAsync ← flagField? j "is_async"
  let body ← j.required? "body" r.functionBody?
  return ⟨typeParams, params, result, isAsync, body⟩

/-- The kinds of expressions. -/
def exprKinds : List String :=
  ["string", "number", "bool", "big_int", "null", "undefined", "template", "ident", "this", "object",
    "array", "call", "new", "member", "index", "function", "binary", "unary", "conditional", "await",
    "as", "non_null", "assign"]

def exprKind? (j : Json) : Option ExprKind := do
  match ← kindField? j exprKinds with
  | "string" => return .string (← j.required? "value" toString?)
  | "number" => return .number (← j.required? "value" toDouble?)
  | "bool" => return .bool (← j.required? "value" toBool?)
  | "big_int" => return .bigint (← j.required? "digits" toString?)
  | "null" => return .null
  | "undefined" => return .undefined
  | "template" => return .template (← j.required? "parts" (listOf? (readTemplatePart "expr" "expr" r.expr)))
  | "ident" => return .ident (← j.required? "name" toString?)
  | "this" => return .this
  | "object" => return .object (← j.required? "members" (listOf? r.objectMember?))
  | "array" => return .array (← j.required? "elements" (listOf? r.expr))
  | "call" =>
    let callee ← j.required? "callee" r.expr
    let typeArgs ← listField? j "type_args" r.type
    let args ← j.required? "args" (listOf? r.expr)
    return .call callee typeArgs args
  | "new" =>
    let callee ← j.required? "callee" r.expr
    let typeArgs ← listField? j "type_args" r.type
    let args ← j.required? "args" (listOf? r.expr)
    return .new callee typeArgs args
  | "member" =>
    let object ← j.required? "object" r.expr
    let property ← j.required? "property" toString?
    return .member object property
  | "index" =>
    let object ← j.required? "object" r.expr
    let index ← j.required? "index" r.expr
    return .index object index
  | "function" => return .function (← r.functionExpr? j)
  | "binary" =>
    let op ← j.required? "op" (looseNameOf? BinaryOp.names)
    let left ← j.required? "left" r.expr
    let right ← j.required? "right" r.expr
    return .binary op left right
  | "unary" =>
    let op ← j.required? "op" (looseNameOf? UnaryOp.names)
    let operand ← j.required? "operand" r.expr
    return .unary op operand
  | "conditional" =>
    let cond ← j.required? "cond" r.expr
    let yes ← j.required? "then_expr" r.expr
    let no ← j.required? "else_expr" r.expr
    return .conditional cond yes no
  | "await" => return .await (← j.required? "value" r.expr)
  | "as" =>
    let value ← j.required? "value" r.expr
    let type ← j.required? "ty" r.type
    return .as_ value type
  | "non_null" => return .nonNull (← j.required? "value" r.expr)
  | "assign" =>
    let target ← j.required? "target" r.expr
    let value ← j.required? "value" r.expr
    return .assign target value
  | _ => none

def readExpr (j : Json) : Option Expr := do
  let id ← j.required? "id" toUInt32?
  let kind ← r.exprKind? j
  let span ← spanField? j
  return .mk id kind span

/-- The kinds of statements. -/
def stmtKinds : List String :=
  ["type_alias", "interface", "class", "function", "var", "expr", "return", "if", "switch", "while",
    "block", "throw", "break"]

def stmtKind? (j : Json) : Option StmtKind := do
  match ← kindField? j stmtKinds with
  | "type_alias" =>
    let name ← j.required? "name" toString?
    let typeParams ← r.typeParams? j
    let body ← j.required? "body" r.type
    return .typeAlias name typeParams body
  | "interface" =>
    let name ← j.required? "name" toString?
    let typeParams ← r.typeParams? j
    let extended ← listField? j "extends" r.type
    let members ← j.required? "members" (listOf? (TypeExpr.readProperty r.type))
    return .interface name typeParams extended members
  | "class" => return .class_ (← r.class? j)
  | "function" => return .function (← r.function? j)
  | "var" =>
    let kind ← j.required? "var_kind" (looseNameOf? VarKind.names)
    let name ← j.required? "name" toString?
    let type ← j.optional? "ty" r.type
    let init ← j.optional? "init" r.expr
    return .var kind name type init
  | "expr" => return .expr (← j.required? "expr" r.expr)
  | "return" => return .return_ (← j.optional? "value" r.expr)
  | "if" =>
    let cond ← j.required? "cond" r.expr
    let yes ← j.required? "then_branch" r.block?
    let no ← j.optional? "else_branch" r.block?
    return .if_ cond yes no
  | "switch" =>
    let subject ← j.required? "discriminant" r.expr
    let cases ← j.required? "cases" (listOf? r.case?)
    return .switch subject cases
  | "while" =>
    let cond ← j.required? "cond" r.expr
    let body ← j.required? "body" r.block?
    return .while_ cond body
  | "block" => return .block (← j.required? "body" r.block?)
  | "throw" => return .throw_ (← j.required? "value" r.expr)
  | "break" => return .break_
  | _ => none

def readStmt (j : Json) : Option Stmt := do
  let kind ← r.stmtKind? j
  let span ← spanField? j
  return .mk kind span

/-- The readers of JSON values with the given nesting. -/
def within : Nat → ProgramReader
  | 0 => ⟨fun _ => none, fun _ => none, fun _ => none⟩
  | n + 1 =>
    { type := TypeExpr.readWithin (n + 1)
      expr := fun j => readExpr (within n) j
      stmt := fun j => readStmt (within n) j }

end ProgramReader

def Expr.ofJson? (j : Json) : Option Expr := (ProgramReader.within j.height).expr j

def Stmt.ofJson? (j : Json) : Option Stmt := (ProgramReader.within j.height).stmt j

def CodeUnit.ofJson? (j : Json) : Option CodeUnit := do
  let path ← j.required? "path" toString?
  let source ← j.defaulted? "source" "" toString?
  let statements ← j.required? "statements" (listOf? Stmt.ofJson?)
  return ⟨path, source, statements⟩

end GradualTyping
