/-
# Programs as JSON

Every field is written, also one with its default value.  The fields of a
statement or expression stand beside its kind in one object.
-/

import GradualTyping.Json.Decode
import GradualTyping.Program.Names

namespace GradualTyping

def Span.fields (s : Span) : List (String × Json) :=
  [("start", .ofNat s.start), ("end", .ofNat s.stop), ("line", .ofNat s.line),
    ("column", .ofNat s.column)]

def Span.toJson (s : Span) : Json := .object s.fields

/-- Fields with the kind first. -/
def ofKind (kind : String) (fields : List (String × Json)) : List (String × Json) :=
  ("kind", .string kind) :: fields

def tagged (kind : String) (fields : List (String × Json)) : Json := .object (ofKind kind fields)

def Variance.toJson (v : Variance) : Json := .string (nameIn Variance.names v)

def Modifier.toJson (m : Modifier) : Json := .string (nameIn Modifier.names m)

mutual
def TypeExpr.toJson : TypeExpr → Json
  | .named name args => tagged "named" [("name", .string name), ("args", .array (typesJson args))]
  | .stringLit value => tagged "string_lit" [("value", .string value)]
  | .numberLit value => tagged "number_lit" [("value", .float value)]
  | .boolLit value => tagged "bool_lit" [("value", .bool value)]
  | .object properties index =>
    tagged "object"
      [("properties", .array (propertiesJson properties)), ("index", typeOptionJson index)]
  | .array element => tagged "array" [("element", element.toJson)]
  | .tuple elements rest =>
    tagged "tuple" [("elements", .array (elementsJson elements)), ("rest", typeOptionJson rest)]
  | .function f => tagged "function" (functionTypeFields f)
  | .union members => tagged "union" [("members", .array (typesJson members))]
  | .intersection members => tagged "intersection" [("members", .array (typesJson members))]
  | .conditional check pattern yes no =>
    tagged "conditional"
      [("check", check.toJson), ("extends", pattern.toJson), ("true_type", yes.toJson),
        ("false_type", no.toJson)]
  | .infer name => tagged "infer" [("name", .string name)]
  | .mapped param keys value readonly optional =>
    tagged "mapped"
      [("param", .string param), ("constraint", keys.toJson), ("template", value.toJson),
        ("readonly", readonly.toJson), ("optional", optional.toJson)]
  | .keyOf operand => tagged "key_of" [("operand", operand.toJson)]
  | .indexed base key => tagged "indexed_access" [("object", base.toJson), ("index", key.toJson)]
  | .template parts => tagged "template_literal" [("parts", .array (templateTypeJson parts))]
  | .typeOf name => tagged "type_query" [("name", .string name)]

def typesJson : List TypeExpr → List Json
  | [] => []
  | t :: ts => t.toJson :: typesJson ts

def typeOptionJson : Option TypeExpr → Json
  | none => .null
  | some t => t.toJson

def propertiesJson : List (PropertyDecl TypeExpr) → List Json
  | [] => []
  | ⟨name, type, optional, readonly⟩ :: ps =>
    .object [("name", .string name), ("ty", type.toJson), ("optional", .bool optional),
      ("readonly", .bool readonly)] :: propertiesJson ps

def elementsJson : List (TupleElementDecl TypeExpr) → List Json
  | [] => []
  | ⟨type, optional⟩ :: es =>
    .object [("ty", type.toJson), ("optional", .bool optional)] :: elementsJson es

def templateTypeJson : List (TemplatePart TypeExpr) → List Json
  | [] => []
  | .text s :: ps => tagged "text" [("text", .string s)] :: templateTypeJson ps
  | .embedded t :: ps => tagged "type" [("ty", t.toJson)] :: templateTypeJson ps

def typeParamsJson : List (TypeParamDecl TypeExpr) → List Json
  | [] => []
  | ⟨name, bound, fallback, variance⟩ :: ps =>
    .object [("name", .string name), ("constraint", typeOptionJson bound),
      ("default", typeOptionJson fallback), ("variance", .ofOption Variance.toJson variance)]
      :: typeParamsJson ps

def paramJson : ParamDecl TypeExpr → Json
  | ⟨name, type, optional, span⟩ =>
    .object [("name", .string name), ("ty", typeOptionJson type), ("optional", .bool optional),
      ("span", span.toJson)]

def paramsJson : List (ParamDecl TypeExpr) → List Json
  | [] => []
  | p :: ps => paramJson p :: paramsJson ps

def paramOptionJson : Option (ParamDecl TypeExpr) → Json
  | none => .null
  | some p => paramJson p

def predicateJson : Option (PredicateDecl TypeExpr) → Json
  | none => .null
  | some ⟨param, type, asserts⟩ =>
    .object [("param", .string param), ("ty", type.toJson), ("asserts", .bool asserts)]

def functionTypeFields : FunctionTypeDecl TypeExpr → List (String × Json)
  | ⟨typeParams, params, rest, result, predicate, construct⟩ =>
    [("type_params", .array (typeParamsJson typeParams)), ("params", .array (paramsJson params)),
      ("rest", paramOptionJson rest), ("return_type", result.toJson),
      ("predicate", predicateJson predicate), ("construct", .bool construct)]
end

mutual
def Expr.toJson : Expr → Json
  | .mk id kind span =>
    .object ([("id", .ofNat id)] ++ kind.fields ++ [("span", span.toJson)])

/-- The kind of an expression and the fields of that kind. -/
def ExprKind.fields : ExprKind → List (String × Json)
  | .string value => ofKind "string" [("value", .string value)]
  | .number value => ofKind "number" [("value", .float value)]
  | .bool value => ofKind "bool" [("value", .bool value)]
  | .bigint digits => ofKind "big_int" [("digits", .string digits)]
  | .null => ofKind "null" []
  | .undefined => ofKind "undefined" []
  | .template parts => ofKind "template" [("parts", .array (templateJson parts))]
  | .ident name => ofKind "ident" [("name", .string name)]
  | .this => ofKind "this" []
  | .object members => ofKind "object" [("members", .array (membersJson members))]
  | .array elements => ofKind "array" [("elements", .array (exprsJson elements))]
  | .call callee typeArgs args =>
    ofKind "call" [("callee", callee.toJson),
      ("type_args", .array (typesJson typeArgs)), ("args", .array (exprsJson args))]
  | .new callee typeArgs args =>
    ofKind "new" [("callee", callee.toJson),
      ("type_args", .array (typesJson typeArgs)), ("args", .array (exprsJson args))]
  | .member object property =>
    ofKind "member" [("object", object.toJson), ("property", .string property)]
  | .index object index => ofKind "index" [("object", object.toJson), ("index", index.toJson)]
  | .function ⟨typeParams, params, result, isAsync, body⟩ =>
    ofKind "function" [("type_params", .array (typeParamsJson typeParams)),
      ("params", .array (paramsJson params)), ("return_type", typeOptionJson result),
      ("is_async", .bool isAsync), ("body", bodyJson body)]
  | .binary op left right =>
    ofKind "binary" [("op", .string (nameIn BinaryOp.names op)),
      ("left", left.toJson), ("right", right.toJson)]
  | .unary op operand =>
    ofKind "unary" [("op", .string (nameIn UnaryOp.names op)),
      ("operand", operand.toJson)]
  | .conditional cond yes no =>
    ofKind "conditional" [("cond", cond.toJson), ("then_expr", yes.toJson),
      ("else_expr", no.toJson)]
  | .await value => ofKind "await" [("value", value.toJson)]
  | .as_ value type => ofKind "as" [("value", value.toJson), ("ty", type.toJson)]
  | .nonNull value => ofKind "non_null" [("value", value.toJson)]
  | .assign target value => ofKind "assign" [("target", target.toJson), ("value", value.toJson)]

def Stmt.toJson : Stmt → Json
  | .mk kind span => .object (kind.fields ++ [("span", span.toJson)])

/-- The kind of a statement and the fields of that kind. -/
def StmtKind.fields : StmtKind → List (String × Json)
  | .typeAlias name typeParams body =>
    ofKind "type_alias" [("name", .string name),
      ("type_params", .array (typeParamsJson typeParams)), ("body", body.toJson)]
  | .interface name typeParams extended members =>
    ofKind "interface" [("name", .string name),
      ("type_params", .array (typeParamsJson typeParams)),
      ("extends", .array (typesJson extended)), ("members", .array (propertiesJson members))]
  | .class_ ⟨name, typeParams, fields, constructor, methods⟩ =>
    ofKind "class" [("name", .string name),
      ("type_params", .array (typeParamsJson typeParams)), ("fields", .array (fieldsJson fields)),
      ("constructor", constructorJson constructor), ("methods", .array (functionsJson methods))]
  | .function f => ofKind "function" (functionFields f)
  | .var kind name type init =>
    ofKind "var" [("var_kind", .string (nameIn VarKind.names kind)),
      ("name", .string name), ("ty", typeOptionJson type), ("init", exprOptionJson init)]
  | .expr value => ofKind "expr" [("expr", value.toJson)]
  | .return_ value => ofKind "return" [("value", exprOptionJson value)]
  | .if_ cond yes no =>
    ofKind "if" [("cond", cond.toJson), ("then_branch", .array (stmtsJson yes)),
      ("else_branch", blockJson no)]
  | .switch subject cases =>
    ofKind "switch" [("discriminant", subject.toJson),
      ("cases", .array (casesJson cases))]
  | .while_ cond body => ofKind "while" [("cond", cond.toJson), ("body", .array (stmtsJson body))]
  | .block body => ofKind "block" [("body", .array (stmtsJson body))]
  | .throw_ value => ofKind "throw" [("value", value.toJson)]
  | .break_ => ofKind "break" []

def exprsJson : List Expr → List Json
  | [] => []
  | e :: es => e.toJson :: exprsJson es

def stmtsJson : List Stmt → List Json
  | [] => []
  | s :: ss => s.toJson :: stmtsJson ss

def exprOptionJson : Option Expr → Json
  | none => .null
  | some e => e.toJson

def blockJson : Option (List Stmt) → Json
  | none => .null
  | some ss => .array (stmtsJson ss)

def templateJson : List (TemplatePart Expr) → List Json
  | [] => []
  | .text s :: ps => tagged "text" [("text", .string s)] :: templateJson ps
  | .embedded e :: ps => tagged "expr" [("expr", e.toJson)] :: templateJson ps

def membersJson : List (ObjectMember Expr) → List Json
  | [] => []
  | .property name e :: ms =>
    tagged "property" [("name", .string name), ("value", e.toJson)] :: membersJson ms
  | .spread e :: ms => tagged "spread" [("value", e.toJson)] :: membersJson ms

def bodyJson : FunctionBody Expr Stmt → Json
  | .block body => tagged "block" [("body", .array (stmtsJson body))]
  | .expr e => tagged "expr" [("expr", e.toJson)]

def fieldsJson : List (ClassField Expr) → List Json
  | [] => []
  | ⟨name, type, optional, readonly, init⟩ :: fs =>
    .object [("name", .string name), ("ty", type.toJson), ("optional", .bool optional),
      ("readonly", .bool readonly), ("init", exprOptionJson init)] :: fieldsJson fs

def constructorJson : Option (ConstructorDecl Stmt) → Json
  | none => .null
  | some ⟨params, body⟩ =>
    .object [("params", .array (paramsJson params)), ("body", .array (stmtsJson body))]

def functionFields : FunctionDecl Stmt → List (String × Json)
  | ⟨name, typeParams, params, rest, result, predicate, isAsync, body⟩ =>
    [("name", .string name), ("type_params", .array (typeParamsJson typeParams)),
      ("params", .array (paramsJson params)), ("rest", paramOptionJson rest),
      ("return_type", typeOptionJson result), ("predicate", predicateJson predicate),
      ("is_async", .bool isAsync), ("body", blockJson body)]

def functionsJson : List (FunctionDecl Stmt) → List Json
  | [] => []
  | f :: fs => .object (functionFields f) :: functionsJson fs

def casesJson : List (SwitchCase Expr Stmt) → List Json
  | [] => []
  | ⟨test, body, span⟩ :: cs =>
    .object [("test", exprOptionJson test), ("body", .array (stmtsJson body)),
      ("span", span.toJson)] :: casesJson cs
end

def CodeUnit.toJson (u : CodeUnit) : Json :=
  .object [("path", .string u.path), ("source", .string u.source),
    ("statements", .array (stmtsJson u.statements))]

end GradualTyping
