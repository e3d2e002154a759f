/-
# Expressions

The type of every expression is recorded under its number.  Of the two operands
of `&&` and `||` the right one is checked where the left one leads to it, and
the branches of a conditional where its condition holds or fails.
-/

import GradualTyping.Checking.Access
import GradualTyping.Checking.Calls
import GradualTyping.Checking.Functions

namespace GradualTyping
namespace Checking

variable (c : Checks)

/-- The guard against both nullish values. -/
def nonNullish (type : TypeId) : TableM TypeId := narrowByTest type (.nullish .both) true

/-! ### Objects and arrays -/

/-- The properties that a member of an object expression adds. -/
def memberProperties (expected : Option TypeId) :
    ObjectMember Expr → CheckM (List Property)
  | .property name value => do
    let fieldExpected ← match expected with
      | some e => (expectedField? e name : TableM _)
      | none => pure none
    let type ← c.expr value fieldExpected
    let type ← (widenFor type fieldExpected : TableM TypeId)
    return [{ name, type }]
  | .spread value => do
    let type ← c.plain value
    let node ← (evaluateNode type : TableM Ty)
    let properties := (node.object?.map (·.properties)).getD []
    return properties.map ({ · with readonly := false })

/-- An object; of several members with one name the last counts. -/
def checkObject (members : List (ObjectMember Expr)) (expected : Option TypeId) :
    CheckM TypeId := do
  objectOf (← members.mapM (memberProperties c expected)).flatten none

/-- An array where a tuple is expected is a tuple. -/
def checkTuple (elements : List Expr) (shape : TupleShape) : CheckM TypeId := do
  let types ← (Reduction.withPlaces elements).mapM fun (i, element) => do
    let expected := shape.at? i
    let type ← c.expr element expected
    return { type := ← (widenFor type expected : TableM TypeId) : TupleElement }
  tupleOf types none

/-- An array with the given type for its elements. -/
def checkElements (elements : List Expr) (expected : Option TypeId) :
    CheckM TypeId := do
  if elements.isEmpty then arrayOf (expected.getD .any)
  else
    let joined ← unionOf (← elements.mapM (c.expr · expected))
    arrayOf (← (widenFor joined expected : TableM TypeId))

def checkArray (elements : List Expr) (expected : Option TypeId) : CheckM TypeId := do
  let node ← expected.mapM fun e => (evaluateNode e : TableM Ty)
  match node with
  | some (.tuple shape) => checkTuple c elements shape
  | some (.array element) => checkElements c elements (some element)
  | _ => checkElements c elements none

/-! ### Calls -/

/-- The types of the arguments that tell the type arguments of a function: first
those that need no context, then functions with the context these give. -/
def checkArguments (f : Signature) (args : List Expr) : CheckM (List TypeId) := do
  let places := Reduction.withPlaces args
  let first ← places.mapM fun (i, arg) => do
    if arg.isContextSensitive then return none else some <$> c.expr arg (f.paramAt? i)
  if args.any (·.isContextSensitive) then
    let known ← (partialArguments f first : TableM _)
    (places.zip first).mapM fun ((i, arg), type) => do
      match type with
      | some type => return type
      | none =>
        let contextual ← (f.paramAt? i).mapM fun p => (substitute known p : TableM TypeId)
        c.expr arg contextual
  else return first.map (·.getD .any)

/-- The function that a call applies and the types of the arguments that have
been checked for it. -/
def instantiateCall (f : Signature) (callee : Expr) (typeArgs : List TypeExpr)
    (args : List Expr) (span : Span) : CheckM (Signature × List (Option TypeId)) := do
  let unchecked := args.map fun _ => none
  if f.typeParams.isEmpty then return (f, unchecked)
  else if !typeArgs.isEmpty then
    let explicit ← typeArgs.mapM (lower · span)
    return (← instantiateExplicit f explicit callee span, unchecked)
  else
    let types ← checkArguments c f args
    return (← instantiateInferred f types span, types.map some)

/-- Check one argument of a call. -/
def checkArgument (f : Signature) (i : Nat) (arg : Expr) (known : Option TypeId) :
    CheckM Unit := do
  let param := f.paramAt? i
  let type ← match known with
    | some type => pure type
    | none => c.expr arg param
  if let some target := param then
    let _ ← valueFits arg type target

/-- The function that a callee is, if it can be applied in the given way. -/
def callable? (kind : CallKind) : Ty → Option Signature
  | .function f => if f.kind = kind then some f else none
  | _ => none

def checkCall (kind : CallKind) (callee : Expr) (typeArgs : List TypeExpr)
    (args : List Expr) (span : Span) : CheckM TypeId := do
  let calleeType ← c.plain callee
  let node ← (evaluateNode calleeType : TableM Ty)
  match callable? kind node with
  | none =>
    unless node.isAny do report (.notCallable (← (display calleeType : TableM String))) span
    args.forM fun arg => do let _ ← c.plain arg
    return .any
  | some f =>
    unless f.accepts args.length do report (.argumentCount f.arityText args.length) span
    let (f, types) ← instantiateCall c f callee typeArgs args span
    ((Reduction.withPlaces args).zip types).forM fun ((i, arg), type) =>
      checkArgument c f i arg type
    if let some p := f.predicate then
      modify fun s => { s with callPredicates := s.callPredicates.insert callee.id p }
    return f.result

/-! ### Operators -/

/-- Check the operand that decides which of the others are evaluated. -/
def checkFirst (first : Expr) : CheckM (TypeId × Guard) := do
  let type ← c.plain first
  return (type, ← guardOf first)

/-- Check an operand where a guard holds. -/
def checkWhere (guard : Guard) (e : Expr) (expected : Option TypeId) :
    CheckM TypeId := do
  assume guard
  c.expr e expected

/-- Check both branches of a conditional. -/
def checkConditional (cond yes no : Expr) (expected : Option TypeId) :
    CheckM TypeId := do
  let (_, guard) ← checkFirst c cond
  let outer ← getEnv
  let yesType ← checkWhere c guard yes expected
  setEnv outer
  let noType ← checkWhere c guard.negate no expected
  setEnv outer
  unionOf [yesType, noType]

/-- `a && b` is `a` where that is falsy, `a || b` where it is truthy. -/
def checkLogical (isAnd : Bool) (left right : Expr) : CheckM TypeId := do
  let (leftType, guard) ← checkFirst c left
  let outer ← getEnv
  let rightType ← checkWhere c (if isAnd then guard else guard.negate) right none
  setEnv outer
  let kept ← (narrowByTest leftType .truthy isAnd : TableM TypeId)
  unionOf [kept, rightType]

def checkBinary (op : BinaryOp) (left right : Expr) : CheckM TypeId := do
  match op with
  | .and => checkLogical c true left right
  | .or => checkLogical c false left right
  | _ =>
    let leftType ← c.plain left
    let rightType ← c.plain right
    match op with
    | .nullish => unionOf [← (nonNullish leftType : TableM TypeId), rightType]
    | .add => arithmeticResult leftType rightType true
    | .sub | .mul | .div | .rem => arithmeticResult leftType rightType false
    | _ => return .boolean

def checkUnary (op : UnaryOp) (operand : Expr) : CheckM TypeId := do
  let type ← c.plain operand
  match op with
  | .not => return .boolean
  | .neg =>
    return if (← (evaluateNode type : TableM Ty)).base? = some .bigint then .bigint else .number
  | .typeOf => typeofResult

/-- Whether a cast between two types is allowed: one is a top type, or one is a
subtype of the other. -/
def overlaps (source target : TypeId) : TableM Bool :=
  isTop source <||> isTop target <||> isSubtype source target <||> isSubtype target source

def checkAs (value : Expr) (type : TypeExpr) (span : Span) : CheckM TypeId := do
  let target ← lower type span
  let source ← c.expr value (some target)
  unless ← (overlaps source target : TableM Bool) do
    reportMismatch source target (some "neither type sufficiently overlaps with the other") span
  return target

/-- Assign to a variable.  One of the unit is narrowed to the assigned value. -/
def checkAssignName (target : Expr) (name : String) (value : Expr) (span : Span) :
    CheckM TypeId := do
  let s ← get
  match s.declared? name with
  | none =>
    report (.undefinedName name) span
    c.plain value
  | some declared =>
    modify fun s => { s with exprTypes := s.exprTypes.insert target.id declared }
    let type ← c.expr value (some declared)
    let isFit ← valueFits value type declared
    if isFit && (s.binding? name).isSome then
      refine name (← (narrowByAssignment declared type : TableM TypeId))
    return type

def checkAssign (target value : Expr) (span : Span) : CheckM TypeId := do
  match target.ident? with
  | some name => checkAssignName c target name value span
  | none =>
    let targetType ← c.plain target
    let type ← c.expr value (some targetType)
    let _ ← valueFits value type targetType
    return type

/-! ### All expressions -/

/-- The type of an expression. -/
def exprType (e : Expr) (expected : Option TypeId) : CheckM TypeId := do
  match e.kind with
  | .string value => stringLiteral value
  | .number value => numberLiteral value
  | .bool value => return booleanLiteral value
  | .bigint digits => literalType (.bigint digits)
  | .null => return .null
  | .undefined => return .undefined
  | .template parts =>
    parts.forM fun
      | .text _ => return ()
      | .embedded part => do let _ ← c.plain part
    return .string
  | .ident name =>
    match (← get).value? name with
    | some type => return type
    | none =>
      report (.undefinedName name) e.span
      return .any
  | .this => return (← get).thisType.getD .any
  | .object members => checkObject c members expected
  | .array elements => checkArray c elements expected
  | .call callee typeArgs args => checkCall c .call callee typeArgs args e.span
  | .new callee typeArgs args => checkCall c .construct callee typeArgs args e.span
  | .member object property => propertyType (← c.plain object) property e.span
  | .index object index =>
    let objectType ← c.plain object
    let indexType ← c.plain index
    indexedType objectType indexType e.span
  | .function f => checkFunctionExpr c f expected e.span
  | .binary op left right => checkBinary c op left right
  | .unary op operand => checkUnary c op operand
  | .conditional cond yes no => checkConditional c cond yes no expected
  | .await value => awaited (← c.plain value)
  | .as_ value type => checkAs c value type e.span
  | .nonNull value => nonNullish (← c.plain value)
  | .assign target value => checkAssign c target value e.span

/-- Check an expression and record its type. -/
def checkExpr (e : Expr) (expected : Option TypeId) : CheckM TypeId := do
  let type ← exprType c e expected
  modify fun s => { s with exprTypes := s.exprTypes.insert e.id type }
  return type

end Checking
end GradualTyping
