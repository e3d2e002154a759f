/-
# From written types to the table

`lower` gives the type that a written type stands for.  A name without arguments
is looked up among the type parameters in scope, then among the keywords; any
name is then an alias, a promise or an array, or a utility type.

The declarations of a block are entered in four passes, so that every body may
use every name of the block: names with the number of their parameters, the
parameters with bounds and defaults, the signatures of functions, and bodies.

Errors are collected and the erroneous part reads as `any`.
-/

import GradualTyping.Aliases
import GradualTyping.Problem
import GradualTyping.Program.Basic

namespace GradualTyping

/-- The type parameters of one nesting level, the latest first. -/
abbrev TypeScope := List (String × TypeId)

structure LowerState where
  /-- The scopes of type parameters, innermost first. -/
  scopes : List TypeScope := []
  /-- The types of the values in sight. -/
  valueOf : String → Option TypeId := fun _ => none
  errors : List CheckError := []
  /-- The place that errors are reported at. -/
  span : Span := {}

/-- Lowering extends the table and collects errors. -/
abbrev LowerM := StateT LowerState TableM

namespace Lowering

/-- Report a problem; the type in its place is `any`. -/
def problem (p : Problem) : LowerM TypeId := do
  modify fun s => { s with errors := s.errors ++ [⟨p, s.span⟩] }
  return .any

def typeNamed? (name : String) : LowerM (Option TypeId) := do
  return (← get).scopes.findSome? (·.lookup name)

def setSpan (span : Span) : LowerM Unit := modify fun s => { s with span := span }

/-- Run `body` with a new innermost scope. -/
def withScope {α : Type} (body : LowerM α) : LowerM α := do
  modify fun s => { s with scopes := [] :: s.scopes }
  let result ← body
  modify fun s => { s with scopes := s.scopes.tail }
  return result

/-- Enter a type parameter in the innermost scope. -/
def bind (name : String) (id : TypeId) : LowerM Unit :=
  modify fun s =>
    match s.scopes with
    | [] => { s with scopes := [[(name, id)]] }
    | scope :: scopes => { s with scopes := ((name, id) :: scope) :: scopes }

def declareValue (name : String) (id : TypeId) : LowerM Unit :=
  modify fun s => { s with valueOf := fun n => if n = name then some id else s.valueOf n }

/-- The type that a keyword names. -/
def keyword? : String → Option TypeId
  | "string" => some .string
  | "number" => some .number
  | "boolean" => some .boolean
  | "null" => some .null
  | "undefined" => some .undefined
  | "void" => some .void
  | "symbol" => some .symbol
  | "bigint" => some .bigint
  | "any" => some .any
  | "unknown" => some .unknown
  | "never" => some .never
  | _ => none

/-- A name that stands without arguments for a parameter or a keyword. -/
def bareName? (name : String) : LowerM (Option TypeId) := do
  match ← typeNamed? name with
  | some id => return some id
  | none =>
    match keyword? name with
    | some id => return some id
    | none => if name = "object" then some <$> objectOf [] none else return none

/-- A promise or an array, which take one argument. -/
def container? (name : String) : Option (TypeId → TableM TypeId) :=
  if name = "Promise" then some promiseOf
  else if name = "Array" ∨ name = "ReadonlyArray" then some arrayOf
  else none

/-- A name applied to arguments. -/
def applyName (name : String) (args : List TypeId) : LowerM TypeId := do
  if ((← getThe TypeTable).alias? name).isSome then
    match ← (instantiateAlias name args).run with
    | .ok id => return id
    | .error e => problem (.ofTypeError e)
  else
    match container? name with
    | some build =>
      match args with
      | [arg] => build arg
      | _ => problem (.typeArgumentCount name 1 args.length)
    | none =>
      match Utility.arity? name with
      | some arity =>
        if arity = args.length then referenceTo name args
        else problem (.typeArgumentCount name arity args.length)
      | none => problem (.undefinedType name)

/-- The element type of a rest parameter of the given type. -/
def restElement (type : TypeId) : TableM TypeId := do
  match ← resolve type with
  | .array element => return element
  | .any => return .any
  | _ => intern (.indexed type .number)

/-- Whether a conditional on a written type may be taken apart over unions: only
a bare name can be a parameter. -/
def isBareName : TypeExpr → Bool
  | .named _ [] => true
  | _ => false

end Lowering

namespace TypeExpr

mutual
/-- The names that a pattern binds by `infer`.  A conditional inside it binds
its own. -/
def inferNames : TypeExpr → List String
  | .infer name => [name]
  | .named _ args => inferNamesList args
  | .object properties index => inferNamesProperties properties ++ inferNamesOption index
  | .array element => element.inferNames
  | .tuple elements rest => inferNamesElements elements ++ inferNamesOption rest
  | .function ⟨_, params, rest, result, _, _⟩ =>
    inferNamesParams params ++ inferNamesRest rest ++ result.inferNames
  | .union members => inferNamesList members
  | .intersection members => inferNamesList members
  | .keyOf operand => operand.inferNames
  | .indexed base key => base.inferNames ++ key.inferNames
  | .template parts => inferNamesParts parts
  | _ => []

def inferNamesList : List TypeExpr → List String
  | [] => []
  | t :: ts => t.inferNames ++ inferNamesList ts

def inferNamesOption : Option TypeExpr → List String
  | none => []
  | some t => t.inferNames

def inferNamesProperties : List (PropertyDecl TypeExpr) → List String
  | [] => []
  | ⟨_, t, _, _⟩ :: ps => t.inferNames ++ inferNamesProperties ps

def inferNamesElements : List (TupleElementDecl TypeExpr) → List String
  | [] => []
  | ⟨t, _⟩ :: es => t.inferNames ++ inferNamesElements es

def inferNamesParams : List (ParamDecl TypeExpr) → List String
  | [] => []
  | ⟨_, type, _, _⟩ :: ps => inferNamesOption type ++ inferNamesParams ps

def inferNamesRest : Option (ParamDecl TypeExpr) → List String
  | none => []
  | some ⟨_, type, _, _⟩ => inferNamesOption type

def inferNamesParts : List (TemplatePart TypeExpr) → List String
  | [] => []
  | .text _ :: ps => inferNamesParts ps
  | .embedded t :: ps => t.inferNames ++ inferNamesParts ps
end

end TypeExpr

namespace Lowering

mutual
/-- The type that a written type stands for. -/
def lower : TypeExpr → LowerM TypeId
  | .named name args => do
    match ← (if args.isEmpty then bareName? name else return none) with
    | some id => return id
    | none => applyName name (← lowerList args)
  | .stringLit value => stringLiteral value
  | .numberLit value => numberLiteral value
  | .boolLit value => return booleanLiteral value
  | .object properties index => do
    let properties ← lowerProperties properties
    let index ← lowerOption index
    objectOf properties index
  | .array element => do arrayOf (← lower element)
  | .tuple elements rest => do
    let elements ← lowerElements elements
    let rest ← lowerOption rest
    tupleOf elements rest
  | .function ⟨typeParams, params, rest, result, predicate, construct⟩ => do
    let f ← withScope do
      let typeParamIds ← lowerTypeParams typeParams
      let paramTypes ← lowerParams params
      let restType ← lowerRest rest
      let resultType ← lower result
      let predicateType ← lowerPredicate (params.map (·.name)) predicate
      return { typeParams := typeParamIds, params := paramTypes, rest := restType
               result := resultType, kind := if construct then .construct else .call
               predicate := predicateType }
    functionOf f
  | .union members => do unionOf (← lowerList members)
  | .intersection members => do intersectionOf (← lowerList members)
  | .conditional check pattern yes no => do
    let checkId ← lower check
    let distributive := isBareName check && (← resolve checkId).isParam
    let (patternId, yesId) ← withScope do
      for name in pattern.inferNames.eraseDups do
        bind name (← intern (.infer name))
      let patternId ← lower pattern
      let yesId ← lower yes
      return (patternId, yesId)
    let noId ← lower no
    intern (.conditional ⟨checkId, patternId, yesId, noId, distributive⟩)
  | .infer name => intern (.infer name)
  | .mapped param keys value readonly optional => do
    let keysId ← lower keys
    let paramId ← intern (.param { name := param, scope := ← freshScope })
    let valueId ← withScope do
      bind param paramId
      lower value
    intern (.mapped ⟨paramId, keysId, valueId, readonly, optional⟩)
  | .keyOf operand => do intern (.keyOf (← lower operand))
  | .indexed base key => do
    let baseId ← lower base
    let keyId ← lower key
    intern (.indexed baseId keyId)
  | .template parts => do templateOf (← lowerParts parts)
  | .typeOf name => do
    match (← get).valueOf name with
    | some id => return id
    | none => problem (.undefinedName name)

def lowerList : List TypeExpr → LowerM (List TypeId)
  | [] => return []
  | t :: ts => do
    let id ← lower t
    return id :: (← lowerList ts)

def lowerOption : Option TypeExpr → LowerM (Option TypeId)
  | none => return none
  | some t => do return some (← lower t)

def lowerProperties : List (PropertyDecl TypeExpr) → LowerM (List Property)
  | [] => return []
  | ⟨name, type, optional, readonly⟩ :: ps => do
    let id ← lower type
    return ⟨name, id, optional, readonly⟩ :: (← lowerProperties ps)

def lowerElements : List (TupleElementDecl TypeExpr) → LowerM (List TupleElement)
  | [] => return []
  | ⟨type, optional⟩ :: es => do
    let id ← lower type
    return ⟨id, optional⟩ :: (← lowerElements es)

def lowerParts : List (TemplatePart TypeExpr) → LowerM (List TemplateSpan)
  | [] => return []
  | .text s :: ps => do return .text s :: (← lowerParts ps)
  | .embedded t :: ps => do
    let id ← lower t
    return .hole id :: (← lowerParts ps)

/-- Parameters of the scope numbered `scope`, entered one after the other: a
bound may mention the parameters before its own. -/
def lowerTypeParamsIn (scope : Nat) : List (TypeParamDecl TypeExpr) → LowerM (List TypeId)
  | [] => return []
  | ⟨name, bound, fallback, variance⟩ :: ps => do
    let boundId ← lowerOption bound
    let fallbackId ← lowerOption fallback
    let id ← intern (.param ⟨name, boundId, fallbackId, variance, scope⟩)
    bind name id
    return id :: (← lowerTypeParamsIn scope ps)

/-- The parameters of a generic declaration, entered in the innermost scope. -/
def lowerTypeParams : List (TypeParamDecl TypeExpr) → LowerM (List TypeId)
  | [] => return []
  | p :: ps => do lowerTypeParamsIn (← freshScope) (p :: ps)

def lowerParams : List (ParamDecl TypeExpr) → LowerM (List Parameter)
  | [] => return []
  | ⟨name, type, optional, _⟩ :: ps => do
    let id ← lowerOption type
    return ⟨name, id.getD .any, optional⟩ :: (← lowerParams ps)

/-- The element type of a rest parameter; without a type it is `any`. -/
def lowerRest : Option (ParamDecl TypeExpr) → LowerM (Option TypeId)
  | none => return none
  | some ⟨_, none, _, _⟩ => return some .any
  | some ⟨_, some type, _, _⟩ => do
    let id ← lower type
    return some (← restElement id)

/-- A predicate on one of the named parameters; one on another name is dropped. -/
def lowerPredicate (names : List String) :
    Option (PredicateDecl TypeExpr) → LowerM (Option Predicate)
  | none => return none
  | some ⟨param, type, asserts⟩ => do
    match names.idxOf? param with
    | none => return none
    | some i => return some ⟨i, ← lower type, asserts⟩
end

/-- The signature of a function declaration.  Without a written result it is
what the predicate returns, or `any`. -/
def lowerSignature {σ : Type} (f : FunctionDecl σ) : LowerM Signature := do
  withScope do
    let typeParams ← lowerTypeParams f.typeParams
    let params ← lowerParams f.params
    let rest ← lowerRest f.rest
    let predicate ← lowerPredicate (f.params.map (·.name)) f.predicate
    let result ← match f.result, predicate with
      | some type, _ => lower type
      | none, some p => pure (if p.asserts then .void else .boolean)
      | none, none => pure .any
    return { typeParams, params, rest, result, predicate }

/-! ### Declarations of a block -/

/-- The name and the parameters of a statement that declares a type. -/
def typeDeclaration? (s : Stmt) : Option (String × TypeParams) :=
  match s.kind with
  | .typeAlias name typeParams _ => some (name, typeParams)
  | .interface name typeParams _ _ => some (name, typeParams)
  | .class_ c => some (c.name, c.typeParams)
  | _ => none

/-- First pass: the name with parameters that have no bounds yet and stand-ins
for their defaults. -/
def declareName (s : Stmt) : LowerM Unit := do
  if let some (name, decls) := typeDeclaration? s then
    let scope ← freshScope
    let params ← decls.mapM fun d =>
      intern (.param ⟨d.name, none, d.fallback.map fun _ => .unknown, d.variance, scope⟩)
    let _ ← declareAlias name params

/-- Second pass: the parameters with their bounds and defaults. -/
def declareParams (s : Stmt) : LowerM (Option (String × TypeScope)) := do
  match typeDeclaration? s with
  | none => return none
  | some (name, decls) =>
    setSpan s.span
    let ids ← withScope (lowerTypeParams decls)
    let _ ← declareAlias name ids
    return some (name, (decls.map (·.name)).zip ids)

/-- Third pass: the signature of a function. -/
def declareFunction (s : Stmt) : LowerM (Option (String × TypeId)) := do
  match s.kind with
  | .function f =>
    setSpan s.span
    let type ← functionOf (← lowerSignature f)
    declareValue f.name type
    return some (f.name, type)
  | _ => return none

/-- The instances and the constructor of a class with the given parameters. -/
def lowerClass (c : Class) (params : TypeScope) : LowerM (TypeId × TypeId) := do
  let fields ← c.fields.mapM fun f => return ⟨f.name, ← lower f.type, f.optional, f.readonly⟩
  let methods ← c.methods.mapM fun f => do
    let type ← functionOf (← lowerSignature f)
    return { name := f.name, type := type : Property }
  let instances ← objectOf (fields ++ methods) none
  let ids := params.map (·.2)
  let constructorParams ← lowerParams ((c.constructor.map (·.params)).getD [])
  let result ← referenceTo c.name ids
  let constructor ← functionOf
    { typeParams := ids, params := constructorParams, result := result, kind := .construct }
  return (instances, constructor)

/-- The body of a type declaration, and the value a class declares with it. -/
def lowerBody (s : Stmt) (params : TypeScope) : LowerM (TypeId × Option (String × TypeId)) := do
  match s.kind with
  | .typeAlias _ _ body => return (← lower body, none)
  | .interface _ _ extended members =>
    let extended ← lowerList extended
    let own ← objectOf (← lowerProperties members) none
    return (← intersectionOf (extended ++ [own]), none)
  | .class_ c =>
    let (instances, constructor) ← lowerClass c params
    declareValue c.name constructor
    return (instances, some (c.name, constructor))
  | _ => return (.any, none)

/-- Last pass: the body of a type declaration.  Of several declarations of one
name the last gives the parameters. -/
def declareBody (params : List (String × TypeScope)) (s : Stmt) :
    LowerM (Option (String × TypeId)) := do
  setSpan s.span
  match typeDeclaration? s with
  | none => return none
  | some (name, _) =>
    let own := (params.reverse.lookup name).getD []
    let (body, value) ← withScope do
      own.forM fun (param, id) => bind param id
      lowerBody s own
    match ← (defineAlias name body).run with
    | .ok _ => return value
    | .error e =>
      let _ ← problem (.ofTypeError e)
      return value

/-- Enter every type, class and function that a block declares.  The answer are
the values it declares: functions first, then classes. -/
def declareBlock (block : List Stmt) : LowerM (List (String × TypeId)) := do
  block.forM declareName
  let params ← block.filterMapM declareParams
  let functions ← block.filterMapM declareFunction
  let classes ← block.filterMapM (declareBody params)
  return functions ++ classes

end Lowering

end GradualTyping
