/-
# Functions and classes

The parts of expressions and statements are checked through `Checks`, the
checks of everything nested less deep, so that each rule is a plain function.

The body of a function starts with the declared types of all variables that may
be assigned to, since it may run later, and leaves no trace in the environment
around it.
-/

import GradualTyping.Checking.Assignability
import GradualTyping.Checking.Expected
import GradualTyping.Checking.Guards

namespace GradualTyping

/-- The checks of expressions and of lists of statements. -/
structure Checks where
  /-- The type of an expression where a type is expected. -/
  expr : Expr → Option TypeId → CheckM TypeId
  statements : List Stmt → CheckM Unit

namespace Checks

/-- The checks that look at nothing. -/
def inert : Checks where
  expr _ _ := pure .any
  statements _ := pure ()

/-- Check a block in a scope of its own. -/
def block (c : Checks) (body : List Stmt) : CheckM Unit := do
  Checking.pushScope
  c.statements body
  Checking.popScope

/-- Check an expression from which nothing is expected. -/
def plain (c : Checks) (e : Expr) : CheckM TypeId := c.expr e none

end Checks

namespace Checking

variable (c : Checks)

/-- A function with what is known of its type before its body is checked. -/
structure FunctionSite where
  signature : Signature
  params : List Param
  rest : Option Param := none
  body : FunctionBody Expr Stmt
  isAsync : Bool := false
  /-- The result is written down. -/
  hasResult : Bool := false
  /-- The result that the surroundings offer. -/
  contextual : Option TypeId := none
  span : Span

namespace FunctionSite

/-- Enter the parameters; one that may be left out may be `undefined`. -/
def bindParams (site : FunctionSite) : CheckM Unit := do
  (site.params.zip site.signature.params).forM fun (param, declared) => do
    let type ← if declared.optional then (unionOf [declared.type, .undefined] : TableM TypeId)
      else pure declared.type
    bind param.name type true
  if let (some rest, some element) := (site.rest, site.signature.rest) then
    bind rest.name (← (arrayOf element : TableM TypeId)) true

/-- What the body has to return, if the result is written down: inside the
promise of an async function, which must be one. -/
def expectedResult (site : FunctionSite) : CheckM (Option TypeId) := do
  let result := site.signature.result
  if !site.hasResult then return none
  else if !site.isAsync then return some result
  else
    match ← (declaredAsyncResult? result : TableM _) with
    | some inner => return some inner
    | none =>
      let declared ← (display result : TableM String)
      report (.typeMismatch ("Promise<" ++ declared ++ ">") declared
        (some "the return type of an async function must be a promise")) site.span
      return some .any

/-- What a returned value is inside the promise of an async function. -/
def returned (isAsync : Bool) (type : TypeId) : TableM TypeId :=
  if isAsync then unwrapOnce type else pure type

/-- Check a body.  The answer tells whether its end is reached. -/
def checkBody (c : Checks) (site : FunctionSite) (expected : Option TypeId) : CheckM Bool := do
  match site.body with
  | .block body =>
    c.block body
    return (← getEnv).reachable
  | .expr e =>
    let type ← c.expr e (expected.or site.contextual)
    let type ← (returned site.isAsync type : TableM TypeId)
    if let some target := expected then
      let _ ← valueFits e type target
    addReturn type
    return false

/-- The result of a function from the types it returns. -/
def inferredResult (site : FunctionSite) (returns : List TypeId) (reachesEnd : Bool) :
    TableM TypeId := do
  let joined ←
    if returns.isEmpty then pure .void
    else unionOf (if reachesEnd then returns ++ [.undefined] else returns)
  let widened ← widenFor joined site.contextual
  if site.isAsync then wrapAsyncResult widened else return widened

/-- Check a function.  The answer is its result. -/
def check (c : Checks) (site : FunctionSite) : CheckM TypeId := do
  let outer ← get
  resetMutable
  pushTypeScope ((← getThe TypeTable).paramScope site.signature.typeParams)
  pushScope
  site.bindParams
  let expected ← site.expectedResult
  modify fun s =>
    { s with functions := ⟨expected, site.contextual, site.isAsync, []⟩ :: s.functions }
  recordFrom .entry [outer.current] site.span
  let reachesEnd ← site.checkBody c expected
  let returns := ((← get).functions.head?.map (·.returns)).getD []
  modify fun s => { s with functions := s.functions.tail }
  popScope
  popTypeScope
  modify fun s => { s with env := outer.env, current := outer.current }
  if site.hasResult then return site.signature.result
  else site.inferredResult returns reachesEnd

end FunctionSite

/-- The parameters of a function expression, typed from the expected function
where they have no type of their own. -/
def exprParams (contextual : Option Signature) (params : List Param) : CheckM (List Parameter) :=
  (Reduction.withPlaces params).mapM fun (i, param) => do
    let type ← match param.type with
      | some type => lower type param.span
      | none => pure ((contextual.bind (·.paramAt? i)).getD .any)
    return ⟨param.name, type, param.optional⟩

/-- The result that an expected function offers, if no type parameter is free in
it. -/
def contextualResult (contextual : Option Signature) : TableM (Option TypeId) := do
  match contextual with
  | none => return none
  | some f => if ← isOpen f.result then return none else return some f.result

/-- The type of a function expression. -/
def checkFunctionExpr (f : FunctionExpr Expr Stmt) (expected : Option TypeId)
    (span : Span) : CheckM TypeId := do
  let contextual ← match expected with
    | some e => (functionOf? e : TableM _)
    | none => pure none
  let typeParams ← pushTypeParams f.typeParams span
  let params ← exprParams contextual f.params
  let result ← f.result.mapM (lower · span)
  let signature : Signature := { typeParams, params, result := result.getD .any }
  let site : FunctionSite :=
    { signature, params := f.params, body := f.body, isAsync := f.isAsync
      hasResult := result.isSome
      contextual := ← (contextualResult contextual : TableM _)
      span }
  let result ← site.check c
  popTypeScope
  functionOf { signature with result }

/-- Check the body of a function declaration.  The answer is the type of the function with
the result of its body, if the result is not written down. -/
def inferredType? (f : FunctionDecl Stmt) (span : Span) : CheckM (Option TypeId) := do
  match f.body with
  | none => return none
  | some body =>
    match (← get).binding? f.name with
    | none => return none
    | some declared =>
      match ← (functionOf? declared.declared : TableM _) with
      | none => return none
      | some signature =>
        let site : FunctionSite :=
          { signature, params := f.params, rest := f.rest, body := .block body
            isAsync := f.isAsync, hasResult := f.hasResult, span }
        let result ← site.check c
        if f.hasResult then return none
        else return some (← (functionOf { signature with result } : TableM TypeId))

/-- Check a function declaration.  A result that is not written down is taken
from the body. -/
def checkFunctionDecl (f : FunctionDecl Stmt) (span : Span) : CheckM Unit := do
  if let some type ← inferredType? c f span then redeclare f.name type

/-! ### Classes -/

/-- Check the initial value of a field. -/
def checkField (instances : Option ObjectShape) (field : ClassField Expr) :
    CheckM Unit := do
  if let some init := field.init then
    let expected := (instances.bind (·.property? field.name)).map (·.type)
    let type ← c.expr init expected
    if let some target := expected then
      let _ ← valueFits init type target

/-- Check the body of a method. -/
def checkMethod (instances : Option ObjectShape) (f : FunctionDecl Stmt)
    (span : Span) : CheckM Unit := do
  if let some body := f.body then
    let t ← getThe TypeTable
    if let some signature := (instances.bind (·.property? f.name)).bind
        fun p => (t.resolve p.type).function? then
      let site : FunctionSite :=
        { signature, params := f.params, rest := f.rest, body := .block body
          isAsync := f.isAsync, hasResult := f.hasResult, span }
      let _ ← site.check c

/-- Check the body of a constructor. -/
def checkConstructor (declared : Signature) (f : ConstructorDecl Stmt) (span : Span) :
    CheckM Unit := do
  let site : FunctionSite :=
    { signature := { params := declared.params, result := .void }
      params := f.params, body := .block f.body, span }
  let _ ← site.check c

/-- Check the fields, the constructor and the methods of a class with what is known of its
instances and its constructor. -/
def checkMembers (decl : Class) (instances : Option ObjectShape)
    (constructor : Option Signature) (span : Span) : CheckM Unit := do
  decl.fields.forM (checkField c instances)
  if let (some f, some signature) := (decl.constructor, constructor) then
    checkConstructor c signature f span
  decl.methods.forM fun f => checkMethod c instances f span

def checkClass (decl : Class) (span : Span) : CheckM Unit := do
  let t ← getThe TypeTable
  if let some declared := t.alias? decl.name then
    let constructor ← match (← get).binding? decl.name with
      | some b => (functionOf? b.declared : TableM _)
      | none => pure none
    pushTypeScope (t.paramScope declared.params)
    let this ← (referenceTo decl.name declared.params : TableM TypeId)
    let outer := (← get).thisType
    modify fun s => { s with thisType := some this }
    checkMembers c decl (declared.body.bind fun body => (t.resolve body).object?) constructor span
    modify fun s => { s with thisType := outer }
    popTypeScope

end Checking

end GradualTyping
