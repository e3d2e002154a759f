/-
# The state of checking

Checking walks a unit with the environment of the current point.  Beside it
stand the lexical scopes with the declared types of their variables, the scopes
of type parameters, the functions and the breakable statements around the
current point, and what has been found: the types of expressions, the flow
graph and the errors.

Entering a name remembers the type that the environment had for it, and leaving
the scope brings that type back.
-/

import GradualTyping.Lowering
import GradualTyping.Narrowing.Narrow
import GradualTyping.Flow
import GradualTyping.Settings
import Std.Data.TreeMap

namespace GradualTyping

/-- A variable with its declared type. -/
structure LocalVariable where
  declared : TypeId
  /-- The variable may be assigned to. -/
  mutable : Bool
deriving DecidableEq, Repr, Inhabited

/-- A lexical scope. -/
structure Scope where
  bindings : List (String × LocalVariable) := []
  /-- The types that the environment had for the names before, latest first. -/
  shadowed : List (String × Option TypeId) := []
deriving DecidableEq, Repr, Inhabited

namespace Scope

def get? (scope : Scope) (name : String) : Option LocalVariable := scope.bindings.lookup name

/-- Enter a variable, whose name had the type `previous` before. -/
def insert (scope : Scope) (name : String) (binding : LocalVariable) (previous : Option TypeId) : Scope :=
  match scope.get? name with
  | none =>
    { bindings := scope.bindings ++ [(name, binding)]
      shadowed := (name, previous) :: scope.shadowed }
  | some _ =>
    { scope with bindings := scope.bindings.map fun b => if b.1 = name then (name, binding) else b }

/-- Declare a variable of the scope anew with another type. -/
def redeclare (scope : Scope) (name : String) (type : TypeId) : Scope :=
  { scope with
    bindings := scope.bindings.map fun b =>
      if b.1 = name then (name, { b.2 with declared := type }) else b }

end Scope

/-- A function around the current point. -/
structure FunctionFrame where
  /-- What `return` must give, inside the promise of an async function. -/
  expected : Option TypeId
  /-- The result that the surroundings of a function expression offer. -/
  contextual : Option TypeId
  isAsync : Bool
  /-- The types returned so far. -/
  returns : List TypeId := []
deriving DecidableEq, Repr, Inhabited

structure CheckState where
  /-- Report switches that leave members of a finite type over. -/
  requireExhaustiveSwitch : Bool := true
  /-- The values declared outside the unit, the latest first. -/
  globals : List (String × TypeId) := []
  /-- Lexical scopes, innermost first. -/
  scopes : List Scope := [{}]
  /-- Scopes of type parameters, innermost first. -/
  typeScopes : List TypeScope := []
  env : TypeEnv := {}
  flow : FlowGraph := {}
  /-- The flow node of the current point. -/
  current : Nat := 0
  /-- The types of expressions, by their numbers. -/
  exprTypes : Std.TreeMap Nat TypeId := {}
  /-- The predicates of called functions, by the numbers of the callees. -/
  callPredicates : Std.TreeMap Nat Predicate := {}
  errors : List CheckError := []
  /-- The functions around the current point, innermost first. -/
  functions : List FunctionFrame := []
  /-- The environments at each `break`, for each loop or switch around the
  current point, innermost first. -/
  breaks : List (List TypeEnv) := []
  thisType : Option TypeId := none
  /-- The recursion guard has tripped and the unit is given up. -/
  abandoned : Bool := false

abbrev CheckM := StateT CheckState TableM

namespace CheckState

def binding? (s : CheckState) (name : String) : Option LocalVariable :=
  s.scopes.findSome? (·.get? name)

/-- The declared type of a value. -/
def declared? (s : CheckState) (name : String) : Option TypeId :=
  ((s.binding? name).map (·.declared)).or (s.globals.lookup name)

/-- The type of a value at the current point. -/
def value? (s : CheckState) (name : String) : Option TypeId :=
  match s.binding? name with
  | some b => some ((s.env.get? name).getD b.declared)
  | none => s.globals.lookup name

end CheckState

/-- Names of type parameters with their types, the last of a name first. -/
def TypeTable.paramScope (t : TypeTable) (params : List TypeId) : TypeScope :=
  (params.filterMap fun id => (t.param? id).map fun p => (p.name, id)).reverse

namespace Checking

def getEnv : CheckM TypeEnv := return (← get).env

def setEnv (env : TypeEnv) : CheckM Unit := modify fun s => { s with env := env }

def refine (name : String) (type : TypeId) : CheckM Unit :=
  modify fun s => { s with env := s.env.insert name type }

def markUnreachable : CheckM Unit := modify fun s => { s with env := s.env.markUnreachable }

def report (p : Problem) (span : Span) : CheckM Unit :=
  modify fun s => { s with errors := s.errors ++ [⟨p, span⟩] }

/-! ### Scopes -/

/-- Enter a variable in the innermost scope. -/
def bind (name : String) (type : TypeId) (mutable : Bool) : CheckM Unit :=
  modify fun s =>
    { s with
      scopes := match s.scopes with
        | [] => []
        | scope :: outer => scope.insert name ⟨type, mutable⟩ (s.env.get? name) :: outer
      env := s.env.insert name type }

/-- Change the declared type in the innermost scope that has the name. -/
def redeclareIn (name : String) (type : TypeId) : List Scope → List Scope
  | [] => []
  | scope :: outer =>
    if (scope.get? name).isSome then scope.redeclare name type :: outer
    else scope :: redeclareIn name type outer

/-- Give a variable another declared type. -/
def redeclare (name : String) (type : TypeId) : CheckM Unit :=
  modify fun s =>
    match s.binding? name with
    | none => s
    | some _ =>
      { s with scopes := redeclareIn name type s.scopes, env := s.env.insert name type }

/-- Give a name the type that it had before. -/
def restore (env : TypeEnv) : String × Option TypeId → TypeEnv
  | (name, some type) => env.insert name type
  | (name, none) => env.erase name

def pushScope : CheckM Unit := modify fun s => { s with scopes := {} :: s.scopes }

/-- Leave the innermost scope. -/
def popScope : CheckM Unit :=
  modify fun s =>
    match s.scopes with
    | [] => s
    | scope :: outer => { s with scopes := outer, env := scope.shadowed.foldl restore s.env }

def pushTypeScope (scope : TypeScope) : CheckM Unit :=
  modify fun s => { s with typeScopes := scope :: s.typeScopes }

def popTypeScope : CheckM Unit := modify fun s => { s with typeScopes := s.typeScopes.tail }

/-- Forget what is known of the variables of a scope that may be assigned to. -/
def forgetMutable (env : TypeEnv) (scope : Scope) : TypeEnv :=
  scope.bindings.foldl
    (fun env (name, b) => if b.mutable then env.insert name b.declared else env) env

/-- A function may run after the variables around it have been assigned to. -/
def resetMutable : CheckM Unit :=
  modify fun s => { s with env := s.scopes.reverse.foldl forgetMutable s.env }

/-! ### Flow -/

/-- Record a flow node at the current point. -/
def recordFrom (kind : FlowKind) (preds : List Nat) (span : Span) : CheckM Unit :=
  modify fun s =>
    let (node, flow) := s.flow.add kind preds s.env span
    { s with flow := flow, current := node }

/-- Start to collect the environments at `break`. -/
def pushBreaks : CheckM Unit := modify fun s => { s with breaks := [] :: s.breaks }

/-- The environments at the breaks of the innermost loop or switch. -/
def popBreaks : CheckM (List TypeEnv) := do
  let frames := (← get).breaks
  modify fun s => { s with breaks := frames.tail }
  return frames.headD []

/-- A `break` at the current point. -/
def addBreak : CheckM Unit :=
  modify fun s =>
    { s with
      breaks := match s.breaks with
        | [] => []
        | frame :: outer => (frame ++ [s.env]) :: outer
      env := s.env.markUnreachable }

/-- A `return` of a type from the innermost function. -/
def addReturn (type : TypeId) : CheckM Unit :=
  modify fun s =>
    { s with
      functions := match s.functions with
        | [] => []
        | f :: outer => { f with returns := f.returns ++ [type] } :: outer }

/-! ### Written types -/

/-- Lower written types at the current point. -/
def lowering {α : Type} (span : Span) (body : LowerM α) : CheckM α := do
  let s ← get
  let (result, after) ←
    (body.run { scopes := s.typeScopes, valueOf := s.declared?, span := span } : TableM _)
  modify fun s => { s with errors := s.errors ++ after.errors }
  return result

def lower (type : TypeExpr) (span : Span) : CheckM TypeId := lowering span (Lowering.lower type)

/-- Enter the declarations of a block. -/
def declare (block : List Stmt) (span : Span) : CheckM Unit := do
  let values ← lowering span (Lowering.declareBlock block)
  values.forM fun (name, type) => bind name type false

/-- Declare type parameters in a new scope of type parameters. -/
def pushTypeParams (decls : TypeParams) (span : Span) : CheckM (List TypeId) := do
  pushTypeScope []
  let ids ← lowering span (Lowering.lowerTypeParams decls)
  popTypeScope
  pushTypeScope ((decls.map (·.name)).zip ids).reverse
  return ids

/-! ### Giving up -/

/-- Whether the unit is given up.  It is once the recursion guard has tripped:
the errors after the first `mark` ones give way to that of the guard. -/
def isAbandoned (mark : Nat) (span : Span) : CheckM Bool := do
  if (← get).abandoned then return true
  match ← (takeDepthError : TableM _) with
  | none => return false
  | some e =>
    modify fun s =>
      { s with errors := s.errors.take mark ++ [⟨.ofTypeError e, span⟩], abandoned := true }
    return true

def errorCount : CheckM Nat := return (← get).errors.length

end Checking

end GradualTyping
