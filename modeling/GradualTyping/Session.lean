/-
# Checking units

The declarations that all units may use are checked first, one unit after the
other, into one table.  Every other unit is then checked on its own fork of that
table, so units do not affect each other and may be checked at the same time.
-/

import GradualTyping.Checking.Statements
import GradualTyping.Diagnostic.Basic
import GradualTyping.Program.Height

namespace GradualTyping

/-- What checking a unit has found. -/
structure CheckResult where
  exprTypes : Std.TreeMap Nat TypeId
  errors : List CheckError
  flow : FlowGraph
  /-- The values declared at the top level, with their types. -/
  declarations : List (String × TypeId)

def CheckResult.hasErrors (r : CheckResult) : Bool := !r.errors.isEmpty

def CheckResult.diagnostics (r : CheckResult) : List Diagnostic :=
  r.errors.map CheckError.diagnostic

namespace Checking

/-- A readonly member of a value that every unit can see. -/
def builtinObject (name : String) (member : Signature) : TableM TypeId := do
  let type ← functionOf member
  objectOf [{ name, type, readonly := true }] none

/-- The values that every unit can see. -/
def builtinValues : TableM (List (String × TypeId)) := do
  let anyArray ← arrayOf .any
  let array ← builtinObject "isArray"
    { params := [{ name := "value", type := .unknown }], result := .boolean
      predicate := some { param := 0, type := anyArray } }
  let t ← intern (.param { name := "T", scope := ← freshScope })
  let promised ← promiseOf t
  let promise ← builtinObject "resolve"
    { typeParams := [t], params := [{ name := "value", type := t }], result := promised }
  let console ← builtinObject "log" { params := [], rest := some .any, result := .void }
  return [("Array", array), ("Promise", promise), ("console", console)]

/-- The state before a unit that sees the given values. -/
def start (settings : Settings) (values : List (String × TypeId)) : TableM CheckState := do
  let builtins ← builtinValues
  return { requireExhaustiveSwitch := settings.requireExhaustiveSwitch
           globals := values.reverse ++ builtins }

/-- The checks of a whole program. -/
def checks (statements : List Stmt) : Checks := .within (heightStmts statements)

end Checking

/-- The declarations of the outermost scope. -/
def CheckState.declarations (s : CheckState) : List (String × TypeId) :=
  ((s.scopes.getLast?.map (·.bindings)).getD []).map fun (name, b) => (name, b.declared)

/-- Check a unit that sees the given values. -/
def checkProgram (settings : Settings) (values : List (String × TypeId)) (unit : CodeUnit) :
    TableM CheckResult := do
  let start ← Checking.start settings values
  let walk : CheckM Unit := do
    Checking.recordFrom .entry [] {}
    (Checking.checks unit.statements).statements unit.statements
  let (_, s) ← walk.run start
  return { exprTypes := s.exprTypes, errors := s.errors, flow := s.flow
           declarations := s.declarations }

/-- What is known of a condition by itself. -/
structure ConditionFacts where
  type : TypeId
  /-- What holds where the condition is true. -/
  guard : Option Guard
  /-- What holds after the condition as a statement. -/
  assertion : Option Guard

/-- Check a condition that sees the given values. -/
def checkCondition (settings : Settings) (values : List (String × TypeId)) (cond : Expr) :
    TableM ConditionFacts := do
  let start ← Checking.start settings values
  let walk : CheckM ConditionFacts := do
    let type ← (Checks.within cond.height).plain cond
    let guard ← Guard.ofCondition? Checking.guardFacts cond
    let assertion ← Guard.ofAssertion? Checking.guardFacts cond
    return { type, guard, assertion }
  walk.run' start

/-- The declarations that all units of a session share. -/
structure SharedDeclarations where
  table : TypeTable
  /-- The values with their types, in the order of their names. -/
  values : List (String × TypeId) := []
  errors : List CheckError := []

namespace SharedDeclarations

/-- No declarations. -/
def empty (settings : Settings) : SharedDeclarations :=
  { table := .withLimits settings.limits }

/-- Add the declarations of a unit. -/
def add (settings : Settings) (shared : SharedDeclarations) (unit : CodeUnit) :
    SharedDeclarations :=
  let (result, table) := checkProgram settings shared.values unit shared.table
  { table
    values := result.declarations.foldl
      (fun values (name, type) => TypeEnv.insertBinding name type values) shared.values
    errors := shared.errors ++ result.errors }

/-- The declarations of units, in order. -/
def ofUnits (settings : Settings) (units : List CodeUnit) : SharedDeclarations :=
  units.foldl (add settings) (empty settings)

end SharedDeclarations

/-- What checking a unit has found, with the table that its types are in. -/
structure UnitResult where
  path : String
  result : CheckResult
  table : TypeTable

/-- Check a unit on its own fork of the shared table. -/
def checkUnit (settings : Settings) (shared : SharedDeclarations) (unit : CodeUnit) : UnitResult :=
  let (result, table) := checkProgram settings shared.values unit shared.table.fork
  { path := unit.path, result, table }

/-- Check units; the results are in the order of the units. -/
def checkUnits (settings : Settings) (shared : SharedDeclarations) (units : List CodeUnit) :
    List UnitResult :=
  units.map (checkUnit settings shared)

end GradualTyping
