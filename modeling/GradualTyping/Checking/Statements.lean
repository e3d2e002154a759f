/-
# Statements

The declarations of a block are entered before its statements are checked in
order.  Once the recursion guard has tripped the rest of the unit is given up.
-/

import GradualTyping.Checking.Assigned
import GradualTyping.Checking.Expressions

namespace GradualTyping
namespace Checking

variable (c : Checks)

/-- The declared type of a variable and its type after its declaration. -/
def varTypes (kind : VarKind) (type : Option TypeExpr) (init : Option Expr)
    (span : Span) : CheckM (TypeId × TypeId) := do
  let declared ← type.mapM (lower · span)
  let actual ← init.mapM fun e => return (e, ← c.expr e declared)
  match declared, actual with
  | some declared, some (e, actual) =>
    if declared = .never then
      expectNever e actual
      return (declared, declared)
    else if ← valueFits e actual declared then
      return (declared, ← (narrowByAssignment declared actual : TableM TypeId))
    else return (declared, declared)
  | some declared, none => return (declared, declared)
  | none, some (_, actual) =>
    match kind with
    | .const => return (actual, actual)
    | .let_ =>
      let type ← (widenLiterals actual : TableM TypeId)
      return (type, type)
  | none, none => return (.any, .any)

/-- Declare a variable.  One with a written type is narrowed to its initial
value; a constant keeps a literal as its type. -/
def checkVar (kind : VarKind) (name : String) (type : Option TypeExpr)
    (init : Option Expr) (span : Span) : CheckM Unit := do
  let types ← varTypes c kind type init span
  bind name types.1 (kind = .let_)
  refine name types.2

/-- The type that a `return` gives, checked against what the function expects. -/
def returnType (value : Option Expr) (span : Span) : CheckM TypeId := do
  let frame := (← get).functions.head?
  let expected := frame.bind (·.expected)
  match value with
  | some e =>
    let type ← c.expr e (expected.or (frame.bind (·.contextual)))
    let type ← (FunctionSite.returned (frame.any (·.isAsync)) type : TableM TypeId)
    if let some target := expected then
      let _ ← valueFits e type target
    return type
  | none =>
    if let some target := expected then
      let _ ← fits .void target target span
    return .void

/-- A condition that is written as a constant. -/
def constantCondition? (cond : Expr) : Option Bool :=
  match cond.kind with
  | .bool value => some value
  | _ => none

/-- The environment on an edge that is never taken if `dead`. -/
def onEdge (dead : Bool) (env : TypeEnv) : TypeEnv := if dead then env.markUnreachable else env

def checkIf (cond : Expr) (yes : List Stmt) (no : Option (List Stmt)) (span : Span) :
    CheckM Unit := do
  let _ ← c.plain cond
  let guard ← guardOf cond
  let before := (← get).current
  let (yesEnv, noEnv) ← (bothEdges (← getEnv) guard : TableM _)
  let constant := constantCondition? cond
  setEnv (onEdge (constant = some false) yesEnv)
  recordFrom .branchTrue [before] cond.span
  c.block yes
  let yesEnd ← get
  setEnv (onEdge (constant = some true) noEnv)
  recordFrom .branchFalse [before] cond.span
  if let some no := no then c.block no
  let noEnd ← get
  setEnv (← (yesEnd.env.merge noEnd.env : TableM TypeEnv))
  recordFrom .join [yesEnd.current, noEnd.current] span

/-- A variable that the body of a loop assigns to has its declared type at the
head. -/
def forgetAssigned (body : List Stmt) : CheckM Unit :=
  (assignedIn body).forM fun name => do
    if let some b := (← get).binding? name then refine name b.declared

/-- The part of the check of a loop up to its head. -/
def openLoop (body : List Stmt) (span : Span) : CheckM Unit := do
  forgetAssigned body
  recordFrom .loopHeader [(← get).current] span

/-- The part of the check of a loop from the head to the end of the body.  The answer is
the environment where the condition fails. -/
def runBody (cond : Expr) (body : List Stmt) : CheckM TypeEnv := do
  let header := (← get).current
  let _ ← c.plain cond
  let guard ← guardOf cond
  let (bodyEnv, exitEnv) ← (bothEdges (← getEnv) guard : TableM _)
  setEnv bodyEnv
  recordFrom .branchTrue [header] cond.span
  pushBreaks
  c.block body
  return exitEnv

def checkWhile (cond : Expr) (body : List Stmt) (span : Span) : CheckM Unit := do
  openLoop body span
  let header := (← get).current
  let exitEnv ← runBody c cond body
  let bodyEnd := (← get).current
  let breaks ← popBreaks
  let exit := onEdge (constantCondition? cond = some true) exitEnv
  setEnv (← (TypeEnv.join (exit :: breaks) : TableM TypeEnv))
  recordFrom .join [header, bodyEnd] span

/-! ### Switches -/

/-- What is known after some clauses of a switch. -/
structure SwitchState where
  /-- The environment where no clause so far matches. -/
  residual : TypeEnv
  /-- The environments at the ends of the clauses and at breaks. -/
  exits : List TypeEnv := []
  /-- The flow nodes at the ends of the clauses. -/
  ends : List Nat := []
  hasDefault : Bool := false

/-- The environment at the start of a clause and where the clause does not match.
The default clause is reached where no clause before it matches. -/
def enterClause (subject : Option SwitchSubject) (tests : List Expr) (isDefault : Bool)
    (residual : TypeEnv) : CheckM (TypeEnv × TypeEnv) := do
  if isDefault then return (residual, residual)
  else
    let guard ← match subject with
      | some subject => subject.clauseGuard guardFacts tests
      | none => pure .vacuous
    bothEdges residual guard

/-- The part of the check of a clause before its body.  The answer is the environment where
the clause does not match. -/
def openClause (subject : Option SwitchSubject) (before : Nat) (span : Span)
    (state : SwitchState) (group : List Case) : CheckM TypeEnv := do
  let tests := group.filterMap (·.test)
  tests.forM fun test => do let _ ← c.plain test
  let (entry, residual) ← enterClause subject tests (group.any (·.test.isNone)) state.residual
  setEnv entry
  recordFrom .caseClause [before] ((group.head?.map (·.span)).getD span)
  return residual

/-- The body that clauses share. -/
def clauseBody (group : List Case) : List Stmt := (group.getLast?.map (·.body)).getD []

/-- The check of the body of a clause.  The answer are the environments at its breaks. -/
def runClause (group : List Case) : CheckM (List TypeEnv) := do
  pushBreaks
  c.block (clauseBody group)
  popBreaks

/-- Check clauses that share one body. -/
def checkClause (subject : Option SwitchSubject) (before : Nat) (span : Span)
    (state : SwitchState) (group : List Case) : CheckM SwitchState := do
  let residual ← openClause c subject before span state group
  let breaks ← runClause c group
  let after ← get
  setEnv {}
  return { residual
           exits := state.exits ++ breaks ++ [after.env]
           ends := state.ends ++ [after.current]
           hasDefault := state.hasDefault || group.any (·.test.isNone) }

/-- Report the members that no clause covers. -/
def reportMissing (subject : SwitchSubject) (declared residual : TypeId) (span : Span) :
    CheckM Unit := do
  if (← get).requireExhaustiveSwitch then
    match ← (subject.exhaustiveness declared residual false : TableM _) with
    | .missing members => report (.nonExhaustive members) span
    | _ => return ()

/-- Finish a switch: without a default clause control may pass all clauses,
unless nothing is left of the subject. -/
def finishSwitch (subject : Option SwitchSubject) (declared : Option TypeId) (before : Nat)
    (span : Span) (state : SwitchState) : CheckM SwitchState := do
  if state.hasDefault then return state
  let left := subject.bind fun s => state.residual.get? s.variableName
  if let (some subject, some declared, some left) := (subject, declared, left) then
    reportMissing subject declared left span
  if left = some .never then return state
  else return { state with
    exits := state.exits ++ [state.residual], ends := state.ends ++ [before] }

def checkSwitch (subject : Expr) (cases : List Case) (span : Span) : CheckM Unit := do
  let _ ← c.plain subject
  let subject := SwitchSubject.ofExpr? subject
  let s ← get
  let declared := subject.bind fun subject => s.value? subject.variableName
  let state ← (groupCases cases).foldlM (checkClause c subject s.current span) { residual := s.env }
  let state ← finishSwitch subject declared s.current span state
  setEnv (← (TypeEnv.join state.exits : TableM TypeEnv))
  recordFrom .join state.ends span

/-! ### All statements -/

def checkStmt (s : Stmt) : CheckM Unit := do
  match s.kind with
  | .typeAlias .. | .interface .. => return ()
  | .class_ decl => checkClass c decl s.span
  | .function f => checkFunctionDecl c f s.span
  | .var kind name type init => checkVar c kind name type init s.span
  | .expr e =>
    let _ ← c.plain e
    if let some guard ← Guard.ofAssertion? guardFacts e then assume guard
  | .return_ value =>
    let type ← returnType c value s.span
    addReturn type
    markUnreachable
  | .if_ cond yes no => checkIf c cond yes no s.span
  | .switch subject cases => checkSwitch c subject cases s.span
  | .while_ cond body => checkWhile c cond body s.span
  | .block body => c.block body
  | .throw_ value =>
    let _ ← c.plain value
    markUnreachable
  | .break_ => addBreak

/-- Check statements in order until the unit is given up. -/
def checkInOrder (c : Checks) : List Stmt → CheckM Unit
  | [] => return ()
  | s :: rest => do
    let mark ← errorCount
    checkStmt c s
    if ← isAbandoned mark s.span then return ()
    recordFrom .statement [(← get).current] s.span
    checkInOrder c rest

/-- Check the statements of a block, after entering its declarations. -/
def checkStatements (block : List Stmt) : CheckM Unit := do
  let span := (block.head?.map (·.span)).getD {}
  let mark ← errorCount
  declare block span
  if ← isAbandoned mark span then return ()
  checkInOrder c block

end Checking

/-- The checks of programs with the given nesting. -/
def Checks.within : Nat → Checks
  | 0 => inert
  | n + 1 =>
    { expr := fun e expected => Checking.checkExpr (within n) e expected
      statements := fun block => Checking.checkStatements (within n) block }

end GradualTyping
