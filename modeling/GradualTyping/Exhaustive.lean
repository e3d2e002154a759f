/-
# Exhaustive switches

A switch on a variable, a field of a variable or the tag of a variable narrows
the variable case by case.  What is left of it behind all cases is the residual;
without a default clause the residual of a type with finitely many cases has to
be empty.
-/

import GradualTyping.Narrowing.Narrow
import GradualTyping.Types.Display

namespace GradualTyping

/-- What a switch tells cases apart by. -/
inductive SwitchSubject where
  | var (name : String)
  | field (var field : String)
  | typeOf (var : String)
deriving DecidableEq, Repr, Inhabited

inductive Exhaustiveness where
  | exhaustive
  /-- The texts of the members that no case covers. -/
  | missing (members : List String)
  | hasDefault
  /-- The subject has no finite list of cases. -/
  | notApplicable
deriving DecidableEq, Repr, Inhabited

namespace SwitchSubject

/-- The variable that the cases narrow. -/
def variableName : SwitchSubject → String
  | var name => name
  | field name _ => name
  | typeOf name => name

/-- The subject of a switch on an expression. -/
def ofExpr? (e : Expr) : Option SwitchSubject :=
  match e.kind with
  | .ident name => some (.var name)
  | .member object property => object.ident?.map (.field · property)
  | .unary .typeOf operand => operand.ident?.map .typeOf
  | _ => none

section Cases

variable {m : Type → Type} [Monad m] (facts : GuardFacts m)

/-- The test of a case on the subject. -/
def caseTest? (subject : SwitchSubject) (test : Expr) : m (Option Test) := do
  match subject with
  | typeOf _ =>
    match test.kind with
    | .string tag => return some (.typeOf tag)
    | _ => return none
  | field _ name => return (← facts.unit? test).map (.fieldEquals name)
  | var _ => Guard.equalityTest? facts .strictEq test

/-- The guard of a case. -/
def caseGuard (subject : SwitchSubject) (test : Expr) : m Guard := do
  match ← caseTest? facts subject test with
  | some test => return .holds subject.variableName test
  | none => return .vacuous

/-- Either of two guards; nothing is known if one of them is vacuous. -/
def either (a b : Guard) : Guard :=
  if a.isVacuous || b.isVacuous then .vacuous else .or a b

/-- The guard at the start of a clause with the given tests. -/
def clauseGuard (subject : SwitchSubject) (tests : List Expr) : m Guard := do
  match ← tests.mapM (caseGuard facts subject) with
  | [] => return .vacuous
  | g :: gs => return gs.foldl either g

end Cases

end SwitchSubject

/-- Put cases with an empty body together with the case that follows them. -/
def groupCases : List Case → List (List Case)
  | [] => []
  | c :: cs =>
    if c.body.isEmpty then
      match groupCases cs with
      | [] => [[c]]
      | group :: groups => (c :: group) :: groups
    else [c] :: groupCases cs

/-- A type with one value, or `boolean`, which cases cover by two. -/
def Ty.isUnit : Ty → Bool
  | .literal _ => true
  | .primitive p => p.isNullish || p == .boolean
  | _ => false

/-- The type of a field of an object if it is a unit type. -/
def discriminant? (member : TypeId) (field : String) : TableM (Option TypeId) := do
  match (← evaluateNode member).object?.bind (·.read? field) with
  | none => return none
  | some type =>
    let type ← evaluate type
    return if (← resolve type).isUnit then some type else none

namespace SwitchSubject

/-- Whether cases can cover a member. -/
def coversMember (subject : SwitchSubject) (member : TypeId) : TableM Bool := do
  match subject with
  | var _ => return (← evaluateNode member).isUnit
  | field _ name => return (← discriminant? member name).isSome
  | typeOf _ => return (← evaluateNode member).typeofTag?.isSome

/-- Whether finitely many cases can cover a type. -/
def isFinite (subject : SwitchSubject) (declared : TypeId) : TableM Bool := do
  let members ← namedMembers declared
  if members.isEmpty then return false else members.allM subject.coversMember

/-- The text of the case that would cover a member, or of the member. -/
def describe (subject : SwitchSubject) (member : TypeId) : TableM String := do
  match subject with
  | field _ name => display ((← discriminant? member name).getD member)
  | typeOf _ =>
    match (← evaluateNode member).typeofTag? with
    | some tag => return "\"" ++ tag ++ "\""
    | none => display member
  | var _ => display member

/-- The texts of what is left of a subject, each once. -/
def describeResidual (subject : SwitchSubject) (residual : TypeId) : TableM (List String) := do
  return (← (← namedMembers residual).mapM subject.describe).eraseDups

/-- Whether a switch covers its subject. -/
def exhaustiveness (subject : SwitchSubject) (declared residual : TypeId) (hasDefault : Bool) :
    TableM Exhaustiveness := do
  if hasDefault then return .hasDefault
  if !(← subject.isFinite declared) then return .notApplicable
  match ← subject.describeResidual residual with
  | [] => return .exhaustive
  | missing => return .missing missing

end SwitchSubject

/-- The first field that tells all members of a list apart by unit types. -/
def commonDiscriminant? (members : List TypeId) : TableM (Option String) := do
  match members with
  | [] => return none
  | first :: _ =>
    match (← evaluateNode first).object? with
    | none => return none
    | some o =>
      (o.properties.map (·.name)).findM? fun field =>
        members.allM fun m => return (← discriminant? m field).isSome

/-- The texts of the members of a type, by their common field if they have one. -/
def describeMembers (type : TypeId) : TableM (List String) := do
  let field ← commonDiscriminant? (← namedMembers type)
  let subject : SwitchSubject := match field with
    | some field => .field "" field
    | none => .var ""
  subject.describeResidual type

end GradualTyping
