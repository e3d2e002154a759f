/-
# Guards at the current point

What the checker knows of an expression for reading guards: the types of the
expressions that it has checked and the predicates of the functions called.
-/

import GradualTyping.Checking.State

namespace GradualTyping
namespace Checking

/-- The function type that a type is. -/
def functionOf? (type : TypeId) : TableM (Option Signature) := return (← evaluateNode type).function?

/-- The type of a literal, `null` or `undefined`. -/
def unitType? (e : Expr) : TableM (Option TypeId) :=
  match e.kind with
  | .string value => some <$> stringLiteral value
  | .number value => some <$> numberLiteral value
  | .bool value => return some (booleanLiteral value)
  | .bigint digits => some <$> literalType (.bigint digits)
  | .null => return some .null
  | .undefined => return some .undefined
  | _ => return none

/-- The instances of the class that an expression stands for, whatever its type
arguments. -/
def instances? (e : Expr) : CheckM (Option TypeId) := do
  match (← get).exprTypes[e.id]? with
  | none => return none
  | some type =>
    match ← (functionOf? type : TableM _) with
    | none => return none
    | some f =>
      if f.kind = .construct then
        let erased := Substitution.ofList (f.typeParams.map fun p => (p, .any))
        some <$> (substitute erased f.result : TableM TypeId)
      else return none

/-- The predicate of a function that has been called. -/
def predicate? (callee : Expr) : CheckM (Option Predicate) := do
  let s ← get
  match s.callPredicates[callee.id]? with
  | some p => return some p
  | none =>
    match s.exprTypes[callee.id]? with
    | none => return none
    | some type => return (← (functionOf? type : TableM _)).bind (·.predicate)

def guardFacts : GuardFacts CheckM where
  unit? e := unitType? e
  instances? := instances?
  predicate? := predicate?

/-- The guard of a condition that has been checked. -/
def guardOf (cond : Expr) : CheckM Guard := Guard.ofCondition guardFacts cond

/-- Go on where a guard holds. -/
def assume (guard : Guard) : CheckM Unit := do
  let env ← getEnv
  setEnv (← (env.apply guard : TableM TypeEnv))

/-- The environments on both edges of a condition, the one where it holds first. -/
def bothEdges (env : TypeEnv) (guard : Guard) : TableM (TypeEnv × TypeEnv) := do
  let yes ← env.apply guard
  let no ← env.apply guard.negate
  return (yes, no)

end Checking
end GradualTyping
