/-
# Evaluation

`step` reduces a type until its head is structural or waits for a type
parameter.  Unions and intersections are evaluated when one of their members is
reducible.  Results are remembered, unless the recursion guard has tripped; a
type met again during its own evaluation stays as it is.
-/

import GradualTyping.Reduction.Conditional
import GradualTyping.Reduction.Keys
import GradualTyping.Reduction.Mapped
import GradualTyping.Reduction.Utility

namespace GradualTyping
namespace Reduction

variable (ops : Operations)

/-- Whether evaluation may change a type. -/
def needsEvaluation (t : TypeTable) (id : TypeId) : Bool :=
  match t.resolve id with
  | .union members | .intersection members => members.any t.isReducible
  | ty => ty.isReducible

/-- Run `body` while an alias is being expanded. -/
def whileExpanding {α : Type} (name : String) (body : TableM α) : TableM α := do
  modify fun t => { t with expanding := name :: t.expanding }
  let result ← body
  modify fun t => { t with expanding := t.expanding.drop 1 }
  return result

/-- The arguments of an alias for its parameters: a missing one takes the
default, in which earlier parameters are replaced, or `unknown`. -/
def aliasSubstitution (ops : Operations) :
    (params args : List TypeId) → Substitution → TableM Substitution
  | [], _, s => return s
  | p :: params, args, s => do
    let arg ← match args with
      | a :: _ => pure a
      | [] =>
        match ← resolve p with
        | .param { fallback := some d, .. } => ops.substitute s d
        | _ => pure .unknown
    aliasSubstitution ops params (args.drop 1) (s.insert p arg)

/-- The normal form of a reference at `id`: the body of an alias with its
arguments, or a utility. -/
def reference (id : TypeId) (name : String) (args : List TypeId) :
    TableM TypeId := do
  match (← get).alias? name with
  | some definition =>
    match definition.body with
    | none => return id
    | some body =>
      let s ← aliasSubstitution ops definition.params args {}
      whileExpanding name do ops.evaluate (← ops.substitute s body)
  | none =>
    match Utility.ofName? name with
    | some u => utility ops id u args
    | none => return id

/-- The normal form of a node at `id`. -/
def reduce (id : TypeId) : Ty → TableM TypeId
  | .union members => do unionOf (← members.mapM ops.evaluate)
  | .intersection members => do intersectionOf (← members.mapM ops.evaluate)
  | .reference name args => reference ops id name args
  | .conditional c => conditional ops id c
  | .mapped m => mapped ops id m
  | .keyOf operand => keyOf ops id operand
  | .indexed object index => indexed ops id object index
  | .template spans => template ops id spans
  | .caseMapped change inner => caseMapped ops id change inner
  | _ => return id

/-- Run `body` while `id` is under evaluation, and remember its result. -/
def remembering (id : TypeId) (body : TableM TypeId) : TableM TypeId := do
  modify fun t => { t with evaluating := id :: t.evaluating }
  let result ← body
  modify fun t => { t with evaluating := t.evaluating.drop 1 }
  if ← depthExceeded then return result
  else
    modify fun t => { t with evaluated := t.evaluated.insert id result }
    return result

/-- The normal form of a type, one level above `deeper`. -/
def step (deeper : Operations) (id : TypeId) : TableM TypeId := do
  let t ← get
  match t.evaluated[id]? with
  | some done => return done
  | none =>
    if needsEvaluation t id && !t.evaluating.contains id then
      guarded id (remembering id (reduce deeper id (t.resolve id)))
    else return id

end Reduction
end GradualTyping
