/-
# Collecting candidates

A parameter type is walked along an argument type.  Where the walk meets a type
parameter under inference, what stands in the argument becomes a candidate.

* Against a union with naked parameters, the members of the argument that fit
  one of the other members are left out.
* Against an intersection with naked parameters, these get the fields that the
  other members do not name: a row.
-/

import GradualTyping.Reduction.Keys

namespace GradualTyping
namespace Inference

variable (deeper : Operations)

/-- Whether the walk along a type can meet a parameter under inference. -/
def mentions (i : Inference) (t : TypeTable) (id : TypeId) : Bool :=
  (t.freeParams id).any i.isTarget ||
  match t.resolve id with
  | .reference .. => true
  | _ => false

/-- A candidate for all naked parameters. -/
def addAll (naked : List TypeId) (candidate : TypeId) (contravariant : Bool) : InferM Unit :=
  modifyThe Inference fun i =>
    naked.foldl (fun i p => i.addCandidate p candidate contravariant) i

/-- The naked parameters of a list of types, and the other types. -/
def splitNaked (members : List TypeId) : InferM (List TypeId × List TypeId) := do
  let i ← getThe Inference
  return members.partition i.isTarget

def intoUnion (members : List TypeId) (arg : TypeId)
    (contravariant : Bool) : InferM Unit := do
  let (naked, others) ← splitNaked members
  let argMembers ← (unionMembers arg : TableM (List TypeId))
  if naked.isEmpty then
    argMembers.forM fun a => others.forM fun f => deeper.inferFrom f a contravariant
  else
    let unmatched ← argMembers.filterM fun a => do
      return !(← (others.anyM (deeper.subtype a) : TableM Bool))
    if unmatched.isEmpty then return ()
    else
      let rest ← (unionOf unmatched : TableM TypeId)
      addAll naked rest contravariant

/-- What an argument has beyond the claimed fields. -/
def remainder (claimed : List String) (arg : TypeId) : TableM TypeId := do
  match ← resolve arg with
  | .object o => objectOf (o.properties.filter fun p => !claimed.contains p.name) o.index
  | _ => return arg

def intoRow (members : List TypeId) (arg : TypeId)
    (contravariant : Bool) : InferM Unit := do
  let (naked, others) ← splitNaked members
  let claimed ← others.foldlM (fun (claimed : List String) f => do
    deeper.inferFrom f arg contravariant
    let names ← (Reduction.keyNames deeper f : TableM (List String))
    return claimed ++ names) []
  if naked.isEmpty then return ()
  else
    let rest ← (remainder claimed arg : TableM TypeId)
    addAll naked rest contravariant

def intoObject (param arg : ObjectShape) (contravariant : Bool) :
    InferM Unit := do
  param.properties.forM fun p =>
    match arg.read? p.name with
    | some type => deeper.inferFrom p.type type contravariant
    | none => return ()
  match param.index with
  | some index =>
    arg.properties.forM fun p => deeper.inferFrom index p.type contravariant
    match arg.index with
    | some argIndex => deeper.inferFrom index argIndex contravariant
    | none => return ()
  | none => return ()

/-- Both open ends, if both are there. -/
def intoRest (contravariant : Bool) : Option TypeId → Option TypeId → InferM Unit
  | some p, some a => deeper.inferFrom p a contravariant
  | _, _ => return ()

def intoFunction (param arg : Signature) (contravariant : Bool) :
    InferM Unit := do
  (param.params.zip arg.params).forM fun (p, a) => deeper.inferFrom p.type a.type !contravariant
  intoRest deeper (!contravariant) param.rest arg.rest
  let result := if arg.predicate.isSome then .boolean else arg.result
  deeper.inferFrom param.result result contravariant

/-- A parameter type along an evaluated argument type, both with their nodes. -/
def collect (param arg : TypeId) (contravariant : Bool) :
    (paramTy argTy : Ty) → InferM Unit
  | .union ms, _ => intoUnion deeper ms arg contravariant
  | .intersection ms, _ => intoRow deeper ms arg contravariant
  | .reference p ps, .reference a as =>
    if p = a then (ps.zip as).forM fun (x, y) => deeper.inferFrom x y contravariant
    else expandParam
  | .reference .., _ => expandParam
  | _, .union ms => ms.forM fun m => deeper.inferFrom param m contravariant
  | .object p, .object a => intoObject deeper p a contravariant
  | .array p, .array a => deeper.inferFrom p a contravariant
  | .array p, .tuple a => a.types.forM fun e => deeper.inferFrom p e contravariant
  | .tuple p, .tuple a => do
    (p.elements.zip a.elements).forM fun (x, y) => deeper.inferFrom x.type y.type contravariant
    intoRest deeper contravariant p.rest a.rest
  | .function p, .function a => intoFunction deeper p a contravariant
  | .promise p, .promise a => deeper.inferFrom p a contravariant
  | .promise p, _ => deeper.inferFrom p arg contravariant
  | _, _ => return ()
where
  /-- Walk along what a reference stands for. -/
  expandParam : InferM Unit := do
    let expanded ← (deeper.evaluate param : TableM TypeId)
    if expanded = param then return () else deeper.inferFrom expanded arg contravariant

/-- Collect from a pair that is looked at for the first time. -/
def visit (param arg : TypeId) (contravariant : Bool) : InferM Unit := do
  let paramTy ← (resolve param : TableM Ty)
  if paramTy.isParam then
    modifyThe Inference (·.addCandidate param arg contravariant)
  else if mentions (← getThe Inference) (← (get : TableM TypeTable)) param then
    let arg ← (deeper.evaluate arg : TableM TypeId)
    collect deeper param arg contravariant paramTy (← (resolve arg : TableM Ty))
  else return ()

/-- Collect candidates, one level above `deeper`; each pair is looked at once. -/
def step (param arg : TypeId) (contravariant : Bool) : InferM Unit := do
  let i ← getThe Inference
  if param = arg ∨ (param, arg, contravariant) ∈ i.visited then return ()
  else
    set { i with visited := (param, arg, contravariant) :: i.visited }
    guarded () (visit deeper param arg contravariant)

end Inference
end GradualTyping
