/-
# Applying a substitution

A substitution rebuilds a type from its replaced parts.  References are not
expanded: only their arguments are replaced, so recursive aliases stay folded.
The own parameters of a function and the parameter of a mapped type are kept.

A distributive conditional whose checked parameter is replaced by a union is
instantiated once for each member.
-/

import GradualTyping.Operations
import GradualTyping.Types.Intersection
import GradualTyping.Types.Parts

namespace GradualTyping
namespace Substitution

variable (deeper : Operations)

/-- Operations of one substitution. -/
abbrev ApplyM := StateT SubstitutionMemo TableM

/-- A node, in the normal form of its kind. -/
def nodeOf : Ty → TableM TypeId
  | .object o => objectOf o.properties o.index
  | .union ms => unionOf ms
  | .intersection ms => intersectionOf ms
  | .template spans => templateOf spans
  | .promise inner => promiseOf inner
  | ty => intern ty

/-- Rebuild a node from its parts. -/
def rebuild (apply : TypeId → ApplyM TypeId) (id : TypeId) (ty : Ty) : ApplyM TypeId := do
  if ty.parts.isEmpty then return id
  nodeOf (ty.withParts (← ty.parts.mapM apply))

/-- The members over which a conditional is instantiated: those of the union
that replaces its checked type, if it is distributive. -/
def distributes? (s : Substitution) (c : Conditional) :
    TableM (Option (List TypeId)) := do
  if c.distributive then
    match s.get? c.check with
    | some arg =>
      let evaluated ← deeper.evaluate arg
      match ← resolve evaluated with
      | .never => return some []
      | .union members => return some members
      | _ => return none
    | none => return none
  else return none

/-- A node under a substitution. -/
def applyNode (s : Substitution) (id : TypeId) (ty : Ty) : ApplyM TypeId := do
  match ty with
  | .conditional c =>
    match ← distributes? deeper s c with
    | some [] => return .never
    | some members =>
      let results ← members.mapM fun m => deeper.substitute (s.insert c.check m) id
      unionOf results
    | none => rebuild (deeper.substituteIn s) id ty
  | _ => rebuild (deeper.substituteIn s) id ty

/-- A type under a substitution, one level above `deeper`. -/
def step (s : Substitution) (id : TypeId) : ApplyM TypeId := do
  match s.get? id with
  | some replacement => return replacement
  | none =>
    match (← getThe SubstitutionMemo)[id]? with
    | some done => return done
    | none =>
      guarded id do
        let result ← applyNode deeper s id (← resolve id)
        modifyThe SubstitutionMemo (·.insert id result)
        return result

end Substitution
end GradualTyping
