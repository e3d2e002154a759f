/-
# Promises

A promise of a promise does not exist, so there is at most one layer at the top
of a type; aliases and the members of unions may hide more.
-/

import GradualTyping.Operations
import GradualTyping.Types.Union

namespace GradualTyping
namespace Promise

variable (ops : Operations)

/-- What awaiting gives, one level above `deeper`: promises are taken off
through aliases and in the members of unions. -/
def step (deeper : Operations) (id : TypeId) : TableM TypeId :=
  guarded id do
    let evaluated ← deeper.evaluate id
    match ← resolve evaluated with
    | .promise inner => deeper.awaited inner
    | .union members =>
      let unwrapped ← members.mapM deeper.awaited
      if unwrapped = members then return id else unionOf unwrapped
    | _ => return id

/-- The content of a promise; other types stay. -/
def content (t : TypeTable) (id : TypeId) : TypeId :=
  match t.resolve id with
  | .promise inner => inner
  | _ => id

/-- Take one promise off a type, also off the members of a union. -/
def unwrapOnce (id : TypeId) : TableM TypeId := do
  let evaluated ← ops.evaluate id
  let t ← get
  match t.resolve evaluated with
  | .promise inner => return inner
  | .union members =>
    let unwrapped := members.map (content t)
    if unwrapped = members then return id else unionOf unwrapped
  | _ => return id

/-- The result of an asynchronous function whose body gives `body`. -/
def wrapResult (body : TypeId) : TableM TypeId := do
  promiseOf (← unwrapOnce ops body)

/-- What the body of an asynchronous function must give, from its declared
result; `none` when that is no promise. -/
def declaredResult? (declared : TypeId) : TableM (Option TypeId) := do
  let evaluated ← ops.evaluate declared
  match ← resolve evaluated with
  | .promise inner => return some inner
  | .any => return some .any
  | _ => return none

end Promise
end GradualTyping
