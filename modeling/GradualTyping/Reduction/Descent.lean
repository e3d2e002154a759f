/-
# Descending into the members of a type

Some questions about a type are first asked of the members of its normal form: the
names of its properties, its fields with other modifiers, a part of its signatures.
Every member is evaluated before it is asked, so a member can lead back to the type
itself; nothing but the nesting of the questions then comes to an end.
-/

import GradualTyping.Operations

namespace GradualTyping
namespace Reduction

/-- A question about a type that is first asked of some parts of its normal form. -/
structure Descent (α : Type) where
  parts : Ty → List TypeId
  /-- The answer for a normal form and its node, from the answers of its parts. -/
  answer : TypeId → Ty → List α → TableM α

namespace Descent

variable {α : Type}

/-- There is no answer when questions are nested `fuel` deep. -/
def within (d : Descent α) (ops : Operations) : (fuel : Nat) → TypeId → OptionT TableM α
  | 0, _ => failure
  | fuel + 1, id => do
    let evaluated ← ops.evaluate id
    let node ← resolve evaluated
    let answers ← (d.parts node).mapM (d.within ops fuel)
    d.answer evaluated node answers

/-- How deep questions are nested at most: more than any stack holds. -/
def nestingLimit : Nat := 0x10000000000

/-- The answer for a type; `fallback` if its members are nested too deep. -/
def run (d : Descent α) (ops : Operations) (fallback : α) (id : TypeId) : TableM α := do
  return (← (d.within ops nestingLimit id).run).getD fallback

end Descent
end Reduction

/-- The members of a union type; any other type has no parts. -/
def Ty.alternatives : Ty → List TypeId
  | .union members => members
  | _ => []

end GradualTyping
