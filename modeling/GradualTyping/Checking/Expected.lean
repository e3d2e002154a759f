/-
# What the surroundings expect

Literals are widened to their primitives unless the surroundings expect a
literal.
-/

import GradualTyping.Checking.State

namespace GradualTyping
namespace Checking

/-- Whether a type has a literal among its members. -/
def hasLiteral (type : TypeId) : TableM Bool := do
  (← namedMembers type).anyM fun m => return (← evaluateNode m).literal?.isSome

/-- Widen literals unless they are expected. -/
def widenFor (type : TypeId) (expected : Option TypeId) : TableM TypeId := do
  match expected with
  | none => widenLiterals type
  | some e => if ← hasLiteral e then return type else widenLiterals type

/-- The object that a member of an expected type describes, also through the
bound of a parameter. -/
def expectedObject? (member : TypeId) : TableM (Option ObjectShape) := do
  match ← evaluateNode member with
  | .param ⟨_, some bound, _, _, _⟩ => return (← evaluateNode bound).object?
  | node => return node.object?

/-- What an expected type says about a field. -/
def expectedField? (expected : TypeId) (name : String) : TableM (Option TypeId) := do
  let found ← (← namedMembers expected).filterMapM fun m =>
    return (← expectedObject? m).bind (·.read? name)
  if found.isEmpty then return none else some <$> unionOf found

/-- What `typeof` may report. -/
def typeofTags : List String :=
  ["string", "number", "bigint", "boolean", "symbol", "undefined", "object", "function"]

/-- The type of a `typeof` expression. -/
def typeofResult : TableM TypeId := do unionOf (← typeofTags.mapM stringLiteral)

/-- Types whose values are texts. -/
def isText : Ty → Bool
  | .template _ | .caseMapped .. => true
  | node => node.base? == some .string

/-- The type of an arithmetic operation; addition also joins texts. -/
def arithmeticResult (left right : TypeId) (isAddition : Bool) : TableM TypeId := do
  let left ← evaluate left
  let right ← evaluate right
  let l ← resolve left
  let r ← resolve right
  if l.isAny || r.isAny then return .any
  else if isAddition && (isText l || isText r) then return .string
  else if l.base? == some .bigint && r.base? == some .bigint then return .bigint
  else return .number

end Checking
end GradualTyping
