/-
# Keys and members of a type

`keyof`, the names of a type's properties, and access by key.
-/

import GradualTyping.Members
import GradualTyping.Reduction.Descent
import GradualTyping.Types.Parts

namespace GradualTyping
namespace Reduction

variable (ops : Operations)

/-- Strings in the order of their code points. -/
def sortStrings (names : List String) : List String :=
  names.mergeSort fun a b => decide (a ≤ b)

/-- The property names of a type: those of an object, the common ones of a union,
all of an intersection. -/
def naming : Descent (List String) where
  parts
    | .union members | .intersection members => members
    | _ => []
  answer _ node answers :=
    match node, answers with
    | .object o, _ => return o.properties.map (·.name)
    | .union _, first :: others =>
      return others.foldl (fun common names => common.filter (names.contains ·)) first
    | .intersection _, answers =>
      let add (all : List String) (name : String) := if all.contains name then all else all ++ [name]
      return sortStrings (answers.foldl (fun all names => names.foldl add all) [])
    | _, _ => return []

/-- The property names of a type after evaluation. -/
def keyNames (id : TypeId) : TableM (List String) := naming.run ops [] id

/-- All that can be a key. -/
def anyKey : TableM TypeId := unionOf [.string, .number, .symbol]

/-- The normal form of `keyof operand` at `id`. -/
def keyOf (id operand : TypeId) : TableM TypeId := do
  let target ← ops.evaluate operand
  if ← isDeferred target then return id
  else
    match ← resolve target with
    | .any => anyKey
    | .object o =>
      let names ← o.properties.mapM fun p => stringLiteral p.name
      unionOf (if o.index.isSome then names ++ [.string] else names)
    | .array _ | .tuple _ =>
      let length ← stringLiteral "length"
      unionOf [.number, length]
    | .union _ =>
      let names ← keyNames ops target
      unionOf (← names.mapM stringLiteral)
    | .intersection members =>
      let keys ← members.mapM fun m => do ops.evaluate (← intern (.keyOf m))
      unionOf keys
    | _ => return .never

/-- The type of a field that is read by name. -/
def readField (o : ObjectShape) (name : String) : TableM TypeId :=
  match o.property? name with
  | some p => if p.optional then unionOf [p.type, .undefined] else ops.evaluate p.type
  | none => return o.index.getD .unknown

/-- The type of a member of an object that is no union. -/
def accessMember (key : TypeId) (object : TypeId) : TableM TypeId := do
  let t ← get
  match t.resolve object, t.resolve key with
  | .any, _ => return .any
  | .object o, .literal l => readField ops o l.text
  | .object o, .primitive .string =>
    match o.index with
    | some index => return index
    | none => unionOf (o.properties.map (·.type))
  | .array element, .primitive .number => return element
  | .array element, .literal (.number _) => return element
  | .tuple shape, .literal (.number x) =>
    return if x.isNonnegative && x.isIntegral then shape.select x else .undefined
  | .tuple shape, .primitive .number => unionOf shape.types
  | _, .literal (.string name) => return (← Members.member? ops object name).getD .unknown
  | _, _ => return .unknown

/-- The type of `object[key]`; a union is accessed member by member. -/
def access (object key : TypeId) : TableM TypeId := do
  match ← resolve object with
  | .union members => unionOf (← members.mapM (accessMember ops key))
  | _ => accessMember ops key object

/-- The normal form of `object[index]` at `id`. -/
def indexed (id object index : TypeId) : TableM TypeId := do
  let object ← ops.evaluate object
  let index ← ops.evaluate index
  if ← isOpen index then return id
  else if ← isDeferred object then return id
  else
    let keys ← unionMembers index
    unionOf (← keys.mapM (access ops object))

end Reduction
end GradualTyping
