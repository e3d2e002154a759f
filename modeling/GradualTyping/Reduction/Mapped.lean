/-
# Mapped types

A mapped type over `keyof T` keeps the modifiers of `T`'s fields, maps arrays and
tuples element by element and is taken apart over unions.  Over other keys it is
an object with one field for each literal key, and the last of `string` and
`number` gives the type of all other fields.
-/

import GradualTyping.Operations
import GradualTyping.Types.Union
import GradualTyping.Types.Parts

namespace GradualTyping
namespace Reduction

variable (ops : Operations)

/-- The template for one key; with `source`, the mapped type is replaced by one
of its members.  References and conditionals stay as they are, so that recursive
mapped aliases end. -/
def instantiateTemplate (m : MappedShape) (key : TypeId)
    (source : Option (TypeId × TypeId)) : TableM TypeId := do
  let s := ({} : Substitution).insert m.param key
  let s := match source with
    | some (whole, member) => if whole = member then s else s.insert whole member
    | none => s
  let value ← ops.substitute s m.template
  match ← resolve value with
  | .reference .. | .conditional _ => return value
  | _ => ops.evaluate value

/-- Elements with their places. -/
def withPlaces {α : Type} (xs : List α) : List (Nat × α) := (List.range xs.length).zip xs

/-- The mapped type over one member `target` of what stands under `keyof`. -/
def mapOver (m : MappedShape) (source target : TypeId) : TableM TypeId := do
  let value (key : TypeId) : TableM TypeId :=
    instantiateTemplate ops m key (some (source, target))
  match ← resolve target with
  | .object o =>
    let properties ← o.properties.mapM fun p => do
      let key ← stringLiteral p.name
      let type ← value key
      return { name := p.name, type := type
               optional := m.optional.apply p.optional, readonly := m.readonly.apply p.readonly }
    let index ← match o.index with
      | some _ => some <$> value .string
      | none => pure none
    objectOf properties index
  | .array _ => arrayOf (← value .number)
  | .tuple shape =>
    let elements ← (withPlaces shape.elements).mapM fun (i, e) => do
      let key ← numberLiteral (Double.ofNat i)
      let type ← value key
      return { type := type, optional := m.optional.apply e.optional }
    let rest ← match shape.rest with
      | some _ => some <$> value .number
      | none => pure none
    tupleOf elements rest
  | .any => return .any
  | _ => return target

/-- The normal form of a mapped type at `id` over `keyof source`. -/
def mapKeysOf (id : TypeId) (m : MappedShape) (source : TypeId) :
    TableM TypeId := do
  let evaluated ← ops.evaluate source
  match ← resolve evaluated with
  | .union members => unionOf (← members.mapM (mapOver ops m source))
  | .param _ => return id
  | _ => if ← isDeferred evaluated then return id else mapOver ops m source evaluated

/-- The fields and the index of an object under construction. -/
abbrev Fields := List Property × Option TypeId

/-- Add what a mapped type gives for one key. -/
def addKey (m : MappedShape) (fields : Fields) (key : TypeId) :
    TableM Fields := do
  match ← resolve key with
  | .literal l =>
    let type ← instantiateTemplate ops m key none
    let p : Property :=
      { name := l.text, type := type
        optional := m.optional.apply false, readonly := m.readonly.apply false }
    return (fields.1 ++ [p], fields.2)
  | .primitive .string | .primitive .number =>
    let type ← instantiateTemplate ops m key none
    return (fields.1, some type)
  | _ => return fields

/-- The normal form of a mapped type at `id`. -/
def mapped (id : TypeId) (m : MappedShape) : TableM TypeId := do
  match ← resolve m.keys with
  | .keyOf source => mapKeysOf ops id m source
  | _ =>
    let keys ← ops.evaluate m.keys
    if ← isOpen keys then return id
    else
      let (properties, index) ← (← unionMembers keys).foldlM (addKey ops m) ([], none)
      objectOf properties index

end Reduction
end GradualTyping
