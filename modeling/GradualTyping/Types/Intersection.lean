/-
# Intersections

`intersectionOf` brings a list of types into the canonical form of their
intersection:

1. members that are intersections are replaced by their members, `unknown` is
   dropped; `never` absorbs everything, then `any` does;
2. the first union is distributed over, if it has at most 32 members;
3. disjoint primitives and literals give `never`, a literal absorbs its
   primitive, and `null`, `undefined` and `void` are disjoint from objects;
4. objects are merged field by field, which intersects the types of shared
   fields.

Distribution removes a union of the list and merging descends into the fields of
objects, so the nesting of calls is bounded by the number of parts times the
depth of the objects; the square of the table's size is above that.
-/

import GradualTyping.Types.Union

namespace GradualTyping

/-- The largest union that an intersection is distributed over. -/
def distributionLimit : Nat := 32

namespace TypeTable

variable (t : TypeTable)

/-- The members of a list of types, taken out of their intersections. -/
def flattenIntersection (members : List TypeId) : List TypeId :=
  members.flatMap fun m =>
    match t.resolve m with
    | .intersection ms => ms
    | .unknown => []
    | _ => [m]

/-- The first union of a list: its members and the other elements. -/
def splitUnion? (t : TypeTable) : List TypeId → Option (List TypeId × List TypeId)
  | [] => none
  | m :: rest =>
    match t.resolve m with
    | .union alternatives => some (alternatives, rest)
    | _ => (t.splitUnion? rest).map fun (alternatives, others) => (alternatives, m :: others)

/-- The smaller of two primitives or literals; `none` when they are disjoint. -/
def meetAtoms (a b : TypeId) : Option TypeId :=
  if a = b then some a
  else
    match t.resolve a, t.resolve b with
    | .literal l, .primitive p => if l.base = p then some a else none
    | .primitive p, .literal l => if l.base = p then some b else none
    | .primitive .void, .primitive .undefined => some b
    | .primitive .undefined, .primitive .void => some a
    | _, _ => none

/-- The parts of an intersection by kind. -/
structure Parts where
  atom : Option TypeId := none
  objects : List ObjectShape := []
  others : List TypeId := []

/-- Sort the members of an intersection by kind, in order; `none` when two
primitives or literals are disjoint. -/
def parts? (t : TypeTable) : Parts → List TypeId → Option Parts
  | parts, [] => some parts
  | parts, m :: rest =>
    match t.resolve m with
    | .primitive _ | .literal _ =>
      match parts.atom with
      | none => t.parts? { parts with atom := some m } rest
      | some a =>
        match t.meetAtoms a m with
        | some kept => t.parts? { parts with atom := some kept } rest
        | none => none
    | .object o => t.parts? { parts with objects := parts.objects ++ [o] } rest
    | _ => t.parts? { parts with others := parts.others ++ [m] } rest

/-- A nullish primitive beside an object. -/
def Parts.isEmpty (p : Parts) : Bool :=
  !p.objects.isEmpty && p.atom.any fun a => (t.resolve a).isNullish

end TypeTable

/-- Merge two objects.  A field of both has the intersection `meet` of the
types, is optional if both are and readonly if one is. -/
def mergeObjects (meet : TypeId → TypeId → TableM TypeId) (a b : ObjectShape) :
    TableM ObjectShape := do
  let meetDistinct (x y : TypeId) : TableM TypeId := if x = y then pure x else meet x y
  let shared ← a.properties.mapM fun p =>
    match b.property? p.name with
    | some q => do
      let type ← meetDistinct p.type q.type
      return { name := p.name, type := type
               optional := p.optional && q.optional, readonly := p.readonly || q.readonly }
    | none => return p
  let added := b.properties.filter fun q => (a.property? q.name).isNone
  let index ← match a.index, b.index with
    | some x, some y => some <$> meetDistinct x y
    | x, y => pure (x.or y)
  return ⟨sortProperties (shared ++ added), index⟩

/-- Merge objects from the left. -/
def mergeAll (meet : TypeId → TypeId → TableM TypeId) : List ObjectShape → TableM (Option TypeId)
  | [] => return none
  | o :: os => do
    let merged ← os.foldlM (mergeObjects meet) o
    return some (← intern (.object merged))

/-- One step of an intersection.  The intersections that it makes in turn, of the alternatives
of a union or of the types of shared fields, are put to `meet`. -/
def intersectStep (meet : List TypeId → TableM TypeId) (members : List TypeId) :
    TableM TypeId := do
  let t ← get
  let flat := t.flattenIntersection members
  if .never ∈ flat then return .never
  else if .any ∈ flat then return .any
  else
    match sortIds flat with
    | [] => return .unknown
    | [m] => return m
    | flat =>
      match t.splitUnion? flat with
      | some (alternatives, rest) =>
        if alternatives.length ≤ distributionLimit then
          unionOf (← alternatives.mapM fun alt => meet (rest ++ [alt]))
        else joinParts meet t flat
      | none => joinParts meet t flat
where
  /-- The intersection of a list without a union to distribute over. -/
  joinParts (meet : List TypeId → TableM TypeId) (t : TypeTable) (flat : List TypeId) :
      TableM TypeId := do
    match t.parts? {} flat with
    | none => return .never
    | some parts =>
      if parts.isEmpty t then return .never
      else
        let object ← mergeAll (fun a b => meet [a, b]) parts.objects
        match sortIds (parts.others ++ parts.atom.toList ++ object.toList) with
        | [] => return .unknown
        | [m] => return m
        | ms => intern (.intersection ms)

/-- The intersection with at most `fuel` nested steps. -/
def intersectWithin : (fuel : Nat) → List TypeId → TableM TypeId
  | 0, _ => return .never
  | fuel + 1, members => intersectStep (intersectWithin fuel) members

/-- The intersection of a list of types. -/
def intersectionOf (members : List TypeId) : TableM TypeId := do
  let n := (← get).size + members.length + 2
  intersectWithin (n * n) members

end GradualTyping
