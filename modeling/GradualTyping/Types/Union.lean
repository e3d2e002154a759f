/-
# Unions

`unionOf` brings a list of types into the canonical form of their union:

1. members that are unions are replaced by their members, `never` is dropped;
2. `any` absorbs everything, then `unknown` does;
3. members stand in the order of their positions, each once;
4. `true` and `false` together are `boolean`;
5. a literal beside its primitive is dropped;
6. of members with one shape (`identical`) the first is kept.

No member is left: `never`.  One is left: that member.
-/

import GradualTyping.Types.Table

namespace GradualTyping

/-- Drop every element that equals the one before it. -/
def dropRepeats {α : Type} [DecidableEq α] : List α → List α
  | [] => []
  | [a] => [a]
  | a :: b :: rest =>
    if a = b then dropRepeats (b :: rest) else a :: dropRepeats (b :: rest)

/-- Positions in order, each once. -/
def sortIds (ids : List TypeId) : List TypeId := dropRepeats (ids.mergeSort TypeId.ble)

namespace TypeTable

variable (t : TypeTable)

/-- Whether two optional types are both absent or both there and related. -/
def bothOr (same : TypeId → TypeId → Bool) : Option TypeId → Option TypeId → Bool
  | some a, some b => same a b
  | none, none => true
  | _, _ => false

/-- Whether two lists have one length and agree place by place. -/
def pairwise {α : Type} (same : α → α → Bool) : List α → List α → Bool
  | [], [] => true
  | a :: as, b :: bs => same a b && pairwise same as bs
  | _, _ => false

/-- Objects of one shape: fields agree in name, modifiers and type. -/
def identicalObjects (same : TypeId → TypeId → Bool) (x y : ObjectShape) : Bool :=
  pairwise (fun p q : Property =>
      p.name == q.name && p.optional == q.optional && p.readonly == q.readonly
        && same p.type q.type)
    x.properties y.properties
  && bothOr same x.index y.index

/-- Functions of one shape: all agrees but the names of the parameters. -/
def identicalFunctions (same : TypeId → TypeId → Bool) (f g : Signature) : Bool :=
  f.kind == g.kind && f.typeParams == g.typeParams
  && pairwise (fun p q : Parameter => p.optional == q.optional && same p.type q.type)
    f.params g.params
  && bothOr same f.rest g.rest
  && same f.result g.result
  && f.predicate == g.predicate

/-- Whether two types have one shape, without expanding references.  `fuel` is
one more than the nesting that is still compared. -/
def identicalWithin (t : TypeTable) : (fuel : Nat) → TypeId → TypeId → Bool
  | 0, a, b => a == b
  | fuel + 1, a, b =>
    a == b ||
    match t.resolve a, t.resolve b with
    | .object x, .object y => identicalObjects (t.identicalWithin fuel) x y
    | .array x, .array y => t.identicalWithin fuel x y
    | .promise x, .promise y => t.identicalWithin fuel x y
    | .function f, .function g => identicalFunctions (t.identicalWithin fuel) f g
    | _, _ => false

/-- Whether two types have one shape down to the depth limit. -/
def identical (a b : TypeId) : Bool :=
  t.identicalWithin (t.limits.maxDepth + 1) a b

/-- The nodes that can have the shape of another node. -/
def hasShape (id : TypeId) : Bool :=
  match t.resolve id with
  | .object _ | .array _ | .promise _ | .function _ => true
  | _ => false

/-- Of the types with one shape, keep the first: a type is dropped when one that
is kept before it has its shape. -/
def collapse (members : List TypeId) : List TypeId :=
  let keep (kept : List TypeId) (m : TypeId) : List TypeId :=
    if t.hasShape m && kept.any (t.identical · m) then kept else m :: kept
  (members.foldl keep []).reverse

/-- The members of a list of types, taken out of their unions. -/
def flattenUnion (members : List TypeId) : List TypeId :=
  members.flatMap t.unionMembers

/-- Replace `true` and `false` together by `boolean`. -/
def joinBooleans (members : List TypeId) : List TypeId :=
  if .true ∈ members ∧ .false ∈ members then
    sortIds (members.filter (fun m => m ≠ .true ∧ m ≠ .false) ++ [.boolean])
  else members

/-- Drop the literals whose primitive is a member. -/
def dropCovered (members : List TypeId) : List TypeId :=
  let present := members.filterMap fun m =>
    match t.resolve m with
    | .primitive p => some p
    | _ => none
  if present.isEmpty then members
  else members.filter fun m =>
    match t.resolve m with
    | .literal l => l.base ∉ present
    | _ => true

/-- The members of the canonical union of a list of types. -/
def canonicalMembers (members : List TypeId) : List TypeId :=
  let flat := t.flattenUnion members
  if .any ∈ flat then [.any]
  else if .unknown ∈ flat then [.unknown]
  else t.collapse (t.dropCovered (joinBooleans (sortIds flat)))

end TypeTable

/-- The union of a list of types. -/
def unionOf (members : List TypeId) : TableM TypeId := do
  match (← get).canonicalMembers members with
  | [] => return .never
  | [m] => return m
  | ms => intern (.union ms)

/-- The primitive of a literal; other types stay. -/
def TypeTable.widenMember (t : TypeTable) (id : TypeId) : TypeId :=
  match t.resolve id with
  | .literal l => l.base.id
  | _ => id

/-- Replace literals by their primitives, also as members of a union. -/
def widenLiterals (id : TypeId) : TableM TypeId := do
  let t ← get
  match t.resolve id with
  | .union members => unionOf (members.map t.widenMember)
  | _ => return t.widenMember id

end GradualTyping
