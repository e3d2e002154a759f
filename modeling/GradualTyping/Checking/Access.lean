/-
# Access to members

The member of a union is the union of the members of its members, which all have
to have it; that of an intersection is the first one found.  A type parameter
has the members of its bound.
-/

import GradualTyping.Checking.State

namespace GradualTyping
namespace Checking

/-- The results of `f` on a list, if all are there; it stops at the first that is
missing. -/
def mapWhole {α β : Type} (f : α → TableM (Option β)) : List α → TableM (Option (List β))
  | [] => return some []
  | a :: as => do
    match ← f a with
    | none => return none
    | some b => return (← mapWhole f as).map (b :: ·)

/-- The type of a member.  `fuel` is the number of unions, intersections and
parameters that may be looked through. -/
def propertyWithin : (fuel : Nat) → TypeId → String → TableM (Option TypeId)
  | 0, _, _ => return none
  | fuel + 1, type, name => do
    let evaluated ← evaluate type
    match ← resolve evaluated with
    | .any => return some .any
    | .unknown => return none
    | .never => return some .never
    | .union _ =>
      match ← mapWhole (propertyWithin fuel · name) (← namedMembers type) with
      | some found => some <$> unionOf found
      | none => return none
    | .intersection members => members.findSomeM? (propertyWithin fuel · name)
    | .param p =>
      match p.bound with
      | some bound => propertyWithin fuel bound name
      | none => return none
    | .object o =>
      match o.property? name with
      | some p => if p.optional then some <$> unionOf [p.type, .undefined] else return some p.type
      | none =>
        match o.index with
        | some index => return some index
        | none => builtinMember? evaluated name
    | _ => builtinMember? evaluated name

/-- The deepest nesting of unions, intersections and bounds for a member. -/
def propertyDepth : Nat := 17

def property? (type : TypeId) (name : String) : TableM (Option TypeId) :=
  propertyWithin propertyDepth type name

/-- The type of a member; one that is missing is reported. -/
def propertyType (type : TypeId) (name : String) (span : Span) : CheckM TypeId := do
  match ← (property? type name : TableM _) with
  | some found => return found
  | none =>
    report (.unknownProperty name (← (display type : TableM String))) span
    return .any

/-- The type of an element or a member given by an expression of type `index`. -/
def indexedType (type index : TypeId) (span : Span) : CheckM TypeId := do
  let node ← (evaluateNode type : TableM Ty)
  let key := (← (resolve index : TableM Ty)).literal?
  match node, key with
  | .any, _ => return .any
  | .array element, _ => return element
  | .tuple shape, some (.number x) =>
    if x.isNonnegative then return shape.select x else unionOf shape.types
  | .tuple shape, _ => unionOf shape.types
  | _, some (.string name) => propertyType type name span
  | .object o, _ => return o.index.getD .any
  | _, _ => return .any

end Checking
end GradualTyping
