/-
# Narrowing

`narrowType` keeps the members of a type that are possible on one edge of a
test.  A member stays as it was written when it is kept whole, so the names of
aliases survive.  `any` and `unknown` have no members to choose from; they are
replaced where the test tells the type by itself and stay otherwise.
-/

import GradualTyping.Operations.Layers
import GradualTyping.Narrowing.Guard
import GradualTyping.Narrowing.Environment

namespace GradualTyping

/-! ### Members -/

/-- The members of a type that is no union as it is written: those of its normal
form, or else the type itself. -/
def evaluatedMembers (type : TypeId) : TableM (List TypeId) := do
  match ← evaluateNode type with
  | .union members => return members
  | .never => return []
  | _ => return [type]

/-- The body of an alias without arguments, if it is a union or another name. -/
def TypeTable.namedUnion? (t : TypeTable) (type : TypeId) : Option TypeId :=
  match t.resolve type with
  | .reference name [] =>
    match (t.alias? name).bind (·.body) with
    | none => none
    | some body =>
      match t.resolve body with
      | .union _ | .reference .. => some body
      | _ => none
  | _ => none

/-- The members of a type, looking through aliases without arguments.  `fuel` is
two more than the number of unions and aliases that may still be opened. -/
def unfoldWithin : (fuel : Nat) → TypeId → TableM (List TypeId)
  | 0, _ => return []
  | fuel + 1, type => do
    match ← resolve type with
    | .union members => return (← members.mapM (unfoldWithin fuel)).flatten
    | .never => return []
    | _ =>
      match (← get).namedUnion? type with
      | some body => if fuel < 2 then evaluatedMembers type else unfoldWithin fuel body
      | none => evaluatedMembers type

/-- The members of a type under the names they are written with. -/
def namedMembers (type : TypeId) : TableM (List TypeId) := do
  return dropRepeats (← unfoldWithin ((← getLimits).maxDepth + 2) type)

/-- The members of a type, each with its normal form. -/
def memberForms (type : TypeId) : TableM (List (TypeId × TypeId)) := do
  (← namedMembers type).mapM fun m => return (m, ← evaluate m)

/-- The union of what `keep` leaves of each member.  `keep` sees normal forms; a
member that it leaves alone is kept as it is written. -/
def keepMembers (type : TypeId) (keep : TypeId → TableM (Option TypeId)) : TableM TypeId := do
  let kept ← (← memberForms type).filterMapM fun (written, form) =>
    return (← keep form).map fun k => if k = form then written else k
  unionOf kept

/-- Keep the members of which a property holds. -/
def filterMembers (type : TypeId) (keep : TypeId → TableM Bool) : TableM TypeId :=
  keepMembers type fun m => return if ← keep m then some m else none

/-- Whether a type is `any` or `unknown`. -/
def isTop (type : TypeId) : TableM Bool := do
  match ← evaluateNode type with
  | .any | .unknown => return true
  | _ => return false

/-- What a run-time `typeof` reports for all values of a type, if it is one tag. -/
def Ty.typeofTag? : Ty → Option String
  | .primitive p => some p.typeofTag
  | .literal l => some l.base.typeofTag
  | .template _ | .caseMapped .. => some "string"
  | .function _ => some "function"
  | .object _ | .array _ | .tuple _ | .promise _ => some "object"
  | _ => none

/-- Whether the values of a type are among the nullish values of a test. -/
def NullTest.accepts : NullTest → Ty → Bool
  | .undefined, .primitive .null => false
  | _, .primitive .null => true
  | .null, .primitive _ => false
  | _, .primitive .undefined => true
  | _, .primitive .void => true
  | _, _ => false

namespace Narrowing

/-! ### One rule for each test -/

/-- The type that a tag stands for by itself. -/
def typeOfTag? (tag : String) : TableM (Option TypeId) := do
  match tag with
  | "string" => return some .string
  | "number" => return some .number
  | "boolean" => return some .boolean
  | "bigint" => return some .bigint
  | "symbol" => return some .symbol
  | "undefined" => return some .undefined
  | "object" =>
    let object ← objectOf [] none
    return some (← unionOf [object, .null])
  | _ => return none

/-- A member without a fixed tag is possible on both edges. -/
def byTag (type : TypeId) (tag : String) (negated : Bool) : TableM TypeId := do
  if ← isTop type then
    if negated then return type else return (← typeOfTag? tag).getD type
  else
    filterMembers type fun m => do
      match (← resolve m).typeofTag? with
      | some found => return (found == tag) != negated
      | none => return true

/-- Whether some value of a type is truthy. -/
def mayBeTruthy : Ty → Bool
  | .primitive p => !p.isNullish
  | .literal l => !l.isFalsy
  | _ => true

/-- Whether some value of a type is falsy. -/
def mayBeFalsy : Ty → Bool
  | .primitive .symbol => false
  | .literal l => l.isFalsy
  | .object _ | .array _ | .tuple _ | .function _ | .promise _ => false
  | _ => true

def byTruth (type : TypeId) (negated : Bool) : TableM TypeId := do
  if ← isTop type then return type
  else
    keepMembers type fun m => do
      if m = .boolean then return some (if negated then .false else .true)
      let node ← resolve m
      return if (if negated then mayBeFalsy node else mayBeTruthy node) then some m else none

def typeOfNullTest : NullTest → TableM TypeId
  | .null => return .null
  | .undefined => return .undefined
  | .both => unionOf [.null, .undefined]

/-- A parameter may stand for a nullish type. -/
def byNull (type : TypeId) (kind : NullTest) (negated : Bool) : TableM TypeId := do
  if ← isTop type then
    if negated then return type else typeOfNullTest kind
  else
    filterMembers type fun m => do
      let node ← resolve m
      return kind.accepts node != negated || (!negated && node.isParam)

/-- What is left of a member when a variable equals the only value of `value`: a
member that is the primitive of the value becomes the value. -/
def equalMember (value m : TypeId) : TableM (Option TypeId) := do
  let node ← resolve m
  let base := (← resolve value).base?
  match node with
  | .primitive p => return if some p = base then some value else none
  | .param _ => return some m
  | _ => return none

def byValue (type value : TypeId) (negated : Bool) : TableM TypeId := do
  if ← isTop type then return if negated then type else value
  else
    keepMembers type fun m => do
      if m = value then return if negated then none else some m
      else if m = .boolean ∧ value = .true then return some (if negated then .false else value)
      else if m = .boolean ∧ value = .false then return some (if negated then .true else value)
      else if negated then return some m
      else equalMember value m

/-- What the test of a field asks of an alternative. -/
def fieldKeep (field : String) (value : TypeId) (negated : Bool) (m : TypeId) : TableM Bool := do
  match (← resolve m).object?.bind (·.read? field) with
  | none => return negated
  | some fieldType =>
    let fieldType ← evaluate fieldType
    if negated then return fieldType ≠ value else isSubtype value fieldType

/-- A member is ruled out where the field is exactly the value, or cannot be it. -/
def byField (type : TypeId) (field : String) (value : TypeId) (negated : Bool) :
    TableM TypeId := do
  if ← isTop type then return type
  else filterMembers type (fieldKeep field value negated)

/-- Whether a key may be on a member, which is asked when some member names it. -/
def mayHaveKey (key : String) (negated : Bool) : Ty → Bool
  | .object o =>
    match o.property? key with
    | some p => p.optional || !negated
    | none => o.index.isSome || negated
  | .array _ | .tuple _ | .function _ | .param _ => true
  | _ => negated

/-- The rule by which alternatives are kept where a key is, or is not. -/
def keyRule (key : String) (negated : Bool) (m : TypeId) : TableM Bool := do
  return mayHaveKey key negated (← resolve m)

/-- What is left of a member when it has a key that no member names: objects
gain the key with an unknown type. -/
def gainKey (withKey m : TypeId) : TableM (Option TypeId) := do
  match ← resolve m with
  | .object o =>
    if o.index.isNone then return some (← intersectionOf [m, withKey]) else return some m
  | .promise _ => return some (← intersectionOf [m, withKey])
  | .array _ | .tuple _ | .function _ | .param _ => return some m
  | _ => return none

def byKey (type : TypeId) (key : String) (negated : Bool) : TableM TypeId := do
  if ← isTop type then return type
  else
    let forms ← memberForms type
    let t ← get
    let named := forms.any fun (_, m) =>
      ((t.resolve m).object?.bind (·.property? key)).isSome
    if !negated && !named then
      let withKey ← objectOf [{ name := key, type := .unknown }] none
      keepMembers type (gainKey withKey)
    else
      filterMembers type (keyRule key negated)

/-- Keep the members within the target; a member that the target is within
becomes the target. -/
def byType (type target : TypeId) (negated : Bool) : TableM TypeId := do
  if ← isTop type then return if negated then type else target
  else
    keepMembers type fun m => do
      let within ← isSubtype m target
      if negated then return if within then none else some m
      else if within then return some m
      else return if ← isSubtype target m then some target else none

end Narrowing

/-- A type on one edge of a test. -/
def narrowByTest (type : TypeId) (test : Test) (negated : Bool) : TableM TypeId :=
  match test with
  | .typeOf tag => Narrowing.byTag type tag negated
  | .truthy => Narrowing.byTruth type negated
  | .nullish kind => Narrowing.byNull type kind negated
  | .equals value => Narrowing.byValue type value negated
  | .fieldEquals field value => Narrowing.byField type field value negated
  | .hasKey key => Narrowing.byKey type key negated
  | .instanceOf target => Narrowing.byType type target negated
  | .predicate target => Narrowing.byType type target negated

/-- A type under a guard of one test; other guards leave it alone. -/
def narrowType (type : TypeId) : Guard → TableM TypeId
  | .simple _ test negated => narrowByTest type test negated
  | _ => pure type

/-- The environment where a guard holds.  The right side of a disjunction is read
where the left side fails. -/
def TypeEnv.apply : Guard → TypeEnv → TableM TypeEnv
  | .vacuous, env => pure env
  | .and a b, env => do
    if !env.reachable then return env
    apply b (← apply a env)
  | .or a b, env => do
    if !env.reachable then return env
    let left ← apply a env
    let right ← apply b (← applyNot a env)
    left.merge right
  | .simple var test negated, env => do
    if !env.reachable then return env
    match env.get? var with
    | none => return env
    | some type => return env.insert var (← narrowByTest type test negated)
where
  /-- The environment where a guard fails. -/
  applyNot : Guard → TypeEnv → TableM TypeEnv
    | .vacuous, env => pure env
    | .and a b, env => do
      if !env.reachable then return env
      let left ← applyNot a env
      let right ← applyNot b (← apply a env)
      left.merge right
    | .or a b, env => do
      if !env.reachable then return env
      applyNot b (← applyNot a env)
    | .simple var test negated, env => do
      if !env.reachable then return env
      match env.get? var with
      | none => return env
      | some type => return env.insert var (← narrowByTest type test (!negated))

/-- For each type of a list the first of the members that it is within, if all
have one. -/
def firstHomes (members : List TypeId) : List TypeId → TableM (Option (List TypeId))
  | [] => return some []
  | a :: rest => do
    match ← members.findM? (isSubtype a) with
    | none => return none
    | some home => return (← firstHomes members rest).map (home :: ·)

/-- The type of a variable after an assignment: the members of a declared union
that the assigned value inhabits. -/
def narrowByAssignment (declared assigned : TypeId) : TableM TypeId := do
  let members ← namedMembers declared
  if members.length < 2 then return declared
  match ← firstHomes members (← unionMembers assigned) with
  | some homes => unionOf homes
  | none => return declared

end GradualTyping
