/-
# Built-in utility types

Names with a meaning of their own unless an alias hides them.  A utility waits
until none of its arguments has a free parameter; a missing argument is
`unknown`.
-/

import GradualTyping.Reduction.Descent
import GradualTyping.Types.Union
import GradualTyping.Types.Parts

namespace GradualTyping

inductive Utility where
  | optionalFields
  | requiredFields
  | readonlyFields
  | pickFields
  | dropFields
  | record
  | exclude
  | extract
  | nonNullable
  | parameters
  | constructorParameters
  | returnType
  | instanceType
  | awaited
  | caseChange (change : CaseChange)
deriving DecidableEq, Repr, Inhabited

namespace Utility

/-- The utilities by name, with their number of arguments. -/
def named : List (String × Utility × Nat) :=
  [("Partial", optionalFields, 1), ("Required", requiredFields, 1), ("Readonly", readonlyFields, 1),
    ("Pick", pickFields, 2), ("Omit", dropFields, 2), ("Record", record, 2), ("Exclude", exclude, 2),
    ("Extract", extract, 2), ("NonNullable", nonNullable, 1), ("Parameters", parameters, 1),
    ("ConstructorParameters", constructorParameters, 1), ("ReturnType", returnType, 1),
    ("InstanceType", instanceType, 1), ("Awaited", awaited, 1)]
  ++ CaseChange.all.map fun c => (c.name, caseChange c, 1)

def ofName? (name : String) : Option Utility := (named.find? (·.1 == name)).map (·.2.1)

/-- The number of arguments of a utility. -/
def arity? (name : String) : Option Nat := (named.find? (·.1 == name)).map (·.2.2)

end Utility

namespace Reduction

variable (ops : Operations)

/-- Set modifiers of the fields of an object or the elements of a tuple, also in
the members of a union. -/
def modifying (readonly optional : Option Bool) : Descent TypeId where
  parts := Ty.alternatives
  answer evaluated node answers :=
    match node with
    | .object o =>
      objectOf (o.properties.map fun p =>
        { p with optional := optional.getD p.optional, readonly := readonly.getD p.readonly })
        o.index
    | .union _ => unionOf answers
    | .tuple t =>
      tupleOf (t.elements.map fun e => { e with optional := optional.getD e.optional }) t.rest
    | _ => return evaluated

def withModifiers (readonly optional : Option Bool) (id : TypeId) :
    TableM TypeId :=
  (modifying readonly optional).run ops id id

/-- The texts of the literals among some keys. -/
def literalKeys (keys : TypeId) : TableM (List String) := do
  let keys ← ops.evaluate keys
  let t ← get
  return (t.unionMembers keys).filterMap fun k => (t.resolve k).literal?.map (·.text)

/-- Keep the fields of an object that are named by `keys`, or the others. -/
def pick (keep : Bool) (target keys : TypeId) : TableM TypeId := do
  let names ← literalKeys ops keys
  let evaluated ← ops.evaluate target
  match ← resolve evaluated with
  | .object o =>
    objectOf (o.properties.filter fun p => names.contains p.name == keep)
      (if keep then none else o.index)
  | _ => return evaluated

/-- An object with `value` for every key. -/
def record (keys value : TypeId) : TableM TypeId := do
  let keys ← ops.evaluate keys
  let t ← get
  let members := t.unionMembers keys
  let properties := members.filterMap fun k =>
    (t.resolve k).literal?.map fun l => ({ name := l.text, type := value } : Property)
  let isOpenKey (k : TypeId) : Bool :=
    match t.resolve k with
    | .primitive .string | .primitive .number | .any => true
    | _ => false
  objectOf properties (if members.any isOpenKey then some value else none)

/-- Keep the members that are subtypes of `filter`, or the others. -/
def filterMembers (keep : Bool) (target filter : TypeId) : TableM TypeId := do
  let target ← ops.evaluate target
  let kept ← (← unionMembers target).filterM fun m => do
    return (← ops.subtype m filter) == keep
  unionOf kept

def dropNullish (target : TypeId) : TableM TypeId := do
  let target ← ops.evaluate target
  let t ← get
  unionOf ((t.unionMembers target).filter fun m => !(t.resolve m).isNullish)

/-- What is taken out of a signature. -/
inductive SignaturePart where
  | parameters
  | result
deriving DecidableEq

def SignaturePart.of (part : SignaturePart) (f : Signature) : TableM TypeId :=
  match part with
  | .parameters => tupleOf (f.params.map fun p => ⟨p.type, p.optional⟩) f.rest
  | .result => return if f.predicate.isSome then .boolean else f.result

/-- A part of the signatures of a type, also of the members of a union. -/
def taking (kind : CallKind) (part : SignaturePart) : Descent TypeId where
  parts := Ty.alternatives
  answer _ node answers :=
    match node with
    | .any =>
      match part with
      | .parameters => arrayOf .unknown
      | .result => return .any
    | .union _ => unionOf answers
    | .function f => if f.kind = kind then part.of f else return .never
    | _ => return .never

def signaturePart (kind : CallKind) (part : SignaturePart) (id : TypeId) :
    TableM TypeId :=
  (taking kind part).run ops .never id

/-- The normal form of a utility at `id`. -/
def utility (id : TypeId) (u : Utility) (args : List TypeId) :
    TableM TypeId := do
  if ← args.anyM isOpen then return id
  else
    let first := (args[0]?).getD .unknown
    let second := (args[1]?).getD .unknown
    match u with
    | .optionalFields => withModifiers ops none (some true) first
    | .requiredFields => withModifiers ops none (some false) first
    | .readonlyFields => withModifiers ops (some true) none first
    | .pickFields => pick ops true first second
    | .dropFields => pick ops false first second
    | .record => record ops first second
    | .exclude => filterMembers ops false first second
    | .extract => filterMembers ops true first second
    | .nonNullable => dropNullish ops first
    | .parameters => signaturePart ops .call .parameters first
    | .constructorParameters => signaturePart ops .construct .parameters first
    | .returnType => signaturePart ops .call .result first
    | .instanceType => signaturePart ops .construct .result first
    | .awaited => ops.awaited first
    | .caseChange change => ops.evaluate (← intern (.caseMapped change first))

end Reduction
end GradualTyping
