/-
# The table of types

Every type is stored once: `intern` gives the position of a node, adding it at
the end when it is new, so equal nodes have equal positions.  A position outside
the table reads as `never`.

The table also holds the aliases, which are declared before they are defined so
that a body may use its own name, the results of evaluation found so far, and
the state of the recursion guard: every operation that may expand a recursive
type runs inside `guarded`, which counts the nesting, and an attempt to nest
deeper than the limit is recorded as an error that stays until it is taken.
-/

import GradualTyping.Types.Error
import Std.Data.HashMap

namespace GradualTyping

/-- How the types of writable fields compare: exactly, or as the types of
readonly fields do. -/
inductive FieldVariance where
  | invariant
  | covariant
deriving DecidableEq, Repr, Inhabited

def FieldVariance.name : FieldVariance → String
  | invariant => "invariant"
  | covariant => "covariant"

/-- The limits of type operations. -/
structure Limits where
  /-- The deepest nesting of expansion and comparison. -/
  maxDepth : Nat := 100
  /-- The largest number of texts that a template is expanded to. -/
  templateLimit : Nat := 10000
  fieldVariance : FieldVariance := .invariant
deriving DecidableEq, Repr, Inhabited

/-- A named type: an alias, an interface or the instances of a class.  The body
is missing between declaration and definition. -/
structure Alias where
  name : String
  params : List TypeId
  body : Option TypeId
deriving DecidableEq, Repr, Inhabited

structure TypeTable where
  types : Array Ty := #[]
  ids : Std.HashMap Ty TypeId := {}
  aliases : Std.HashMap String Alias := {}
  limits : Limits := {}
  nextVariable : Nat := 0
  nextScope : Nat := 0
  /-- The results of evaluation, by the type before it. -/
  evaluated : Std.HashMap TypeId TypeId := {}
  /-- The types under evaluation, innermost first. -/
  evaluating : List TypeId := []
  /-- The nesting of guarded operations. -/
  depth : Nat := 0
  /-- The aliases under expansion, innermost first. -/
  expanding : List String := []
  /-- The recursion guard has tripped and nobody has taken the error. -/
  depthError : Option TypeError := none
deriving Inhabited

/-- Add a type to a list that does not hold it. -/
def addOnce (ids : List TypeId) (id : TypeId) : List TypeId :=
  if id ∈ ids then ids else ids ++ [id]

/-- Operations that read and extend the table. -/
abbrev TableM := StateM TypeTable

namespace TypeTable

variable (t : TypeTable)

/-- The node at a position, if there is one. -/
def get? (id : TypeId) : Option Ty := t.types[id.index]?

/-- The node at a position; `never` outside the table. -/
def resolve (id : TypeId) : Ty := (t.get? id).getD .never

/-- The position of a node, if it is in the table. -/
def lookup? (ty : Ty) : Option TypeId := t.ids[ty]?

def size : Nat := t.types.size

def alias? (name : String) : Option Alias := t.aliases[name]?

/-- The position of a node in the table that holds it. -/
def insert (ty : Ty) : TypeId × TypeTable :=
  match t.lookup? ty with
  | some id => (id, t)
  | none =>
    let id : TypeId := ⟨t.types.size⟩
    (id, { t with types := t.types.push ty, ids := t.ids.insert ty id })

/-- The types at the fixed positions, in order. -/
def fixed : List Ty :=
  [.any, .unknown, .never, .primitive .string, .primitive .number, .primitive .boolean,
    .primitive .null, .primitive .undefined, .primitive .void, .primitive .symbol,
    .primitive .bigint, .literal (.boolean true), .literal (.boolean false)]

/-- The table that holds the fixed types only. -/
def withLimits (limits : Limits) : TypeTable :=
  fixed.foldl (fun t ty => (t.insert ty).2) { limits := limits }

/-- A table to go on from independently: what is known is kept and the state of
the recursion guard starts anew. -/
def fork : TypeTable :=
  { t with depth := 0, expanding := [], evaluating := [], depthError := none }

/-- The members of a union; `never` has none and any other type is its own only
member. -/
def unionMembers (id : TypeId) : List TypeId :=
  match t.resolve id with
  | .union members => members
  | .never => []
  | _ => [id]

def isReducible (id : TypeId) : Bool := (t.resolve id).isReducible

end TypeTable

def resolve (id : TypeId) : TableM Ty := return (← get).resolve id

def intern (ty : Ty) : TableM TypeId := fun t => t.insert ty

def getLimits : TableM Limits := return (← get).limits

def unionMembers (id : TypeId) : TableM (List TypeId) := return (← get).unionMembers id

/-! ### The recursion guard -/

/-- The name of the expansion that exceeds the limit. -/
def TypeTable.expansion (t : TypeTable) : String :=
  if t.expanding.isEmpty then "<structural comparison>"
  else String.intercalate " -> " t.expanding.reverse

def depthExceeded : TableM Bool := return (← get).depthError.isSome

/-- Nest one level deeper, if the guard has not tripped and does not trip now. -/
def enter : TableM Bool := do
  let t ← get
  if t.depthError.isSome then return false
  else if t.limits.maxDepth ≤ t.depth then
    set { t with depthError := some (.depthExceeded t.expansion t.limits.maxDepth) }
    return false
  else
    set { t with depth := t.depth + 1 }
    return true

def leave : TableM Unit := modify fun t => { t with depth := t.depth - 1 }

/-- Run `body` one level deeper; `tripped` is the answer when the guard forbids
it. -/
def guarded {m : Type → Type} [Monad m] [MonadLiftT TableM m] {α : Type} (tripped : α)
    (body : m α) : m α := do
  if ← (enter : TableM Bool) then
    let result ← body
    (leave : TableM Unit)
    return result
  else return tripped

/-- The pending error of the recursion guard, which is cleared. -/
def takeDepthError : TableM (Option TypeError) := do
  let pending := (← get).depthError
  modify fun t => { t with depthError := none }
  return pending

/-! ### Nodes without normal form of their own -/

def literalType : Literal → TableM TypeId
  | .boolean true => return .true
  | .boolean false => return .false
  | l => intern (.literal l)

def stringLiteral (s : String) : TableM TypeId := literalType (.string s)

def numberLiteral (x : Double) : TableM TypeId := literalType (.ofNumber x)

def booleanLiteral (b : Bool) : TypeId := if b then .true else .false

def arrayOf (element : TypeId) : TableM TypeId := intern (.array element)

def tupleOf (elements : List TupleElement) (rest : Option TypeId) : TableM TypeId :=
  intern (.tuple ⟨elements, rest⟩)

def functionOf (f : Signature) : TableM TypeId := intern (.function f)

/-- A promise; a promise of a promise is the inner one. -/
def promiseOf (inner : TypeId) : TableM TypeId := do
  match ← resolve inner with
  | .promise _ => return inner
  | _ => intern (.promise inner)

def referenceTo (name : String) (args : List TypeId) : TableM TypeId :=
  intern (.reference name args)

/-- A scope for the parameters of one declaration, counted from one. -/
def freshScope : TableM Nat := do
  modify fun t => { t with nextScope := t.nextScope + 1 }
  return (← get).nextScope

/-- A new variable for one inference. -/
def freshVariable : TableM TypeId := do
  let n := (← get).nextVariable
  modify fun t => { t with nextVariable := n + 1 }
  intern (.var n)

/-- The order of properties by their names. -/
def Property.ble (p q : Property) : Bool := p.name ≤ q.name

/-- Drop each property with the name of the last one that was kept before it. -/
def keepFirst (last : Option String) : List Property → List Property
  | [] => []
  | p :: ps => if last = some p.name then keepFirst last ps else p :: keepFirst (some p.name) ps

/-- Properties in the order of their names, the last of each name: the list is reversed and
sorted, where properties of one name keep their order, and of each name the first is kept. -/
def sortProperties (ps : List Property) : List Property :=
  keepFirst none (ps.reverse.mergeSort Property.ble)

/-- An object type; of several properties with one name the last counts. -/
def objectOf (properties : List Property) (index : Option TypeId) : TableM TypeId :=
  intern (.object ⟨sortProperties properties, index⟩)

/-- Join texts that stand side by side and drop empty ones. -/
def mergeSpans : List TemplateSpan → List TemplateSpan
  | [] => []
  | .hole h :: spans => .hole h :: mergeSpans spans
  | .text s :: spans =>
    match mergeSpans spans with
    | .text r :: rest => .text (s ++ r) :: rest
    | rest => if s.isEmpty then rest else .text s :: rest

/-- A template; one without holes is a string literal. -/
def templateOf (spans : List TemplateSpan) : TableM TypeId :=
  match mergeSpans spans with
  | [] => stringLiteral ""
  | [.text s] => stringLiteral s
  | merged => intern (.template merged)

end GradualTyping
