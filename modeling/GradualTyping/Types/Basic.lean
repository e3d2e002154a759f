/-
# Types

A type is one node of a graph: its children are given by `TypeId`, the position
of a node in a table of types (`GradualTyping.Types.Table`).  Nodes carry no
cycles of their own; a recursive type refers to itself through the name of an
alias.

The first thirteen positions are fixed: `any`, `unknown`, `never`, the eight
primitives and the two boolean literals.
-/

import GradualTyping.Number.Text
import GradualTyping.Text.Case

namespace GradualTyping

/-- The position of a type in its table. -/
structure TypeId where
  index : Nat
deriving DecidableEq, Hashable, Repr, Inhabited

namespace TypeId

def any : TypeId := ⟨0⟩
def unknown : TypeId := ⟨1⟩
def never : TypeId := ⟨2⟩
def string : TypeId := ⟨3⟩
def number : TypeId := ⟨4⟩
def boolean : TypeId := ⟨5⟩
def null : TypeId := ⟨6⟩
def undefined : TypeId := ⟨7⟩
def void : TypeId := ⟨8⟩
def symbol : TypeId := ⟨9⟩
def bigint : TypeId := ⟨10⟩
def true : TypeId := ⟨11⟩
def false : TypeId := ⟨12⟩

/-- Positions are ordered as natural numbers. -/
def ble (a b : TypeId) : Bool := decide (a.index ≤ b.index)

end TypeId

/-- The primitive types.  `void` is the absence of a result and accepts
`undefined`. -/
inductive Primitive where
  | string
  | number
  | boolean
  | null
  | undefined
  | void
  | symbol
  | bigint
deriving DecidableEq, Hashable, Repr, Inhabited

namespace Primitive

def name : Primitive → String
  | string => "string"
  | number => "number"
  | boolean => "boolean"
  | null => "null"
  | undefined => "undefined"
  | void => "void"
  | symbol => "symbol"
  | bigint => "bigint"

/-- What a run-time `typeof` reports for the values of a primitive. -/
def typeofTag : Primitive → String
  | null => "object"
  | void => "undefined"
  | p => p.name

/-- The primitives with a single, falsy value. -/
def isNullish : Primitive → Bool
  | null | undefined | void => true
  | _ => false

/-- The fixed position of a primitive. -/
def id : Primitive → TypeId
  | string => .string
  | number => .number
  | boolean => .boolean
  | null => .null
  | undefined => .undefined
  | void => .void
  | symbol => .symbol
  | bigint => .bigint

end Primitive

/-- The value of a literal type.  A number is canonical (one zero, one NaN); a
big integer is its digits as written. -/
inductive Literal where
  | string (value : String)
  | number (value : Double)
  | boolean (value : Bool)
  | bigint (digits : String)
deriving DecidableEq, Hashable, Repr, Inhabited

namespace Literal

/-- The literal of a number, whatever its zero or NaN. -/
def ofNumber (x : Double) : Literal := .number x.canonical

/-- The primitive a literal belongs to. -/
def base : Literal → Primitive
  | string _ => .string
  | number _ => .number
  | boolean _ => .boolean
  | bigint _ => .bigint

/-- A big integer is zero when it has no digit but `0`. -/
def isFalsy : Literal → Bool
  | string s => s.isEmpty
  | number x => x.isZero || x.isNaN
  | boolean b => !b
  | bigint digits => digits.toList.all (· == '0')

/-- The text of a literal inside a template or as the name of a property. -/
def text : Literal → String
  | string s => s
  | number x => x.positional
  | boolean true => "true"
  | boolean false => "false"
  | bigint digits => digits

/-- The text of a literal as a type. -/
def display : Literal → String
  | string s => "\"" ++ s ++ "\""
  | bigint digits => digits ++ "n"
  | l => l.text

end Literal

/-- One field of an object type. -/
structure Property where
  name : String
  type : TypeId
  /-- The field may be absent. -/
  optional : Bool := false
  /-- The field cannot be written through this type. -/
  readonly : Bool := false
deriving DecidableEq, Hashable, Repr, Inhabited

/-- An object type: fields in the order of their names, and the type of every
other field if the names are open. -/
structure ObjectShape where
  properties : List Property
  index : Option TypeId := none
deriving DecidableEq, Hashable, Repr, Inhabited

/-- Search for a name in fields in the order of their names: while there are several, the half
that cannot have the name is left out. -/
def searchName (name : String) (ps : List Property) : Option Property :=
  if h : ps.length ≤ 1 then ps.head?.filter (·.name == name)
  else if name < ps[ps.length / 2].name then searchName name (ps.take (ps.length - ps.length / 2))
  else searchName name (ps.drop (ps.length / 2))
termination_by ps.length
decreasing_by all_goals simp; omega

namespace ObjectShape

def property? (o : ObjectShape) (name : String) : Option Property :=
  searchName name o.properties

/-- The type of a field as it is read. -/
def read? (o : ObjectShape) (name : String) : Option TypeId :=
  ((o.property? name).map (·.type)).or o.index

end ObjectShape

structure TupleElement where
  type : TypeId
  optional : Bool := false
deriving DecidableEq, Hashable, Repr, Inhabited

/-- A tuple: leading elements and the element type of an open end. -/
structure TupleShape where
  elements : List TupleElement
  rest : Option TypeId := none
deriving DecidableEq, Hashable, Repr, Inhabited

namespace TupleShape

/-- The number of elements that must be there. -/
def minLength (t : TupleShape) : Nat := (t.elements.takeWhile (!·.optional)).length

/-- The type at a position. -/
def at? (t : TupleShape) (i : Nat) : Option TypeId := (t.elements[i]?.map (·.type)).or t.rest

/-- The types of all elements, the open end last. -/
def types (t : TupleShape) : List TypeId := t.elements.map (·.type) ++ t.rest.toList

/-- The type that a number literal selects: `undefined` past the end. -/
def select (t : TupleShape) (x : Double) : TypeId :=
  (match x.position? with
    | some i => t.at? i
    | none => t.rest).getD .undefined

end TupleShape

structure Parameter where
  name : String
  type : TypeId
  optional : Bool := false
deriving DecidableEq, Hashable, Repr, Inhabited

/-- How a function is invoked: plainly or with `new`. -/
inductive CallKind where
  | call
  | construct
deriving DecidableEq, Hashable, Repr, Inhabited

/-- `x is T` or `asserts x is T` as the result of a function; `param` is the
place of `x` among the parameters. -/
structure Predicate where
  param : Nat
  type : TypeId
  asserts : Bool := false
deriving DecidableEq, Hashable, Repr, Inhabited

/-- A function type. -/
structure Signature where
  typeParams : List TypeId := []
  params : List Parameter
  /-- The element type of a trailing rest parameter. -/
  rest : Option TypeId := none
  result : TypeId
  kind : CallKind := .call
  predicate : Option Predicate := none
deriving DecidableEq, Hashable, Repr, Inhabited

namespace Signature

/-- The number of leading parameters that a caller must supply. -/
def minParams (f : Signature) : Nat := (f.params.takeWhile (!·.optional)).length

/-- The type of the argument at a position. -/
def paramAt? (f : Signature) (i : Nat) : Option TypeId := (f.params[i]?.map (·.type)).or f.rest

end Signature

inductive Variance where
  | covariant
  | contravariant
  | invariant
deriving DecidableEq, Hashable, Repr, Inhabited

/-- A generic parameter; `scope` tells parameters of different declarations
apart. -/
structure TypeParam where
  name : String
  bound : Option TypeId := none
  fallback : Option TypeId := none
  variance : Option Variance := none
  scope : Nat
deriving DecidableEq, Hashable, Repr, Inhabited

/-- `check extends pattern ? yes : no`; a distributive one is taken apart over
the members of a union. -/
structure Conditional where
  check : TypeId
  pattern : TypeId
  yes : TypeId
  no : TypeId
  distributive : Bool
deriving DecidableEq, Hashable, Repr, Inhabited

/-- What a mapped type does to a modifier of the field it maps. -/
inductive Modifier where
  | preserve
  | add
  | remove
deriving DecidableEq, Hashable, Repr, Inhabited

def Modifier.apply : Modifier → Bool → Bool
  | preserve, b => b
  | add, _ => true
  | remove, _ => false

/-- A mapped type: the template for every key of `keys`, with `param` standing
for the key. -/
structure MappedShape where
  param : TypeId
  keys : TypeId
  template : TypeId
  readonly : Modifier := .preserve
  optional : Modifier := .preserve
deriving DecidableEq, Hashable, Repr, Inhabited

inductive TemplateSpan where
  | text (value : String)
  | hole (type : TypeId)
deriving DecidableEq, Hashable, Repr, Inhabited

/-- The case changes of string literal types. -/
inductive CaseChange where
  | uppercase
  | lowercase
  | capitalize
  | uncapitalize
deriving DecidableEq, Hashable, Repr, Inhabited

namespace CaseChange

def name : CaseChange → String
  | uppercase => "Uppercase"
  | lowercase => "Lowercase"
  | capitalize => "Capitalize"
  | uncapitalize => "Uncapitalize"

def all : List CaseChange := [uppercase, lowercase, capitalize, uncapitalize]

def ofName? (name : String) : Option CaseChange := all.find? (·.name == name)

def apply : CaseChange → String → String
  | uppercase => Text.upper
  | lowercase => Text.lower
  | capitalize => Text.mapFirst Text.upperChar
  | uncapitalize => Text.mapFirst Text.lowerChar

end CaseChange

/-- A node of the type graph. -/
inductive Ty where
  /-- Flows into every type and from every type. -/
  | any
  /-- The top type. -/
  | unknown
  /-- The bottom type. -/
  | never
  | primitive (p : Primitive)
  | literal (l : Literal)
  | object (o : ObjectShape)
  | array (element : TypeId)
  | tuple (t : TupleShape)
  | function (f : Signature)
  | union (members : List TypeId)
  | intersection (members : List TypeId)
  | param (p : TypeParam)
  /-- A variable of one inference. -/
  | var (number : Nat)
  /-- A name with arguments, expanded when needed. -/
  | reference (name : String) (args : List TypeId)
  | conditional (c : Conditional)
  /-- `infer X` in the pattern of a conditional. -/
  | infer (name : String)
  | mapped (m : MappedShape)
  | keyOf (operand : TypeId)
  | indexed (object index : TypeId)
  | template (spans : List TemplateSpan)
  | caseMapped (change : CaseChange) (inner : TypeId)
  | promise (inner : TypeId)
deriving DecidableEq, Hashable, Repr, Inhabited

namespace Ty

def isAny : Ty → Bool
  | any => true
  | _ => false

def isUnknown : Ty → Bool
  | unknown => true
  | _ => false

def isNever : Ty → Bool
  | never => true
  | _ => false

/-- The nodes that evaluation replaces. -/
def isReducible : Ty → Bool
  | reference .. | conditional _ | mapped _ | keyOf _ | indexed .. | template _
  | caseMapped .. => true
  | _ => false

def object? : Ty → Option ObjectShape
  | object o => some o
  | _ => none

def function? : Ty → Option Signature
  | function f => some f
  | _ => none

def literal? : Ty → Option Literal
  | literal l => some l
  | _ => none

def isObject (t : Ty) : Bool := t.object?.isSome

def isUnion : Ty → Bool
  | union _ => true
  | _ => false

def isParam : Ty → Bool
  | param _ => true
  | _ => false

/-- The primitive a type is or the one its literal belongs to. -/
def base? : Ty → Option Primitive
  | primitive p => some p
  | literal l => some l.base
  | _ => none

/-- `null`, `undefined` or `void`. -/
def isNullish : Ty → Bool
  | primitive p => p.isNullish
  | _ => false

end Ty

end GradualTyping
