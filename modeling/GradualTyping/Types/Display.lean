/-
# Types as text

Sixteen levels of nesting are written and deeper parts are `...`.  Unions,
intersections, functions and conditionals are put in parentheses where they are
operands.
-/

import GradualTyping.Types.Table

namespace GradualTyping

/-- The levels of nesting that are written. -/
def displayLevels : Nat := 17

def joinTexts (separator : String) (texts : List String) : String :=
  String.intercalate separator texts

/-- `s` if the condition holds. -/
def textIf (condition : Bool) (s : String) : String := if condition then s else ""

namespace TypeTable

variable (t : TypeTable)

def isCompound (id : TypeId) : Bool :=
  match t.resolve id with
  | .union _ | .intersection _ | .function _ | .conditional _ => true
  | _ => false

/-- A type as an operand, given the text of types. -/
def operand (write : TypeId → String) (id : TypeId) : String :=
  if t.isCompound id then "(" ++ write id ++ ")" else write id

def writeObject (write : TypeId → String) (o : ObjectShape) : String :=
  if o.properties.isEmpty && o.index.isNone then "\x7b\x7d"
  else
    let field (p : Property) : String :=
      textIf p.readonly "readonly " ++ p.name ++ textIf p.optional "?" ++ ": " ++ write p.type
        ++ "; "
    let index : String :=
      match o.index with
      | some i => "[key: string]: " ++ write i ++ "; "
      | none => ""
    "\x7b " ++ String.join (o.properties.map field) ++ index ++ "\x7d"

def writeTuple (write : TypeId → String) (shape : TupleShape) : String :=
  let elements := shape.elements.map fun e => write e.type ++ textIf e.optional "?"
  let rest := shape.rest.toList.map fun r => "..." ++ t.operand write r ++ "[]"
  "[" ++ joinTexts ", " (elements ++ rest) ++ "]"

/-- The result of a function; a predicate on no parameter is on `this`. -/
def writeResult (write : TypeId → String) (f : Signature) : String :=
  match f.predicate with
  | some p =>
    textIf p.asserts "asserts " ++ ((f.params[p.param]?.map (·.name)).getD "this") ++ " is "
      ++ write p.type
  | none => write f.result

def writeFunction (write : TypeId → String) (f : Signature) : String :=
  let generics :=
    if f.typeParams.isEmpty then "" else "<" ++ joinTexts ", " (f.typeParams.map write) ++ ">"
  let params := f.params.map fun p => p.name ++ textIf p.optional "?" ++ ": " ++ write p.type
  let rest := f.rest.toList.map fun r => "...rest: " ++ t.operand write r ++ "[]"
  textIf (f.kind == .construct) "new " ++ generics ++ "(" ++ joinTexts ", " (params ++ rest)
    ++ ") => " ++ writeResult write f

def writeMapped (write : TypeId → String) (m : MappedShape) : String :=
  let readonly :=
    match m.readonly with
    | .add => "readonly "
    | .remove => "-readonly "
    | .preserve => ""
  let optional :=
    match m.optional with
    | .add => "?"
    | .remove => "-?"
    | .preserve => ""
  "\x7b " ++ readonly ++ "[" ++ write m.param ++ " in " ++ write m.keys ++ "]" ++ optional ++ ": "
    ++ write m.template ++ " \x7d"

def writeSpan (write : TypeId → String) : TemplateSpan → String
  | .text s => s
  | .hole h => "$\x7b" ++ write h ++ "\x7d"

/-- The text of a node, given the text of the types in it. -/
def writeNode (write : TypeId → String) : Ty → String
  | .any => "any"
  | .unknown => "unknown"
  | .never => "never"
  | .primitive p => p.name
  | .literal l => l.display
  | .object o => writeObject write o
  | .array e => t.operand write e ++ "[]"
  | .tuple shape => t.writeTuple write shape
  | .function f => t.writeFunction write f
  | .union ms => joinTexts " | " (ms.map (t.operand write))
  | .intersection ms => joinTexts " & " (ms.map (t.operand write))
  | .param p => p.name
  | .var n => "?" ++ Nat.repr n
  | .reference name args =>
    name ++ if args.isEmpty then "" else "<" ++ joinTexts ", " (args.map write) ++ ">"
  | .conditional c =>
    t.operand write c.check ++ " extends " ++ t.operand write c.pattern ++ " ? " ++ write c.yes
      ++ " : " ++ write c.no
  | .infer name => "infer " ++ name
  | .mapped m => writeMapped write m
  | .keyOf operand => "keyof " ++ t.operand write operand
  | .indexed object index => t.operand write object ++ "[" ++ write index ++ "]"
  | .template spans => "`" ++ String.join (spans.map (writeSpan write)) ++ "`"
  | .caseMapped change inner => change.name ++ "<" ++ write inner ++ ">"
  | .promise inner => "Promise<" ++ write inner ++ ">"

/-- The text of a type with the given number of levels. -/
def writeWithin (t : TypeTable) : (levels : Nat) → TypeId → String
  | 0, _ => "..."
  | levels + 1, id => t.writeNode (t.writeWithin levels) (t.resolve id)

/-- The text of a type. -/
def display (id : TypeId) : String := t.writeWithin displayLevels id

end TypeTable

def display (id : TypeId) : TableM String := return (← get).display id

end GradualTyping
