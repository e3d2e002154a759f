/-
# Built-in members

The members of strings, numbers, booleans, big integers and arrays that can be
read without being declared.  A tuple has the members of an array of the union
of its elements.
-/

import GradualTyping.Operations
import GradualTyping.Types.Union

namespace GradualTyping
namespace Members

/-- The scope of the type parameters of built-in methods, apart from the scopes
of all declarations. -/
def builtinScope : Nat := UInt32.size - 1

private def needed (name : String) (type : TypeId) : Parameter := ⟨name, type, false⟩

private def spare (name : String) (type : TypeId) : Parameter := ⟨name, type, true⟩

private def method (params : List Parameter) (result : TypeId) : TableM TypeId :=
  functionOf { params := params, result := result }

def ofString? : String → TableM (Option TypeId)
  | "length" => return some .number
  | "toUpperCase" | "toLowerCase" | "trim" | "toString" => some <$> method [] .string
  | "charAt" => some <$> method [needed "pos" .number] .string
  | "includes" | "startsWith" | "endsWith" => some <$> method [needed "search" .string] .boolean
  | "indexOf" => some <$> method [needed "search" .string] .number
  | "slice" => some <$> method [spare "start" .number, spare "end" .number] .string
  | "split" => do
    let texts ← arrayOf .string
    some <$> method [needed "separator" .string] texts
  | _ => return none

def ofNumber? : String → TableM (Option TypeId)
  | "toFixed" => some <$> method [spare "digits" .number] .string
  | "toString" => some <$> method [spare "radix" .number] .string
  | _ => return none

/-- A callback on an element and its position. -/
private def callback (element result : TypeId) : TableM TypeId :=
  method [needed "value" element, needed "index" .number] result

def ofArray? (element : TypeId) : String → TableM (Option TypeId)
  | "length" => return some .number
  | "push" => some <$> functionOf { params := [], rest := some element, result := .number }
  | "pop" | "shift" => do
    let element? ← unionOf [element, .undefined]
    some <$> method [] element?
  | "join" => some <$> method [spare "separator" .string] .string
  | "includes" => some <$> method [needed "value" element] .boolean
  | "indexOf" => some <$> method [needed "value" element] .number
  | "slice" => do
    let part ← arrayOf element
    some <$> method [spare "start" .number, spare "end" .number] part
  | "concat" => do
    let whole ← arrayOf element
    some <$> functionOf { params := [], rest := some element, result := whole }
  | "forEach" => do
    let action ← callback element .void
    some <$> method [needed "callback" action] .void
  | "filter" => do
    let test ← callback element .unknown
    let part ← arrayOf element
    some <$> method [needed "predicate" test] part
  | "find" => do
    let test ← callback element .unknown
    let element? ← unionOf [element, .undefined]
    some <$> method [needed "predicate" test] element?
  | "some" | "every" => do
    let test ← callback element .unknown
    some <$> method [needed "predicate" test] .boolean
  | "map" => do
    let u ← intern (.param { name := "U", scope := builtinScope })
    let image ← callback element u
    let images ← arrayOf u
    some <$> functionOf
      { typeParams := [u], params := [needed "callback" image], result := images }
  | _ => return none

/-- The member of an evaluated type. -/
def ofEvaluated? (name : String) (evaluated : TypeId) : TableM (Option TypeId) := do
  match ← resolve evaluated with
  | .primitive .string | .literal (.string _) | .template _ | .caseMapped .. => ofString? name
  | .primitive .number | .literal (.number _) => ofNumber? name
  | .primitive .boolean | .primitive .bigint | .literal (.boolean _) | .literal (.bigint _) =>
    if name == "toString" then some <$> method [] .string else return none
  | .array element => ofArray? element name
  | .tuple t =>
    let element ← unionOf t.types
    ofArray? element name
  | _ => return none

/-- The type of a built-in member of a type, if it has one of that name. -/
def member? (ops : Operations) (id : TypeId) (name : String) : TableM (Option TypeId) :=
  ops.evaluate id >>= ofEvaluated? name

end Members
end GradualTyping
