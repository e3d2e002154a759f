/-
# JSON values

A number is an integer or a binary64 number, as it was written: `1` is an
integer and `1.0` is not.  An object keeps its fields in order.
-/

import GradualTyping.Number.Double

namespace GradualTyping

inductive Json where
  | null
  | bool (value : Bool)
  | int (value : Int)
  | float (value : Double)
  | string (value : String)
  | array (items : List Json)
  | object (fields : List (String × Json))
deriving Inhabited

namespace Json

/-- The value of a field of an object. -/
def get? : Json → String → Option Json
  | .object fields, name => (fields.find? (·.1 == name)).map (·.2)
  | _, _ => none

mutual
/-- The number of nested arrays and objects, counting the value itself. -/
def height : Json → Nat
  | .array items => heightItems items + 1
  | .object fields => heightFields fields + 1
  | _ => 1

def heightItems : List Json → Nat
  | [] => 0
  | j :: js => max j.height (heightItems js)

def heightFields : List (String × Json) → Nat
  | [] => 0
  | (_, j) :: fields => max j.height (heightFields fields)
end

/-- A list of fields with one field set: the last write of a name wins and
keeps the place of the first. -/
def setField (name : String) (value : Json) : List (String × Json) → List (String × Json)
  | [] => [(name, value)]
  | (n, v) :: fields =>
    if n == name then (n, value) :: fields else (n, v) :: setField name value fields

end Json

end GradualTyping
