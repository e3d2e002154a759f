/-
# Reading values from JSON

A decoder gives `none` for a JSON value that does not fit.  Fields of an object
are read by name and unknown fields are ignored; a field is *required*,
*optional* (missing or `null` is `none`) or *defaulted* (it may be missing but
not `null`).
-/

import GradualTyping.Json.Basic

namespace GradualTyping
namespace Json

def toBool? : Json → Option Bool
  | .bool b => some b
  | _ => none

def toString? : Json → Option String
  | .string s => some s
  | _ => none

/-- A natural number below a bound. -/
def toNatBelow? (bound : Nat) : Json → Option Nat
  | .int n => if 0 ≤ n ∧ n < bound then some n.toNat else none
  | _ => none

/-- A natural number of 32 bits. -/
def toUInt32? (j : Json) : Option Nat := j.toNatBelow? UInt32.size

/-- A natural number of 64 bits. -/
def toUInt64? (j : Json) : Option Nat := j.toNatBelow? UInt64.size

/-- A number; an integer gives the nearest one. -/
def toDouble? : Json → Option Double
  | .int n => some (Double.ofInt n)
  | .float x => some x
  | _ => none

def toList? : Json → Option (List Json)
  | .array items => some items
  | _ => none

/-- A list whose items are all read by `decode`. -/
def listOf? {α : Type} (decode : Json → Option α) (j : Json) : Option (List α) :=
  j.toList?.bind (List.mapM decode)

/-- A value, or `null` for none. -/
def nullable? {α : Type} (decode : Json → Option α) : Json → Option (Option α)
  | .null => some none
  | j => (decode j).map some

/-- A field that must be there. -/
def required? {α : Type} (j : Json) (name : String) (decode : Json → Option α) : Option α :=
  (j.get? name).bind decode

/-- A field that may be missing or `null`. -/
def optional? {α : Type} (j : Json) (name : String) (decode : Json → Option α) :
    Option (Option α) :=
  match j.get? name with
  | none => some none
  | some v => nullable? decode v

/-- A field that may be missing. -/
def defaulted? {α : Type} (j : Json) (name : String) (fallback : α) (decode : Json → Option α) :
    Option α :=
  match j.get? name with
  | none => some fallback
  | some v => decode v

/-- A name out of a fixed set, as a string or as an object with the name as its
only field and `null` in it. -/
def nameOf? {α : Type} (names : List (String × α)) : Json → Option α
  | .string s => names.lookup s
  | .object [(s, .null)] => names.lookup s
  | _ => none

/-- A name out of a fixed set, as `nameOf?` reads it, where an empty object may
also stand for `null`. -/
def looseNameOf? {α : Type} (names : List (String × α)) : Json → Option α
  | .object [(s, .object [])] => names.lookup s
  | j => nameOf? names j

/-- A name out of an ordered set, as a string or by its place, counted from zero. -/
def tagOf? (names : List String) : Json → Option String
  | .string s => some s
  | .int n => if 0 ≤ n then names[n.toNat]? else none
  | _ => none

/-- `null` for none. -/
def ofOption {α : Type} (encode : α → Json) : Option α → Json
  | none => .null
  | some a => encode a

def ofNat (n : Nat) : Json := .int n

def ofList {α : Type} (encode : α → Json) (xs : List α) : Json := .array (xs.map encode)

end Json
end GradualTyping
