/-
# Substitutions

A finite map from types to the types that replace them, in the order in which
its keys were first set.
-/

import GradualTyping.Types.Table

namespace GradualTyping

structure Substitution where
  entries : List (TypeId × TypeId) := []
deriving DecidableEq, Repr, Inhabited

namespace Substitution

def get? (s : Substitution) (id : TypeId) : Option TypeId :=
  (s.entries.find? (·.1 == id)).map (·.2)

def contains (s : Substitution) (id : TypeId) : Bool := (s.get? id).isSome

def isEmpty (s : Substitution) : Bool := s.entries.isEmpty

def size (s : Substitution) : Nat := s.entries.length

/-- Set the value of a key in a list of entries. -/
def setEntry (key value : TypeId) : List (TypeId × TypeId) → List (TypeId × TypeId)
  | [] => [(key, value)]
  | (k, v) :: rest => if k = key then (k, value) :: rest else (k, v) :: setEntry key value rest

def insert (s : Substitution) (key value : TypeId) : Substitution :=
  ⟨setEntry key value s.entries⟩

def ofList (entries : List (TypeId × TypeId)) : Substitution :=
  entries.foldl (fun s (k, v) => s.insert k v) {}

end Substitution

/-- The results of one substitution so far. -/
abbrev SubstitutionMemo := Std.HashMap TypeId TypeId

end GradualTyping
