/-
# What a pattern binds

The candidates of each `infer` placeholder, in the order in which the
placeholders were met.
-/

import GradualTyping.Types.Table

namespace GradualTyping

/-- The candidates of one placeholder by polarity. -/
structure Binding where
  placeholder : TypeId
  covariant : List TypeId := []
  contravariant : List TypeId := []
deriving DecidableEq, Repr, Inhabited

abbrev Bindings := List Binding

/-- Add a candidate, with polarity. -/
def Binding.add (b : Binding) (candidate : TypeId) (contravariant : Bool) : Binding :=
  if contravariant then { b with contravariant := addOnce b.contravariant candidate }
  else { b with covariant := addOnce b.covariant candidate }

namespace Bindings

/-- Add a candidate of a placeholder. -/
def add (placeholder candidate : TypeId) (contravariant : Bool) : Bindings → Bindings
  | [] => [(⟨placeholder, [], []⟩ : Binding).add candidate contravariant]
  | b :: bs =>
    if b.placeholder = placeholder then b.add candidate contravariant :: bs
    else b :: add placeholder candidate contravariant bs

end Bindings

/-- Operations that match a pattern. -/
abbrev MatchM := StateT Bindings TableM

end GradualTyping
