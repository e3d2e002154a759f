/-
# The guarded operations

Evaluation, comparison, substitution, pattern matching, inference and awaiting
call each other, and each of them passes the recursion guard before it does.
The record `Operations` holds the six as they are one level deeper, so that each
is written over it as a plain function; `GradualTyping.Operations.Layers` stacks
the levels.
-/

import GradualTyping.Substitution.Basic
import GradualTyping.Inference.Basic
import GradualTyping.Reduction.Bindings

namespace GradualTyping

/-- Pairs of types that are taken for comparable. -/
abbrev Assumptions := List (TypeId × TypeId)

structure Operations where
  /-- The normal form of a type. -/
  evaluate : TypeId → TableM TypeId
  /-- Whether the first type is a subtype of the second, under assumptions. -/
  isSubtype : Assumptions → TypeId → TypeId → TableM Bool
  /-- A type under a substitution that is not empty. -/
  substituteIn : Substitution → TypeId → StateT SubstitutionMemo TableM TypeId
  /-- Match a pattern with a type, with polarity. -/
  matchPattern : (pattern source : TypeId) → (contravariant : Bool) → MatchM Unit
  /-- Collect candidates from a parameter and an argument, with polarity. -/
  inferFrom : (param arg : TypeId) → (contravariant : Bool) → InferM Unit
  /-- What awaiting a value gives. -/
  awaited : TypeId → TableM TypeId

namespace Operations

/-- The operations below the last level: they answer without looking. -/
def inert : Operations where
  evaluate id := pure id
  isSubtype _ _ _ := pure false
  substituteIn _ id := pure id
  matchPattern _ _ _ := pure ()
  inferFrom _ _ _ := pure ()
  awaited id := pure id

/-- A type under a substitution. -/
def substitute (ops : Operations) (s : Substitution) (id : TypeId) : TableM TypeId :=
  if s.isEmpty then pure id else (ops.substituteIn s id).run' {}

/-- Comparison without assumptions. -/
def subtype (ops : Operations) (sub sup : TypeId) : TableM Bool := ops.isSubtype [] sub sup

end Operations

end GradualTyping
