/-
# Conditional types

`check extends pattern ? yes : no` is decided once neither `check` nor `pattern`
has free parameters.  The placeholders of the pattern are bound first (to the
union of their candidates, or the intersection of the contravariant ones, or
`unknown`) and replaced in the pattern and in `yes`.
-/

import GradualTyping.Reduction.Pattern
import GradualTyping.Types.Intersection

namespace GradualTyping
namespace Reduction

variable (ops : Operations)

/-- The type that a placeholder is bound to. -/
def Binding.solve (b : Binding) : TableM TypeId :=
  if !b.covariant.isEmpty then unionOf b.covariant
  else if !b.contravariant.isEmpty then intersectionOf b.contravariant
  else return .unknown

/-- The substitution of a pattern's placeholders, matched with `check`. -/
def placeholderSubstitution (pattern check : TypeId) :
    TableM Substitution := do
  let (_, bindings) ← (ops.matchPattern pattern check false).run []
  let solved ← bindings.foldlM
    (fun (s : Substitution) b => return s.insert b.placeholder (← Binding.solve b)) {}
  return ((← get).placeholders pattern).foldl
    (fun s p => if s.contains p then s else s.insert p .unknown) solved

/-- Decide a conditional whose check type is evaluated and closed. -/
def decideConditional (check : TypeId) (c : Conditional) : TableM TypeId := do
  let s ← placeholderSubstitution ops c.pattern check
  let pattern ← ops.substitute s c.pattern
  if check = .any ∧ pattern ≠ .any ∧ pattern ≠ .unknown then
    let yes ← ops.substitute s c.yes
    ops.evaluate (← unionOf [yes, c.no])
  else if ← ops.subtype check pattern then ops.evaluate (← ops.substitute s c.yes)
  else ops.evaluate c.no

/-- The normal form of a conditional at `id`. -/
def conditional (id : TypeId) (c : Conditional) : TableM TypeId := do
  let check ← ops.evaluate c.check
  match c.distributive, ← resolve check with
  | true, .never => return .never
  | true, .union members =>
    let results ← members.mapM fun m => do
      ops.evaluate (← intern (.conditional { c with check := m, distributive := false }))
    unionOf results
  | _, _ =>
    if ← isOpen check then return id
    else if ← isOpen c.pattern then return id
    else decideConditional ops check c

end Reduction
end GradualTyping
