/-
# Whether values fit

A value fits a place when its type is a subtype of that of the place.  Nothing
else can see the fields of a fresh object or array, so it is compared with a
view of the target whose fields are readonly.
-/

import GradualTyping.Checking.State
import GradualTyping.Exhaustive

namespace GradualTyping
namespace Checking

/-- The view of a member of a target for a fresh value, if it is an object: all
fields readonly. -/
def readonlyView? (member : TypeId) : TableM (Option TypeId) := do
  match (← evaluateNode member).object? with
  | some o => some <$> objectOf (o.properties.map ({ · with readonly := true })) o.index
  | none => return none

/-- The view of a target for a fresh value. -/
def freshView (target : TypeId) : TableM TypeId := do
  let views ← (← namedMembers target).mapM fun m => return (m, ← readonlyView? m)
  if views.any (·.2.isSome) then unionOf (views.map fun (m, view) => view.getD m)
  else return target

/-- Report a value that does not fit, unless the recursion guard has tripped. -/
def reportMismatch (source target : TypeId) (note : Option String) (span : Span) : CheckM Unit := do
  let t ← getThe TypeTable
  report (.typeMismatch (t.display target) (t.display source) note) span

/-- Whether a type fits a target through a view of the target. -/
def fits (source view target : TypeId) (span : Span) : CheckM Bool := do
  if ← (isSubtype source view : TableM Bool) then return true
  unless ← (depthExceeded : TableM Bool) do reportMismatch source target none span
  return false

/-- Whether the value of an expression fits a target. -/
def valueFits (e : Expr) (source target : TypeId) : CheckM Bool := do
  let view ← if e.isFresh then (freshView target : TableM TypeId) else pure target
  fits source view target e.span

/-- Report what is left of a value where nothing should be. -/
def expectNever (e : Expr) (actual : TypeId) : CheckM Unit := do
  match ← (evaluateNode actual : TableM Ty) with
  | .never | .any => return ()
  | _ => report (.nonExhaustive (← (describeMembers actual : TableM _))) e.span

end Checking
end GradualTyping
