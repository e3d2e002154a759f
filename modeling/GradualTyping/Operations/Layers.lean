/-
# The operations at each depth

`operations n` are the guarded operations with `n` levels left: each answers at
once, or passes the guard and goes on with `operations (n - 1)`.  At the limit
the guard lets nothing pass.  The level for a table is the difference of its
limit and its depth.
-/

import GradualTyping.Promise
import GradualTyping.Reduction.Evaluate
import GradualTyping.Subtyping

namespace GradualTyping

namespace Operations

/-- The operations one level above `deeper`. -/
def above (deeper : Unit → Operations) : Operations where
  evaluate id := Reduction.step (deeper ()) id
  isSubtype assumed sub sup := Subtyping.step (deeper ()) (deeper ()).isSubtype assumed sub sup
  substituteIn s id := Substitution.step (deeper ()) s id
  matchPattern pattern source contravariant :=
    Reduction.matchStep (deeper ()) pattern source contravariant
  inferFrom param arg contravariant := Inference.step (deeper ()) param arg contravariant
  awaited id := Promise.step (deeper ()) id

/-- The operations with a number of levels left. -/
def withLevels : Nat → Operations
  | 0 => above fun _ => inert
  | n + 1 => above fun _ => withLevels n

end Operations

/-- The operations at the depth of a table. -/
def TypeTable.operations (t : TypeTable) : Operations :=
  .withLevels (t.limits.maxDepth - t.depth)

def getOperations : TableM Operations := return (← get).operations

/-! ### The operations on the current table -/

/-- The normal form of a type. -/
def evaluate (id : TypeId) : TableM TypeId := do (← getOperations).evaluate id

/-- The node of the normal form of a type. -/
def evaluateNode (id : TypeId) : TableM Ty := do resolve (← evaluate id)

def isSubtype (sub sup : TypeId) : TableM Bool := do (← getOperations).subtype sub sup

def isEqual (a b : TypeId) : TableM Bool := Subtyping.bothWays isSubtype a b

/-- A comparison, or the error of a tripped recursion guard, which is cleared. -/
def checkSubtype (sub sup : TypeId) : TableM (Except TypeError Bool) := do
  let result ← isSubtype sub sup
  match ← takeDepthError with
  | some error => return .error error
  | none => return .ok result

def substitute (s : Substitution) (id : TypeId) : TableM TypeId := do
  (← getOperations).substitute s id

def awaited (id : TypeId) : TableM TypeId := do (← getOperations).awaited id

def unwrapOnce (id : TypeId) : TableM TypeId := do Promise.unwrapOnce (← getOperations) id

def wrapAsyncResult (body : TypeId) : TableM TypeId := do Promise.wrapResult (← getOperations) body

def declaredAsyncResult? (declared : TypeId) : TableM (Option TypeId) := do
  Promise.declaredResult? (← getOperations) declared

def builtinMember? (id : TypeId) (name : String) : TableM (Option TypeId) := do
  Members.member? (← getOperations) id name

def keyNames (id : TypeId) : TableM (List String) := do Reduction.keyNames (← getOperations) id

def inferCall (f : Signature) (args : List TypeId) : TableM InferenceSolution := do
  Inference.inferCall (← getOperations) f args

end GradualTyping
