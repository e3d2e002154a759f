/-
# Solving an inference

Each type parameter is solved in order: by the union of its covariant candidates
(with literals widened unless its bound is made of primitives and literals), else
by the intersection of the contravariant ones, else by its default, its bound or
`unknown`.  A solution outside the bound is a failure.
-/

import GradualTyping.Inference.Collect
import GradualTyping.Reduction.Mapped
import GradualTyping.Types.Intersection

namespace GradualTyping

/-- A solution that does not satisfy the bound of its parameter. -/
structure InferenceFailure where
  param : TypeId
  name : String
  inferred : TypeId
  bound : TypeId
deriving DecidableEq, Repr, Inhabited

structure InferenceSolution where
  /-- The solution of each parameter and of its variable, and the rows. -/
  substitution : Substitution := {}
  failures : List InferenceFailure := []
  rows : List RowCapture := []
deriving Inhabited

namespace Inference

variable (ops : Operations)

/-- Start with one fresh variable for each parameter. -/
def start (params : List TypeId) : TableM Inference := do
  let vars ← params.mapM fun p => do
    let node ← resolve p
    let var ← freshVariable
    return match node with
      | .param q => { param := p, var := var, name := q.name, bound := q.bound, fallback := q.fallback }
      | _ => { param := p, var := var, name := "", bound := none, fallback := none }
  return { vars := vars }

/-- Record the fields of an object argument that its object parameter does not
name. -/
def captureRow (param arg : TypeId) : InferM Unit := do
  let param ← (ops.evaluate param : TableM TypeId)
  let arg ← (ops.evaluate arg : TableM TypeId)
  let t ← (get : TableM TypeTable)
  match t.resolve param, t.resolve arg with
  | .object p, .object a =>
    let extra := a.properties.filter fun q => (p.property? q.name).isNone
    if p.index.isSome || extra.isEmpty then return ()
    else
      let fields ← (objectOf extra none : TableM TypeId)
      let var ← (freshVariable : TableM TypeId)
      modifyThe Inference fun i => { i with rows := i.rows ++ [⟨var, fields⟩] }
  | _, _ => return ()

/-- Collect candidates from one argument. -/
def infer (param arg : TypeId) : InferM Unit := do
  ops.inferFrom param arg false
  captureRow ops param arg

/-- A type that keeps the literals of its candidates: a literal or a primitive
that has literals. -/
def isLiteralLike : Ty → Bool
  | .literal _ => true
  | .primitive p => p == .string || p == .number || p == .boolean || p == .bigint
  | _ => false

/-- Whether literal candidates are kept under a bound. -/
def keepsLiterals : Option TypeId → TableM Bool
  | none => return false
  | some bound => do
    match ← resolve bound with
    | .keyOf _ => return true
    | _ =>
      let evaluated ← ops.evaluate bound
      let t ← get
      let members := t.unionMembers evaluated
      return !members.isEmpty && members.all fun m => isLiteralLike (t.resolve m)

/-- The type that the candidates of a parameter give, if there are any. -/
def joinCandidates (v : InferenceVar) : TableM (Option TypeId) := do
  if !v.covariant.isEmpty then
    let joined ← unionOf v.covariant
    if ← keepsLiterals ops v.bound then return some joined
    else some <$> widenLiterals joined
  else if !v.contravariant.isEmpty then some <$> intersectionOf v.contravariant
  else return none

/-- The solutions of the parameters that have candidates. -/
def partialSolution (i : Inference) : TableM Substitution :=
  i.vars.foldlM (fun s v => do
    match ← joinCandidates ops v with
    | some type => return s.insert v.param type
    | none => return s) {}

/-- The solution of a parameter without candidates. -/
def fallbackSolution (s : Substitution) (v : InferenceVar) : TableM TypeId :=
  match v.fallback.or v.bound with
  | some d => ops.substitute s d
  | none => return .unknown

/-- What is known while the parameters are solved one after the other. -/
structure Solving where
  /-- The solutions of the parameters so far. -/
  params : Substitution := {}
  /-- The same solutions under the variables of the parameters. -/
  vars : List (TypeId × TypeId) := []
  failures : List InferenceFailure := []
deriving Inhabited

/-- Solve one parameter after others. -/
def solveVar (state : Solving) (v : InferenceVar) : TableM Solving := do
  let inferred ← match ← joinCandidates ops v with
    | some type => pure type
    | none => fallbackSolution ops state.params v
  let params := state.params.insert v.param inferred
  let vars := state.vars ++ [(v.var, inferred)]
  match v.bound with
  | none => return { params := params, vars := vars, failures := state.failures }
  | some bound =>
    let bound ← ops.substitute params bound
    if ← ops.subtype inferred bound then
      return { params := params, vars := vars, failures := state.failures }
    else
      return { params := params, vars := vars
               failures := state.failures ++ [⟨v.param, v.name, inferred, bound⟩] }

/-- Solve all parameters in order. -/
def solveAll (i : Inference) : TableM Solving :=
  i.vars.foldlM (solveVar ops) {}

def solve (i : Inference) : TableM InferenceSolution := do
  let solved ← solveAll ops i
  let rows := i.rows.map fun row => (row.var, row.fields)
  return { substitution := (solved.vars ++ rows).foldl (fun s e => s.insert e.1 e.2) solved.params
           failures := solved.failures
           rows := i.rows }

/-- The type arguments of a call, from the types of its arguments in order. -/
def inferCall (f : Signature) (args : List TypeId) :
    TableM InferenceSolution := do
  let start ← start f.typeParams
  let pairs := (Reduction.withPlaces args).filterMap fun (i, arg) =>
    (f.paramAt? i).map fun param => (param, arg)
  let (_, i) ← (pairs.forM fun (param, arg) => infer ops param arg).run start
  solve ops i

end Inference
end GradualTyping
