/-
# Environments of variable types

An environment holds the current types of variables at one point of a program.
Code behind a `return`, `throw` or `break` has an unreachable environment, which
adds nothing where paths join.
-/

import GradualTyping.Types.Union

namespace GradualTyping

/-- The types of variables, in the order of their names, each once. -/
structure TypeEnv where
  bindings : List (String × TypeId) := []
  reachable : Bool := true
deriving DecidableEq, Repr, Inhabited

namespace TypeEnv

/-- Bind a name in a list that is ordered by names. -/
def insertBinding (name : String) (type : TypeId) :
    List (String × TypeId) → List (String × TypeId)
  | [] => [(name, type)]
  | b :: bs =>
    if name < b.1 then (name, type) :: b :: bs
    else if name = b.1 then (name, type) :: bs
    else b :: insertBinding name type bs

/-- The environment of code that is never run. -/
def unreachable : TypeEnv := { reachable := false }

def get? (env : TypeEnv) (var : String) : Option TypeId := env.bindings.lookup var

def insert (env : TypeEnv) (var : String) (type : TypeId) : TypeEnv :=
  { env with bindings := insertBinding var type env.bindings }

def erase (env : TypeEnv) (var : String) : TypeEnv :=
  { env with bindings := env.bindings.filter (·.1 ≠ var) }

def markUnreachable (env : TypeEnv) : TypeEnv := { env with reachable := false }

def ofList (bindings : List (String × TypeId)) : TypeEnv :=
  bindings.foldl (fun env (var, type) => env.insert var type) {}

/-- The type of a variable where two paths join: the union of its types, or its
type on the only path that binds it. -/
def joinTypes (mine : Option TypeId) (theirs : TypeId) : TableM TypeId :=
  match mine with
  | none => pure theirs
  | some mine => if mine = theirs then pure theirs else unionOf [mine, theirs]

/-- The environment where two paths join. -/
def merge (a b : TypeEnv) : TableM TypeEnv :=
  if !b.reachable then pure a
  else if !a.reachable then pure b
  else b.bindings.foldlM
    (fun merged (var, type) => return merged.insert var (← joinTypes (a.get? var) type)) a

/-- The environment where any number of paths join. -/
def join (envs : List TypeEnv) : TableM TypeEnv := envs.foldlM merge unreachable

end TypeEnv

end GradualTyping
