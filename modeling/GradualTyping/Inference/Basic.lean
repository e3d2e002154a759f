/-
# The state of an inference

One generic call is inferred at a time.  Each type parameter has a variable of
its own and the candidates found for it: types it must contain (covariant) and
types it must be contained in (contravariant).  A *row* is what an argument has
beyond the fields that its parameter names.
-/

import GradualTyping.Types.Table

namespace GradualTyping

/-- A type parameter under inference. -/
structure InferenceVar where
  param : TypeId
  var : TypeId
  name : String
  bound : Option TypeId
  fallback : Option TypeId
  covariant : List TypeId := []
  contravariant : List TypeId := []
deriving DecidableEq, Repr, Inhabited

/-- The surplus fields of an argument, under a variable of their own. -/
structure RowCapture where
  var : TypeId
  fields : TypeId
deriving DecidableEq, Repr, Inhabited

structure Inference where
  vars : List InferenceVar := []
  rows : List RowCapture := []
  /-- The pairs compared so far, with their polarity. -/
  visited : List (TypeId × TypeId × Bool) := []
deriving Inhabited

/-- Add a candidate, with polarity. -/
def InferenceVar.add (v : InferenceVar) (candidate : TypeId) (contravariant : Bool) :
    InferenceVar :=
  if contravariant then { v with contravariant := addOnce v.contravariant candidate }
  else { v with covariant := addOnce v.covariant candidate }

namespace Inference

/-- Change the first variable of a parameter. -/
def updateVar (param : TypeId) (f : InferenceVar → InferenceVar) :
    List InferenceVar → List InferenceVar
  | [] => []
  | v :: vs => if v.param = param then f v :: vs else v :: updateVar param f vs

/-- Whether a type is a parameter under inference. -/
def isTarget (i : Inference) (id : TypeId) : Bool := i.vars.any (·.param == id)

/-- The variable of a parameter. -/
def variableFor? (i : Inference) (param : TypeId) : Option TypeId :=
  (i.vars.find? (·.param == param)).map (·.var)

def addCandidate (i : Inference) (param candidate : TypeId) (contravariant : Bool) : Inference :=
  { i with vars := updateVar param (·.add candidate contravariant) i.vars }

end Inference

/-- Operations of an inference. -/
abbrev InferM := StateT Inference TableM

end GradualTyping
