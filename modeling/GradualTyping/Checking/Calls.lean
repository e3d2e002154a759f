/-
# Type arguments of calls

A generic function is instantiated with the type arguments that are written, or
with those that its arguments give.  Functions among the arguments whose
parameters have no types are checked last, with what the others have given.
-/

import GradualTyping.Checking.Assignability

namespace GradualTyping

/-- A function type under a substitution of its type parameters. -/
def Signature.instantiate (f : Signature) (s : Substitution) : TableM Signature := do
  let params ← f.params.mapM fun p => return { p with type := ← substitute s p.type }
  let rest ← f.rest.mapM (substitute s)
  let result ← substitute s f.result
  let predicate ← f.predicate.mapM fun p => return { p with type := ← substitute s p.type }
  return { typeParams := [], params, rest, result, kind := f.kind, predicate }

/-- The number of arguments that a function takes, as a text. -/
def Signature.arityText (f : Signature) : String :=
  if f.rest.isSome then "at least " ++ Nat.repr f.minParams
  else if f.params.length = f.minParams then Nat.repr f.minParams
  else Nat.repr f.minParams ++ "-" ++ Nat.repr f.params.length

/-- Whether a function takes a number of arguments. -/
def Signature.accepts (f : Signature) (count : Nat) : Bool :=
  f.minParams ≤ count && (f.rest.isSome || count ≤ f.params.length)

namespace Checking

/-- Every parameter with its argument or its default. -/
def explicitArguments : (params args : List TypeId) → Substitution → TableM Substitution
  | [], _, s => return s
  | param :: params, args, s => do
    let arg ← match args with
      | arg :: _ => pure arg
      | [] =>
        let fallback := ((← get).param? param).bind (·.fallback)
        substitute s (fallback.getD .unknown)
    explicitArguments params args.tail (s.insert param arg)

/-- Report the type arguments outside the bounds of their parameters. -/
def checkBounds (s : Substitution) (span : Span) (param : TypeId) : CheckM Unit := do
  if let some p := (← getThe TypeTable).param? param then
    if let (some bound, some arg) := (p.bound, s.get? param) then
      let bound ← (substitute s bound : TableM TypeId)
      unless ← (isSubtype arg bound : TableM Bool) do
        let t ← getThe TypeTable
        report (.unmetConstraint p.name (t.display arg) (t.display bound)) span

/-- A function with written type arguments. -/
def instantiateExplicit (f : Signature) (args : List TypeId) (callee : Expr) (span : Span) :
    CheckM Signature := do
  let required := (← getThe TypeTable).requiredParams f.typeParams
  if args.length < required || f.typeParams.length < args.length then
    report (.typeArgumentCount (callee.ident?.getD "function") f.typeParams.length args.length) span
    f.instantiate (Substitution.ofList (f.typeParams.map fun p => (p, .any)))
  else
    let s ← (explicitArguments f.typeParams args {} : TableM _)
    f.typeParams.forM (checkBounds s span)
    f.instantiate s

/-- What the arguments checked so far say about the type parameters. -/
def partialArguments (f : Signature) (argTypes : List (Option TypeId)) : TableM Substitution := do
  let ops ← getOperations
  let start ← Inference.start f.typeParams
  let pairs := (Reduction.withPlaces argTypes).filterMap fun (i, type) =>
    match type, f.paramAt? i with
    | some type, some param => some (param, type)
    | _, _ => none
  let (_, inference) ← (pairs.forM fun (param, type) => Inference.infer ops param type).run start
  inference.partialSolution ops

/-- A function with the type arguments that the types of its arguments give. -/
def instantiateInferred (f : Signature) (argTypes : List TypeId) (span : Span) :
    CheckM Signature := do
  let solution ← (inferCall f argTypes : TableM _)
  let t ← getThe TypeTable
  solution.failures.forM fun failure =>
    report (.unmetConstraint failure.name (t.display failure.inferred) (t.display failure.bound))
      span
  f.instantiate solution.substitution

end Checking

end GradualTyping
