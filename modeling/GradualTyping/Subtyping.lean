/-
# Structural subtyping

`sub <: sup` holds when a value of `sub` can be used where `sup` is expected.
Equal types, `any` on either side, `unknown` above and `never` below are settled
at once (`settled`).  Every other pair is decided by the one `clause` that its
two nodes select, which asks about pairs of their parts.

Recursive types are compared coinductively: a pair that is being compared
further up is taken to hold.

The rules are written for any monad that holds a table, so that the questions
can be answered in other ways than by comparison.
-/

import GradualTyping.Inference.Solve
import GradualTyping.Substitution.Apply

namespace GradualTyping
namespace Subtyping

variable (ops : Operations)

/-- A question about two types, in a monad that holds a table. -/
abbrev Ask (m : Type → Type) := TypeId → TypeId → m Bool

variable {m : Type → Type} [Monad m] [MonadLiftT TableM m]

/-- Mutual subtyping. -/
def bothWays (ask : Ask m) (a b : TypeId) : m Bool := do
  if a = b then return true
  else if ← ask a b then ask b a
  else return false

/-- The pairs that hold whatever their parts are. -/
def settled (t : TypeTable) (sub sup : TypeId) : Bool :=
  sub == sup ||
  match t.resolve sub, t.resolve sup with
  | _, .any | _, .unknown | .any, _ | .never, _ => true
  | _, _ => false

/-- The declared variances of parameters, if all have one. -/
def variances? (t : TypeTable) (params : List TypeId) : Option (List Variance) :=
  params.mapM fun p =>
    match t.resolve p with
    | .param q => q.variance
    | _ => none

/-- Compare two arguments by the variance of their parameter. -/
def compareArgument (ask : Ask m) (v : Variance) (x y : TypeId) : m Bool :=
  match v with
  | .covariant => ask x y
  | .contravariant => ask y x
  | .invariant => bothWays ask x y

/-- Compare two references to one alias argument by argument; `none` when the
alias does not give every parameter a variance. -/
def compareReferences (ask : Ask m) (name : String) (xs ys : List TypeId) :
    m (Option Bool) := do
  if xs.length ≠ ys.length then return none
  else if xs = ys then return some true
  else
    let t ← (get : TableM TypeTable)
    match t.alias? name with
    | none => return none
    | some definition =>
      if definition.params.length ≠ xs.length then return none
      else
        match variances? t definition.params with
        | none => return none
        | some variances =>
          some <$> (variances.zip (xs.zip ys)).allM fun (v, x, y) => compareArgument ask v x y

/-- The comparison of two references by variance, if the nodes are such. -/
def byVariance (ask : Ask m) : Ty → Ty → m (Option Bool)
  | .reference a xs, .reference b ys =>
    if a = b then compareReferences ask a xs ys else return none
  | _, _ => return none

/-- Whether a side is evaluated before it is compared. -/
def needsEvaluation (t : TypeTable) (id : TypeId) : Bool :=
  match t.resolve id with
  | .intersection members => members.any t.isReducible
  | ty => ty.isReducible

/-- The evaluated form of a side that evaluation changes. -/
def reduced? (id : TypeId) : TableM (Option TypeId) := do
  if needsEvaluation (← get) id then
    let evaluated ← ops.evaluate id
    return if evaluated = id then none else some evaluated
  else return none

/-- A field of the target: it is there unless it is optional, and its type fits.
The types of writable fields must agree, unless fields are covariant. -/
def fieldFits (ask : Ask m) (covariant : Bool) (sub : ObjectShape) (want : Property) : m Bool :=
  match sub.property? want.name with
  | some has =>
    if has.optional && !want.optional then return false
    else if want.readonly || covariant then ask has.type want.type
    else bothWays ask has.type want.type
  | none => return want.optional

/-- The open fields of the target: all types of the source fit. -/
def indexFits (ask : Ask m) (sub : ObjectShape) (index : TypeId) : m Bool := do
  let fields ← sub.properties.allM fun p => ask p.type index
  let rest ← match sub.index with
    | some i => ask i index
    | none => pure true
  return fields && rest

def objects (ask : Ask m) (sub sup : ObjectShape) : m Bool := do
  let covariant := (← (getLimits : TableM Limits)).fieldVariance == .covariant
  if ← sup.properties.allM (fieldFits ask covariant sub) then
    match sup.index with
    | some index => indexFits ask sub index
    | none => return true
  else return false

/-- A primitive, literal, array or tuple against an object, by its built-in
members. -/
def members (ask : Ask m) (sub : TypeId) (sup : ObjectShape) : m Bool := do
  if (← (resolve sub : TableM Ty)).isNullish || sup.index.isSome then return false
  else
    sup.properties.allM fun p => do
      match ← (Members.member? ops sub p.name : TableM _) with
      | some member => ask member p.type
      | none => return p.optional

/-- An optional question: nothing to ask holds. -/
def askOption (ask : TypeId → m Bool) : Option TypeId → m Bool
  | some id => ask id
  | none => return true

def tuples (ask : Ask m) (sub sup : TupleShape) : m Bool := do
  if sub.minLength < sup.minLength then return false
  else if ← (Reduction.withPlaces sup.elements).allM (fun (i, want) =>
      match sub.at? i with
      | some has => ask has want.type
      | none => return want.optional) then
    if ← (sub.elements.drop sup.elements.length).allM (fun extra =>
        match sup.rest with
        | some rest => ask extra.type rest
        | none => return false) then
      match sub.rest, sup.rest with
      | some a, some b => ask a b
      | some _, none => return false
      | _, _ => return true
    else return false
  else return false

/-- A signature under a substitution of its own type parameters. -/
def instantiate (f : Signature) (s : Substitution) : TableM Signature := do
  let id ← functionOf { f with typeParams := [] }
  let instantiated ← ops.substitute s id
  return ((← resolve instantiated).function?).getD f

/-- The source signature in terms of the target: its type parameters are renamed
to those of the target, or inferred from the target's parameters. -/
def adapt (f g : Signature) : TableM Signature := do
  if f.typeParams.isEmpty then return f
  else if f.typeParams.length = g.typeParams.length then
    instantiate ops f (.ofList (f.typeParams.zip g.typeParams))
  else
    let start ← Inference.start f.typeParams
    let pairs := (Reduction.withPlaces f.params).filterMap fun (i, p) =>
      (g.paramAt? i).map fun target => (p.type, target)
    let (_, inference) ← (pairs.forM fun (param, target) =>
      Inference.infer ops param target).run start
    let solved ← Inference.solveAll ops inference
    instantiate ops f solved.params

/-- A parameter place: the target's type fits the source's. -/
def paramFits (ask : Ask m) (f g : Signature) (i : Nat) : m Bool :=
  match f.paramAt? i, g.paramAt? i with
  | some has, some want => ask want has
  | none, _ => return true
  | some _, none => return (f.params[i]?.map (·.optional)).getD true

def predicates (ask : Ask m) (f g : Signature) : m Bool :=
  match f.predicate, g.predicate with
  | _, none => return true
  | some p, some q =>
    if p.param ≠ q.param || p.asserts ≠ q.asserts then return false else ask p.type q.type
  | none, some _ => return false

def functions (ask : Ask m) (f g : Signature) : m Bool := do
  if f.kind ≠ g.kind then return false
  else
    let f ← (adapt ops f g : TableM Signature)
    if g.rest.isNone && decide (g.params.length < f.minParams) then return false
    else if ← (List.range (max f.params.length g.params.length)).allM (paramFits ask f g) then
      let rests ← match f.rest, g.rest with
        | some has, some want => ask want has
        | _, _ => pure true
      if rests then
        if ← predicates ask f g then
          if g.result = .void then return true else ask f.result g.result
        else return false
      else return false
    else return false

/-- The clause that two nodes select when evaluation changes neither side. -/
def structural (ask : Ask m) (sub sup : TypeId) : (subTy supTy : Ty) → m Bool
  | .union ms, _ => ms.allM (ask · sup)
  | .param p, supTy => do
    let inMember ← match supTy with
      | .union ms => ms.anyM (ask sub ·)
      | _ => pure false
    if inMember then return true else ask (p.bound.getD .unknown) sup
  | .intersection ms, _ => ms.anyM (ask · sup)
  | _, .union ms => ms.anyM (ask sub ·)
  | _, .intersection ms => ms.allM (ask sub ·)
  | .conditional c, _ => do
    if ← ask c.yes sup then ask c.no sup else return false
  | .keyOf _, _ => do
    let keys ← (Reduction.anyKey : TableM TypeId)
    ask keys sup
  | .template _, _ => ask .string sup
  | .caseMapped .., _ => ask .string sup
  | .primitive a, .primitive b => return a == b || (a == .undefined && b == .void)
  | .literal l, .primitive p => return l.base == p
  | .object a, .object b => objects ask a b
  | .primitive _, .object b => members ops ask sub b
  | .literal _, .object b => members ops ask sub b
  | .array _, .object b => members ops ask sub b
  | .tuple _, .object b => members ops ask sub b
  | .function _, .object b => return b.properties.all (·.optional) && b.index.isNone
  | .array a, .array b => ask a b
  | .tuple t, .array a => do
    if ← t.elements.allM fun e => ask e.type a then askOption (ask · a) t.rest else return false
  | .tuple a, .tuple b => tuples ask a b
  | .array a, .tuple b =>
    match b.rest with
    | some r => if b.elements.isEmpty then ask a r else return false
    | none => return false
  | .function f, .function g => functions ops ask f g
  | .promise a, .promise b => ask a b
  | _, _ => return false

/-- The rule for a pair that is not settled, with its questions put to `ask`. -/
def clause (ask : Ask m) (sub sup : TypeId) : m Bool := do
  let subTy ← (resolve sub : TableM Ty)
  let supTy ← (resolve sup : TableM Ty)
  match ← byVariance ask subTy supTy with
  | some answer => return answer
  | none =>
    match ← (reduced? ops sub : TableM (Option TypeId)) with
    | some sub' => ask sub' sup
    | none =>
      match ← (reduced? ops sup : TableM (Option TypeId)) with
      | some sup' => ask sub sup'
      | none => structural ops ask sub sup subTy supTy

/-- Comparison under assumptions, one level above `deeper`; the questions of the
clause are put to `ask`, with the pair itself assumed. -/
def step (deeper : Operations) (ask : Assumptions → Ask m) (assumed : Assumptions)
    (sub sup : TypeId) : m Bool := do
  if settled (← (get : TableM TypeTable)) sub sup then return true
  else if assumed.contains (sub, sup) then return true
  else guarded false (clause deeper (ask ((sub, sup) :: assumed)) sub sup)

end Subtyping
end GradualTyping
