/-
# The parts of a type

Walks over the type graph that do not expand references: the type parameters
that occur free in a type, and the `infer` placeholders of a pattern.  Both stop
at the depth limit.
-/

import GradualTyping.Types.Table

namespace GradualTyping

namespace Signature

/-- The types in a function type, but those of its own parameters. -/
def parts (f : Signature) : List TypeId :=
  f.params.map (·.type) ++ f.rest.toList ++ [f.result]

/-- The function type with other types in their places, in the order of its parts; the last is
that of its predicate. -/
def withParts (f : Signature) (types : List TypeId) : Signature :=
  let behind := types.drop f.params.length
  let last := behind.drop f.rest.toList.length
  { f with
    params := f.params.zipWith (fun p type => { p with type }) types
    rest := f.rest.map behind.headD
    result := last.headD f.result
    predicate := f.predicate.map fun p => { p with type := last.tail.headD p.type } }

end Signature

/-- The types a node is made of, in order; a bound or default of a parameter is
no part. -/
def Ty.parts : Ty → List TypeId
  | .object o => o.properties.map (·.type) ++ o.index.toList
  | .array e => [e]
  | .tuple t => t.types
  | .function f => f.parts ++ (f.predicate.map (·.type)).toList
  | .union ms | .intersection ms => ms
  | .reference _ args => args
  | .conditional c => [c.check, c.pattern, c.yes, c.no]
  | .mapped m => [m.keys, m.template]
  | .keyOf t | .promise t | .caseMapped _ t => [t]
  | .indexed o i => [o, i]
  | .template spans => spans.filterMap fun
    | .hole h => some h
    | .text _ => none
  | _ => []

/-- The spans of a template with other types in its holes. -/
def fillHoles : List TemplateSpan → List TypeId → List TemplateSpan
  | .hole _ :: spans, type :: types => .hole type :: fillHoles spans types
  | .text s :: spans, types => .text s :: fillHoles spans types
  | spans, _ => spans

/-- The node with other types in the places of its parts. -/
def Ty.withParts : Ty → List TypeId → Ty
  | .object o, types =>
    .object ⟨o.properties.zipWith (fun p type => { p with type }) types,
      o.index.map (types.drop o.properties.length).headD⟩
  | .array _, [e] => .array e
  | .tuple t, types =>
    .tuple ⟨t.elements.zipWith (fun e type => { e with type }) types,
      t.rest.map (types.drop t.elements.length).headD⟩
  | .function f, types => .function (f.withParts types)
  | .union _, types => .union types
  | .intersection _, types => .intersection types
  | .reference name _, types => .reference name types
  | .conditional c, [check, pattern, yes, no] =>
    .conditional ⟨check, pattern, yes, no, c.distributive⟩
  | .mapped m, [keys, body] => .mapped { m with keys, template := body }
  | .keyOf _, [operand] => .keyOf operand
  | .promise _, [inner] => .promise inner
  | .caseMapped change _, [inner] => .caseMapped change inner
  | .indexed .., [base, key] => .indexed base key
  | .template spans, types => .template (fillHoles spans types)
  | ty, _ => ty

namespace TypeTable

variable (t : TypeTable)

/-- The free parameters of a type after those in `out`, outside those in
`bound`, with `fuel` levels to go. -/
def freeParamsWithin (t : TypeTable) :
    (fuel : Nat) → (bound out : List TypeId) → TypeId → List TypeId
  | 0, _, out, _ => out
  | fuel + 1, bound, out, id =>
    match t.resolve id with
    | .param _ => if id ∈ bound then out else addOnce out id
    | .mapped m =>
      t.freeParamsWithin fuel (m.param :: bound) (t.freeParamsWithin fuel bound out m.keys)
        m.template
    | .function f =>
      (Ty.function f).parts.foldl (t.freeParamsWithin fuel (f.typeParams ++ bound)) out
    | ty => ty.parts.foldl (t.freeParamsWithin fuel bound) out

/-- The type parameters that occur free in a type, in order. -/
def freeParams (id : TypeId) : List TypeId :=
  t.freeParamsWithin (t.limits.maxDepth + 1) [] [] id

/-- The parts of a node that may hold placeholders of its pattern. -/
def patternParts : Ty → List TypeId
  | .function f => f.parts
  | .conditional _ | .mapped _ | .caseMapped .. => []
  | ty => ty.parts

def placeholdersWithin (t : TypeTable) : (fuel : Nat) → (out : List TypeId) → TypeId → List TypeId
  | 0, out, _ => out
  | fuel + 1, out, id =>
    match t.resolve id with
    | .infer _ => addOnce out id
    | ty => (patternParts ty).foldl (t.placeholdersWithin fuel) out

/-- The `infer` placeholders of a pattern, in order. -/
def placeholders (id : TypeId) : List TypeId :=
  t.placeholdersWithin (t.limits.maxDepth + 1) [] id

end TypeTable

/-- Whether a type parameter occurs free in a type. -/
def isOpen (id : TypeId) : TableM Bool := return !((← get).freeParams id).isEmpty

/-- Whether the evaluation of a type has to wait for its parameters: one occurs
free, and the type is no object. -/
def isDeferred (id : TypeId) : TableM Bool := do
  let t ← get
  return !(t.freeParams id).isEmpty && !(t.resolve id).isObject

end GradualTyping
