/-
# Matching a pattern

The pattern of a conditional is laid over a type, and every `infer` placeholder
is bound to what it meets.  Polarity changes under the parameters of functions.
Parts that do not match bind nothing; whether the pattern as a whole holds is
decided by comparison afterwards.
-/

import GradualTyping.Reduction.Template

namespace GradualTyping
namespace Reduction

variable (deeper : Operations)

/-- The placeholder `P` of a rest parameter written `...args: infer P`. -/
def spreadPlaceholder? (t : TypeTable) (rest : TypeId) : Option TypeId :=
  match t.resolve rest with
  | .indexed object index =>
    match t.resolve object with
    | .infer _ => if index = .number then some object else none
    | _ => none
  | _ => none

/-- The parameters of `source` from place `start` on as a tuple. -/
def remainingParams (source : Signature) (start : Nat) : TableM TypeId :=
  tupleOf ((source.params.drop start).map fun p => ⟨p.type, p.optional⟩) source.rest

/-- A rest parameter of the pattern over the remaining parameters of `source`. -/
def matchRest (rest : TypeId) (start : Nat) (source : Signature)
    (contravariant : Bool) : MatchM Unit := do
  match spreadPlaceholder? (← (get : TableM TypeTable)) rest with
  | some placeholder =>
    let tuple ← (remainingParams source start : TableM TypeId)
    modifyThe Bindings (Bindings.add placeholder tuple !contravariant)
  | none =>
    match source.rest with
    | some sourceRest => deeper.matchPattern rest sourceRest !contravariant
    | none => return ()

/-- A pattern over an evaluated type, both given with their nodes. -/
def matchNodes (pattern source : TypeId) (contravariant : Bool) :
    (patternTy sourceTy : Ty) → MatchM Unit
  | .array p, .array s => deeper.matchPattern p s contravariant
  | .array p, .tuple s => do
    let joined ← (unionOf s.types : TableM TypeId)
    deeper.matchPattern p joined contravariant
  | .tuple p, .tuple s => do
    (p.elements.zip s.elements).forM fun (pe, se) =>
      deeper.matchPattern pe.type se.type contravariant
    match p.rest, s.rest with
    | some pr, some sr => deeper.matchPattern pr sr contravariant
    | _, _ => return ()
  | .object p, .object s =>
    p.properties.forM fun prop =>
      match s.read? prop.name with
      | some type => deeper.matchPattern prop.type type contravariant
      | none => return ()
  | .function p, .function s => do
    (p.params.zip s.params).forM fun (pp, sp) =>
      deeper.matchPattern pp.type sp.type !contravariant
    match p.rest with
    | some rest => matchRest deeper rest p.params.length s contravariant
    | none => pure ()
    deeper.matchPattern p.result s.result contravariant
  | .promise p, .promise s => deeper.matchPattern p s contravariant
  | .reference p pargs, .reference s sargs =>
    if p = s then
      (pargs.zip sargs).forM fun (pa, sa) => deeper.matchPattern pa sa contravariant
    else expandPattern
  | .reference _ _, _ => expandPattern
  | .template spans, .literal (.string text) => matchTemplate spans text
  | _, _ => return ()
where
  /-- Match what a reference stands for. -/
  expandPattern : MatchM Unit := do
    let expanded ← (deeper.evaluate pattern : TableM TypeId)
    if expanded = pattern then return () else deeper.matchPattern expanded source contravariant

/-- Match a pattern with a type, one level above `deeper`.  A pattern that is no
union is laid over each member of a union. -/
def matchStep (pattern source : TypeId) (contravariant : Bool) :
    MatchM Unit :=
  guarded () do
    let t ← (get : TableM TypeTable)
    match t.resolve pattern with
    | .infer _ => modifyThe Bindings (Bindings.add pattern source contravariant)
    | patternTy =>
      if (t.placeholders pattern).isEmpty then return ()
      else
        let source ← (deeper.evaluate source : TableM TypeId)
        match ← (resolve source : TableM Ty) with
        | .union members =>
          if patternTy.isUnion then return ()
          else members.forM fun m => deeper.matchPattern pattern m contravariant
        | sourceTy => matchNodes deeper pattern source contravariant patternTy sourceTy

end Reduction
end GradualTyping
