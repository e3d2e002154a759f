/-
# Template literals and case changes

A template whose holes have finitely many texts denotes the union of all ways to
fill them, in order, as long as there are not more than the limit; otherwise it
is `string`.  Matching a text with a template gives each hole the shortest text
up to the next fixed text, and the last hole the remainder.
-/

import GradualTyping.Operations
import GradualTyping.Types.Union
import GradualTyping.Types.Parts

namespace GradualTyping
namespace Reduction

variable (ops : Operations)

/-- The texts of a type that is no union. -/
def memberTexts? (t : TypeTable) (id : TypeId) : Option (List String) :=
  match t.resolve id with
  | .literal l => some [l.text]
  | .never => some []
  | .primitive .boolean => some ["false", "true"]
  | .primitive .null => some ["null"]
  | .primitive .undefined => some ["undefined"]
  | _ => none

/-- The texts of a type, if there are finitely many. -/
def texts? (t : TypeTable) (id : TypeId) : Option (List String) :=
  match t.resolve id with
  | .union members => (members.mapM (memberTexts? t)).map List.flatten
  | _ => memberTexts? t id

/-- Every text of the first list before every text of the second. -/
def concatenations (heads tails : List String) : List String :=
  heads.flatMap fun h => tails.map (h ++ ·)

/-- The number of texts of a product, counted up to `2^64 - 1`. -/
def productSize (a b : Nat) : Nat := min (a * b) (UInt64.size - 1)

/-- How far the expansion of a template came. -/
inductive Expansion where
  | texts (all : List String)
  /-- The template waits for a type parameter. -/
  | deferred
  /-- The template is any string. -/
  | widened

/-- Expand a template after the texts in `heads`. -/
def expand (ops : Operations) (limit : Nat) : List TemplateSpan → List String → TableM Expansion
  | [], heads => return .texts heads
  | .text s :: spans, heads => expand ops limit spans (heads.map (· ++ s))
  | .hole h :: spans, heads => do
    let hole ← ops.evaluate h
    match texts? (← get) hole with
    | some tails =>
      if limit < productSize heads.length tails.length then return .widened
      else expand ops limit spans (concatenations heads tails)
    | none => if ← isOpen hole then return .deferred else return .widened

/-- The normal form of a template at `id`. -/
def template (id : TypeId) (spans : List TemplateSpan) : TableM TypeId := do
  match ← expand ops (← getLimits).templateLimit spans [""] with
  | .texts all => unionOf (← all.mapM stringLiteral)
  | .deferred => return id
  | .widened => return .string

/-- The case change at `id` of `inner`, given the normal form of `inner`. -/
def changeCase (id : TypeId) (change : CaseChange) (inner evaluated : TypeId) :
    TableM TypeId := do
  match ← resolve evaluated with
  | .literal (.string s) => stringLiteral (change.apply s)
  | .union members =>
    let parts ← members.mapM fun m => do ops.evaluate (← intern (.caseMapped change m))
    unionOf parts
  | .primitive .string => return .string
  | .any => return .any
  | .never => return .never
  | _ => if evaluated = inner then return id else intern (.caseMapped change evaluated)

/-- The normal form of a case change at `id`. -/
def caseMapped (id : TypeId) (change : CaseChange) (inner : TypeId) :
    TableM TypeId := do
  changeCase ops id change inner (← ops.evaluate inner)

/-! ### Matching a text -/

/-- What follows `text` at the start of a list. -/
def after? : (text rest : List Char) → Option (List Char)
  | [], rest => some rest
  | c :: cs, r :: rs => if c = r then after? cs rs else none
  | _ :: _, [] => none

/-- What stands before the first occurrence of `text`. -/
def before? (text : List Char) : List Char → Option (List Char)
  | [] => if text.isEmpty then some [] else none
  | r :: rs => if (after? text (r :: rs)).isSome then some [] else (before? text rs).map (r :: ·)

/-- The text of a hole, from the span that follows it. -/
def piece? (rest : List Char) : List TemplateSpan → Option (List Char)
  | .text next :: _ => before? next.toList rest
  | .hole _ :: _ => some (rest.take 1)
  | [] => some rest

/-- The holes of a template with their texts, up to the first span that does not
fit. -/
def fill : List TemplateSpan → List Char → List (TypeId × String)
  | [], _ => []
  | .text s :: spans, rest =>
    match after? s.toList rest with
    | some rest => fill spans rest
    | none => []
  | .hole h :: spans, rest =>
    match piece? rest spans with
    | some piece => (h, String.ofList piece) :: fill spans (rest.drop piece.length)
    | none => []

/-- Bind the placeholders among the holes of a template to their texts. -/
def matchTemplate (spans : List TemplateSpan) (text : String) : MatchM Unit :=
  (fill spans text.toList).forM fun (hole, piece) => do
    match ← (resolve hole : TableM Ty) with
    | .infer _ =>
      let literal ← (stringLiteral piece : TableM TypeId)
      modifyThe Bindings (Bindings.add hole literal false)
    | _ => return ()

end Reduction
end GradualTyping
