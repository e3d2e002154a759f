/-
# Aliases

An alias is declared with its parameters, which makes its name usable, and
defined with its body later.  Applying an alias checks the number of arguments
and their bounds; arguments left out take the defaults of their parameters.
-/

import GradualTyping.Operations.Layers
import GradualTyping.Types.Display

namespace GradualTyping

/-- Type operations that may fail. -/
abbrev TypeM := ExceptT TypeError TableM

/-- Declare an alias without a body.  The answer is the reference that the body
may use for the alias itself. -/
def declareAlias (name : String) (params : List TypeId) : TableM TypeId := do
  let self ← referenceTo name params
  modify fun t => { t with aliases := t.aliases.insert name ⟨name, params, none⟩ }
  return self

/-- Give a declared alias its body, which must not be the alias itself. -/
def defineAlias (name : String) (body : TypeId) : TypeM Unit := do
  let t ← getThe TypeTable
  match t.alias? name with
  | none => throw (.undefinedType name)
  | some declared =>
    if t.resolve body = .reference name declared.params then throw (.circularReference name)
    set { t with aliases := t.aliases.insert name { declared with body := some body } }

/-- The parameter at a position, if one stands there. -/
def TypeTable.param? (t : TypeTable) (id : TypeId) : Option TypeParam :=
  match t.resolve id with
  | .param p => some p
  | _ => none

/-- The number of leading parameters without a default. -/
def TypeTable.requiredParams (t : TypeTable) (params : List TypeId) : Nat :=
  (params.takeWhile fun p => ((t.param? p).bind (·.fallback)).isNone).length

/-- Give every parameter its argument or its default and check its bound.  Bounds
and defaults may mention the parameters before them, the bound also its own. -/
def bindArguments : (params args : List TypeId) → Substitution → TypeM (List TypeId)
  | [], _, _ => return []
  | param :: params, args, s => do
    let declared := (← getThe TypeTable).param? param
    let arg ← match args with
      | arg :: _ => pure arg
      | [] => match declared.bind (·.fallback) with
        | some fallback => (substitute s fallback : TableM TypeId)
        | none => pure .unknown
    let s := s.insert param arg
    if let some bound := declared.bind (·.bound) then
      let bound ← (substitute s bound : TableM TypeId)
      unless ← (isSubtype arg bound : TableM Bool) do
        let actual ← (display arg : TableM String)
        let bound ← (display bound : TableM String)
        throw (.constraintViolation ((declared.map (·.name)).getD "") actual bound)
    return arg :: (← bindArguments params args.tail s)

/-- Apply an alias to arguments. -/
def instantiateAlias (name : String) (args : List TypeId) : TypeM TypeId := do
  let t ← getThe TypeTable
  match t.alias? name with
  | none => throw (.undefinedType name)
  | some declared =>
    if args.length < t.requiredParams declared.params || declared.params.length < args.length then
      throw (.argumentCount name declared.params.length args.length)
    let full ← bindArguments declared.params args {}
    referenceTo name full

end GradualTyping
