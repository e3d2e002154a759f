/-
# Guards

A guard says what holds of variables when a condition is true; its negation says
what holds when the condition is false.  `Guard.ofCondition` reads the guard off
an expression:

| Condition                           | Guard                          |
|-------------------------------------|--------------------------------|
| `typeof x === "t"`                  | `typeOf`                       |
| `x instanceof C`                    | `instanceOf`                   |
| `f(x)` where `f` returns `x is T`   | `predicate`                    |
| `"key" in x`                        | `hasKey`                       |
| `x`                                 | `truthy`                       |
| `x === null`, `x == undefined`, …   | `nullish`                      |
| `x === "lit"`                       | `equals`                       |
| `x.tag === "lit"`                   | `fieldEquals`                  |
| `!c`, `c && d`, `c \|\| d`          | negation, `and`, `or`          |
| anything else                       | `vacuous`                      |

Equality tests are read with either operand as the subject.
-/

import GradualTyping.Program.Basic

namespace GradualTyping

/-- The nullish values that a test is about. -/
inductive NullTest where
  | null
  | undefined
  /-- A loose comparison does not tell them apart. -/
  | both
deriving DecidableEq, Repr, Inhabited

/-- A test of one variable. -/
inductive Test where
  /-- The run-time tag is the given text. -/
  | typeOf (tag : String)
  /-- The value is an instance of a class with these instances. -/
  | instanceOf (type : TypeId)
  /-- The value is an object with a field of the given name. -/
  | hasKey (key : String)
  | truthy
  | nullish (kind : NullTest)
  /-- The value is the only one of the given type. -/
  | equals (value : TypeId)
  /-- A field of the value is the only value of the given type. -/
  | fieldEquals (field : String) (value : TypeId)
  /-- A predicate function has said that the value is of the given type. -/
  | predicate (type : TypeId)
deriving DecidableEq, Repr, Inhabited

/-- What holds on one edge of a condition. -/
inductive Guard where
  /-- A test of a variable holds, or fails if `negated`. -/
  | simple (var : String) (test : Test) (negated : Bool)
  | and (left right : Guard)
  | or (left right : Guard)
  /-- Nothing is known. -/
  | vacuous
deriving DecidableEq, Repr, Inhabited

namespace Guard

/-- What holds on the other edge. -/
def negate : Guard → Guard
  | simple var test negated => simple var test (!negated)
  | and left right => or left.negate right.negate
  | or left right => and left.negate right.negate
  | vacuous => vacuous

/-- The variable of a single test. -/
def var? : Guard → Option String
  | simple var _ _ => some var
  | _ => none

def isVacuous : Guard → Bool
  | vacuous => true
  | _ => false

/-- The test of a variable, holding. -/
def holds (var : String) (test : Test) : Guard := simple var test false

/-- Two guards together, unless both are vacuous. -/
def combine (join : Guard → Guard → Guard) (left right : Guard) : Guard :=
  if left.isVacuous && right.isVacuous then vacuous else join left right

end Guard

/-- What reading a guard needs to know of the types of expressions. -/
structure GuardFacts (m : Type → Type) where
  /-- The type of a literal, `null` or `undefined`, which has one value. -/
  unit? : Expr → m (Option TypeId)
  /-- The instances of the class on the right of `instanceof`. -/
  instances? : Expr → m (Option TypeId)
  /-- The predicate of a function that is called. -/
  predicate? : Expr → m (Option Predicate)

namespace Guard

variable {m : Type → Type} [Monad m] (facts : GuardFacts m)

/-- The test of a variable against a constant. -/
def equalityTest? (op : BinaryOp) (constant : Expr) : m (Option Test) := do
  match constant.kind with
  | .null => return some (.nullish (if op.isLoose then .both else .null))
  | .undefined => return some (.nullish (if op.isLoose then .both else .undefined))
  | _ => return (← facts.unit? constant).map .equals

/-- The guard of `subject = constant`, negated for an inequality. -/
def ofEquality? (op : BinaryOp) (subject constant : Expr) : m (Option Guard) := do
  let build (e : Expr) (test : m (Option Test)) : m (Option Guard) := do
    match e.ident? with
    | none => return none
    | some var => return (← test).map (simple var · op.isNegatedEquality)
  match subject.kind with
  | .unary .typeOf operand =>
    build operand <| return match constant.kind with
      | .string tag => some (.typeOf tag)
      | _ => none
  | .member object field =>
    build object do return (← facts.unit? constant).map (.fieldEquals field)
  | _ => build subject (equalityTest? facts op constant)

/-- The guard of a call: that of the predicate of the function, if its place
among the arguments is a variable. -/
def ofCall? (asserts : Bool) (callee : Expr) (args : List Expr) : m (Option Guard) := do
  match ← facts.predicate? callee with
  | none => return none
  | some p =>
    if p.asserts = asserts then
      return (args[p.param]?.bind (·.ident?)).map (holds · (.predicate p.type))
    else return none

/-- The guard of a condition. -/
def ofCondition : Expr → m Guard
  | .mk _ (.ident name) _ => return holds name .truthy
  | .mk _ (.unary .not operand) _ => return (← ofCondition operand).negate
  | .mk _ (.binary .and left right) _ => do
    let l ← ofCondition left
    let r ← ofCondition right
    return combine and l r
  | .mk _ (.binary .or left right) _ => do
    let l ← ofCondition left
    let r ← ofCondition right
    return combine or l r
  | .mk _ (.binary .instanceOf left right) _ => do
    let type ← facts.instances? right
    match left.ident?, type with
    | some var, some type => return holds var (.instanceOf type)
    | _, _ => return vacuous
  | .mk _ (.binary .in_ left right) _ => do
    match left.kind, right.ident? with
    | .string key, some var => return holds var (.hasKey key)
    | _, _ => return vacuous
  | .mk _ (.binary op left right) _ => do
    if op.isEquality then
      match ← ofEquality? facts op left right with
      | some guard => return guard
      | none => return (← ofEquality? facts op right left).getD vacuous
    else return vacuous
  | .mk _ (.call callee _ args) _ => return (← ofCall? facts false callee args).getD vacuous
  | _ => return vacuous

/-- The guard of a condition that refines something. -/
def ofCondition? (e : Expr) : m (Option Guard) := do
  let guard ← ofCondition facts e
  return if guard.isVacuous then none else some guard

/-- What holds after the call of a function that asserts a predicate. -/
def ofAssertion? (e : Expr) : m (Option Guard) := do
  match e.kind with
  | .call callee _ args => ofCall? facts true callee args
  | _ => return none

end Guard

end GradualTyping
