/-
# Narrowing and aliases in lockstep

What is built on the operations at the depth of the table: looking through names,
narrowing by a test, and applying an alias to arguments.
-/

import GradualTyping.Proofs.Lockstep.Comparison
import GradualTyping.Narrowing.Narrow
import GradualTyping.Aliases

namespace GradualTyping

open Narrowing

namespace Lockstep

/-- The operations at the depths of the two tables are in lockstep. -/
structure Asks (L : Lockstep) : Prop where
  operations {α : Type} {k k' : Operations → TableM α} :
    (∀ {ops ops'}, L.Joined ops ops' → L.Rel (k ops) (k' ops')) →
    L.Rel (getOperations >>= k) (getOperations >>= k')

variable {L : Lockstep}

/-! ### The members of a type -/

section Members

variable (A : L.Asks)

include A

theorem Asks.evaluate {id : TypeId} : L.Rel (evaluate id) (evaluate id) := A.operations (·.evaluate id)

theorem Asks.evaluateNode {id : TypeId} : L.Rel (evaluateNode id) (evaluateNode id) :=
  L.bind A.evaluate L.resolve

theorem Asks.isSubtype (sub sup : TypeId) : L.Rel (isSubtype sub sup) (isSubtype sub sup) :=
  A.operations (·.subtype sub sup)

theorem Asks.isTop {type : TypeId} : L.Rel (isTop type) (isTop type) := by
  refine L.bind A.evaluateNode fun ty => ?_
  split
  · exact L.pure _
  · exact L.pure _
  · exact L.pure _

theorem Asks.evaluatedMembers {type : TypeId} :
    L.Rel (evaluatedMembers type) (evaluatedMembers type) := by
  refine L.bind A.evaluateNode fun ty => ?_
  split
  · exact L.pure _
  · exact L.pure _
  · exact L.pure _

theorem Asks.unfoldWithin (fuel : Nat) (type : TypeId) :
    L.Rel (unfoldWithin fuel type) (unfoldWithin fuel type) := by
  induction fuel generalizing type with
  | zero => exact L.pure []
  | succ fuel ih =>
    refine L.bind (L.resolve type) fun ty => ?_
    split
    · exact L.bind (L.self.mapM fun m _ => ih m) fun members => L.pure _
    · exact L.pure []
    · refine L.get (fun _ _ _ => rfl) fun t => ?_
      split
      · split
        · exact A.evaluatedMembers
        · exact ih _
      · exact A.evaluatedMembers

end Members

/-! ### Narrowing -/

/-- The operations at the depths of the two tables are in lockstep, and so is looking
through names, as far as the limits of the tables allow it. -/
structure Narrows (L : Lockstep) : Prop extends L.Asks where
  namedMembers (type : TypeId) : L.Rel (namedMembers type) (namedMembers type)

namespace Narrows

variable (N : L.Narrows)
variable {type : TypeId} {negated : Bool}

include N

theorem memberForms : L.Rel (memberForms type) (memberForms type) :=
  L.bind (N.namedMembers type) fun _ => L.self.mapM fun _ _ =>
    L.bind N.evaluate fun _ => L.pure _

theorem keepMembers {keep : TypeId → TableM (Option TypeId)}
    (hkeep : ∀ m, L.Rel (keep m) (keep m)) :
    L.Rel (keepMembers type keep) (keepMembers type keep) := by
  refine L.bind N.memberForms fun forms => ?_
  exact L.bind (L.self.filterMapM fun p _ => L.bind (hkeep p.2) fun _ => L.pure _) fun kept =>
    L.unionOf kept

theorem filterMembers {keep : TypeId → TableM Bool} (hkeep : ∀ m, L.Rel (keep m) (keep m)) :
    L.Rel (filterMembers type keep) (filterMembers type keep) :=
  N.keepMembers fun m => L.bind (hkeep m) fun _ => L.pure _

/-- A type without members to choose from is taken apart. -/
theorem unlessTop {top rest : TableM TypeId} (htop : L.Rel top top)
    (hrest : L.Rel rest rest) :
    L.Rel (do if ← isTop type then top else rest) (do if ← isTop type then top else rest) := by
  refine L.bind N.isTop fun b => ?_
  split
  · exact htop
  · exact hrest

omit N in
theorem typeOfTag? {tag : String} :
    L.Rel (typeOfTag? tag) (typeOfTag? tag) := by
  unfold Narrowing.typeOfTag?
  split
  case h_7 => exact L.bind L.objectOf fun _ => L.bind (L.unionOf _) fun _ => L.pure _
  all_goals exact L.pure _

theorem byTag {tag : String} :
    L.Rel (byTag type tag negated) (byTag type tag negated) := by
  refine N.unlessTop ?_ (N.filterMembers fun m => L.bind (L.resolve m) fun ty => ?_)
  · split
    · exact L.pure type
    · exact L.bind typeOfTag? fun found => L.pure _
  · split
    · exact L.pure _
    · exact L.pure _

theorem byTruth (type : TypeId) (negated : Bool) :
    L.Rel (byTruth type negated) (byTruth type negated) := by
  refine N.unlessTop (L.pure type) (N.keepMembers fun m => ?_)
  split
  · exact L.pure _
  · exact L.bind (L.resolve m) fun ty => L.pure _

theorem byNull (kind : NullTest) :
    L.Rel (byNull type kind negated) (byNull type kind negated) := by
  refine N.unlessTop ?_ (N.filterMembers fun m => L.bind (L.resolve m) fun ty => L.pure _)
  split
  · exact L.pure type
  · cases kind with
    | both => exact L.unionOf _
    | _ => exact L.pure _

omit N in
theorem equalMember {value m : TypeId} :
    L.Rel (equalMember value m) (equalMember value m) := by
  refine L.bind (L.resolve m) fun node => L.bind (L.resolve value) fun ty => ?_
  dsimp only
  split
  · exact L.pure _
  · exact L.pure _
  · exact L.pure _

theorem byValue {value : TypeId} :
    L.Rel (byValue type value negated) (byValue type value negated) := by
  refine N.unlessTop (L.pure _) (N.keepMembers fun m => ?_)
  split
  · exact L.pure _
  split
  · exact L.pure _
  split
  · exact L.pure _
  split
  · exact L.pure _
  · exact equalMember

theorem byField {field : String} {value : TypeId} :
    L.Rel (byField type field value negated)
      (byField type field value negated) := by
  refine N.unlessTop (L.pure type) (N.filterMembers fun m => ?_)
  refine L.bind (L.resolve m) fun ty => ?_
  split
  · exact L.pure _
  · refine L.bind N.evaluate fun fieldType => ?_
    split
    · exact L.pure _
    · exact N.isSubtype value fieldType

omit N in
theorem gainKey (withKey m : TypeId) :
    L.Rel (gainKey withKey m) (gainKey withKey m) := by
  have meet : L.Rel (do return some (← GradualTyping.intersectionOf [m, withKey]))
      (do return some (← GradualTyping.intersectionOf [m, withKey])) :=
    L.bind L.intersectionOf fun _ => L.pure _
  refine L.bind (L.resolve m) fun ty => ?_
  split
  · split
    · exact meet
    · exact L.pure _
  · exact meet
  all_goals exact L.pure _

theorem byKey {key : String} :
    L.Rel (byKey type key negated) (byKey type key negated) := by
  refine N.unlessTop (L.pure type) (L.bind N.memberForms fun forms => ?_)
  refine L.get (fun _ _ _ => rfl) fun t => ?_
  dsimp only
  split
  · exact L.bind L.objectOf fun withKey => N.keepMembers (gainKey withKey)
  · exact N.filterMembers fun m => L.bind (L.resolve m) fun ty => L.pure _

theorem byType {target : TypeId} :
    L.Rel (byType type target negated) (byType type target negated) := by
  refine N.unlessTop (L.pure _) (N.keepMembers fun m => ?_)
  refine L.bind (N.isSubtype m target) fun within => ?_
  split
  · exact L.pure _
  split
  · exact L.pure _
  · exact L.bind (N.isSubtype target m) fun _ => L.pure _

/-- **Narrowing by a test is in lockstep.** -/
theorem narrowByTest {test : Test} :
    L.Rel (narrowByTest type test negated) (narrowByTest type test negated) := by
  cases test with
  | typeOf tag => exact N.byTag
  | truthy => exact N.byTruth type negated
  | nullish kind => exact N.byNull kind
  | equals value => exact N.byValue
  | fieldEquals field value => exact N.byField
  | hasKey key => exact N.byKey
  | instanceOf target => exact N.byType
  | predicate target => exact N.byType

end Narrows

/-! ### Aliases -/

/-- Operations that may fail. -/
def except (L : Lockstep) (ε : Type) : L.Over (ExceptT ε TableM) (ExceptT ε TableM) where
  Rel c c' := L.Rel c.run c'.run
  pure a := L.pure (Except.ok a)
  bind h k := by
    rw [ExceptT.run_bind, ExceptT.run_bind]
    refine L.bind h fun r => ?_
    cases r with
    | error e => exact L.pure (Except.error e)
    | ok a => exact k a
  lift h := L.bind h fun a => L.pure (Except.ok a)
  look := L.look

theorem display (id : TypeId) : L.Rel (display id) (display id) := by
  refine L.reads _ fun t p _ => ?_
  have levels (n : Nat) : (t.under p).writeWithin n = t.writeWithin n := by
    induction n with
    | zero => rfl
    | succ n ih =>
      funext id
      rw [TypeTable.writeWithin, TypeTable.writeWithin, ih]
      rfl
  exact congrFun (levels _) id

section Aliases

variable (A : L.Asks)

include A

theorem Asks.substitute (s : Substitution) (id : TypeId) :
    L.Rel (substitute s id) (substitute s id) :=
  A.operations (·.substitute)

theorem Asks.bindArguments (params args : List TypeId) (s : Substitution) :
    (L.except TypeError).Rel (bindArguments params args s) (bindArguments params args s) := by
  let E := L.except TypeError
  induction params generalizing args s with
  | nil => exact E.pure []
  | cons param params ih =>
    refine E.get (fun _ _ _ => rfl) fun t => ?_
    let Q (c : TypeM (List TypeId)) : Prop := E.Rel c c
    show Q _
    extract_lets declared bound
    have hbound (arg : TypeId) : Q (bound arg) := by
      unfold bound
      extract_lets s rest
      have hrest (u : Unit) : Q (rest u) :=
        E.bind (ih args.tail s) fun full => E.pure _
      split
      · refine E.bind (E.lift (A.substitute _ _)) fun bound => ?_
        refine E.bind (E.lift (A.isSubtype _ _)) fun holds => ?_
        split
        · exact hrest ()
        · refine E.bind (E.lift (L.display _)) fun actual => ?_
          exact E.bind (E.lift (L.display _)) fun bound => L.pure _
      · exact hrest ()
    split
    · exact hbound _
    · split
      · exact E.bind (E.lift (A.substitute _ _)) hbound
      · exact hbound _

theorem Asks.instantiateAlias {name : String} {args : List TypeId} :
    (L.except TypeError).Rel (instantiateAlias name args) (instantiateAlias name args) := by
  let E := L.except TypeError
  refine E.get (fun _ _ _ => rfl) fun t => ?_
  split
  · exact L.pure _
  · split
    · exact L.pure _
    · exact E.bind (A.bindArguments _ _ _) fun full => E.lift (L.intern _)

end Aliases

end Lockstep

end GradualTyping
