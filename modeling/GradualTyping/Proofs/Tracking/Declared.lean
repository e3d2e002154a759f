/-
# Variables stay within their declarations

After every statement of a unit, what the environment says of a name is about the innermost
variable of the name, and comes from the declared type of that variable by tests, joins and
assignments (`Refined`).  If the variable is never asked for its type and its declared type
is plain, it is a subtype of the declared type.

This needs that no declarations of the name clash: the type of a variable gets out of its
scope with a `break`, and a constant inside a function may get the type of the variable that
it covers.

States inside a check are spoken of through observers, computations that are run after every
statement: a condition holds after every statement if no observer that does nothing where it
holds is noticed.
-/

import GradualTyping.Proofs.Narrowing.Confinement

namespace GradualTyping

open TypeTable Checking

/-! ### The region of a declared type -/

/-- What a variable of a declared type may come to: the declared type, on an edge of a test,
where two paths join and after an assignment. -/
inductive Refined (declared : TypeId) : TypeTable → TypeId → Prop
  | declared {t : TypeTable} : Refined declared t declared
  | narrowed {t : TypeTable} {type : TypeId} (test : Test) (negated : Bool) :
      Refined declared t type →
      Refined declared (narrowByTest type test negated t).2 (narrowByTest type test negated t).1
  | joined {t : TypeTable} {a b : TypeId} : Refined declared t a → Refined declared t b →
      Refined declared (unionOf [a, b] t).2 (unionOf [a, b] t).1
  | assigned {t : TypeTable} (value : TypeId) :
      Refined declared (narrowByAssignment declared value t).2
        (narrowByAssignment declared value t).1
  | later {t t' : TypeTable} {type : TypeId} : t.Continues t' → Refined declared t type →
      Refined declared t' type

theorem Test.ne_of_not_asksType {test : Test} (h : test.asksType = false) (target : TypeId) :
    test ≠ .instanceOf target ∧ test ≠ .predicate target := by
  constructor <;> rintro rfl <;> cases h

/-- What a variable may come to; if it is not asked for its type, inside its declared
type. -/
def Region.refined (asked : Prop) : Region where
  Has declared t type := Refined declared t type ∧
    (¬asked → t.Plain declared → t.Inside declared type)
  askable := asked
  assignable := True
  later s g hd htype h := ⟨.later g h.1, fun hasked plain =>
    (h.2 hasked (plain.of_grows s g hd)).grows s g hd htype⟩
  union s hd ha hb has hbs := by
    have hxs := below_pair.2 ⟨ha, hb⟩
    have made : Leaves Runs _ (unionOf _) _ := safe_unionOf s hxs
    refine ⟨made.sound, made.related, .joined has.1 hbs.1, fun hasked plain => ?_⟩
    have plain := plain.of_grows s made.related hd
    refine Leaves.post (inside_unionOf s hxs hd ?_)
    exact List.forall_mem_cons.2 ⟨has.2 hasked plain, List.forall_mem_singleton.2 (hbs.2 hasked plain)⟩
  narrow negated hask s hd ha htest has := by
    have made : Leaves Runs _ (narrowByTest _ _ _) _ := safe_narrowByTest s ha htest negated
    refine ⟨made.sound, made.related, .narrowed _ negated has.1, fun hasked plain => ?_⟩
    have inside := has.2 hasked (plain.of_grows s made.related hd)
    have plainTest := Bool.eq_false_iff.2 fun e => hasked (hask e)
    exact Leaves.post (inside_narrowByTest s hd ha inside htest
      (Test.ne_of_not_asksType plainTest))
  declared _ _ _ := ⟨.declared, fun _ plain => plain.inside⟩
  assigned _ s hd ha := by
    have made : Leaves Runs _ (narrowByAssignment _ _) _ := safe_narrowByAssignment s hd ha
    refine ⟨made.sound, made.related, .assigned _, fun _ plain => ?_⟩
    exact Leaves.post (inside_narrowByAssignment s hd (plain.of_grows s made.related hd) ha)

/-! ### States after statements -/

/-- Check a unit with an observer. -/
def watchProgram (after : CheckM Unit) (settings : Settings) (values : List (String × TypeId))
    (unit : CodeUnit) : TableM CheckResult := do
  let start ← start settings values
  let walk : CheckM Unit := do
    recordFrom .entry [] {}
    (Checks.observing after (heightStmts unit.statements)).statements unit.statements
  let (_, s) ← walk.run start
  return { exprTypes := s.exprTypes, errors := s.errors, flow := s.flow
           declarations := s.declarations }

/-- A condition holds after every statement of a unit: whatever else an observer does, it is
not noticed if it does nothing where the condition holds. -/
def AfterStatements (settings : Settings) (values : List (String × TypeId)) (unit : CodeUnit)
    (t : TypeTable) (C : CheckState → TypeTable → Prop) : Prop :=
  ∀ after : CheckM Unit, (∀ s t, C s t → after s t = (((), s), t)) →
    watchProgram after settings values unit t = checkProgram settings values unit t

/-- The environment has a type for a name only where it is bound, and one that comes from the
declared type of the variable.  If the variable is not asked for its type and the declared
type is plain, it is a subtype, unless the guard trips. -/
def Confined (x : String) (asked : Prop) (s : CheckState) (t : TypeTable) : Prop :=
  ∀ type, s.env.get? x = some type → ∃ b, s.binding? x = some b ∧ Refined b.declared t type ∧
    (¬asked → t.Plain b.declared → (isSubtype type b.declared t).2.Untripped →
      (isSubtype type b.declared t).1 = true)

theorem InRegion.confined {x : String} {asked : Prop} {s : CheckState} {t : TypeTable}
    (st : Stands s t) (h : InRegion x (.refined asked) (s.binding? x) t s.env) :
    Confined x asked s t := by
  intro type htype
  obtain ⟨b, hb, refined, inside⟩ := h.has trivial type htype
  have hdeclared : t.Has b.declared := CheckState.below_binding? st.below x b hb
  refine ⟨b, hb, refined, fun hasked plain untripped => ?_⟩
  exact (inside hasked plain).isSubtype st.sound st.rest plain hdeclared
    (TypeEnv.below_get? st.below.env x type htype) untripped

/-- Two declarations of a name clash in a unit. -/
def clashesUnit (x : String) (body : List Stmt) : Bool :=
  clashesBlock x body || hasStmts (ScopePattern.clashes x).pattern body

/-- A unit may be checked before anything is known of a name that does not clash. -/
theorem Point.admits_outermost {x : String} {body : List Stmt} (h : clashesUnit x body = false) :
    Point.outermost.Admits x (.refined (hasStmts (.asks x) body = true)) body := by
  obtain ⟨block, inside⟩ := Bool.or_eq_false_iff.1 h
  have immutable : ¬Point.outermost.Mutable := fun ⟨_, hb, _⟩ => nomatch hb
  have steady : Point.outermost.Steady := ⟨fun _ h => (nomatch h), fun h => absurd h immutable⟩
  refine ⟨blockAvoids_iff.2 fun p hp => ?_, fun hp => ?_⟩
  · cases hp with
    | scope hp =>
      cases hp with
      | clashes => exact inside
      | covers _ mutable => exact absurd mutable immutable
      | functions _ unsteady => exact absurd steady unsteady
    | declares hR => exact absurd trivial hR
    | asks hR => exact Bool.eq_false_iff.2 hR
    | assigns hP => exact absurd trivial (hP.resolve_left fun e => nomatch e)
  · cases hp with
    | clashes => exact block
    | covers _ mutable => exact absurd mutable immutable
    | functions _ unsteady => exact absurd steady unsteady

/-- **Variables stay within their declarations**, if the declarations of their name do not
clash. -/
theorem TypeTable.Reachable.afterStatements_confined {t : TypeTable} (h : t.Reachable)
    (settings : Settings) {values : List (String × TypeId)} (hvalues : Below t.size values)
    {unit : CodeUnit} {x : String} (clash : clashesUnit x unit.statements = false) :
    AfterStatements settings values unit t
      (Confined x (hasStmts (.asks x) unit.statements = true)) := by
  intro after quiet
  have silent : Quiet x (.refined (hasStmts (.asks x) unit.statements = true)) after :=
    fun s t st h => quiet s t (h.confined st)
  have follows := Checks.follows_observing silent (.inl trivial) (heightStmts unit.statements)
  have started : Leaves Runs t (Checking.start settings values) _ :=
    Checking.keeps_start h.sound hvalues
  obtain ⟨s₀, t₀, run⟩ : ∃ s₀ t₀, Checking.start settings values t = (s₀, t₀) :=
    ⟨_, _, (Prod.eta _).symm⟩
  obtain ⟨sound, runs, below, scopes, env, breaks⟩ := started.ends run
  have walk := follows.unit (Point.admits_outermost clash)
    ⟨sound, runs.evaluating.trans h.quiescent.evaluating, below⟩ scopes env breaks
  unfold watchProgram checkProgram
  rw [bind_of_eq run, bind_of_eq run]
  exact congrArg (fun r : (Unit × CheckState) × TypeTable => ((⟨r.1.2.exprTypes, r.1.2.errors,
    r.1.2.flow, r.1.2.declarations⟩ : CheckResult), r.2)) walk.same

/-- `let x: string | number = "a"; { const x: number = 1; } while (x) { x = 1; }` -/
def shadowingUnit : CodeUnit where
  path := "a.ts"
  statements :=
    [.mk (.var .let_ "x" (some (.union [.ofName "string", .ofName "number"]))
        (some (.mk 1 (.string "a") {}))) {},
      .mk (.block [.mk (.var .const "x" (some (.ofName "number"))
        (some (.mk 2 (.number ⟨0x3ff0000000000000⟩) {}))) {}]) {},
      .mk (.while_ (.mk 3 (.ident "x") {})
        [.mk (.expr (.mk 4 (.assign (.mk 5 (.ident "x") {})
          (.mk 6 (.number ⟨0x3ff0000000000000⟩) {})) {})) {}]) {}]

/-- A variable that is shadowed, tested and assigned to. -/
theorem afterStatements_confined_shadowing :
    clashesUnit "x" shadowingUnit.statements = false ∧
      AfterStatements {} [] shadowingUnit (.withLimits {})
        (Confined "x" (hasStmts (.asks "x") shadowingUnit.statements = true)) :=
  ⟨by decide, Reachable.afterStatements_confined (.start {}) {} below_nil (by decide)⟩

/-! ### A type that gets out of its scope -/

/-- Where the environment is reachable, its type for a variable is a subtype of the declared
one. -/
def withinDeclared (x : String) (s : CheckState) (t : TypeTable) : Bool :=
  !s.env.reachable || (s.binding? x).all fun b =>
    (s.env.get? x).all fun type => (isSubtype type b.declared t).1

/-- Give a unit up where a condition fails. -/
def stopUnless (C : CheckState → TypeTable → Bool) : CheckM Unit := fun s t =>
  if C s t then (((), s), t) else (((), { s with abandoned := true }), t)

/-- `let x: number = 1; while (true) { let x: string = "a"; break; } x;` -/
def escapingUnit : CodeUnit where
  path := "a.ts"
  statements :=
    [.mk (.var .let_ "x" (some (.ofName "number")) (some (.mk 1 (.number ⟨0x3ff0000000000000⟩) {}))) {},
      .mk (.while_ (.mk 2 (.bool true) {})
        [.mk (.var .let_ "x" (some (.ofName "string")) (some (.mk 3 (.string "a") {}))) {},
          .mk .break_ {}]) {},
      .mk (.expr (.mk 4 (.ident "x") {})) {}]

set_option maxRecDepth 20000 in
/-- **The type of a variable gets out of its scope with a `break`**: behind the loop the
outer variable has the type of the inner one. -/
theorem not_afterStatements_withinDeclared :
    ¬AfterStatements {} [] escapingUnit (.withLimits {}) fun s t => withinDeclared "x" s t = true := by
  intro h
  have same := h (stopUnless (withinDeclared "x")) fun s t hC => if_pos hC
  have stopped : (watchProgram (stopUnless (withinDeclared "x")) {} [] escapingUnit
      (.withLimits {})).1.exprTypes.get? 4 = none := by cbv
  have checked : (checkProgram {} [] escapingUnit (.withLimits {})).1.exprTypes.get? 4 =
      some .string := by cbv
  rw [same, checked] at stopped
  cases stopped

/-- What is wrong with a program. -/
def problems (statements : List Stmt) (limits : Limits) : List Problem :=
  (checkProgram {} [] { path := "a.ts", statements } (.withLimits limits)).1.errors.map (·.problem)

end GradualTyping
