/-
# Clauses of a switch

Control that is not stopped at the end of a clause goes on with the next one, so what is known
there has to cover the end of the clause before.  A clause is entered with what is left by the
tests of the clauses before it, whatever their bodies do.  The tests of the clauses speak of the
subject only: any other variable has the same type at all clauses, and a body that does not
change it, or changes it from its declared type, keeps it below that type.

For a variable that a body assigns to the next clause is wrong in general, and also for the
subject: a clause takes its own test for granted.
-/

import GradualTyping.Proofs.Tracking.Branches

namespace GradualTyping

open TypeTable List Checking TypeEnv

variable {x : String} {s s' : CheckState} {t t' : TypeTable} {env a b : TypeEnv}

/-! ### Guards that do not test a variable -/

namespace TypeEnv

/-- In another environment a variable has the same type. -/
structure Agrees (x : String) (env env' : TypeEnv) : Prop where
  ordered : env'.Ordered
  same : env'.get? x = env.get? x

theorem Agrees.trans {env' env'' : TypeEnv} (h : env.Agrees x env') (h' : env'.Agrees x env'') :
    env.Agrees x env'' :=
  ⟨h'.ordered, h'.same.trans h.same⟩

/-- Where paths join that agree on a variable it keeps its type. -/
theorem agrees_merge (ha : env.Agrees x a) (hb : env.Agrees x b) (t : TypeTable) :
    env.Agrees x (merge a b t).1 := by
  -- the names of the second path are entered one by one
  have enter : ∀ (bindings : List (String × TypeId)), (∀ p ∈ bindings, p ∈ b.bindings) →
      ∀ (merged : TypeEnv) (t : TypeTable), env.Agrees x merged →
      env.Agrees x ((bindings.foldlM (fun merged p =>
        return merged.insert p.1 (← joinTypes (a.get? p.1) p.2)) merged : TableM TypeEnv) t).1 := by
    intro bindings hbindings
    induction bindings with
    | nil => exact fun _ _ h => h
    | cons p bindings ih =>
      intro merged t h
      refine ih (fun q hq => hbindings q (mem_cons_of_mem p hq)) _ _ ⟨h.ordered.insert .., ?_⟩
      show (merged.insert p.1 (joinTypes (a.get? p.1) p.2 t).1).get? x = _
      rw [get?_insert]
      split
      · next hx =>
        subst hx
        have theirs := hb.ordered.get?_of_mem (hbindings p (mem_cons_self ..))
        have mine : a.get? p.1 = some p.2 := ha.same.trans (hb.same.symm.trans theirs)
        rw [mine, joinTypes, if_pos rfl]
        exact mine.symm.trans ha.same
      · exact h.same
  unfold merge
  split
  · exact ha
  split
  · exact hb
  · exact enter b.bindings (fun _ h => h) a t ha

/-- On the edges of a condition a variable that is not tested keeps its type. -/
theorem agrees_apply {guard : Guard} (untested : guard.Tests x fun _ => False) (h : env.Ordered)
    (t : TypeTable) : env.Agrees x (apply guard env t).1 := by
  have refl : ∀ {env : TypeEnv}, env.Ordered → env.Agrees x env := fun h => ⟨h, rfl⟩
  induction guard using Guard.readInduction generalizing env t with
  | vacuous => exact refl h
  | simple var test negated =>
    unfold apply
    split
    · exact refl h
    cases env.get? var with
    | none => exact refl h
    | some type =>
      have tested : ¬x = var := fun e => untested e.symm
      exact ⟨h.insert .., (get?_insert ..).trans (if_neg tested)⟩
  | and left right ihl ihr =>
    unfold apply
    split
    · exact refl h
    · have first := ihl untested.1 h t
      exact first.trans (ihr untested.2 first.ordered _)
  | or left right ihl ihn ihr =>
    rw [apply_or]
    split
    · exact refl h
    · have middle := ihn untested.1.negate h (apply left env t).2
      exact agrees_merge (ihl untested.1 h t) (middle.trans (ihr untested.2 middle.ordered _)) _

end TypeEnv

/-! ### The entry of a clause -/

/-- The clauses of a switch test a variable. -/
def SwitchSubject.Tests (subject : Option SwitchSubject) (x : String) : Prop :=
  ∃ tested, subject = some tested ∧ tested.variableName = x

namespace Checking

theorem agrees_bothEdges {guard : Guard} (untested : guard.Tests x fun _ => False)
    (h : env.Ordered) (t : TypeTable) : env.Agrees x (bothEdges env guard t).1.1 ∧
      env.Agrees x (bothEdges env guard t).1.2 :=
  ⟨agrees_apply untested h t, agrees_apply untested.negate h _⟩

/-- A clause leaves a variable alone that the clauses do not test. -/
theorem agrees_enterClause {subject : Option SwitchSubject} (hx : ¬SwitchSubject.Tests subject x)
    (tests : List Expr) (isDefault : Bool) {residual : TypeEnv} (ordered : residual.Ordered)
    (s : CheckState) (t : TypeTable) :
    residual.Agrees x (enterClause subject tests isDefault residual s t).1.1.1 ∧
      residual.Agrees x (enterClause subject tests isDefault residual s t).1.1.2 := by
  unfold enterClause
  split
  · exact ⟨⟨ordered, rfl⟩, ordered, rfl⟩
  · cases subject with
    | none => exact agrees_bothEdges (show Guard.Tests x _ .vacuous from trivial) ordered t
    | some subject =>
      have untested := (leads_clauseGuard (ρ := Alike) x subject tests s t).2.mono fun _ test =>
        hx ⟨subject, rfl, test.2⟩
      exact agrees_bothEdges untested ordered _

/-- The node of a clause records the environment there, and the environment where the clause
does not match agrees with it on variables that are not tested. -/
theorem agrees_openClause {c : Checks} {subject : Option SwitchSubject} {before : Nat} {span : Span}
    {state : SwitchState} {group : List Case} {residual : TypeEnv}
    (hx : ¬SwitchSubject.Tests subject x) (ordered : state.residual.Ordered)
    (run : openClause c subject before span state group s t = ((residual, s'), t')) :
    state.residual.Agrees x s'.env ∧ state.residual.Agrees x residual ∧
      s'.flow.typeAt? s'.current x = s'.env.get? x := by
  obtain rfl : residual = (openClause c subject before span state group s t).1.1 := by rw [run]
  obtain rfl : s' = (openClause c subject before span state group s t).1.2 := by rw [run]
  have entered := agrees_enterClause hx (group.filterMap (·.test)) (group.any (·.test.isNone)) ordered
  exact ⟨(entered _ _).1, (entered _ _).2, typeAt?_recordFrom _ _ _ _ t⟩

end Checking

/-! ### From the end of a clause to the next one -/

/-- What stands in the body of a clause. -/
abbrev hasClause (group : List Case) (p : Pattern) : Bool :=
  (Stmt.mk (.block (clauseBody group)) {}).has p

/-- What stands in the tests of a clause. -/
abbrev hasTest (group : List Case) (p : Pattern) : Bool :=
  (group.filterMap (·.test)).any (·.has p)

section Fallthrough

variable {n : Nat} {subject : Option SwitchSubject} {before : Nat} {span : Span}
  {state state' : Checking.SwitchState} {group group' : List Case} {b : LocalVariable}
  {C e : TypeId}

theorem avoids_tests (clear : hasTest group (ScopePattern.clashes x).pattern = false)
    : ∀ clause ∈ group, ∀ test, clause.test = some test →
      test.Avoids ((Point.ofState s x).loose.Forbids x (.whole True)) :=
  fun clause hclause _ htest => Expr.avoids_whole (hasOperand_of_mem
    (mem_filterMap.2 ⟨clause, hclause, htest⟩) clear) s

/-- The parts of the check of a clause. -/
theorem checkClause_parts
    (run : checkClause (.within n) subject before span state group s t = ((state', s'), t')) :
    ∃ breaks s1 s2 t1, openClause (.within n) subject before span state group s t =
        ((state'.residual, s1), t1) ∧
      runClause (.within n) group s1 t1 = ((breaks, s2), t') ∧
      state'.exits = state.exits ++ breaks ++ [s2.env] ∧ s' = { s2 with env := {} } := by
  cases run
  exact ⟨_, _, _, _, rfl, rfl, rfl, rfl⟩

/-- **The next clause covers the end of a clause**: a variable that is bound outside has a type
at the end of the body that is a subtype of the one at the node of the next clause, if it is
not the subject and the body does not change it or changes it from its declared type. -/
theorem clause_covers_fallthrough {s'' : CheckState} {t'' : TypeTable} {residual : TypeEnv}
    (st : Stands s t) (ordered : s.env.Ordered) (bound : s.binding? x = some b)
    (below : Below t.size state) (left : state.residual.Ordered)
    (hx : ¬SwitchSubject.Tests subject x)
    (clear : hasTest group (ScopePattern.clashes x).pattern = false)
    (clear' : hasTest group' (ScopePattern.clashes x).pattern = false)
    (tame : Tame x (.ofState s x) (hasClause group) (b.declared = C))
    (earlier : checkClause (.within n) subject before span state group s t =
      ((state', s'), t'))
    (later : openClause (.within n) subject before span state' group' s' t' =
      ((residual, s''), t'')) (ended : state'.exits.getLast? = some env) (he : env.get? x = some e)
    (hC : s''.flow.typeAt? s''.current x = some C) (plain : t.Plain C)
    (untripped : (isSubtype e C t'').2.Untripped) : (isSubtype e C t'').1 = true := by
  obtain ⟨breaks, s₁, s₂, t₁, opened, run, exits, rfl⟩ := checkClause_parts earlier
  obtain rfl : s₂.env = env := by
    rw [exits, getLast?_concat] at ended
    exact Option.some.inj ended
  have follows := Checks.follows_within x (.whole True) n
  have unknown {P : Point} {t : TypeTable} {env : TypeEnv} (ordered : env.Ordered)
      (hP : P.bound = some b) : InRegion x (.whole True) P.bound t env :=
    ⟨fun _ => ordered, fun _ _ _ => ⟨b, hP, trivial⟩⟩
  -- at both clauses the variable has the type that the tests before them leave it
  obtain ⟨st₁, g₁, at₁, below₁, -⟩ := (follows_openClause follows
    (avoids_tests clear) below.1 (unknown left (Point.bound_ofState.trans bound)) st
    (Point.atState ordered bound t).loose).run opened
  have bound₁ : s₁.binding? x = some b := at₁.binding?.trans (Point.bound_ofState.trans bound)
  obtain ⟨entry, rest, -⟩ := agrees_openClause hx left opened
  obtain ⟨next, -, node⟩ := agrees_openClause hx rest.ordered later
  have residual : state.residual.get? x = some C := by
    rw [← rest.same, ← next.same, ← node, hC]
  have type : s₁.env.get? x = some C := entry.same.trans residual
  have hbelow : t.Has C := below_get? below.1 x C residual
  -- the body keeps it below that
  have tame₁ : Tame x (.ofState s₁ x) (hasClause group) (b.declared = C) :=
    tame.of_column at₁.column
  obtain ⟨R, covers⟩ := tame₁.region (g₁.below hbelow) id
  have allows : (Point.ofState s₁ x).Allows x R (.block (clauseBody group)) :=
    Point.allows_of_avoids (covers.allows _ rfl rfl)
  have admits : (Point.ofState s₁ x).Admits x R (clauseBody group) :=
    allows.admits rfl (allows.parts.block rfl (.head _)) id
  obtain ⟨st₂, g₂, at₂, -⟩ := (follows_runClause (Checks.follows_within x R n) admits st₁
    (covers.atState (at₁.env.ordered trivial) bound₁ type).loose).run run
  have bound₂ : s₂.binding? x = some b := at₂.binding?.trans (Point.bound_ofState.trans bound₁)
  have cleared : Stands { s₂ with env := {} } t' :=
    ⟨st₂.sound, st₂.rest, { st₂.below with env := below_nil }⟩
  have at₂' := Point.atState (s := { s₂ with env := {} }) List.Pairwise.nil bound₂ t'
  obtain ⟨st₃, g₃, -⟩ := (follows_openClause follows
    (avoids_tests clear') (g₂.below below₁) (unknown rest.ordered (Point.bound_ofState.trans bound₂))
    cleared at₂'.loose).run later
  have hb : t.Has b.declared := CheckState.below_binding? st.below x b bound
  have same : (Point.ofState s₁ x).bound = some b := Point.bound_ofState.trans bound₁
  have g₂' := g₁.trans g₂
  exact covers.isSubtype st₂ (same ▸ at₂.env) (g₂'.below hb) (g₂'.below hbelow) he g₃ st₃.sound
    st₃.rest (plain.grows st.sound (g₂'.trans g₃).toGrows hbelow) untripped

end Fallthrough

/-- `case null: x = null;` -/
def resettingClause : List Case :=
  [{ test := some (.mk 1 .null {}), body := resettingBody, span := {} }]

/-- `case true:` -/
def emptyClause : List Case := [{ test := some (.mk 5 (.bool true) {}), body := [], span := {} }]

/-- A switch on `y` where `x` has its declared type `null | true`. -/
def nullableSwitch : Checking.SwitchState where
  residual := { bindings := [("x", nullable)] }

/-- The check of the first clause. -/
def resettingClauseEnd : (Checking.SwitchState × CheckState) × TypeTable :=
  checkClause (.within 3) (some (.var "y")) 0 {} nullableSwitch resettingClause
    (.ofVariable "x" nullable nullable) nullableTable

/-- The entry of the second clause. -/
def emptyClauseStart : (TypeEnv × CheckState) × TypeTable :=
  openClause (.within 3) (some (.var "y")) 0 {} resettingClauseEnd.1.1 emptyClause
    resettingClauseEnd.1.2 resettingClauseEnd.2

set_option maxRecDepth 20000 in
/-- The body of the first clause assigns to the variable. -/
theorem clause_covers_fallthrough_resetting :
    resettingClauseEnd.1.1.exits.getLast? = some { bindings := [("x", .null)] } ∧
      emptyClauseStart.1.2.flow.typeAt? emptyClauseStart.1.2.current "x" = some nullable ∧
      (isSubtype .null nullable emptyClauseStart.2).1 = true := by
  have ended : resettingClauseEnd.1.1.exits.getLast? = some { bindings := [("x", .null)] } := by cbv
  have started : emptyClauseStart.1.2.flow.typeAt? emptyClauseStart.1.2.current "x" = some nullable ∧
      (isSubtype .null nullable emptyClauseStart.2).2.depthError = none := by cbv
  have below : nullableTable.Has nullableSwitch :=
    ⟨below_singleton.2 ⟨trivial, below_nullable⟩, below_nil⟩
  have left : nullableSwitch.residual.Ordered := pairwise_singleton ..
  have earlier : checkClause (.within 3) (some (.var "y")) 0 {} nullableSwitch
    resettingClause (.ofVariable "x" nullable nullable) nullableTable =
      ((resettingClauseEnd.1.1, resettingClauseEnd.1.2), resettingClauseEnd.2) := rfl
  have later : openClause (.within 3) (some (.var "y")) 0 {} resettingClauseEnd.1.1
    emptyClause resettingClauseEnd.1.2 resettingClauseEnd.2 =
      ((emptyClauseStart.1.1, emptyClauseStart.1.2), emptyClauseStart.2) := rfl
  refine ⟨ended, started.1, clause_covers_fallthrough
    (stands_ofVariable reachable_nullableTable below_nullable below_nullable)
    (pairwise_singleton ..) rfl below left ?_ (by decide) (by decide) ?_ earlier later ended rfl started.1 plain_nullable started.2⟩
  · rintro ⟨_, hsubject, hname⟩
    cases hsubject
    exact absurd hname (by decide)
  · exact ⟨by decide, by decide, fun _ => ⟨rfl, by decide, fun h => absurd h (by decide)⟩⟩

/-! ### An assignment before the next clause -/

/-- A switch whose first clause assigns a number to `x` and falls through, where `x` is declared as
`string | number` and has the type `string`. -/
def fallthroughUnit : CodeUnit where
  path := "a.ts"
  statements :=
    [.mk (.var .let_ "x" (some (.union [.ofName "string", .ofName "number"]))
        (some (.mk 1 (.string "a") {}))) {},
      .mk (.switch (.mk 2 (.number ⟨0x3ff0000000000000⟩) {})
        [{ test := some (.mk 3 (.number ⟨0x3ff0000000000000⟩) {})
           body := [.mk (.expr (.mk 6 (.assign (.mk 5 (.ident "x") {})
             (.mk 4 (.number ⟨0x3ff0000000000000⟩) {})) {})) {}]
           span := {} },
          { test := some (.mk 7 (.number ⟨0x4000000000000000⟩) {})
            body := [.mk (.expr (.mk 8 (.ident "x") {})) {}]
            span := {} }]) {}]

set_option maxRecDepth 20000 in
/-- **The next clause does not cover an assignment**: the last statement of the first clause
leaves `number`, and the second clause starts with `string`. -/
theorem clause_misses_assignment :
    let (result, t) := checkProgram {} [] fallthroughUnit (.withLimits {})
    ((result.flow.nodes.toList.drop 2).take 3).map
        (fun node => (node.kind, node.env.reachable, node.env.get? "x")) =
      [(.caseClause, true, some .string), (.statement, true, some .number),
        (.caseClause, true, some .string)] ∧
    (isSubtype .number .string t).1 = false := by
  cbv

set_option maxRecDepth 20000 in
/-- **A `boolean` field is reported although both its values are tested.** -/
theorem boolean_tag_reported :
    let object (tag : TypeExpr) := TypeExpr.object [{ name := "tag", type := tag }] none
    let type := TypeExpr.union [object (.ofName "boolean"), object (.stringLit "b")]
    let on (test : ExprKind) : Case := { test := some (.mk 0 test {}), body := [], span := {} }
    problems [.mk (.var .let_ "x" (some type) none) {},
      .mk (.switch (.mk 1 (.member (.mk 2 (.ident "x") {}) "tag") {})
        [on (.bool true), on (.bool false), on (.string "b")]) {}] {} =
    [.nonExhaustive ["boolean"]] := by
  cbv

set_option maxRecDepth 20000 in
/-- **A switch that is not reached is reported although it tests every value.** -/
theorem unreached_switch_reported :
    problems [.mk (.var .let_ "x" (some (.stringLit "a")) none) {}, .mk (.return_ none) {},
      .mk (.switch (.mk 1 (.ident "x") {})
        [{ test := some (.mk 2 (.string "a") {}), body := [], span := {} }]) {}] {} =
    [.nonExhaustive ["\"a\""]] := by
  cbv

end GradualTyping
