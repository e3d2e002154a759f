/-
# The head of a loop

A loop is checked in one pass: what is known at its head has to cover the end of its body.  A
variable that is collected as assigned has its declared type at the head, and what the body
makes of it stays within that.  A variable that the loop does not assign to is only tested
there, and stays within the type it has at the head.

The collection misses assignments, for instance in templates, so a variable may be assigned
to without being collected.
-/

import GradualTyping.Proofs.Narrowing.Assignments
import GradualTyping.Proofs.Tracking.Tame

namespace GradualTyping

open TypeTable List Checking TypeEnv

variable {x : String} {s : CheckState} {t : TypeTable} {cond : Expr} {body : List Stmt} {span : Span}

/-! ### The head -/

theorem CheckM.bind_of_eq {α β : Type} {c : CheckM α} {f : α → CheckM β} {s' : CheckState}
    {t' : TypeTable} {a : α} (h : c s t = ((a, s'), t')) : (c >>= f) s t = f a s' t' := by
  show f (c s t).1.1 (c s t).1.2 (c s t).2 = _
  rw [h]

namespace Checking

/-- The environment where some variables have their declared types. -/
def withDeclared (s : CheckState) (names : List String) : TypeEnv :=
  names.foldl (fun env name => match s.binding? name with
    | some b => env.insert name b.declared
    | none => env) s.env

theorem forgetAssigned_eq (body : List Stmt) (s : CheckState) (t : TypeTable) :
    forgetAssigned body s t = (((), { s with env := withDeclared s (assignedIn body) }), t) := by
  unfold forgetAssigned
  generalize assignedIn body = names
  induction names generalizing s with
  | nil => rfl
  | cons name names ih =>
    refine (CheckM.bind_of_eq (a := ()) ?_).trans (ih { s with env := withDeclared s [name] })
    beta_reduce
    rw [CheckM.bind_of_eq (show (get : CheckM CheckState) s t = ((s, s), t) from rfl),
      withDeclared, foldl_cons, foldl_nil]
    cases s.binding? name <;> rfl

theorem get?_withDeclared {b : LocalVariable} (hb : s.binding? x = some b) {names : List String}
    (hx : x ∈ names) : (withDeclared s names).get? x = some b.declared := by
  -- from the first time on the variable keeps its declared type
  have keeps : ∀ (names : List String) (env : TypeEnv), x ∈ names ∨ env.get? x = some b.declared →
      (names.foldl (fun env name => match s.binding? name with
        | some b => env.insert name b.declared
        | none => env) env).get? x = some b.declared := by
    intro names
    induction names with
    | nil => exact fun env h => h.resolve_left not_mem_nil
    | cons name names ih =>
      intro env h
      refine ih _ ?_
      dsimp only
      by_cases hname : x = name
      · subst hname
        rw [hb]
        exact .inr (by rw [get?_insert, if_pos rfl])
      · refine h.imp (fun h => (mem_cons.1 h).resolve_left hname) fun h => ?_
        split
        · rwa [get?_insert, if_neg hname]
        · exact h
  exact keeps names s.env (.inl hx)

/-- A node records the environment at its point. -/
theorem typeAt?_recordFrom (kind : FlowKind) (before : List Nat) (span : Span) (s : CheckState)
    (t : TypeTable) : (recordFrom kind before span s t).1.2.flow.typeAt?
      (recordFrom kind before span s t).1.2.current x =
        (recordFrom kind before span s t).1.2.env.get? x := by
  show ((s.flow.nodes.push _)[s.flow.nodes.size]?.bind _) = _
  rw [Array.getElem?_push_size]
  rfl

/-- The node of the head records the environment there. -/
theorem openLoop_eq (s : CheckState) (t : TypeTable) :
    ∃ s', openLoop body span s t = (((), s'), t) ∧ s'.env = withDeclared s (assignedIn body) ∧
      ∀ x, s'.flow.typeAt? s'.current x = s'.env.get? x := by
  exact ⟨_, CheckM.bind_of_eq (forgetAssigned_eq body s t), rfl, fun x =>
    typeAt?_recordFrom _ _ _ _ t⟩

end Checking

/-! ### From the head to the end of the body -/

/-- What stands in a loop. -/
abbrev hasLoop (cond : Expr) (body : List Stmt) (p : Pattern) : Bool :=
  (Stmt.mk (.while_ cond body) {}).has p

/-- **The head of a loop covers the end of its body**: a variable that is bound outside has a
type there that is a subtype of the one recorded at the head, if that is plain and the guard
does not trip.  A variable that the loop changes has to be collected as assigned. -/
theorem header_covers_body {n : Nat} {b : LocalVariable} {C e : TypeId} {exit : TypeEnv}
    {s₁ s₂ : CheckState} {t₁ t₂ : TypeTable} (st : Stands s t) (ordered : s.env.Ordered)
    (bound : s.binding? x = some b)
    (tame : Tame x (.ofState s x) (hasLoop cond body) (x ∈ assignedIn body))
    (head : openLoop body span s t = (((), s₁), t₁))
    (tail : runBody (.within n) cond body s₁ t₁ = ((exit, s₂), t₂))
    (hC : s₁.flow.typeAt? s₁.current x = some C) (plain : t₁.Plain C)
    (he : s₂.env.get? x = some e) (untripped : (isSubtype e C t₂).2.Untripped) :
    (isSubtype e C t₂).1 = true := by
  have start := (Point.atState ordered bound t).loose
  obtain ⟨st₁, -, at₁⟩ := (follows_openLoop (fun _ => trivial) st start).run head
  obtain ⟨s', heq, henv, node⟩ := openLoop_eq s t
  cases head.symm.trans heq
  rw [node] at hC
  have bound₁ : s₁.binding? x = some b := at₁.binding?.trans (Point.bound_ofState.trans bound)
  have hbelow : t.Has C := below_get? st₁.below.env x C hC
  have collected (hx : x ∈ assignedIn body) : b.declared = C := by
    rw [henv, get?_withDeclared bound hx] at hC
    exact Option.some.inj hC
  have tame₁ : Tame x (.ofState s₁ x) (hasLoop cond body) (x ∈ assignedIn body) :=
    tame.of_column at₁.column
  obtain ⟨R, covers⟩ := tame₁.region hbelow collected
  have at₁' := covers.atState (at₁.env.ordered trivial) bound₁ hC
  have allows : (Point.ofState s₁ x).Allows x R (.while_ cond body) :=
    Point.allows_of_avoids (covers.allows _ rfl rfl)
  obtain ⟨st₂, g, after, -⟩ :=
    (follows_runBody (Checks.follows_within x R n) allows st₁ at₁').run tail
  have hb : t.Has b.declared := CheckState.below_binding? st.below x b bound
  have bound₂ : (Point.ofState s₁ x).bound = some b := Point.bound_ofState.trans bound₁
  exact covers.isSubtype st₂ (bound₂ ▸ after.env) (g hb) (g hbelow) he (.refl t₂)
    st₂.sound st₂.rest (plain.grows st.sound g hbelow) untripped

/-- The state where one variable is in scope. -/
def CheckState.ofVariable (x : String) (declared type : TypeId) : CheckState where
  scopes := [{ bindings := [(x, ⟨declared, true⟩)] }]
  env := { bindings := [(x, type)] }

theorem stands_ofVariable {declared type : TypeId} (h : t.Reachable)
    (hdeclared : t.Has declared) (htype : t.Has type) :
    Stands (.ofVariable x declared type) t where
  sound := h.sound
  rest := h.quiescent.evaluating
  below := {
    globals := below_nil
    scopes := below_singleton.2 ⟨below_singleton.2 ⟨trivial, hdeclared⟩, below_nil⟩
    typeScopes := below_nil
    env := below_singleton.2 ⟨trivial, htype⟩
    flow := below_nil (α := FlowNode)
    exprTypes := below_noTypes
    callPredicates := below_noTypes
    functions := below_nil
    breaks := below_nil
    thisType := below_none }

/-- The body of `while (x) { x = null; }`. -/
def resettingBody : List Stmt :=
  [.mk (.expr (.mk 2 (.assign (.mk 3 (.ident "x") {}) (.mk 4 .null {})) {})) {}]

/-- The head of that loop, where `x` is declared as `null | true` and has the type `null`. -/
def resettingHead : (Unit × CheckState) × TypeTable :=
  openLoop resettingBody {} (.ofVariable "x" nullable .null) nullableTable

/-- The end of its body. -/
def resettingTail : (TypeEnv × CheckState) × TypeTable :=
  runBody (.within 3) (.mk 1 (.ident "x") {}) resettingBody resettingHead.1.2
    resettingHead.2

set_option maxRecDepth 20000 in
/-- The body tests the variable and assigns to it. -/
theorem header_covers_body_nullable :
    resettingHead.1.2.flow.typeAt? resettingHead.1.2.current "x" = some nullable ∧
      resettingTail.1.2.env.get? "x" = some .null ∧
      (isSubtype .null nullable resettingTail.2).1 = true := by
  have hC : resettingHead.1.2.flow.typeAt? resettingHead.1.2.current "x" = some nullable := by cbv
  have ends : resettingTail.1.2.env.get? "x" = some .null ∧
      (isSubtype .null nullable resettingTail.2).2.depthError = none := by cbv
  have stands : Stands (.ofVariable "x" nullable .null) nullableTable :=
    stands_ofVariable reachable_nullableTable below_nullable
      (reachable_nullableTable.sound.below_fixed rfl)
  have head : openLoop resettingBody {} (.ofVariable "x" nullable .null) nullableTable =
    (((), resettingHead.1.2), resettingHead.2) := rfl
  have tail : runBody (.within 3) (.mk 1 (.ident "x") {}) resettingBody resettingHead.1.2
    resettingHead.2 = ((resettingTail.1.1, resettingTail.1.2), resettingTail.2) := rfl
  refine ⟨hC, ends.1, header_covers_body stands (pairwise_singleton ..) rfl ?_ head tail hC
    plain_nullable ends.1 ends.2⟩
  exact ⟨by decide, by decide, fun _ => ⟨by decide, by decide, fun h => absurd h (by decide)⟩⟩

/-! ### An assignment that is not collected -/

/-- A loop whose body assigns a number to `x` in a template, where `x` is declared as
`string | number` and has the type `string`. -/
def templateUnit : CodeUnit where
  path := "a.ts"
  statements :=
    [.mk (.var .let_ "x" (some (.union [.ofName "string", .ofName "number"]))
        (some (.mk 1 (.string "a") {}))) {},
      .mk (.var .let_ "c" (some (.ofName "boolean")) none) {},
      .mk (.while_ (.mk 2 (.ident "c") {})
        [.mk (.expr (.mk 6 (.template [.embedded (.mk 5 (.assign (.mk 4 (.ident "x") {})
          (.mk 3 (.number ⟨0x3ff0000000000000⟩) {})) {})]) {})) {}]) {}]

set_option maxRecDepth 20000 in
/-- **The head of a loop does not cover an assignment in a template**: the last statement of
the body leaves `number`, and the head has `string`. -/
theorem header_misses_template :
    let (result, t) := checkProgram {} [] templateUnit (.withLimits {})
    ((result.flow.nodes.toList.drop 3).take 3).map
        (fun node => (node.kind, node.env.reachable, node.env.get? "x")) =
      [(.loopHeader, true, some .string), (.branchTrue, true, some .string),
        (.statement, true, some .number)] ∧
    (isSubtype .number .string t).1 = false := by
  cbv

end GradualTyping
