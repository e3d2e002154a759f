/-
# Operands that are evaluated on some paths

Of the operands of `c ? a : b`, `a && b`, `a || b` and `a ?? b` only the first is evaluated on
every path.  What is known of a variable behind such an expression has to cover the end of each
path.  It does if the other operands do not assign to the variable, and behind the first three
kinds also if the variable has its declared type where they are entered.

In general it does not: behind the first three kinds what was known before the other operands
comes back, and an assignment in them is forgotten; behind the last kind an assignment in the
second operand is taken to have happened.
-/

import GradualTyping.Proofs.Tracking.Loops

namespace GradualTyping

open TypeTable List Checking TypeEnv

/-! ### Paths through an expression -/

/-- The operand that decides, and those that are evaluated on some paths. -/
def ExprKind.branches? : ExprKind → Option (Expr × List Expr)
  | .conditional cond yes no => some (cond, [yes, no])
  | .binary .and left right | .binary .or left right | .binary .nullish left right =>
    some (left, [right])
  | _ => none

/-- Behind the expression the environment is the one behind the first operand. -/
def ExprKind.restores : ExprKind → Bool
  | .binary .nullish _ _ => false
  | _ => true

/-- Where the paths through an expression end that is checked from a state on. -/
inductive PathEnds (c : Checks) (expected : Option TypeId) (s : CheckState) (t : TypeTable) :
    ExprKind → CheckState → TypeTable → Prop
  | yes {cond yes no : Expr} {p : TypeId × Guard} {type : TypeId} {s1 s2 : CheckState}
      {t1 t2 : TypeTable} : checkFirst c cond s t = ((p, s1), t1) →
      checkWhere c p.2 yes expected s1 t1 = ((type, s2), t2) →
      PathEnds c expected s t (.conditional cond yes no) s2 t2
  | no {cond yes no : Expr} {p : TypeId × Guard} {yesType noType : TypeId} {s1 s2 s3 : CheckState}
      {t1 t2 t3 : TypeTable} : checkFirst c cond s t = ((p, s1), t1) →
      checkWhere c p.2 yes expected s1 t1 = ((yesType, s2), t2) →
      checkWhere c p.2.negate no expected { s2 with env := s1.env } t2 =
        ((noType, s3), t3) →
      PathEnds c expected s t (.conditional cond yes no) s3 t3
  | evaluated (isAnd : Bool) {left right : Expr} {p : TypeId × Guard} {type : TypeId}
      {s1 s2 : CheckState} {t1 t2 : TypeTable} :
      checkFirst c left s t = ((p, s1), t1) →
      checkWhere c (if isAnd then p.2 else p.2.negate) right none s1 t1 =
        ((type, s2), t2) →
      PathEnds c expected s t (.binary (if isAnd then .and else .or) left right) s2 t2
  | skipped (isAnd : Bool) {left right : Expr} {p : TypeId × Guard} {s1 s2 : CheckState}
      {t1 t2 : TypeTable} : checkFirst c left s t = ((p, s1), t1) →
      assume (if isAnd then p.2.negate else p.2) s1 t1 = (((), s2), t2) →
      PathEnds c expected s t (.binary (if isAnd then .and else .or) left right) s2 t2
  | nullish {left right : Expr} {leftType rightType : TypeId} {s1 s2 : CheckState}
      {t1 t2 : TypeTable} : c.plain left s t = ((leftType, s1), t1) →
      c.plain right s1 t1 = ((rightType, s2), t2) →
      PathEnds c expected s t (.binary .nullish left right) s2 t2
  | present {left right : Expr} {leftType : TypeId} {s1 : CheckState} {t1 : TypeTable} :
      c.plain left s t = ((leftType, s1), t1) →
      PathEnds c expected s t (.binary .nullish left right) s1 t1

variable {x : String} {s s' s1 s2 s3 : CheckState} {t t' t1 t2 t3 : TypeTable} {c : Checks}
  {expected : Option TypeId}

/-! ### What is known behind an expression -/

section Behind

variable {p : TypeId × Guard} {type : TypeId} {id : Nat} {span : Span}

theorem env_checkConditional {cond yes no : Expr}
    (first : checkFirst c cond s t = ((p, s1), t1))
    (run : checkExpr c ⟨id, .conditional cond yes no, span⟩ expected s t =
      ((type, s'), t')) : s'.env = s1.env := by
  have env : (checkConditional c cond yes no expected s t).1.2.env = s1.env := by
    unfold checkConditional
    rw [CheckM.bind_of_eq first]
    rfl
  exact (congrArg (·.1.2.env) run).symm.trans env

theorem env_checkLogical {isAnd : Bool} {left right : Expr}
    (first : checkFirst c left s t = ((p, s1), t1))
    (run : checkExpr c ⟨id, .binary (if isAnd then .and else .or) left right, span⟩
      expected s t = ((type, s'), t')) : s'.env = s1.env := by
  have env : (checkLogical c isAnd left right s t).1.2.env = s1.env := by
    unfold checkLogical
    rw [CheckM.bind_of_eq first]
    rfl
  refine (congrArg (·.1.2.env) run).symm.trans (.trans ?_ env)
  cases isAnd <;> rfl

theorem env_checkNullish {left right : Expr} {leftType rightType : TypeId}
    (first : c.plain left s t = ((leftType, s1), t1))
    (second : c.plain right s1 t1 = ((rightType, s2), t2))
    (run : checkExpr c ⟨id, .binary .nullish left right, span⟩ expected s t =
      ((type, s'), t')) : s'.env = s2.env := by
  have env : (checkBinary c .nullish left right s t).1.2.env = s2.env := by
    dsimp only [checkBinary]
    rw [CheckM.bind_of_eq first, CheckM.bind_of_eq second]
    rfl
  exact (congrArg (·.1.2.env) run).symm.trans env

end Behind

/-! ### The paths -/

/-- What stands in one of some operands. -/
abbrev hasOperand (operands : List Expr) (p : Pattern) : Bool := operands.any (·.has p)

theorem hasOperand_of_mem {operands : List Expr} {e : Expr} (he : e ∈ operands) {p : Pattern}
    (h : hasOperand operands p = false) : e.has p = false :=
  Bool.eq_false_iff.2 (any_eq_false.1 h e he)

/-- Where nothing is known of a type, only clashing declarations are not allowed. -/
theorem Expr.avoids_whole {e : Expr} (h : e.has (ScopePattern.clashes x).pattern = false)
    (s : CheckState) : e.Avoids ((Point.ofState s x).Forbids x (.whole True)) := by
  have lax : ¬(Region.whole True).Strict := fun ⟨_, _, _, _, _, outside⟩ => outside trivial
  intro p hp
  cases hp with
  | scope hp =>
    cases hp with
    | clashes => exact h
    | covers strict => exact absurd strict lax
    | functions strict => exact absurd strict lax
  | declares hR => exact absurd trivial hR
  | asks hR => exact absurd trivial hR
  | assigns hP => exact absurd trivial (hP.resolve_left fun e => nomatch e)

section Paths

variable {n : Nat} {first : Expr} {operands : List Expr} {b : LocalVariable} {C : TypeId}
  {declared : Prop} {p : TypeId × Guard}

/-- What is known where the first operand has been checked and the others are entered. -/
structure Decided (x : String) (R : Region) (operands : List Expr) (b : LocalVariable) (C : TypeId)
    (guard : Guard) (s : CheckState) (t : TypeTable) : Prop where
  stands : Stands s t
  type : s.env.get? x = some C
  bound : s.binding? x = some b
  below : Below t.size guard
  tests : guard.Tests x fun test => test.asksType = true → R.askable
  covers : R.Covers x (.ofState s x) (hasOperand operands) b C t
  atState : (Point.ofState s x).At x R s t

theorem exists_decided (st : Stands s t) (ordered : s.env.Ordered) (bound : s.binding? x = some b)
    (clear : first.has (ScopePattern.clashes x).pattern = false) (asks : first.asksType x = false)
    (tame : Tame x (.ofState s x) (hasOperand operands) declared)
    (run : checkFirst (.within n) first s t = ((p, s1), t1))
    (type : s1.env.get? x = some C) (hd : declared → b.declared = C) :
    t.Continues t1 ∧ ∃ R, Decided x R operands b C p.2 s1 t1 := by
  have followed := follows_checkFirst (Checks.follows_within x (.whole True) n)
    (Expr.avoids_whole clear s) st (Point.atState ordered bound t)
  obtain ⟨st1, g1, hp, at1, tests⟩ := followed.run run
  have bound1 : s1.binding? x = some b := at1.binding?.trans (Point.bound_ofState.trans bound)
  have tame1 : Tame x (.ofState s1 x) (hasOperand operands) declared := tame.of_column at1.column
  obtain ⟨R, covers⟩ := tame1.region (below_get? st1.below.env x C type) hd
  refine ⟨g1, R, st1, type, bound1, hp.2, tests.mono fun _ ask h => ?_, covers,
    covers.atState (at1.env.ordered trivial) bound1 type⟩
  exact absurd (ask h) (by rw [asks]; decide)

namespace Decided

variable {R : Region} {guard : Guard} {e : Expr} {type : TypeId}

section

variable (h : Decided x R operands b C guard s t)
include h

theorem negate : Decided x R operands b C guard.negate s t :=
  { h with below := Guard.below_negate h.below, tests := h.tests.negate }

theorem evaluated (isAnd : Bool) :
    Decided x R operands b C (if isAnd then guard else guard.negate) s t := by
  cases isAnd with
  | true => exact h
  | false => exact h.negate

theorem skipped (isAnd : Bool) :
    Decided x R operands b C (if isAnd then guard.negate else guard) s t := by
  cases isAnd with
  | true => exact h.negate
  | false => exact h

/-- An operand that is entered is followed to its end. -/
theorem checkWhere (he : e ∈ operands) (hexpected : t.Has expected)
    (run : checkWhere (.within n) guard e expected s t = ((type, s'), t')) :
    Stands s' t' ∧ t.Continues t' ∧ (Point.ofState s x).loose.At x R s' t' := by
  have avoids : e.Avoids ((Point.ofState s x).loose.Forbids x R) := fun p hp =>
    hasOperand_of_mem he (h.covers.allows _ rfl rfl p hp)
  obtain ⟨st', g, -, ended⟩ := (follows_checkWhere (Checks.follows_within x R n) h.below
    h.tests avoids hexpected h.stands h.atState).run run
  exact ⟨st', g, ended⟩

/-- Where a path has ended the next one starts from the same environment. -/
theorem restart (st' : Stands s' t') (g : t.Continues t')
    (ended : (Point.ofState s x).loose.At x R s' t') :
    Decided x R operands b C guard { s' with env := s.env } t' := by
  have column : s'.column x = s.column x := ended.column
  have bound : s'.binding? x = some b :=
    ended.binding?.trans (Point.bound_ofState.trans h.bound)
  have hb : t.Has b.declared := CheckState.below_binding? h.stands.below x b h.bound
  have covers : R.Covers x (.ofState { s' with env := s.env } x) (hasOperand operands) b C t' :=
    { h.covers with
      start := R.later h.stands.sound g hb (below_get? h.stands.below.env x C h.type)
        h.covers.start
      allows := fun Q same fixed => h.covers.allows Q (same.trans column) fixed }
  exact ⟨⟨st'.sound, st'.rest, { st'.below with env := g h.stands.below.env }⟩, h.type, bound,
    g h.below, h.tests, covers,
    covers.atState (h.atState.env.ordered covers.tracked) bound h.type⟩

/-- The end of a path is covered by what was known where it was entered. -/
theorem covered {T : TypeTable} {e : TypeId}
    (st' : Stands s' t') (g : t.Continues t') (ended : (Point.ofState s x).loose.At x R s' t')
    (he : s'.env.get? x = some e) (later : t'.Continues T) (sound : T.Sound)
    (rest : T.evaluating = []) (plain : T.Plain C) (untripped : (isSubtype e C T).2.Untripped) :
    (isSubtype e C T).1 = true := by
  have bound : (Point.ofState s x).loose.bound = some b := Point.bound_ofState.trans h.bound
  have hb : t.Has b.declared := CheckState.below_binding? h.stands.below x b h.bound
  exact h.covers.isSubtype st' (bound ▸ ended.env) (g hb)
    (g (below_get? h.stands.below.env x C h.type)) he later sound rest plain untripped

end

end Decided

/-- The second operand of `a ?? b` keeps the type of a variable that it does not assign to. -/
theorem get?_of_nullish {left right : Expr} {leftType rightType : TypeId} (st : Stands s t)
    (ordered : s.env.Ordered) (bound : s.binding? x = some b)
    (clear : left.has (ScopePattern.clashes x).pattern = false)
    (tame : Tame x (.ofState s x) (hasOperand [right]) (false = true ∧ declared))
    (run : (Checks.within n).plain left s t = ((leftType, s1), t1))
    (run' : (Checks.within n).plain right s1 t1 = ((rightType, s2), t2)) :
    Stands s1 t1 ∧ Stands s2 t2 ∧ s2.env.get? x = s1.env.get? x := by
  have follows := Checks.follows_within x (.whole True) n
  obtain ⟨st1, -, -, at1⟩ := (follows.plain (Expr.avoids_whole clear s) s st
    (Point.atState ordered bound t)).run run
  have bound1 : s1.binding? x = some b := at1.binding?.trans (Point.bound_ofState.trans bound)
  let P : Point := { Point.ofState s1 x with fixed := some (s1.env.get? x) }
  have fixed : P.At x (.whole True) s1 t1 :=
    { Point.atState (at1.env.ordered trivial) bound1 t1 with fixed := fun _ e => Option.some.inj e }
  have here {p : Pattern} : hasOperand [right] p = false → right.has p = false :=
    hasOperand_of_mem (mem_singleton_self right)
  have avoids : right.Avoids (P.Forbids x (.whole True)) := by
    intro p hp
    cases hp with
    | scope hp => exact Expr.avoids_whole (here tame.clashes) s1 _ (.scope (hp.of_column rfl))
    | declares hR => exact absurd trivial hR
    | asks hR => exact absurd trivial hR
    | assigns =>
      exact here (Bool.eq_false_iff.2 fun e => Bool.noConfusion (tame.changes (.inl e)).1.1)
  obtain ⟨st2, -, -, at2⟩ := (follows.plain avoids _ st1 fixed).run run'
  exact ⟨st1, st2, at2.fixed _ rfl⟩

theorem branches?_logical {isAnd : Bool} {left right : Expr}
    (h : (ExprKind.binary (if isAnd then .and else .or) left right).branches? =
      some (first, operands)) : left = first ∧ [right] = operands := by
  cases isAnd <;> exact Prod.mk.inj (Option.some.inj h)

/-- **What is known behind an expression covers the ends of its paths**: at the end of a path a
variable has a subtype of its type behind the expression, if the operands that are evaluated on
some paths do not change it, or change it from its declared type and the environment in front
of them comes back. -/
theorem paths_covered {e : Expr} {C τ type : TypeId} {T : TypeTable}
    (branches : e.kind.branches? = some (first, operands)) (st : Stands s t)
    (ordered : s.env.Ordered) (bound : s.binding? x = some b) (hexpected : Below t.size expected)
    (clear : first.has (ScopePattern.clashes x).pattern = false) (asks : first.asksType x = false)
    (tame : Tame x (.ofState s x) (hasOperand operands)
      (e.kind.restores = true ∧ b.declared = C))
    (checked : checkExpr (.within n) e expected s t = ((type, s'), t'))
    (behind : s'.env.get? x = some C)
    (path : PathEnds (.within n) expected s t e.kind s₁ t₁) (ends : s₁.env.get? x = some τ)
    (later : t₁.Continues T) (sound : T.Sound) (rest : T.evaluating = []) (plain : T.Plain C)
    (untripped : (isSubtype τ C T).2.Untripped) : (isSubtype τ C T).1 = true := by
  obtain ⟨id, kind, span⟩ := e
  change kind.branches? = _ at branches
  change PathEnds _ _ _ _ kind _ _ at path
  change Tame _ _ _ (kind.restores = true ∧ _) at tame
  cases path with
  | yes run run' =>
    cases branches
    rw [env_checkConditional run checked] at behind
    obtain ⟨g, R, decided⟩ := exists_decided st ordered bound clear asks tame run behind (·.2)
    obtain ⟨st₁, g₁, ended⟩ := decided.checkWhere (by simp) (g hexpected) run'
    exact decided.covered st₁ g₁ ended ends later sound rest plain untripped
  | no run run' run'' =>
    cases branches
    rw [env_checkConditional run checked] at behind
    obtain ⟨g, R, decided⟩ := exists_decided st ordered bound clear asks tame run behind (·.2)
    obtain ⟨st₂, g₂, ended⟩ := decided.checkWhere (by simp) (g hexpected) run'
    have again := (decided.restart st₂ g₂ ended).negate
    obtain ⟨st₃, g₃, ended⟩ := again.checkWhere (by simp) ((g.trans g₂) hexpected) run''
    exact again.covered st₃ g₃ ended ends later sound rest plain untripped
  | evaluated isAnd run run' =>
    obtain ⟨rfl, rfl⟩ := branches?_logical branches
    rw [env_checkLogical run checked] at behind
    obtain ⟨g, R, decided⟩ := exists_decided st ordered bound clear asks tame run behind (·.2)
    have entered := decided.evaluated isAnd
    obtain ⟨st₁, g₁, ended⟩ := entered.checkWhere (by simp) below_none run'
    exact entered.covered st₁ g₁ ended ends later sound rest plain untripped
  | skipped isAnd run run' =>
    obtain ⟨rfl, rfl⟩ := branches?_logical branches
    rw [env_checkLogical run checked] at behind
    obtain ⟨g, R, decided⟩ := exists_decided st ordered bound clear asks tame run behind (·.2)
    have entered := decided.skipped isAnd
    obtain ⟨st₁, g₁, ended⟩ :=
      (entered.atState.assume entered.stands entered.below entered.tests).run run'
    exact entered.covered st₁ g₁ ended ends later sound rest plain untripped
  | nullish run run' =>
    cases branches
    rw [env_checkNullish run run' checked] at behind
    obtain ⟨-, st₂, -⟩ := get?_of_nullish st ordered bound clear tame run run'
    cases ends.symm.trans behind
    have hC := later.below (below_get? st₂.below.env x C ends)
    exact plain.inside.isSubtype sound rest plain hC hC untripped
  | present run =>
    cases branches
    rw [env_checkNullish run rfl checked] at behind
    obtain ⟨st₁, -, same⟩ := get?_of_nullish st ordered bound clear tame run rfl
    cases ends.symm.trans (same.symm.trans behind)
    have hC := later.below (below_get? st₁.below.env x C ends)
    exact plain.inside.isSubtype sound rest plain hC hC untripped

end Paths

/-- `x = null` -/
def resetting : Expr := .mk 3 (.assign (.mk 4 (.ident "x") {}) (.mk 5 .null {})) {}

/-- `x ? (x = null) : null` -/
def resettingIfSet : Expr :=
  .mk 1 (.conditional (.mk 2 (.ident "x") {}) resetting (.mk 6 .null {})) {}

/-- The check of it, where `x` has its declared type `null | true`. -/
def resettingChecked : (TypeId × CheckState) × TypeTable :=
  checkExpr (.within 3) resettingIfSet none (.ofVariable "x" nullable nullable) nullableTable

/-- Where it is decided. -/
def resettingDecided : ((TypeId × Guard) × CheckState) × TypeTable :=
  checkFirst (.within 3) (.mk 2 (.ident "x") {}) (.ofVariable "x" nullable nullable) nullableTable

/-- The end of the path with the assignment. -/
def resettingEnd : (TypeId × CheckState) × TypeTable :=
  checkWhere (.within 3) resettingDecided.1.1.2 resetting none resettingDecided.1.2
    resettingDecided.2

set_option maxRecDepth 20000 in
theorem paths_covered_resetting :
    resettingChecked.1.2.env.get? "x" = some nullable ∧
      resettingEnd.1.2.env.get? "x" = some .null ∧
      (isSubtype .null nullable resettingEnd.2).1 = true := by
  have behind : resettingChecked.1.2.env.get? "x" = some nullable := by cbv
  have ends : resettingEnd.1.2.env.get? "x" = some .null ∧
      (isSubtype .null nullable resettingEnd.2).2.depthError = none := by cbv
  have stands : Stands (.ofVariable "x" nullable nullable) nullableTable :=
    stands_ofVariable reachable_nullableTable below_nullable below_nullable
  have checked : checkExpr (.within 3) resettingIfSet none (.ofVariable "x" nullable nullable)
    nullableTable = ((resettingChecked.1.1, resettingChecked.1.2), resettingChecked.2) := rfl
  have decided : checkFirst (.within 3) (.mk 2 (.ident "x") {})
    (.ofVariable "x" nullable nullable) nullableTable =
      ((resettingDecided.1.1, resettingDecided.1.2), resettingDecided.2) := rfl
  have ended : checkWhere (.within 3) resettingDecided.1.1.2 resetting none
    resettingDecided.1.2 resettingDecided.2 =
      ((resettingEnd.1.1, resettingEnd.1.2), resettingEnd.2) := rfl
  have tame : Tame "x" (.ofState (.ofVariable "x" nullable nullable) "x")
      (hasOperand [resetting, .mk 6 .null {}]) (resettingIfSet.kind.restores = true ∧
        nullable = nullable) :=
    ⟨by decide, by decide, fun _ => ⟨⟨rfl, rfl⟩, by decide, fun h => absurd h (by decide)⟩⟩
  have type : resettingDecided.1.2.env.get? "x" = some nullable := by cbv
  have ordered : (CheckState.ofVariable "x" nullable nullable).env.Ordered := pairwise_singleton ..
  obtain ⟨g, R, known⟩ :=
    exists_decided stands ordered rfl (by decide) (by decide) tame decided type (·.2)
  obtain ⟨st, g', -⟩ := known.checkWhere (mem_cons_self ..) below_none ended
  have plain := plain_nullable.grows reachable_nullableTable.sound (g.trans g').toGrows
    below_nullable
  exact ⟨behind, ends.1, paths_covered rfl stands ordered rfl below_none (by decide) (by decide) tame
    checked behind (.yes decided ended) ends.1 (.refl _) st.sound st.rest plain ends.2⟩

/-! ### Assignments on one path -/

/-- The state and the table behind `let x: string | number = "a"; let c: boolean;`. -/
def declaredState : CheckState × TypeTable :=
  let (((), s), t) := (Checks.within 4).statements
    [.mk (.var .let_ "x" (some (.union [.ofName "string", .ofName "number"]))
        (some (.mk 1 (.string "a") {}))) {},
      .mk (.var .let_ "c" (some (.ofName "boolean")) none) {}] {} (.withLimits {})
  (s, t)

/-- `x = 1` -/
def assigning : Expr :=
  .mk 5 (.assign (.mk 4 (.ident "x") {}) (.mk 3 (.number ⟨0x3ff0000000000000⟩) {})) {}

/-- `c ? (x = 1) : 0` -/
def assigningIfSet : Expr :=
  .mk 7 (.conditional (.mk 2 (.ident "c") {}) assigning (.mk 6 (.number ⟨0⟩) {})) {}

/-- `c ?? (x = 1)` -/
def assigningIfNullish : Expr := .mk 7 (.binary .nullish (.mk 2 (.ident "c") {}) assigning) {}

def assigningDecided : ((TypeId × Guard) × CheckState) × TypeTable :=
  checkFirst (.within 3) (.mk 2 (.ident "c") {}) declaredState.1 declaredState.2

def assigningEnd : (TypeId × CheckState) × TypeTable :=
  checkWhere (.within 3) assigningDecided.1.1.2 assigning none assigningDecided.1.2
    assigningDecided.2

def presentEnd : (TypeId × CheckState) × TypeTable :=
  (Checks.within 3).plain (.mk 2 (.ident "c") {}) declaredState.1 declaredState.2

set_option maxRecDepth 20000 in
/-- **An assignment on one path is forgotten or taken to have happened**: behind
`c ? (x = 1) : 0` the variable has the type from before, and behind `c ?? (x = 1)` it has the
type of the number. -/
theorem assignment_on_one_path :
    (PathEnds (.within 3) none declaredState.1 declaredState.2 assigningIfSet.kind
        assigningEnd.1.2 assigningEnd.2 ∧
      assigningEnd.1.2.env.get? "x" = some .number ∧
      (checkExpr (.within 3) assigningIfSet none declaredState.1
        declaredState.2).1.2.env.get? "x" = some .string ∧
      (isSubtype .number .string assigningEnd.2).1 = false) ∧
    (PathEnds (.within 3) none declaredState.1 declaredState.2 assigningIfNullish.kind
        presentEnd.1.2 presentEnd.2 ∧
      presentEnd.1.2.env.get? "x" = some .string ∧
      (checkExpr (.within 3) assigningIfNullish none declaredState.1
        declaredState.2).1.2.env.get? "x" = some .number ∧
      (isSubtype .string .number presentEnd.2).1 = false) := by
  have evaluated : PathEnds (.within 3) none declaredState.1 declaredState.2 assigningIfSet.kind
      assigningEnd.1.2 assigningEnd.2 := .yes (p := assigningDecided.1.1) rfl rfl
  have present : PathEnds (.within 3) none declaredState.1 declaredState.2 assigningIfNullish.kind
      presentEnd.1.2 presentEnd.2 := .present rfl
  refine ⟨⟨evaluated, ?_⟩, present, ?_⟩ <;> cbv

set_option maxRecDepth 20000 in
/-- **A value and its type are read apart**: the key `length` of an array gives an element, and a
number in the type. -/
theorem length_read_apart :
    fresh? (do
      let array ← intern (.array .string)
      let access := ExprKind.index (.mk 2 (.ident "x") {}) (.mk 3 (.string "length") {})
      let read ← (checkExpr (.within 3) (.mk 1 access {}) none).run'
        (.ofVariable "x" array array)
      return (read, ← evaluate (← intern (.indexed array (← stringLiteral "length"))))) =
    some (.string, .number) := by
  cbv

end GradualTyping
