/-
# Regions of types for a variable

What is known of a variable at a point is followed as a set of types that may depend on
the declared type of the variable.  A `Region` is such a set with what keeps types in it:
growth of the table, joins and tests, and assignments if it is open to them.

The environments of a check move through a region: the edges of a condition stay in it
(`InRegion.apply`), and so does what several paths have in common (`InRegion.join`).
-/

import GradualTyping.Proofs.Tracking.Programs
import GradualTyping.Proofs.Tracking.Steps

namespace GradualTyping

open TypeTable List TypeEnv

/-- A test that asks for the type of a value. -/
def Test.asksType : Test → Bool
  | instanceOf _ => true
  | predicate _ => true
  | _ => false

/-- Types that a variable may have at a point. -/
structure Region where
  /-- A variable of the declared type may have the type. -/
  Has (declared : TypeId) (t : TypeTable) (type : TypeId) : Prop
  /-- Tests that ask for types stay in the region. -/
  askable : Prop
  /-- Declarations and assignments stay in the region. -/
  assignable : Prop
  /-- What is known of the variable is followed at all. -/
  tracked : Prop := True
  later {t t' : TypeTable} {declared type : TypeId} : t.Sound → t.Continues t' →
    Below t.size declared → Below t.size type → Has declared t type → Has declared t' type
  union {t : TypeTable} {declared a b : TypeId} : t.Sound → Below t.size declared →
    Below t.size a → Below t.size b → Has declared t a → Has declared t b →
    Keeps Runs t (unionOf [a, b]) fun t' u => Has declared t' u
  narrow {t : TypeTable} {declared a : TypeId} {test : Test} (negated : Bool) :
    (test.asksType = true → askable) → t.Sound → Below t.size declared → Below t.size a →
    Below t.size test → Has declared t a →
    Keeps Runs t (narrowByTest a test negated) fun t' u => Has declared t' u
  declared {t : TypeTable} {d : TypeId} : assignable → t.Sound → Below t.size d → Has d t d
  assigned {t : TypeTable} {d a : TypeId} : assignable → t.Sound → Below t.size d →
    Below t.size a → Keeps Runs t (narrowByAssignment d a) fun t' u => Has d t' u

/-- The region of all types. -/
def Region.whole (tracked : Prop) : Region where
  Has _ _ _ := True
  askable := True
  assignable := True
  tracked := tracked
  later _ _ _ _ _ := trivial
  union s _ ha hb _ _ :=
    Tabled.Keeps.ignore (safe_unionOf s (below_pair.2 ⟨ha, hb⟩))
  narrow negated _ s _ ha htest _ := Tabled.Keeps.ignore (safe_narrowByTest s ha htest negated)
  declared _ _ _ := trivial
  assigned _ s hd ha := Tabled.Keeps.ignore (safe_narrowByAssignment s hd ha)

namespace TypeEnv

variable {env : TypeEnv} {var x : String} {type : TypeId}
variable {bindings : List (String × TypeId)}

/-- The names increase, so that each is bound once. -/
def Ordered (env : TypeEnv) : Prop := env.bindings.Pairwise (·.1 < ·.1)

theorem lookup_binding (b : String × TypeId) :
    (b :: bindings).lookup x = if x = b.1 then some b.2 else bindings.lookup x := by
  by_cases h : x = b.1
  · rw [if_pos h, lookup_cons, beq_iff_eq.2 h]
  · rw [if_neg h, lookup_cons, beq_eq_false_iff_ne.2 h]

theorem lookup_insertBinding :
    (insertBinding var type bindings).lookup x =
      if x = var then some type else bindings.lookup x := by
  fun_induction insertBinding var type bindings with
  | case1 => exact lookup_binding (var, type)
  | case2 b bs _ => exact lookup_binding (var, type)
  | case3 b bs _ heq =>
    rw [lookup_binding, lookup_binding, ← heq]
    split <;> rfl
  | case4 b bs _ hne ih =>
    rw [lookup_binding, lookup_binding, ih]
    grind

theorem get?_insert (env : TypeEnv) (var : String) (type : TypeId) :
    (env.insert var type).get? x = if x = var then some type else env.get? x :=
  lookup_insertBinding

theorem mem_insertBinding {p : String × TypeId}
    (h : p ∈ insertBinding var type bindings) : p.1 = var ∨ p ∈ bindings := by
  fun_induction insertBinding var type bindings with grind

theorem Ordered.insert (h : env.Ordered) (var : String) (type : TypeId) :
    (env.insert var type).Ordered := by
  obtain ⟨bindings, reachable⟩ := env
  show (insertBinding var type bindings).Pairwise _
  replace h : bindings.Pairwise (·.1 < ·.1) := h
  fun_induction insertBinding var type bindings with
  | case1 => exact pairwise_singleton ..
  | case2 b bs hlt =>
    refine pairwise_cons.2 ⟨fun q hq => ?_, h⟩
    rcases mem_cons.1 hq with rfl | hq
    · exact hlt
    · exact String.lt_trans hlt ((pairwise_cons.1 h).1 q hq)
  | case3 b bs _ heq =>
    exact pairwise_cons.2 ⟨fun q hq => heq ▸ (pairwise_cons.1 h).1 q hq, h.of_cons⟩
  | case4 b bs hlt hne ih =>
    have hb : b.1 < var := Std.lt_of_le_of_ne (String.not_lt.1 hlt) (Ne.symm hne)
    refine pairwise_cons.2 ⟨fun q hq => ?_, ih h.of_cons⟩
    rcases mem_insertBinding hq with heq | hq
    · exact heq ▸ hb
    · exact (pairwise_cons.1 h).1 q hq

/-- Every environment that is built by binding names is in order. -/
theorem ordered_ofList (bindings : List (String × TypeId)) : (ofList bindings).Ordered := by
  suffices ∀ env : TypeEnv, env.Ordered →
      (bindings.foldl (fun env b => env.insert b.1 b.2) env).Ordered from
    this {} .nil
  induction bindings with
  | nil => exact fun _ h => h
  | cons b bs ih => exact fun env h => ih _ (h.insert b.1 b.2)

theorem Ordered.get?_of_mem {p : String × TypeId} (h : env.Ordered) (hp : p ∈ env.bindings) :
    env.get? p.1 = some p.2 := by
  obtain ⟨bindings, reachable⟩ := env
  replace h : bindings.Pairwise (·.1 < ·.1) := h
  replace hp : p ∈ bindings := hp
  show bindings.lookup p.1 = some p.2
  induction bindings with
  | nil => cases hp
  | cons q bindings ih =>
    obtain ⟨first, rest⟩ := pairwise_cons.1 h
    rw [lookup_binding]
    rcases mem_cons.1 hp with rfl | hp
    · rw [if_pos rfl]
    · rw [if_neg fun e => String.lt_irrefl _ (e ▸ first p hp), ih rest hp]

theorem get?_erase : (env.erase var).get? x = if x = var then none else env.get? x := by
  obtain ⟨bindings, reachable⟩ := env
  show (bindings.filter (·.1 ≠ var)).lookup x = if x = var then none else bindings.lookup x
  induction bindings with
  | nil => split <;> rfl
  | cons q bindings ih =>
    rw [filter_cons]
    split
    · next hq =>
      rw [lookup_binding, lookup_binding, ih]
      have hq : q.1 ≠ var := by simpa using hq
      grind
    · next hq =>
      have hq : q.1 = var := by simpa using hq
      rw [lookup_binding, ih]
      grind

theorem Ordered.erase (h : env.Ordered) : (env.erase var).Ordered := h.filter _

end TypeEnv

/-- Every test of a variable in a guard is one of those given. -/
def Guard.Tests (x : String) (A : Test → Prop) : Guard → Prop
  | simple var test _ => var = x → A test
  | and left right => left.Tests x A ∧ right.Tests x A
  | or left right => left.Tests x A ∧ right.Tests x A
  | vacuous => True

section Guards

variable {x : String} {A B : Test → Prop}

theorem Guard.Tests.mono {guard : Guard} (h : guard.Tests x A) (hAB : ∀ test, A test → B test) :
    guard.Tests x B := by
  induction guard with
  | simple var test negated => exact fun e => hAB test (h e)
  | and left right ihl ihr => exact ⟨ihl h.1, ihr h.2⟩
  | or left right ihl ihr => exact ⟨ihl h.1, ihr h.2⟩
  | vacuous => trivial

theorem Guard.Tests.negate {guard : Guard} (h : guard.Tests x A) : guard.negate.Tests x A := by
  induction guard with
  | simple var test negated => exact h
  | and left right ihl ihr => exact ⟨ihl h.1, ihr h.2⟩
  | or left right ihl ihr => exact ⟨ihl h.1, ihr h.2⟩
  | vacuous => trivial

end Guards

/-! ### What conditions ask

The guard of a condition asks for the type of a variable only if the condition does. -/

namespace Checking

variable {ρ : CheckState → CheckState → Prop} [Lax ρ] (x : String)

theorem does_instances? {e : Expr} : Does ρ (instances? e) := by
  refine .get fun s => ?_
  split
  · exact .pure trivial
  · refine (Leads.lift (functionOf? _)).bind fun f _ => ?_
    split
    · exact .pure trivial
    · split
      · exact (Leads.lift _).map fun _ _ => trivial
      · exact .pure trivial

theorem does_predicate? {callee : Expr} : Does ρ (predicate? callee) := by
  refine .get fun s => ?_
  split
  · exact .pure trivial
  · split
    · exact .pure trivial
    · exact (Leads.lift _).bind fun _ _ => .pure trivial

theorem leads_equalityTest? (op : BinaryOp) {constant : Expr} :
    Leads ρ (Guard.equalityTest? guardFacts op constant) fun test =>
      ∀ test', test = some test' → test'.asksType = false := by
  unfold Guard.equalityTest?
  split
  · exact .pure fun _ h => Option.some.inj h ▸ rfl
  · exact .pure fun _ h => Option.some.inj h ▸ rfl
  · refine (Leads.lift (unitType? constant)).bind fun unit _ => .pure fun test h => ?_
    obtain ⟨value, _, rfl⟩ := Option.map_eq_some_iff.1 h
    rfl

theorem leads_ofEquality? (op : BinaryOp) {subject constant : Expr} :
    Leads ρ (Guard.ofEquality? guardFacts op subject constant) fun guard =>
      ∀ guard', guard = some guard' → guard'.Tests x fun test => test.asksType = false := by
  unfold Guard.ofEquality?
  extract_lets build
  have built : ∀ (e : Expr) (test : CheckM (Option Test)),
      Leads ρ test (fun test => ∀ test', test = some test' → test'.asksType = false) →
      Leads ρ (build e test) fun guard =>
        ∀ guard', guard = some guard' → guard'.Tests x fun test => test.asksType = false := by
    intro e test htest
    dsimp only [build]
    split
    · exact .pure fun _ h => nomatch h
    · refine htest.bind fun test htest => .pure fun guard h => ?_
      obtain ⟨test', rfl, rfl⟩ := Option.map_eq_some_iff.1 h
      exact fun _ => htest test' rfl
  split
  · refine built _ _ (.pure fun test h => ?_)
    split at h
    · exact Option.some.inj h ▸ rfl
    · cases h
  · refine built _ _ ((Leads.lift (unitType? constant)).bind fun unit _ => .pure fun test h => ?_)
    obtain ⟨value, _, rfl⟩ := Option.map_eq_some_iff.1 h
    rfl
  · exact built _ _ (leads_equalityTest? op)

theorem leads_ofCall? {asserts : Bool} {callee : Expr} {args : List Expr} :
    Leads ρ (Guard.ofCall? guardFacts asserts callee args) fun guard =>
      ∀ guard', guard = some guard' →
        guard'.Tests x fun _ => (args.any (·.ident? == some x)) = true := by
  refine does_predicate?.bind fun p _ => ?_
  split
  · exact .pure fun _ h => nomatch h
  · next p =>
    split
    · refine .pure fun guard h => ?_
      obtain ⟨var, hvar, rfl⟩ := Option.map_eq_some_iff.1 h
      obtain ⟨arg, harg, hident⟩ := Option.bind_eq_some_iff.1 hvar
      rintro rfl
      exact any_eq_true.2 ⟨arg, mem_of_getElem? harg, beq_iff_eq.2 hident⟩
    · exact .pure fun _ h => nomatch h

theorem tests_combine {join : Guard → Guard → Guard} {l r : Guard} {A : Test → Prop}
    (hjoin : ∀ l r : Guard, l.Tests x A → r.Tests x A → (join l r).Tests x A)
    (hl : l.Tests x A) (hr : r.Tests x A) : (Guard.combine join l r).Tests x A := by
  unfold Guard.combine
  split
  · trivial
  · exact hjoin l r hl hr

/-- **A guard asks what its condition asks.** -/
theorem leads_guardOf {cond : Expr} : Leads ρ (guardOf cond) fun guard =>
    guard.Tests x fun test => test.asksType = true → cond.asksType x = true := by
  show Leads ρ (Guard.ofCondition guardFacts cond) _
  have of_false : ∀ {cond : Expr} {guard : Guard}, guard.Tests x (fun test => test.asksType = false) →
      guard.Tests x fun test => test.asksType = true → cond.asksType x = true := fun h =>
    h.mono fun test htest hask => absurd (hask.symm.trans htest) (by decide)
  fun_induction Guard.ofCondition guardFacts cond with
  | case1 => exact .pure fun _ h => by cases h
  | case2 _ operand _ ih => exact ih.bind fun guard h => .pure h.negate
  | case3 _ left right _ ihl ihr =>
    refine ihl.bind fun l hl => ihr.bind fun r hr => .pure (tests_combine x (fun _ _ => .intro) ?_ ?_)
    · exact hl.mono fun _ h hask => Bool.or_eq_true_iff.2 (.inl (h hask))
    · exact hr.mono fun _ h hask => Bool.or_eq_true_iff.2 (.inr (h hask))
  | case4 _ left right _ ihl ihr =>
    refine ihl.bind fun l hl => ihr.bind fun r hr => .pure (tests_combine x (fun _ _ => .intro) ?_ ?_)
    · exact hl.mono fun _ h hask => Bool.or_eq_true_iff.2 (.inl (h hask))
    · exact hr.mono fun _ h hask => Bool.or_eq_true_iff.2 (.inr (h hask))
  | case5 _ left right _ =>
    refine does_instances?.bind fun type _ => ?_
    split
    · next var type' hvar =>
      refine .pure fun e _ => ?_
      subst e
      exact beq_iff_eq.2 hvar
    · exact .pure trivial
  | case6 => exact .pure fun _ h => by cases h
  | case7 => exact .pure trivial
  | case8 _ op left right =>
    refine (leads_ofEquality? x op).bind fun guard hguard => ?_
    split
    · exact .pure (of_false (hguard _ rfl))
    · refine (leads_ofEquality? x op).bind fun guard hguard => .pure ?_
      cases guard with
      | none => trivial
      | some guard => exact of_false (hguard guard rfl)
  | case9 => exact .pure trivial
  | case10 _ callee _ args _ =>
    refine (leads_ofCall? x).bind fun guard hguard => .pure ?_
    cases guard with
    | none => trivial
    | some guard => exact (hguard guard rfl).mono fun _ h _ => h
  | case11 => exact .pure trivial

theorem leads_ofAssertion? {e : Expr} : Leads ρ (Guard.ofAssertion? guardFacts e) fun guard =>
    ∀ guard', guard = some guard' → guard'.Tests x fun _ =>
      (Pattern.asks x).stmt (.expr e) = true := by
  obtain ⟨id, kind, span⟩ := e
  unfold Guard.ofAssertion?
  split
  · next callee typeArgs args hkind =>
    obtain rfl : kind = _ := hkind
    exact leads_ofCall? x
  · exact .pure fun _ h => nomatch h

/-- The guard of a clause tests the subject of its switch, and does not ask for types. -/
theorem leads_clauseGuard (subject : SwitchSubject) (tests : List Expr) :
    Leads ρ (subject.clauseGuard guardFacts tests) fun guard =>
      guard.Tests x fun test => test.asksType = false ∧ subject.variableName = x := by
  have one : ∀ test, Leads ρ (subject.caseGuard guardFacts test) fun guard =>
      guard.Tests x fun test => test.asksType = false ∧ subject.variableName = x := by
    intro test
    have read : Leads ρ (subject.caseTest? guardFacts test) fun test =>
        ∀ test', test = some test' → test'.asksType = false := by
      unfold SwitchSubject.caseTest?
      split
      · split
        · exact .pure fun _ h => Option.some.inj h ▸ rfl
        · exact .pure fun _ h => nomatch h
      · refine (Leads.lift (unitType? test)).bind fun unit _ => .pure fun test h => ?_
        obtain ⟨value, _, rfl⟩ := Option.map_eq_some_iff.1 h
        rfl
      · exact leads_equalityTest? .strictEq
    refine read.bind fun found hfound => ?_
    split
    · exact .pure fun e => ⟨hfound _ rfl, e⟩
    · exact .pure trivial
  refine (Leads.mapM fun test _ => one test).bind fun guards hguards => ?_
  split
  · exact .pure trivial
  · next g gs =>
    obtain ⟨hg, hgs⟩ := forall_mem_cons.1 hguards
    refine .pure (List.foldlRecOn (motive := Guard.Tests x _) gs _ hg fun a ha b hb => ?_)
    unfold SwitchSubject.either
    split
    · trivial
    · exact ⟨ha, hgs b hb⟩

/-! Where the answer does not matter, any variable will do. -/

theorem does_guardOf {cond : Expr} : Does ρ (guardOf cond) := (leads_guardOf "").does

theorem does_ofAssertion? (e : Expr) : Does ρ (Guard.ofAssertion? guardFacts e) :=
  (leads_ofAssertion? "").does

theorem does_clauseGuard (subject : SwitchSubject) {tests : List Expr} :
    Does ρ (subject.clauseGuard guardFacts tests) :=
  (leads_clauseGuard "" subject tests).does

end Checking

/-- In an environment a variable has a type of the region, and none if it is not bound, where it
is followed. -/
structure InRegion (x : String) (R : Region) (bound : Option LocalVariable) (t : TypeTable)
    (env : TypeEnv) : Prop where
  ordered : R.tracked → env.Ordered
  has : R.tracked → ∀ type, env.get? x = some type →
    ∃ b, bound = some b ∧ R.Has b.declared t type

namespace InRegion

variable {x : String} {R : Region} {bound : Option LocalVariable} {t t' : TypeTable}
  {env a b : TypeEnv}

theorem of_tracked (h : R.tracked → InRegion x R bound t env) : InRegion x R bound t env :=
  ⟨fun tracked => (h tracked).ordered tracked, fun tracked => (h tracked).has tracked⟩

theorem later (h : InRegion x R bound t env) (s : t.Sound) (g : t.Continues t')
    (hbound : t.Has bound) (henv : t.Has env) : InRegion x R bound t' env where
  ordered := h.ordered
  has tracked type htype := by
    obtain ⟨b, hb, has⟩ := h.has tracked type htype
    exact ⟨b, hb, R.later s g (hbound b hb) (below_get? henv x type htype) has⟩

/-- A name that is not followed. -/
theorem insert_of_ne (h : InRegion x R bound t env) {name : String} (hne : name ≠ x)
    {type : TypeId} : InRegion x R bound t (env.insert name type) where
  ordered tracked := (h.ordered tracked).insert name type
  has tracked type' htype' := by
    rw [get?_insert, if_neg hne.symm] at htype'
    exact h.has tracked type' htype'

/-- A variable that is entered or declared anew. -/
theorem set (ordered : R.tracked → env.Ordered) {b : LocalVariable} {type : TypeId}
    (has : R.Has b.declared t type) : InRegion x R (some b) t (env.insert x type) where
  ordered tracked := (ordered tracked).insert x type
  has _ type' htype' := by
    rw [get?_insert, if_pos rfl] at htype'
    exact ⟨b, rfl, Option.some.inj htype' ▸ has⟩

theorem insert (h : InRegion x R bound t env) {type : TypeId}
    (has : R.tracked → ∃ b, bound = some b ∧ R.Has b.declared t type) :
    InRegion x R bound t (env.insert x type) where
  ordered tracked := (h.ordered tracked).insert x type
  has tracked type' htype' := by
    rw [get?_insert, if_pos rfl] at htype'
    exact Option.some.inj htype' ▸ has tracked

theorem markUnreachable (h : InRegion x R bound t env) : InRegion x R bound t env.markUnreachable :=
  ⟨h.ordered, h.has⟩

theorem empty : InRegion x R bound t {} := ⟨fun _ => .nil, fun _ _ h => nomatch h⟩

/-- Where two paths join. -/
theorem merge (s : t.Sound) (hbound : t.Has bound) (ha : t.Has a)
    (hb : t.Has b) (wa : InRegion x R bound t a) (wb : InRegion x R bound t b) :
    Keeps Runs t (merge a b) fun t' env => t'.Has env ∧ InRegion x R bound t' env := by
  have step : ∀ p ∈ b.bindings, ∀ (t1 : TypeTable) (merged : TypeEnv), t1.Sound → t.Runs t1 →
      t1.Has merged ∧ InRegion x R bound t1 merged →
      Keeps Runs t1 (do return merged.insert p.1 (← joinTypes (a.get? p.1) p.2))
        fun t' env => t'.Has env ∧ InRegion x R bound t' env := by
    intro p hp t1 merged s1 r1 ⟨hmerged, wmerged⟩
    have hbound1 := r1 hbound
    have hmine := r1 (below_get? ha p.1)
    have htheirs : t1.Has p.2 := r1 (hb p hp).2
    have joined : Keeps Runs t1 (joinTypes (a.get? p.1) p.2) fun t' type =>
        p.1 = x → R.tracked → ∃ b, bound = some b ∧ R.Has b.declared t' type := by
      by_cases hx : p.1 = x ∧ R.tracked
      · obtain ⟨hx, tracked⟩ := hx
        obtain ⟨v, hv, theirs⟩ := wb.has tracked p.2 (hx ▸ (wb.ordered tracked).get?_of_mem hp)
        have hdeclared : t.Has v.declared := hbound v hv
        have theirs := R.later s r1.toContinues hdeclared (hb p hp).2 theirs
        unfold joinTypes
        split
        · exact .pure s1 fun _ _ => ⟨v, hv, theirs⟩
        · next mine hmine' =>
          have hmine : t.Has mine := below_get? ha p.1 mine hmine'
          split
          · exact .pure s1 fun _ _ => ⟨v, hv, theirs⟩
          · obtain ⟨v', hv', ours⟩ := wa.has tracked mine (hx ▸ hmine')
            obtain rfl : v' = v := Option.some.inj (hv'.symm.trans hv)
            have ours := R.later s r1.toContinues hdeclared hmine ours
            exact Tabled.Keeps.mono (R.union s1 (r1 hdeclared) (r1 hmine) htheirs ours
              theirs) fun _ _ _ _ has _ _ => ⟨v', hv, has⟩
      · exact (repeats_joinTypes s1 hmine htheirs).safe.mono fun _ _ _ _ _ e tracked =>
          absurd ⟨e, tracked⟩ hx
    have both := (repeats_joinTypes s1 hmine htheirs).safe
    refine Tabled.Keeps.bind (Q := fun t' type => t'.Has type ∧
      (p.1 = x → R.tracked → ∃ b, bound = some b ∧ R.Has b.declared t' type))
      ⟨both.sound, both.related, both.post, joined.post⟩ fun t2 type s2 r2 ⟨htype, has⟩ => ?_
    have wmerged := wmerged.later s1 r2.toContinues hbound1 hmerged
    refine .pure s2 ⟨below_insert (r2 hmerged) htype, ?_⟩
    by_cases hx : p.1 = x
    · rw [hx]
      exact wmerged.insert (has hx)
    · exact wmerged.insert_of_ne hx
  unfold TypeEnv.merge
  split
  · exact .pure s ⟨ha, wa⟩
  split
  · exact .pure s ⟨hb, wb⟩
  · exact .foldlM s ⟨ha, wa⟩ step

/-- Where any number of paths join. -/
theorem join {envs : List TypeEnv} (s : t.Sound) (hbound : t.Has bound)
    (h : ∀ env ∈ envs, t.Has env ∧ InRegion x R bound t env) :
    Keeps Runs t (join envs) fun t' env =>
      t'.Has env ∧ InRegion x R bound t' env := by
  refine .foldlM s ⟨below_nil, empty.markUnreachable⟩ fun env henv t1 merged s1 r1 hm => ?_
  obtain ⟨below, within⟩ := h env henv
  exact merge s1 (r1 hbound) hm.1 (r1 below) hm.2
    (within.later s r1.toContinues hbound below)

/-- A test of one variable. -/
theorem narrowVar (s : t.Sound) (hbound : t.Has bound) (henv : t.Has env)
    (h : InRegion x R bound t env) {var : String} {test : Test} {negated : Bool}
    (htest : t.Has test) (hx : var = x → test.asksType = true → R.askable) :
    Keeps Runs t (match env.get? var with
      | none => pure env
      | some type => return env.insert var (← narrowByTest type test negated))
      fun t' env => t'.Has env ∧ InRegion x R bound t' env := by
  split
  · exact .pure s ⟨henv, h⟩
  · next type htype =>
    have below : t.Has type := below_get? henv var type htype
    have safe := safe_narrowByTest s below htest negated
    by_cases hv : var = x
    · subst hv
      have narrowed (tracked : R.tracked) : ∃ b, bound = some b ∧ Keeps Runs t
          (narrowByTest type test negated) fun t' type => R.Has b.declared t' type := by
        obtain ⟨b, hb, has⟩ := h.has tracked type htype
        exact ⟨b, hb, R.narrow negated (hx rfl) s (hbound b hb) below htest has⟩
      refine Tabled.Keeps.bind (Q := fun t' type => t'.Has type ∧
        (R.tracked → ∃ b, bound = some b ∧ R.Has b.declared t' type))
        ⟨safe.sound, safe.related, safe.post, fun tracked =>
          have ⟨b, hb, h⟩ := narrowed tracked
          ⟨b, hb, h.post⟩⟩ fun t1 type s1 r1 ⟨htype, has⟩ => ?_
      exact .pure s1 ⟨below_insert (r1 henv) htype,
        (h.later s r1.toContinues hbound henv).insert has⟩
    · refine safe.bind fun t1 type s1 r1 htype => .pure s1 ?_
      exact ⟨below_insert (r1 henv) htype,
        (h.later s r1.toContinues hbound henv).insert_of_ne hv⟩

/-- **The edges of a condition stay in the region.** -/
theorem apply {guard : Guard} (s : t.Sound) (hguard : t.Has guard)
    (hx : guard.Tests x fun test => test.asksType = true → R.askable)
    (hbound : t.Has bound) (henv : t.Has env) (h : InRegion x R bound t env) :
    Keeps Runs t (apply guard env)
      fun t' env => t'.Has env ∧ InRegion x R bound t' env := by
  induction guard using Guard.readInduction generalizing t env with
  | vacuous => exact .pure s ⟨henv, h⟩
  | simple var test negated =>
    unfold apply
    split
    · exact .pure s ⟨henv, h⟩
    · exact narrowVar s hbound henv h hguard hx
  | and left right ihl ihr =>
    unfold apply
    split
    · exact .pure s ⟨henv, h⟩
    · refine (ihl s hguard.1 hx.1 hbound henv h).bind fun t1 env1 s1 r1 h1 => ?_
      exact ihr s1 (r1 hguard.2) hx.2 (r1 hbound) h1.1 h1.2
  | or left right ihl ihn ihr =>
    rw [apply_or]
    split
    · exact .pure s ⟨henv, h⟩
    · refine (ihl s hguard.1 hx.1 hbound henv h).bind fun t1 l s1 r1 hl => ?_
      refine (ihn s1 (Guard.below_negate (r1 hguard.1)) hx.1.negate (r1 hbound)
        (r1 henv) (h.later s r1.toContinues hbound henv)).bind fun t2 m s2 r2 hm => ?_
      have r2' := r1.trans r2
      refine (ihr s2 (r2' hguard.2) hx.2 (r2' hbound) hm.1 hm.2).bind
        fun t3 r s3 r3 hr => ?_
      have hl' := hl.2.later s1 (r2.trans r3).toContinues (r1 hbound) hl.1
      exact merge s3 ((r2'.trans r3) hbound) ((r2.trans r3) hl.1) hr.1 hl' hr.2

theorem bothEdges {guard : Guard} (s : t.Sound) (hguard : t.Has guard)
    (hx : guard.Tests x fun test => test.asksType = true → R.askable)
    (hbound : t.Has bound) (henv : t.Has env) (h : InRegion x R bound t env) :
    Keeps Runs t (Checking.bothEdges env guard) fun t' envs => t'.Has envs ∧
      InRegion x R bound t' envs.1 ∧ InRegion x R bound t' envs.2 := by
  refine (apply s hguard hx hbound henv h).bind fun t1 yes s1 r1 ⟨hyes, yesIn⟩ => ?_
  have h1 := h.later s r1.toContinues hbound henv
  refine (apply s1 (Guard.below_negate (r1 hguard)) hx.negate
    (r1 hbound) (r1 henv) h1).bind fun t2 no s2 r2 ⟨hno, noIn⟩ => .pure s2 ?_
  exact ⟨⟨r2 hyes, hno⟩, yesIn.later s1 r2.toContinues (r1 hbound) hyes, noIn⟩

theorem onEdge (h : InRegion x R bound t env) {dead : Bool} :
    InRegion x R bound t (Checking.onEdge dead env) := by
  cases dead with
  | true => exact h.markUnreachable
  | false => exact h

end InRegion

end GradualTyping
