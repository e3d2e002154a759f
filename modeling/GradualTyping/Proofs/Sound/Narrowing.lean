/-
# Narrowing is safe

The members of a type, what a test leaves of it and the environments on both edges of
a condition hold types of the table only, and finding them runs on the table.  It also
gives the same again: narrowing asks for normal forms and for comparisons and makes
unions, intersections and objects, and each of these gives the same again.  So does every
test on either edge (`repeats_narrowByTest`), and an environment under a guard
(`repeats_apply`): reading one guard twice, as both edges of a compound condition do, makes
no difference.

Reading a guard off a condition is safe for any source of facts that is safe
(`GuardFacts.Safe`), and so is the description of what a switch leaves over.
-/

import GradualTyping.Exhaustive
import GradualTyping.Proofs.Repetition.Comparison

namespace GradualTyping

open TypeTable List Narrowing

variable {t : TypeTable}
variable {type : TypeId}

/-! ### Members -/

section

variable (s : t.Sound)
include s

theorem TypeTable.Sound.below_namedUnion? : t.Has (t.namedUnion? type) := by
  unfold namedUnion?
  split
  · split
    · exact below_none
    · next body hbody =>
      obtain ⟨a, ha, hbody⟩ := Option.bind_eq_some_iff.1 hbody
      have h : t.Has (some body) := below_some.2 ((s.aliases ha).2 body hbody)
      split <;> first | exact h | exact below_none
  · exact below_none

theorem TypeTable.Sound.namedUnion?_congr {t' : TypeTable} (g : t.Grows t')
    (aliases : t'.aliases = t.aliases) (h : t.Has type) :
    t'.namedUnion? type = t.namedUnion? type := by
  have names : ∀ name, t'.alias? name = t.alias? name := fun name => by
    rw [TypeTable.alias?, aliases]
    rfl
  unfold namedUnion?
  rw [g.resolve h]
  split
  · next name hnode =>
    rw [names]
    cases hbody : (t.alias? name).bind (·.body) with
    | none => rfl
    | some body =>
      obtain ⟨a, ha, hbody⟩ := Option.bind_eq_some_iff.1 hbody
      dsimp only
      rw [g.resolve ((s.aliases ha).2 body hbody)]
  · rfl

theorem repeats_resolve {id : TypeId} (h : t.Has id) : Repeats True t (resolve id : TableM Ty) := by
  rw [← bind_pure (resolve id : TableM Ty)]
  exact .node (m := TableM) h (.pure s (s.below_resolve id))

theorem repeats_evaluateNode (h : t.Has type) : Repeats True t (evaluateNode type) :=
  .bind (repeats_evaluate s h) fun _ _ s1 _ he => repeats_resolve s1 he

theorem repeats_evaluatedMembers (h : t.Has type) : Repeats True t (evaluatedMembers type) := by
  refine .bind (repeats_evaluateNode s h) fun t1 node s1 r1 hnode => ?_
  split
  · exact .pure s1 hnode
  · exact .pure s1 below_nil
  · exact .pure s1 (below_singleton.2 (r1 h))

theorem repeats_unfoldWithin (fuel : Nat) (h : t.Has type) :
    Repeats True t (unfoldWithin fuel type) := by
  induction fuel generalizing t type with
  | zero => exact .pure s below_nil
  | succ fuel ih =>
    refine .node (m := TableM) h ?_
    split
    · next ms hms =>
      refine .bind (.mapM s fun m hm t1 s1 r1 =>
        ih s1 (r1 (s.below_node hms m hm))) fun t1 lists s1 _ hlists => .pure s1 ?_
      intro m hm
      obtain ⟨l, hl, hm⟩ := mem_flatten.1 hm
      exact hlists l hl m hm
    · exact .pure s below_nil
    · refine RepeatsAs.reading (c := get) (fun _ => rfl) fun t' g aliases => ?_
      rw [show ((get : TableM TypeTable) t').1 = t' from rfl,
        show ((get : TableM TypeTable) t).1 = t from rfl, s.namedUnion?_congr g aliases h]
      cases hbody : t.namedUnion? type with
      | none => exact repeats_evaluatedMembers s h
      | some body =>
        dsimp only
        split
        · exact repeats_evaluatedMembers s h
        · exact ih s (s.below_namedUnion? body hbody)

theorem repeats_namedMembers (h : t.Has type) : Repeats True t (namedMembers type) := by
  refine Repeating.read (m := TableM) (c := getLimits) (fun _ => rfl) (fun t' g => ?_) ?_
  · rw [show (getLimits t').1 = (getLimits t).1 from g.limits]
  · exact .bind (repeats_unfoldWithin s _ h) fun _ _ s1 _ hms =>
      .pure s1 (hms.subset fun _ => mem_dropRepeats.1)

theorem safe_namedMembers (h : t.Has type) : Safe t (namedMembers type) :=
  (repeats_namedMembers s h).safe

theorem repeats_memberForms (h : t.Has type) : Repeats True t (memberForms type) := by
  refine .bind (repeats_namedMembers s h) fun t1 ms s1 _ hms => ?_
  refine .mapM s1 fun m hm t2 s2 r2 => ?_
  refine .bind (repeats_evaluate s2 (r2 (hms m hm))) fun t3 form s3 r3 hform => ?_
  exact .pure s3 ⟨(r2.trans r3) (hms m hm), hform⟩

theorem repeats_keepMembers (h : t.Has type) {keep : TypeId → TableM (Option TypeId)}
    (hkeep : ∀ t' m, t'.Sound → t.Runs t' → t'.Has m → Repeats True t' (keep m)) :
    Repeats True t (keepMembers type keep) := by
  refine .bind (repeats_memberForms s h) fun t1 forms s1 r1 hforms => ?_
  refine .bind (.filterMapM s1 fun p hp t2 s2 r2 => ?_)
    fun t2 kept s2 _ hkept => .of_stable (m := TableM) (stable_unionOf s2 hkept)
  have hp := r2 (hforms p hp)
  refine .bind (hkeep t2 p.2 s2 (r1.trans r2) hp.2) fun t3 k s3 r3 hk => ?_
  refine .pure s3 fun id hid => ?_
  obtain ⟨k, hk', rfl⟩ := Option.map_eq_some_iff.1 hid
  split
  · exact r3 hp.1
  · exact hk k hk'

end

/-- Keeping a member by a property of it. -/
theorem repeats_choice {keep : TypeId → TableM Bool} {m : TypeId} (h : Repeats True t (keep m))
    (hm : t.Has m) :
    Repeats True t (do return if ← keep m then some m else none : TableM (Option TypeId)) :=
  .bind h fun t2 b s2 r2 _ => .pure s2 (by
    cases b
    · exact below_none
    · exact below_some.2 (r2 hm))

theorem repeats_filterMembers (s : t.Sound) (h : t.Has type) {keep : TypeId → TableM Bool}
    (hkeep : ∀ t' m, t'.Sound → t.Runs t' → t'.Has m → Repeats True t' (keep m)) :
    Repeats True t (filterMembers type keep) :=
  repeats_keepMembers s h fun t1 m s1 r1 hm => repeats_choice (hkeep t1 m s1 r1 hm) hm

theorem repeats_isTop (s : t.Sound) (h : t.Has type) : Repeats True t (isTop type) := by
  refine .bind (repeats_evaluateNode s h) fun t1 node s1 _ _ => ?_
  split <;> exact .pure s1 trivial

/-! ### One rule for each test -/

theorem below_object? {n : Nat} {ty : Ty} (h : Below n ty) : Below n ty.object? := by
  intro o ho
  cases ty <;> cases ho
  exact h

theorem below_field? {n : Nat} {ty : Ty} (h : Below n ty) (name : String) :
    Below n (ty.object?.bind (·.read? name)) := by
  intro id hid
  obtain ⟨o, ho, hid⟩ := Option.bind_eq_some_iff.1 hid
  exact below_read? (below_object? h o ho) id hid

namespace Narrowing

/-- Either branch of a choice. -/
theorem below_ite {α : Type} [Bounded α] {n : Nat} {p : Prop} [Decidable p] {a b : α}
    (ha : Below n a) (hb : Below n b) : Below n (if p then a else b) := by
  split
  · exact ha
  · exact hb

theorem repeats_typeOfTag? (s : t.Sound) {tag : String} : Repeats True t (typeOfTag? tag) := by
  unfold typeOfTag?
  split
  case h_7 =>
    refine .bind (.of_stable (m := TableM) (stable_objectOf s below_nil below_none))
      fun t1 object s1 _ hobject => ?_
    refine .bind (.of_stable (m := TableM) (stable_unionOf s1
      (below_pair.2 ⟨hobject, s1.below_fixed rfl⟩)))
      fun t2 id s2 _ hid => .pure s2 (below_some.2 hid)
  case h_8 => exact .pure s below_none
  all_goals exact .pure s (below_some.2 (s.below_fixed rfl))

theorem repeats_equalMember (s : t.Sound) {value m : TypeId} (hvalue : t.Has value)
    (hm : t.Has m) : Repeats True t (equalMember value m) := by
  refine .node (m := TableM) hm (.node (m := TableM) hvalue ?_)
  dsimp only
  split
  · exact .pure s (below_ite (below_some.2 hvalue) below_none)
  · exact .pure s (below_some.2 hm)
  · exact .pure s below_none

theorem repeats_gainKey (s : t.Sound) {withKey m : TypeId} (hkey : t.Has withKey)
    (hm : t.Has m) : Repeats True t (gainKey withKey m) := by
  have joined : Repeats True t (do return some (← intersectionOf [m, withKey]) :
      TableM (Option TypeId)) :=
    .bind (.of_stable (m := TableM) (stable_intersectionOf s
      (below_pair.2 ⟨hm, hkey⟩)))
      fun _ _ s1 _ hid => .pure s1 (below_some.2 hid)
  refine .node (m := TableM) hm ?_
  split
  case h_1 =>
    split
    · exact joined
    · exact .pure s (below_some.2 hm)
  case h_2 => exact joined
  case h_7 => exact .pure s below_none
  all_goals exact .pure s (below_some.2 hm)

theorem repeats_fieldKeep (s : t.Sound) {value m : TypeId} (hvalue : t.Has value)
    (hm : t.Has m) {field : String} {negated : Bool} :
    Repeats True t (fieldKeep field value negated m) := by
  refine .node (m := TableM) hm ?_
  split
  · exact .pure s trivial
  · next fieldType hfield =>
    refine .bind (repeats_evaluate s (below_field? (s.below_resolve m) field fieldType hfield))
      fun t1 fieldType s1 r1 hfieldType => ?_
    split
    · exact .pure s1 trivial
    · exact repeats_isSubtype s1 (r1 hvalue) hfieldType

section

variable (s : t.Sound) {type : TypeId} (h : t.Has type) (negated : Bool)

include s h

theorem repeats_byTag {tag : String} : Repeats True t (byTag type tag negated) := by
  refine .bind (repeats_isTop s h) fun t1 top s1 r1 _ => ?_
  split
  · split
    · exact .pure s1 (r1 h)
    · refine .bind (repeats_typeOfTag? s1) fun t2 found s2 r2 hfound => ?_
      exact .pure s2 (hfound.getD ((r1.trans r2) h))
  · refine repeats_filterMembers s1 (r1 h) fun t2 m s2 _ hm =>
      .node (m := TableM) hm ?_
    split <;> exact .pure s2 trivial

theorem repeats_byTruth : Repeats True t (byTruth type negated) := by
  refine .bind (repeats_isTop s h) fun t1 top s1 r1 _ => ?_
  split
  · exact .pure s1 (r1 h)
  · refine repeats_keepMembers s1 (r1 h) fun t2 m s2 _ hm => ?_
    split
    · exact .pure s2 (below_some.2 (below_ite (s2.below_fixed rfl)
        (s2.below_fixed rfl)))
    · exact .node (m := TableM) hm
        (.pure s2 (below_ite (below_some.2 hm) below_none))

theorem repeats_byNull (kind : NullTest) : Repeats True t (byNull type kind negated) := by
  refine .bind (repeats_isTop s h) fun t1 top s1 r1 _ => ?_
  split
  · split
    · exact .pure s1 (r1 h)
    · cases kind with
      | null => exact .pure s1 (s1.below_fixed rfl)
      | undefined => exact .pure s1 (s1.below_fixed rfl)
      | both =>
        exact .of_stable (m := TableM) (stable_unionOf s1
          (below_pair.2 ⟨s1.below_fixed rfl, s1.below_fixed rfl⟩))
  · exact repeats_filterMembers s1 (r1 h) fun t2 m s2 _ hm =>
      .node (m := TableM) hm (.pure s2 trivial)

theorem repeats_byValue {value : TypeId} (hvalue : t.Has value) :
    Repeats True t (byValue type value negated) := by
  refine .bind (repeats_isTop s h) fun t1 top s1 r1 _ => ?_
  split
  · exact .pure s1 (below_ite (r1 h) (r1 hvalue))
  · refine repeats_keepMembers s1 (r1 h) fun t2 m s2 r2 hm => ?_
    have hvalue := (r1.trans r2) hvalue
    split
    · exact .pure s2 (below_ite below_none (below_some.2 hm))
    split
    · exact .pure s2 (below_some.2 (below_ite (s2.below_fixed rfl) hvalue))
    split
    · exact .pure s2 (below_some.2 (below_ite (s2.below_fixed rfl) hvalue))
    split
    · exact .pure s2 (below_some.2 hm)
    · exact repeats_equalMember s2 hvalue hm

theorem repeats_byField {field : String} {value : TypeId} (hvalue : t.Has value) :
    Repeats True t (byField type field value negated) := by
  refine .bind (repeats_isTop s h) fun t1 top s1 r1 _ => ?_
  split
  · exact .pure s1 (r1 h)
  · exact repeats_filterMembers s1 (r1 h) fun t2 m s2 r2 hm =>
      repeats_fieldKeep s2 ((r1.trans r2) hvalue) hm

theorem repeats_byKey {key : String} : Repeats True t (byKey type key negated) := by
  refine .bind (repeats_isTop s h) fun t1 top s1 r1 _ => ?_
  split
  · exact .pure s1 (r1 h)
  · refine .bind (repeats_memberForms s1 (r1 h)) fun t2 forms s2 r2 hforms => ?_
    have h := (r1.trans r2) h
    refine .table (m := TableM) (fun t' g => ?_) ?_
    · have same : (forms.any fun p => ((t'.resolve p.2).object?.bind (·.property? key)).isSome) =
          forms.any fun p => ((t2.resolve p.2).object?.bind (·.property? key)).isSome := by
        rw [Bool.eq_iff_iff, any_eq_true, any_eq_true]
        exact exists_congr fun p => and_congr_right fun hp => by
          rw [g.resolve (hforms p hp).2]
      dsimp only
      rw [same]
    dsimp only
    split
    · refine .bind (.of_stable (m := TableM)
        (stable_objectOf s2 (below_singleton.2 s2.below_unknown) below_none))
        fun t3 withKey s3 r3 hkey => ?_
      exact repeats_keepMembers s3 (r3 h) fun t4 m s4 r4 hm =>
        repeats_gainKey s4 (r4 hkey) hm
    · exact repeats_filterMembers s2 h fun t3 m s3 _ hm =>
        .node (m := TableM) hm (.pure s3 trivial)

theorem repeats_byType {target : TypeId} (htarget : t.Has target) :
    Repeats True t (byType type target negated) := by
  refine .bind (repeats_isTop s h) fun t1 top s1 r1 _ => ?_
  split
  · exact .pure s1 (below_ite (r1 h) (r1 htarget))
  · refine repeats_keepMembers s1 (r1 h) fun t2 m s2 r2 hm => ?_
    have htarget := (r1.trans r2) htarget
    refine .bind (repeats_isSubtype s2 hm htarget) fun t3 within s3 r3 _ => ?_
    have hm := r3 hm
    have htarget := r3 htarget
    split
    · exact .pure s3 (below_ite below_none (below_some.2 hm))
    split
    · exact .pure s3 (below_some.2 hm)
    · refine .bind (repeats_isSubtype s3 htarget hm) fun t4 b s4 r4 _ => ?_
      exact .pure s4 (below_ite (below_some.2 (r4 htarget)) below_none)

end

end Narrowing

/-- The type that a test compares with. -/
def Test.type? : Test → Option TypeId
  | .instanceOf type | .equals type | .fieldEquals _ type | .predicate type => some type
  | .typeOf _ | .hasKey _ | .truthy | .nullish _ => none

instance : Bounded Test := ⟨fun n test => Below n test.type?, Bounded.mono⟩

/-- **Narrowing a type again gives the same type.** -/
theorem repeats_narrowByTest (s : t.Sound) (h : t.Has type) {test : Test}
    (htest : t.Has test) (negated : Bool) : Repeats True t (narrowByTest type test negated) := by
  cases test with
  | typeOf tag => exact repeats_byTag s h negated
  | truthy => exact repeats_byTruth s h negated
  | nullish kind => exact repeats_byNull s h negated kind
  | equals value => exact repeats_byValue s h negated (below_some.1 htest)
  | fieldEquals field value => exact repeats_byField s h negated (below_some.1 htest)
  | hasKey key => exact repeats_byKey s h negated
  | instanceOf target => exact repeats_byType s h negated (below_some.1 htest)
  | predicate target => exact repeats_byType s h negated (below_some.1 htest)

theorem safe_narrowByTest (s : t.Sound) (h : t.Has type) {test : Test}
    (htest : t.Has test) (negated : Bool) : Safe t (narrowByTest type test negated) :=
  (repeats_narrowByTest s h htest negated).safe

/-! ### Environments -/

instance : Bounded TypeEnv := ⟨fun n env => Below n env.bindings, Bounded.mono⟩

instance : Bounded Guard where
  Below n := Guard.rec (fun _ test _ => Below n test) (fun _ _ => And) (fun _ _ => And) True
  mono {m n guard} hmn h := by
    induction guard with
    | simple var test negated => exact Bounded.mono (α := Test) hmn h
    | and a b iha ihb => exact ⟨iha h.1, ihb h.2⟩
    | or a b iha ihb => exact ⟨iha h.1, ihb h.2⟩
    | vacuous => trivial

namespace Guard

theorem below_negate {n : Nat} {a : Guard} (h : Below n a) : Below n a.negate := by
  induction a with
  | simple var test negated => exact h
  | and a b iha ihb => exact ⟨iha h.1, ihb h.2⟩
  | or a b iha ihb => exact ⟨iha h.1, ihb h.2⟩
  | vacuous => trivial

theorem negate_negate (guard : Guard) : guard.negate.negate = guard := by
  induction guard <;> simp_all [negate]

/-- Induction over guards as they are read: the second part of a disjunction is read where the
first one fails. -/
theorem readInduction {P : Guard → Prop} (vacuous : P .vacuous)
    (simple : ∀ var test negated, P (.simple var test negated))
    (and : ∀ a b, P a → P b → P (.and a b)) (or : ∀ a b, P a → P a.negate → P b → P (.or a b))
    (guard : Guard) : P guard := by
  have both : P guard ∧ P guard.negate := by
    induction guard with
    | vacuous => exact ⟨vacuous, vacuous⟩
    | simple var test negated => exact ⟨simple .., simple ..⟩
    | and a b iha ihb =>
      exact ⟨and a b iha.1 ihb.1, or _ _ iha.2 (a.negate_negate.symm ▸ iha.1) ihb.2⟩
    | or a b iha ihb => exact ⟨or a b iha.1 iha.2 ihb.1, and _ _ iha.2 ihb.2⟩
  exact both.1

end Guard

namespace TypeEnv

variable {n : Nat} {env : TypeEnv}
variable {var : String}

theorem below_get? (h : Below n env) (var : String) : Below n (env.get? var) := h.lookup var

theorem below_insertBinding {bindings : List (String × TypeId)} (h : Below n bindings)
    {name : String} (htype : Below n type) : Below n (insertBinding name type bindings) := by
  induction bindings with
  | nil => exact below_singleton.2 ⟨trivial, htype⟩
  | cons b bs ih =>
    obtain ⟨hb, hbs⟩ := below_cons.1 h
    unfold insertBinding
    split
    · exact below_cons.2 ⟨⟨trivial, htype⟩, h⟩
    split
    · exact below_cons.2 ⟨⟨trivial, htype⟩, hbs⟩
    · exact below_cons.2 ⟨hb, ih hbs⟩

theorem below_insert (h : Below n env) (htype : Below n type) : Below n (env.insert var type) :=
  below_insertBinding h htype

theorem below_erase (h : Below n env) : Below n (env.erase var) := h.filter _

theorem below_markUnreachable (h : Below n env) : Below n env.markUnreachable := h

theorem repeats_joinTypes (s : t.Sound) {mine : Option TypeId} {theirs : TypeId}
    (hmine : t.Has mine) (htheirs : t.Has theirs) : Repeats True t (joinTypes mine theirs) := by
  unfold joinTypes
  split
  · exact .pure s htheirs
  · split
    · exact .pure s htheirs
    · exact .of_stable (m := TableM) (stable_unionOf s
        (below_pair.2 ⟨below_some.1 hmine, htheirs⟩))

theorem repeats_merge (s : t.Sound) {a b : TypeEnv} (ha : t.Has a) (hb : t.Has b) :
    Repeats True t (merge a b) := by
  unfold merge
  split
  · exact .pure s ha
  split
  · exact .pure s hb
  · refine .foldlM s ha fun p hp t1 merged s1 r1 hmerged => ?_
    refine .bind (repeats_joinTypes s1 (below_get? (r1 ha) p.1)
      (r1 (hb p hp)).2) fun t2 type s2 r2 htype => .pure s2 ?_
    exact below_insert (r2 hmerged) htype

theorem safe_join (s : t.Sound) {envs : List TypeEnv} (h : t.Has envs) : Safe t (join envs) :=
  .foldlM s below_nil fun env henv _ _ s1 r1 hmerged =>
    (repeats_merge s1 hmerged (r1 (h env henv))).safe

theorem repeats_narrowVar (s : t.Sound) (h : t.Has env) {test : Test}
    (htest : t.Has test) {negated : Bool} :
    Repeats True t (match env.get? var with
      | none => return env
      | some type => return env.insert var (← narrowByTest type test negated) :
      TableM TypeEnv) := by
  split
  · exact .pure s h
  · next type htype =>
    refine .bind (repeats_narrowByTest s (below_get? h var type htype) htest negated)
      fun t1 type s1 r1 h1 => .pure s1 ?_
    exact below_insert (r1 h) h1

/-- The negation of a guard holds where the guard fails, and fails where it holds. -/
theorem apply_negate (guard : Guard) (env : TypeEnv) :
    apply guard.negate env = apply.applyNot guard env ∧
      apply.applyNot guard.negate env = apply guard env := by
  induction guard generalizing env with
  | vacuous => exact ⟨rfl, rfl⟩
  | simple var test negated =>
    constructor
    · rw [Guard.negate, apply, apply.applyNot]
    · rw [Guard.negate, apply, apply.applyNot, Bool.not_not]
  | and a b iha ihb | or a b iha ihb =>
    constructor
    · rw [Guard.negate, apply, apply.applyNot]
      simp only [(iha _).1, (iha _).2, (ihb _).1]
    · rw [Guard.negate, apply, apply.applyNot]
      simp only [(iha _).1, (iha _).2, (ihb _).2]

theorem apply_or (a b : Guard) (env : TypeEnv) : apply (.or a b) env = (do
    if !env.reachable then return env
    let left ← apply a env
    let right ← apply b (← apply a.negate env)
    left.merge right) := by
  rw [apply, (apply_negate a env).1]

/-- **An environment under a guard is the same again.** -/
theorem repeats_apply {guard : Guard} (s : t.Sound) (hguard : t.Has guard)
    (h : t.Has env) : Repeats True t (apply guard env) := by
  induction guard using Guard.readInduction generalizing t env with
  | vacuous => exact .pure s h
  | simple var test negated =>
    unfold apply
    split
    · exact .pure s h
    · exact repeats_narrowVar s h hguard
  | and a b iha ihb =>
    unfold apply
    split
    · exact .pure s h
    · exact .bind (iha s hguard.1 h) fun t1 env1 s1 r1 h1 => ihb s1 (r1 hguard).2 h1
  | or a b iha ihn ihb =>
    rw [apply_or]
    split
    · exact .pure s h
    · refine .bind (iha s hguard.1 h) fun t1 left s1 r1 hleft => ?_
      refine .bind (ihn s1 (Guard.below_negate (r1 hguard).1) (r1 h))
        fun t2 env2 s2 r2 h2 => ?_
      refine .bind (ihb s2 ((r1.trans r2) hguard).2 h2) fun t3 right s3 r3 hright => ?_
      exact repeats_merge s3 ((r2.trans r3) hleft) hright

theorem safe_apply (s : t.Sound) {guard : Guard} (hguard : t.Has guard)
    (h : t.Has env) : Safe t (env.apply guard) :=
  (repeats_apply s hguard h).safe

end TypeEnv

/-- Homes are members. -/
theorem keeps_firstHomes {members as : List TypeId} (s : t.Sound) (hmembers : t.Has members)
    (has : t.Has as) : Keeps Runs t (firstHomes members as) fun _ homes =>
      ∀ hs, homes = some hs → ∀ home ∈ hs, home ∈ members := by
  induction as generalizing t with
  | nil => exact .pure s fun hs hhs => Option.some.inj hhs ▸ fun _ h => nomatch h
  | cons a as ih =>
    obtain ⟨ha, has⟩ := below_cons.1 has
    have found : Keeps Runs t (members.findM? (isSubtype a)) fun _ o => ∀ x, o = some x → x ∈ members :=
      .findM? s fun x hx t1 s1 r1 => (safe_isSubtype s1 (r1 ha) (r1 (hmembers x hx))).ignore
    refine found.bind fun t1 home s1 r1 hhome => ?_
    cases home with
    | none => exact .pure s1 fun _ h => nomatch h
    | some home =>
      refine (ih s1 (r1 hmembers) (r1 has)).bind fun t2 homes s2 _ hhomes =>
        .pure s2 fun hs hhs => ?_
      obtain ⟨rest, hrest, rfl⟩ := Option.map_eq_some_iff.1 hhs
      exact forall_mem_cons.2 ⟨hhome home rfl, hhomes rest hrest⟩

theorem safe_narrowByAssignment (s : t.Sound) {declared assigned : TypeId}
    (hdeclared : t.Has declared) (hassigned : t.Has assigned) :
    Safe t (narrowByAssignment declared assigned) := by
  refine (safe_namedMembers s hdeclared).bind fun t1 ms s1 r1 hms => ?_
  split
  · exact .pure s1 (r1 hdeclared)
  · refine .read rfl ?_
    refine (keeps_firstHomes s1 hms (s1.below_unionMembers (r1 hassigned))).bind
      fun t2 homes s2 r2 hhomes => ?_
    split
    · next homes => exact safe_unionOf s2 fun m hm => r2 (hms m (hhomes homes rfl m hm))
    · exact .pure s2 ((r1.trans r2) hdeclared)

/-! ### Guards of conditions -/

/-- Facts about expressions that name types of the table. -/
structure GuardFacts.Safe {m : Type → Type} [Monad m] [MonadLiftT TableM m] [Tabled m]
    (facts : GuardFacts m) : Prop where
  unit? : ∀ {t : TypeTable} (e : Expr), t.Sound → GradualTyping.Safe t (facts.unit? e)
  instances? : ∀ {t : TypeTable} (e : Expr), t.Sound → GradualTyping.Safe t (facts.instances? e)
  predicate? : ∀ {t : TypeTable} (e : Expr), t.Sound → GradualTyping.Safe t (facts.predicate? e)

theorem below_map_option {α β : Type} [Bounded α] [Bounded β] {n : Nat} {o : Option α} {f : α → β}
    (h : Below n o) (hf : ∀ a, Below n a → Below n (f a)) : Below n (o.map f) := by
  cases o with
  | none => exact below_none
  | some a => exact below_some.2 (hf a (below_some.1 h))

namespace Guard

variable {n : Nat} {a b : Guard}

theorem below_combine {join : Guard → Guard → Guard} (h : Below n (join a b)) :
    Below n (combine join a b) := by
  unfold combine
  split
  · exact trivial
  · exact h

section

variable {m : Type → Type} [Monad m] [MonadLiftT TableM m] [Tabled m]
  {facts : GuardFacts m} (hfacts : facts.Safe)

include hfacts

theorem safe_equalityTest? (s : t.Sound) (op : BinaryOp) {constant : Expr} :
    Safe t (equalityTest? facts op constant) := by
  unfold equalityTest?
  split
  · exact .pure s (below_some.2 (below_none (α := TypeId)))
  · exact .pure s (below_some.2 (below_none (α := TypeId)))
  · exact (hfacts.unit? constant s).bind fun t1 o s1 _ ho => .pure s1
      (below_map_option ho fun _ h => below_some.2 h)

theorem safe_ofEquality? (s : t.Sound) (op : BinaryOp) {subject constant : Expr} :
    Safe t (ofEquality? facts op subject constant) := by
  unfold ofEquality?
  extract_lets build
  have build_safe : ∀ (e : Expr) (test : m (Option Test)), Safe t test → Safe t (build e test) := by
    intro e test htest
    dsimp only [build]
    split
    · exact .pure s below_none
    · exact htest.bind fun t1 o s1 _ ho => .pure s1 (below_map_option ho fun _ h => h)
  split
  · refine build_safe _ _ (.pure s ?_)
    split
    · exact below_some.2 (below_none (α := TypeId))
    · exact below_none
  · exact build_safe _ _ ((hfacts.unit? constant s).bind fun t1 o s1 _ ho => .pure s1
      (below_map_option ho fun _ h => below_some.2 h))
  · exact build_safe _ _ (safe_equalityTest? hfacts s op)

theorem safe_ofCall? (s : t.Sound) {asserts : Bool} {callee : Expr} {args : List Expr} :
    Safe t (ofCall? facts asserts callee args) := by
  refine (hfacts.predicate? callee s).bind fun t1 o s1 _ ho => ?_
  split
  · exact .pure s1 below_none
  · next p =>
    split
    · refine .pure s1 fun guard hguard => ?_
      obtain ⟨var, _, rfl⟩ := Option.map_eq_some_iff.1 hguard
      have hp : t1.Has p := below_some.1 ho
      exact below_some.2 (show t1.Has p.type from hp)
    · exact .pure s1 below_none

theorem safe_ofCondition (s : t.Sound) {e : Expr} : Safe t (ofCondition facts e) := by
  fun_induction ofCondition facts e generalizing t with
  | case1 id name span => exact .pure s (below_none (α := TypeId))
  | case2 id operand span ih => exact (ih s).bind fun t1 g s1 _ hg => .pure s1 (below_negate hg)
  | case3 id left right span ihl ihr =>
    refine (ihl s).bind fun t1 l s1 _ hl => ?_
    exact (ihr s1).bind fun t2 r s2 r2 hr => .pure s2
      (below_combine (a := l) (b := r) ⟨(Along.grows r2).below hl, hr⟩)
  | case4 id left right span ihl ihr =>
    refine (ihl s).bind fun t1 l s1 _ hl => ?_
    exact (ihr s1).bind fun t2 r s2 r2 hr => .pure s2
      (below_combine (a := l) (b := r) ⟨(Along.grows r2).below hl, hr⟩)
  | case5 id left right span =>
    refine (hfacts.instances? right s).bind fun t1 type s1 _ htype => ?_
    split
    · exact .pure s1 htype
    · exact .pure s1 trivial
  | case6 => exact .pure s (below_none (α := TypeId))
  | case8 id op left right span =>
    refine (safe_ofEquality? hfacts s op).bind fun t1 found s1 _ hfound => ?_
    split
    · exact .pure s1 (below_some.1 hfound)
    · exact (safe_ofEquality? hfacts s1 op).bind fun t2 found s2 _ hfound =>
        .pure s2 (hfound.getD trivial)
  | case10 id callee typeArgs args span =>
    exact (safe_ofCall? hfacts s).bind fun t1 found s1 _ hfound =>
      .pure s1 (hfound.getD trivial)
  | case7 | case9 | case11 => exact .pure s trivial

theorem safe_ofCondition? (s : t.Sound) {e : Expr} : Safe t (ofCondition? facts e) :=
  (safe_ofCondition hfacts s).bind fun _ _ s1 _ h =>
    .pure s1 (below_ite below_none (below_some.2 h))

theorem safe_ofAssertion? (s : t.Sound) {e : Expr} : Safe t (ofAssertion? facts e) := by
  unfold ofAssertion?
  split
  · exact safe_ofCall? hfacts s
  · exact .pure s below_none

end

end Guard

/-! ### Switches -/

namespace SwitchSubject

section Cases

variable {m : Type → Type} [Monad m] [LawfulMonad m] [MonadLiftT TableM m] [Tabled m]
  {facts : GuardFacts m} (hfacts : facts.Safe) (subject : SwitchSubject)

include hfacts

omit [LawfulMonad m] in
theorem safe_caseTest? (s : t.Sound) {test : Expr} : Safe t (subject.caseTest? facts test) := by
  unfold caseTest?
  split
  · split
    · exact .pure s (below_some.2 (below_none (α := TypeId)))
    · exact .pure s below_none
  · exact (hfacts.unit? test s).bind fun t1 o s1 _ ho => .pure s1
      (below_map_option ho fun _ h => below_some.2 h)
  · exact Guard.safe_equalityTest? hfacts s _

omit [LawfulMonad m] in
theorem safe_caseGuard (s : t.Sound) {test : Expr} : Safe t (subject.caseGuard facts test) := by
  refine (safe_caseTest? hfacts subject s).bind fun t1 o s1 _ ho => ?_
  split
  · next test => exact .pure s1 (show t1.Has test from below_some.1 ho)
  · exact .pure s1 trivial

omit facts hfacts [LawfulMonad m] [MonadLiftT TableM m] [Tabled m] [Monad m] in
theorem below_either {n : Nat} {a b : Guard} (ha : Below n a) (hb : Below n b) :
    Below n (either a b) := by
  unfold either
  split
  · trivial
  · exact ⟨ha, hb⟩

theorem safe_clauseGuard (s : t.Sound) {tests : List Expr} :
    Safe t (subject.clauseGuard facts tests) := by
  refine Tabled.Keeps.bind (.mapM s fun test _ t1 s1 _ => safe_caseGuard hfacts subject s1)
    fun t1 guards s1 _ hguards => ?_
  split
  · exact .pure s1 trivial
  · obtain ⟨hg, hgs⟩ := below_cons.1 hguards
    exact .pure s1 (hg.foldl fun g hg g' hg' => below_either hg (hgs g' hg'))

end Cases

end SwitchSubject

theorem safe_discriminant? (s : t.Sound) {member : TypeId} (h : t.Has member)
    {field : String} : Safe t (discriminant? member field) := by
  refine (safe_evaluateNode s h).bind fun t1 node s1 _ hnode => ?_
  split
  · exact .pure s1 below_none
  · next type htype =>
    refine (safe_evaluate s1 (below_field? hnode field type htype)).bind
      fun t2 type s2 _ htype => .read rfl (.pure s2 ?_)
    exact below_ite (below_some.2 htype) below_none

namespace SwitchSubject

variable (subject : SwitchSubject)

theorem safe_coversMember (s : t.Sound) {member : TypeId} (h : t.Has member) :
    Safe t (subject.coversMember member) := by
  cases subject with
  | var name => exact (safe_evaluateNode s h).bind fun _ _ s1 _ _ => .pure s1 trivial
  | field var name => exact (safe_discriminant? s h).bind fun _ _ s1 _ _ => .pure s1 trivial
  | typeOf var => exact (safe_evaluateNode s h).bind fun _ _ s1 _ _ => .pure s1 trivial

theorem safe_isFinite (s : t.Sound) {declared : TypeId} (h : t.Has declared) :
    Safe t (subject.isFinite declared) := by
  refine (safe_namedMembers s h).bind fun t1 ms s1 _ hms => ?_
  split
  · exact .pure s1 trivial
  · refine Tabled.Keeps.ignore (.allM s1 fun m hm t2 s2 r2 => ?_)
    exact (safe_coversMember subject s2 (r2 (hms m hm))).ignore

theorem safe_describe (s : t.Sound) {member : TypeId} (h : t.Has member) :
    Safe t (subject.describe member) := by
  cases subject with
  | var name => exact .read rfl (.pure s trivial)
  | field var name =>
    exact (safe_discriminant? s h).bind fun _ _ s1 _ _ => .read rfl (.pure s1 trivial)
  | typeOf var =>
    refine (safe_evaluateNode s h).bind fun t1 node s1 _ _ => ?_
    split
    · exact .pure s1 trivial
    · exact .read rfl (.pure s1 trivial)

theorem keeps_describeResidual (s : t.Sound) {residual : TypeId} (h : t.Has residual) :
    Keeps Runs t (subject.describeResidual residual) fun _ _ => True := by
  refine (safe_namedMembers s h).bind fun t1 ms s1 _ hms => ?_
  refine Tabled.Keeps.bind
    (.mapM s1 fun m hm t2 s2 r2 => safe_describe subject s2 (r2 (hms m hm)))
    fun t2 texts s2 _ _ => .pure s2 trivial

theorem keeps_exhaustiveness (s : t.Sound) {declared residual : TypeId}
    (hdeclared : t.Has declared) (hresidual : t.Has residual) {hasDefault : Bool} :
    Keeps Runs t (subject.exhaustiveness declared residual hasDefault) fun _ _ => True := by
  unfold exhaustiveness
  split
  · exact .pure s trivial
  · refine (safe_isFinite subject s hdeclared).bind fun t1 finite s1 r1 _ => ?_
    split
    · exact .pure s1 trivial
    · refine (keeps_describeResidual subject s1 (r1 hresidual)).bind fun t2 texts s2 _ _ => ?_
      split <;> exact .pure s2 trivial

end SwitchSubject

theorem keeps_commonDiscriminant? (s : t.Sound) {members : List TypeId}
    (h : t.Has members) : Keeps Runs t (commonDiscriminant? members) fun _ _ => True := by
  unfold commonDiscriminant?
  split
  · exact .pure s trivial
  · refine (safe_evaluateNode s (below_cons.1 h).1).bind fun t1 node s1 r1 _ => ?_
    split
    · exact .pure s1 trivial
    · refine Tabled.Keeps.ignore (.findM? s1 fun field _ t2 s2 r2 => ?_)
      refine .allM s2 fun m hm t3 s3 r3 => ?_
      exact (safe_discriminant? s3 ((r1.trans (r2.trans r3)) (h m hm))).bind
        fun _ _ s4 _ _ => .pure s4 trivial

theorem keeps_describeMembers (s : t.Sound) (h : t.Has type) :
    Keeps Runs t (describeMembers type) fun _ _ => True := by
  refine (safe_namedMembers s h).bind fun t1 ms s1 r1 hms => ?_
  refine (keeps_commonDiscriminant? s1 hms).bind fun t2 field s2 r2 _ => ?_
  exact SwitchSubject.keeps_describeResidual _ s2 ((r1.trans r2) h)

end GradualTyping
