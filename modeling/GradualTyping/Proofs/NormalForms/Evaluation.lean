/-
# Evaluation gives normal forms

A step that reduces a node gives a normal form: what reduction leaves waiting is
remembered, and so it is in normal form from then on (`normally_step`).  Strict
evaluation hands on nothing else, and gives normal forms at every level
(`normally_strict`).

So where evaluation does not hand on an unevaluated type, its result is a normal
form and evaluates to itself (`Reachable.evaluate_evaluate`).  The element type of an
array is handed on unevaluated (`element_unevaluated`): an access by number can give
a reference to an alias, which a second evaluation expands.
-/

import GradualTyping.Proofs.NormalForms.Reduction
import GradualTyping.Proofs.UnionLaws

namespace GradualTyping

open TypeTable List Reduction Operations

/-- Evaluation gives normal forms on every faithful table. -/
abbrev Operations.AlwaysNormalizes (ops : Operations) : Prop :=
  ∀ {t : TypeTable}, t.Faithful → ops.Normalizes t

variable {ops : Operations} {t : TypeTable} {id : TypeId}

/-- The aliases that are being expanded do not matter. -/
theorem TypeTable.Normal.whileExpanding (h : t.Normal id) {names : List String} :
    ({ t with expanding := names } : TypeTable).Normal id := by
  induction h with
  | head h => exact .head h
  | kept hred hexpands hmem => exact .kept hred hexpands hmem
  | rebuilt hparts _ ih =>
    refine .rebuilt ?_ ih
    cases hparts with
    | union h => exact .union h
    | intersection h => exact .intersection h
    | caseMapped h hdelays => exact .caseMapped h hdelays

namespace Reduction

/-! ### Nodes -/

/-- The evaluation of the body of an alias. -/
theorem normally_expansion (hops : ops.AlwaysNormalizes) (s : t.Sound) (f : t.Faithful)
    {name : String} {params args : List TypeId} {body : TypeId} (hparams : t.Has params)
    (hargs : t.Has args) (hbody : t.Has body) :
    Normally t (expansion ops name params args body) := by
  refine (safe_aliasSubstitution (hops f).toSafe s hparams hargs Substitution.below_empty).bind
    fun t1 σ s1 r1 hσ => ?_
  have f1 : (t1.expandingOne name).Faithful := fun hv =>
    (f.continues r1.toContinues hv).keep ⟨prefix_refl _, rfl⟩ fun h => h
  refine leaves_whileExpanding ?_ fun t' names r hr =>
    ⟨hr.1, fun hu => (hr.2 hu).whileExpanding⟩
  refine ((hops f1).toSafe.substitute s1.expandingOne hσ (r1 hbody)).bind ?_
  exact fun t2 _ s2 r2 h => (hops f1).yields s2 r2 h

/-- An operation that gives a normal form, or leaves `id` waiting. -/
abbrev Waits (t : TypeTable) (id : TypeId) (c : TableM TypeId) : Prop :=
  Keeps Runs t c fun t' r => Below t'.size r ∧ (t'.Untripped →
    r = id ∧ (t.resolve id).isReducible = true ∧ ¬ t.Expands id ∨ t'.Normal r)

theorem waits_of_normally {c : TableM TypeId} (h : Normally t c) : Waits t id c :=
  h.mono fun _ _ _ _ hr => ⟨hr.1, fun hu => .inr (hr.2 hu)⟩

theorem waits_of_settles {c : TableM TypeId} (hred : (t.resolve id).isReducible = true)
    (hexpands : ¬ t.Expands id) (h : Settles NormalUntripped t id c) : Waits t id c :=
  h.mono fun _ _ _ _ hr => ⟨hr.1, fun hu => hr.2.imp (fun h => ⟨h, hred, hexpands⟩) fun h => h hu⟩

section

variable (hops : ops.AlwaysNormalizes) (s : t.Sound) (f : t.Faithful)
include hops s f

/-- A reference expands, is a utility, or waits. -/
theorem waits_reference
    (hid : t.Has id) (haccess : ¬ t.IsAccess id) {name : String} {args : List TypeId}
    (hnode : t.resolve id = .reference name args) : Waits t id (reference ops id name args) := by
  have hargs : t.Has args := s.below_node hnode
  have hred : (t.resolve id).isReducible = true := by
    rw [hnode]
    rfl
  have same : ∀ {name' args'}, t.resolve id = .reference name' args' → name' = name :=
    fun h => (Ty.reference.inj (h.symm.trans hnode)).1
  unfold reference
  refine .read rfl ?_
  split
  · next definition hd =>
    have hd : t.alias? name = some definition := hd
    split
    · next hbody =>
      refine waits_of_settles hred ?_ (settles_self s hid)
      rintro ⟨name', _, definition', hid', hd', hbody'⟩
      obtain rfl := same hid'
      obtain rfl := Option.some.inj (hd.symm.trans hd')
      rw [hbody] at hbody'
      cases hbody'
    · next body hbody =>
      obtain ⟨hparams, hbodies⟩ := s.aliases hd
      exact waits_of_normally (normally_expansion hops s f hparams hargs (hbodies body hbody))
  · next hnone =>
    have hnone : t.alias? name = none := hnone
    have hexpands : ¬ t.Expands id := by
      rintro ⟨name', _, definition, hid', hd, -⟩
      obtain rfl := same hid'
      cases hnone.symm.trans hd
    split
    · next u hu =>
      refine waits_of_settles hred hexpands (settles_utility (hops f) s (fun hmem => ?_) hid hargs)
      exact haccess (.inr ⟨name, args, hnode, hnone, u, hmem, hu⟩)
    · exact waits_of_settles hred hexpands (settles_self s hid)

/-- **Reducing a node gives a normal form, or leaves the type waiting**; types that are read off
a node are the exception. -/
theorem waits_reduce (hid : t.Has id) (haccess : ¬ t.IsAccess id) :
    Waits t id (reduce ops id (t.resolve id)) := by
  have hbelow := s.below_resolve id
  have members {ms : List TypeId} (hms : t.Has ms) := inherited_normal.mapM s
    fun m hm _ s' r' => (hops f).yields s' r' (r' (hms m hm))
  have yielding := (hops f).toYielding
  -- Only references expand, and nodes that are not reduced are normal.
  have waits : ∀ {c : TableM TypeId}, (t.resolve id).isReducible = true →
      (∀ name args, t.resolve id ≠ .reference name args) → Settles NormalUntripped t id c →
      Waits t id c :=
    fun hred hnode => waits_of_settles hred fun ⟨name, args, _, hid, _⟩ => hnode name args hid
  have plain : (t.resolve id).isHead = true → Waits t id (pure id) := fun h =>
    waits_of_normally (.pure s ⟨hid, fun _ => .head h⟩)
  cases hnode : t.resolve id <;> simp only [hnode, ne_eq, reduceCtorEq, not_false_eq_true,
    implies_true, forall_const] at hbelow waits plain
  case union ms =>
    exact waits_of_normally ((members hbelow).bind fun _ _ s1 _ h => inherited_normal.unionOf s1 h.1 h.2)
  case intersection ms =>
    exact waits_of_normally ((members hbelow).bind fun _ _ s1 _ h => normally_intersectionOf s1 h.1 h.2)
  case reference name args => exact waits_reference hops s f hid haccess hnode
  case conditional c => exact waits rfl (settles_conditional inherited_normal yielding s hid hbelow)
  case mapped m => exact waits rfl (settles_mapped inherited_normal yielding s hid hbelow)
  case keyOf operand => exact waits rfl (settles_keyOf inherited_normal yielding s hid hbelow)
  case indexed object index => exact absurd (.inl ⟨object, index, hnode⟩) haccess
  case template spans => exact waits rfl (settles_template inherited_normal (hops f).toSafe s hid hbelow)
  case caseMapped change inner =>
    exact waits rfl (settles_caseMapped inherited_normal yielding s change hid hbelow)
  all_goals exact plain rfl

/-! ### Steps -/

/-- **A step that reduces gives a normal form**: what waits is remembered as it is. -/
theorem normally_step (hid : t.Has id) (hreduces : t.Reduces id) : Normally t (step ops id) := by
  obtain ⟨hmiss, hneeds, hopen, haccess⟩ := hreduces
  have safe : Leaves Runs t (step ops id) _ := safe_step (hops f).toSafe s hid
  refine ⟨safe.sound, safe.related, safe.post, fun hu => ?_⟩
  have faithful : (t.deeper.opening id).Faithful := fun hv =>
    (f hv).keep ⟨prefix_refl _, rfl⟩ fun h => h
  have reduced : Leaves Runs (t.deeper.opening id) (reduce ops id (t.resolve id)) _ :=
    waits_reduce (t := t.deeper.opening id) hops s.deeper.opening faithful hid haccess
  obtain ⟨-, hend, hrun⟩ := step_reduces hmiss hneeds hopen hu
  rw [hrun]
  rcases reduced.post.2 hend with ⟨hsame, hred, hexpands⟩ | hnormal
  · rw [hsame]
    refine .kept ?_ ?_ Std.HashMap.getElem?_insert_self
    · exact (congrArg Ty.isReducible (reduced.related.resolve hid)).trans hred
    · exact fun h => hexpands (h.of_grows reduced.related reduced.related.aliases hid)
  · -- The new result hides no old one.
    have hfresh := (reduced.related.pending id (.head _)).trans hmiss
    refine hnormal.keep reduced.sound reduced.post.1 ⟨prefix_refl _, rfl⟩ rfl
      fun {k v} hv => ?_
    refine (Std.HashMap.getElem?_insert.trans (if_neg fun heq => ?_)).trans hv
    obtain rfl := eq_of_beq heq
    cases hfresh.symm.trans hv

/-- A strict step gives normal forms. -/
theorem normally_strictStep (hid : t.Has id) : Normally t (strictStep ops id) := by
  have safe : Leaves Runs t (strictStep ops id) _ := safe_strictStep (hops f).toSafe s hid
  refine ⟨safe.sound, safe.related, safe.post, fun hu => ?_⟩
  obtain ⟨hstep, hreduces | hnormal⟩ := strictStep_of_untripped hu
  · rw [hstep] at hu ⊢
    have normal : Leaves Runs t (step ops id) _ := normally_step hops s f hid hreduces
    exact normal.post.2 hu
  · rw [hstep]
    exact hnormal

end

end Reduction

/-! ### Levels -/

namespace Operations

theorem normalizes_refuse : ({ inert with evaluate := refuse } : Operations).AlwaysNormalizes :=
  fun _ => { safe_refuse with
    yields := fun s' _ hid =>
      have refused : Leaves Runs _ (refuse _) _ := safe_refuse.evaluate s' hid
      ⟨refused.sound, refused.related, refused.post, fun hu => absurd hu (refuse_tripped _)⟩
    fixed := fun s' _ hid _ =>
      have refused : Leaves Runs _ (refuse _) _ := safe_refuse.evaluate s' hid
      ⟨refused.sound, refused.related, fun hu => absurd hu (refuse_tripped _)⟩ }

/-- Normal forms stay as they are under strict evaluation. -/
theorem fixed_strict (n : Nat) (s : t.Sound) (f : t.Faithful) (hid : t.Has id) (h : t.Normal id) :
    Keeps Runs t ((strict n).evaluate id) fun t' r => t'.Untripped → r = id := by
  have safe : Leaves Runs t ((strict n).evaluate id) _ := safe_strict.evaluate s hid
  refine ⟨safe.sound, safe.related, fun hu => ?_⟩
  rw [← (joined_strict.evaluate id t hu).2]
  exact h.evaluate n s f hid

/-- **Strict evaluation gives normal forms**, at every level. -/
theorem normally_strict (n : Nat) (s : t.Sound) (f : t.Faithful) (hid : t.Has id) :
    Normally t ((strict n).evaluate id) := by
  induction n generalizing t id with
  | zero => exact normally_strictStep normalizes_refuse s f hid
  | succ n ih =>
    have normalizes : (strict n).AlwaysNormalizes := fun f =>
      { safe_strict with
        yields := fun s' r' hid => ih s' (f.continues r'.toContinues) hid
        fixed := fun s' r' hid h => fixed_strict n s' (f.continues r'.toContinues) hid h }
    exact normally_strictStep normalizes s f hid

end Operations

/-- Evaluation of a type on a table, which refuses to hand on what is not in normal form. -/
noncomputable def evaluateStrictly (id : TypeId) : TableM TypeId := fun t =>
  (strict (t.limits.maxDepth - t.depth)).evaluate id t

/-- **What evaluates without handing on an unevaluated type evaluates once.**  Then the guard does
not trip, the result is a normal form, evaluating it gives it back, and it is no reference to an
alias that has a body. -/
theorem TypeTable.Reachable.evaluate_evaluate (h : t.Reachable) (hid : Below t.size id)
    (strict : (evaluateStrictly id t).2.Untripped) :
    (evaluate id t).2.Untripped ∧ (evaluate id t).2.Normal (evaluate id t).1 ∧
      (evaluate (evaluate id t).1 (evaluate id t).2).1 = (evaluate id t).1 ∧
      ¬ (evaluate id t).2.Expands (evaluate id t).1 := by
  have faithful : t.Faithful := h.stored
  have strict : ((Operations.strict (t.limits.maxDepth - t.depth)).evaluate id t).2.Untripped :=
    strict
  have same : evaluate id t = (Operations.strict (t.limits.maxDepth - t.depth)).evaluate id t :=
    (Operations.joined_strict.evaluate id t strict).2
  have strictly : Leaves Runs t ((Operations.strict _).evaluate id) _ :=
    normally_strict (t.limits.maxDepth - t.depth) h.sound faithful hid
  rw [same]
  have normal := strictly.post.2 strict
  refine ⟨strict, normal, ?_, normal.not_expands⟩
  exact normal.evaluate _ strictly.sound (faithful.continues strictly.related.toContinues)
    strictly.post.1

/-! ### An alias for an object -/

theorem evaluate_strict_head (n : Nat) (hmiss : t.evaluated[id]? = none)
    (h : (t.resolve id).isHead = true) : (strict n).evaluate id t = (id, t) := by
  have plain := needsEvaluation_of_isHead h
  have step : ∀ ops, step ops id t = (id, t) := fun _ =>
    (step_of_new hmiss).trans (by rw [plain]; rfl)
  cases n <;>
    exact strictStep_eq.trans
      ((if_pos (.inr (by rw [step]; exact .head h))).trans (step _))

/-- An alias without parameters evaluates to its body if that is a normal form, and hands on
nothing else. -/
theorem TypeTable.Quiescent.evaluateStrictly_eq (rest : t.Quiescent) {name : String}
    {ref body : TypeId} (hnode : t.resolve ref = .reference name [])
    (hdef : t.alias? name = some ⟨name, [], some body⟩) (head : (t.resolve body).isHead = true)
    (hmiss : t.evaluated[ref]? = none ∧ t.evaluated[body]? = none) (hu : t.Untripped)
    (hd : t.depth < t.limits.maxDepth) : evaluateStrictly ref t = (body, t.storing ref body) := by
  have hneeds : needsEvaluation t ref = true := by
    rw [needsEvaluation, hnode]
    rfl
  have hopen : ref ∉ t.evaluating := rest.evaluating ▸ not_mem_nil
  have reduces : t.Reduces ref := by
    refine ⟨hmiss.1, hneeds, hopen, ?_⟩
    rintro (⟨_, _, hnode'⟩ | ⟨name', _, hnode', hnone, -⟩)
    · cases hnode.symm.trans hnode'
    · obtain ⟨rfl, -⟩ := Ty.reference.inj (hnode.symm.trans hnode')
      cases hdef.symm.trans hnone
  obtain ⟨n, hn⟩ : ∃ n, t.limits.maxDepth - t.depth = n + 1 :=
    ⟨t.limits.maxDepth - t.depth - 1, by omega⟩
  show (strict (t.limits.maxDepth - t.depth)).evaluate ref t = _
  rw [hn]
  refine strictStep_eq.trans ((if_pos (.inl reduces)).trans ?_)
  have reduced : reduce (.strict n) ref (t.resolve ref) (t.deeper.opening ref) =
      (body, t.deeper.opening ref) := by
    rw [hnode, reduce_reference (t := t.deeper.opening ref) hdef rfl]
    exact whileExpanding_of_same (evaluate_strict_head n hmiss.2 head)
  exact step_of_reduce hmiss.1 hneeds hopen hu hd reduced hu

/-- The table with `A` for `{ x: number }`. -/
theorem reachable_alias :
    let a := declareAlias "A" [] (withLimits {})
    let o := objectOf [{ name := "x", type := .number }] none a.2
    (((defineAlias "A" o.1).run o.2).2).Reachable := by
  have declared := (Reachable.start {}).step (.declareAlias "A" []) below_nil
  have object := declared.step (.object [{ name := "x", type := .number }] none)
    ⟨below_singleton.2 (declared.sound.below_fixed rfl), below_none⟩
  exact object.step (.defineAlias "A" _)
    (safe_objectOf declared.sound (below_singleton.2 (declared.sound.below_fixed rfl))
      below_none : Leaves Runs _ _ _).post

/-- A reference to an alias for `{ x: number }` evaluates to the object and no further. -/
theorem evaluate_evaluate_alias :
    let a := declareAlias "A" [] (withLimits {})
    let o := objectOf [{ name := "x", type := .number }] none a.2
    let d := (defineAlias "A" o.1).run o.2
    let r := evaluate a.1 d.2
    d.2.Reachable ∧ (evaluateStrictly a.1 d.2).2.Untripped ∧ r.2.Normal r.1 ∧
      (evaluate r.1 r.2).1 = r.1 := by
  intro a o d r
  have reachable : d.2.Reachable := reachable_alias
  have known : d.2.resolve a.1 = .reference "A" [] ∧ d.2.alias? "A" = some ⟨"A", [], some o.1⟩ ∧
      (d.2.resolve o.1).isHead = true ∧
      (d.2.evaluated[a.1]? = none ∧ d.2.evaluated[o.1]? = none) ∧ d.2.depthError = none ∧
      d.2.depth < d.2.limits.maxDepth := by
    subst r d o a
    cbv
  obtain ⟨node, definition, head, missing, untripped, shallow⟩ := known
  have strict : (evaluateStrictly a.1 d.2).2.Untripped := by
    rw [reachable.quiescent.evaluateStrictly_eq node definition head missing untripped shallow]
    exact untripped
  have below := below_of_get? (get?_of_resolve node (by simp))
  obtain ⟨-, normal, twice, -⟩ := reachable.evaluate_evaluate below strict
  exact ⟨reachable, strict, normal, twice⟩

/-- With `A` for `{ x: number }`, the access `A[][number]` evaluates to `A`, and a second
evaluation gives the object. -/
theorem element_evaluates_twice :
    let a := declareAlias "A" [] (withLimits {})
    let o := objectOf [{ name := "x", type := .number }] none a.2
    let d := (defineAlias "A" o.1).run o.2
    let base := arrayOf a.1 d.2
    let access := intern (.indexed base.1 .number) base.2
    let first := evaluate access.1 access.2
    let second := evaluate first.1 first.2
    d.1 = .ok () ∧ access.2.Reachable ∧ first.1 = a.1 ∧ first.2.Untripped ∧
      first.2.Expands first.1 ∧ second.1 = o.1 ∧ second.2.Untripped ∧ second.1 ≠ first.1 := by
  intro a o d base access first second
  have known : (a.1.index < d.2.size ∧ base.1.index < base.2.size) ∧ d.1 = .ok () ∧
      first.1 = a.1 ∧ first.2.depthError = none ∧ first.2.resolve first.1 = .reference "A" [] ∧
      first.2.alias? "A" = some ⟨"A", [], some o.1⟩ ∧ second.1 = o.1 ∧
      second.2.depthError = none ∧ second.1 ≠ first.1 := by
    subst second first access base d o a
    cbv
    simp
  obtain ⟨⟨ha, hbase⟩, ok, first, hfirst, node, definition, second, hsecond, ne⟩ := known
  have reachable := reachable_alias.step (.array _) ha
  exact ⟨ok, reachable.step (.indexed _ .number) ⟨hbase, reachable.sound.below_fixed rfl⟩,
    first, hfirst, ⟨_, _, _, node, definition, rfl⟩, second, hsecond, ne⟩

/-- **A utility is not its recipe**: `Partial` keeps the type of an optional field, and the mapped
type reads it with `undefined`. -/
theorem partial_apart_from_mapped :
    fresh? (do
      let object ← objectOf [{ name := "a", type := .number, optional := true }] none
      let param ← intern (.param { name := "P", scope := 0 })
      let keys ← intern (.keyOf object)
      let template ← intern (.indexed object param)
      let mapped ← intern (.mapped { param, keys, template, optional := .add })
      isEqual (← evaluate (← intern (.reference "Partial" [object]))) (← evaluate mapped)) =
    some false := by
  cbv

/-- **Wrapping changes what is awaited**: it unwraps the members of a union by one layer, where
`unknown` absorbs an `any` that is deeper. -/
theorem awaited_wrapped_apart :
    fresh? (do
      let inner ← promiseOf (← unionOf [.string, ← promiseOf .any])
      let type ← unionOf [← promiseOf .unknown, inner]
      return (← awaited type, ← awaited (← wrapAsyncResult type))) = some (.any, .unknown) := by
  cbv

end GradualTyping
