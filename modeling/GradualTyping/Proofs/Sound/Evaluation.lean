/-
# Evaluation is safe

The step of evaluation has two brackets besides the recursion guard: the type is
under evaluation while its node is reduced, and the alias of a reference is under
expansion while its body is evaluated.  Both are closed again on every path
(`leaves_remembering`, `leaves_whileExpanding`).

What is remembered at the end was not remembered before: a type under evaluation
is not evaluated again, so nothing inside the bracket can have remembered it.
-/

import GradualTyping.Proofs.Sound.Reduction

namespace GradualTyping

open TypeTable List

namespace TypeTable

/-- The table while a type is under evaluation. -/
def opening (t : TypeTable) (id : TypeId) : TypeTable :=
  { t with evaluating := id :: t.evaluating }

/-- The table after the innermost evaluation. -/
def closing (t : TypeTable) : TypeTable := { t with evaluating := t.evaluating.drop 1 }

/-- The table while an alias is being expanded. -/
def expandingOne (t : TypeTable) (name : String) : TypeTable :=
  { t with expanding := name :: t.expanding }

/-- The table that remembers a result. -/
def storing (t : TypeTable) (id result : TypeId) : TypeTable :=
  { t with evaluated := t.evaluated.insert id result }

variable {t t' : TypeTable} {id result : TypeId}

theorem Sound.opening (s : t.Sound) : (t.opening id).Sound :=
  s.of_rest rfl rfl rfl rfl rfl

theorem Sound.expandingOne (s : t.Sound) {name : String} : (t.expandingOne name).Sound :=
  s.of_rest rfl rfl rfl rfl rfl

theorem Sound.closing (s : t.Sound) : t.closing.Sound := s.of_rest rfl rfl rfl rfl rfl

/-- Closing what was opened. -/
theorem Runs.closing (r : (t.opening id).Runs t') : t.Runs t'.closing := by
  refine ⟨⟨⟨r.types, r.limits⟩, r.depth, ?_, r.expanding, r.remembered,
    fun h => (r.stored h).imp_right (·.keep ⟨prefix_refl _, rfl⟩ fun h => h)⟩, r.aliases,
    fun k hk => r.pending k (.tail _ hk), r.tripped, r.stuck⟩
  show t'.evaluating.drop 1 = t.evaluating
  rw [r.evaluating]
  rfl

/-- Remembering what was opened: it is new, and no other open type. -/
theorem Runs.storing (r : (t.opening id).Runs t') (hmiss : t.evaluated[id]? = none)
    (hopen : id ∉ t.evaluating) (hu : t'.Untripped)
    (hstored : (t'.closing.storing id result).Stored id result) :
    t.Runs (t'.closing.storing id result) := by
  have rc := r.closing
  have hlookup : ∀ k, k ≠ id →
      (t'.closing.storing id result).evaluated[k]? = t'.evaluated[k]? := by
    intro k hk
    show (t'.evaluated.insert id result)[k]? = _
    rw [Std.HashMap.getElem?_insert, if_neg (by simpa using Ne.symm hk)]
  refine ⟨⟨⟨r.types, r.limits⟩, r.depth, rc.evaluating, r.expanding, ?_, ?_⟩, r.aliases, ?_, ?_, ?_⟩
  · intro k v hk
    rw [hlookup k fun h => by rw [h, hmiss] at hk; cases hk]
    exact r.remembered hk
  · intro k v hk
    by_cases hkid : k = id
    · subst hkid
      have hv : (t'.closing.storing k result).evaluated[k]? = some result :=
        Std.HashMap.getElem?_insert_self
      obtain rfl : result = v := Option.some.inj (hv.symm.trans hk)
      exact .inr hstored
    · rw [hlookup k hkid] at hk
      -- The type under evaluation was not remembered inside the bracket.
      have hfresh : t'.evaluated[id]? = none := (r.pending id (.head _)).trans hmiss
      refine (r.stored hk).imp_right (·.keep ⟨prefix_refl _, rfl⟩ fun {k' v'} hk' => ?_)
      rw [hlookup k' fun h => by rw [h, hfresh] at hk'; cases hk']
      exact hk'
  · intro k hk
    rw [hlookup k fun h => hopen (h ▸ hk)]
    exact r.pending k (.tail _ hk)
  · exact fun ht => absurd ht (r.untripped hu).not_isSome
  · exact fun ht => absurd ht (r.untripped hu).not_isSome

end TypeTable

namespace Reduction

variable {ops : Operations} {t : TypeTable}
variable {id : TypeId}

/-! ### The bracket of an evaluation -/

theorem remembering_eq (id : TypeId) (body : TableM TypeId) :
    (remembering id body) t =
      if (body (t.opening id)).2.depthError.isSome then
        ((body (t.opening id)).1, (body (t.opening id)).2.closing)
      else ((body (t.opening id)).1,
        (body (t.opening id)).2.closing.storing id (body (t.opening id)).1) := by
  show (if (body (t.opening id)).2.depthError.isSome = true then _ else _ : TableM TypeId)
    (body (t.opening id)).2.closing = _
  split <;> rfl

theorem leaves_remembering (s : t.Sound) {body : TableM TypeId}
    (hneeds : needsEvaluation t id = true) (hmiss : t.evaluated[id]? = none)
    (hopen : id ∉ t.evaluating) (hbody : Safe (t.opening id) body)
    (hstored : (remembering id body t).2.Untripped →
      (remembering id body t).2.Stored id (remembering id body t).1) :
    Safe t (remembering id body) := by
  have hb : Leaves Runs (t.opening id) body _ := hbody
  have hid : t.Has id := below_of_needsEvaluation hneeds
  rcases untripped_or with ht | ht
  · have h := remembering_eq (t := t) id body
    rw [if_pos ht] at h
    exact ⟨h ▸ hb.sound.closing, h ▸ hb.related.closing, h ▸ hb.post⟩
  · have h := remembering_eq (t := t) id body
    rw [if_neg ht.not_isSome] at h
    have hneeds' : needsEvaluation (body (t.opening id)).2.closing id = true :=
      ((s.agreeBelow hb.related.closing).needsEvaluation hid).trans hneeds
    rw [h] at hstored
    exact ⟨h ▸ hb.sound.closing.remember hb.post hneeds',
      h ▸ hb.related.storing hmiss hopen ht (hstored ht), h ▸ hb.post⟩

/-! ### The bracket of an expansion -/

theorem leaves_whileExpanding {α : Type} {name : String} {body : TableM α}
    {Q : TypeTable → α → Prop} (hbody : Leaves Runs (t.expandingOne name) body Q)
    (hQ : ∀ t' names a, Q t' a → Q { t' with expanding := names } a) :
    Leaves Runs t (whileExpanding name body) Q := by
  have r := hbody.related
  refine ⟨hbody.sound.of_rest rfl rfl rfl rfl rfl, ?_, hQ _ _ _ hbody.post⟩
  refine ⟨⟨⟨r.types, r.limits⟩, r.depth, r.evaluating, ?_, r.remembered,
    fun h => (r.stored h).imp_right (·.keep ⟨prefix_refl _, rfl⟩ fun h => h)⟩, r.aliases, r.pending,
    r.tripped, r.stuck⟩
  show (body (t.expandingOne name)).2.expanding.drop 1 = t.expanding
  rw [r.expanding]
  rfl

/-! ### References -/

theorem safe_aliasSubstitution (hops : ops.Safe) (s : t.Sound) {params args : List TypeId}
    {σ : Substitution} (hparams : t.Has params) (hargs : t.Has args)
    (hσ : t.Has σ) : Safe t (aliasSubstitution ops params args σ) := by
  induction params generalizing t args σ with
  | nil =>
    unfold aliasSubstitution
    exact .pure s hσ
  | cons p params ih =>
    obtain ⟨hp, hparams⟩ := below_cons.1 hparams
    have next : ∀ t1 arg, t1.Sound → t.Runs t1 → t1.Has arg →
        Safe t1 (aliasSubstitution ops params (args.drop 1) (σ.insert p arg)) :=
      fun t1 arg s1 r1 harg => ih s1 (r1 hparams) (r1 (hargs.drop 1))
        (Substitution.below_insert (r1 hσ) (r1 hp) harg)
    unfold aliasSubstitution
    dsimp only
    split
    · next a rest => exact next t a s (.refl t) (below_cons.1 hargs).1
    · refine .read rfl ?_
      split
      · next hp => exact (hops.substitute s hσ ((s.below_node hp).2 _ rfl)).bind next
      · exact next t _ s (.refl t) s.below_unknown

theorem safe_reference (hops : ops.Safe) (s : t.Sound) {name : String}
    {args : List TypeId} (hid : t.Has id) (hargs : t.Has args) :
    Safe t (reference ops id name args) := by
  unfold reference
  refine .read rfl ?_
  split
  · next definition hd =>
    have hd := s.aliases hd
    split
    · exact .pure s hid
    · next body hbody =>
      refine (safe_aliasSubstitution hops s hd.1 hargs Substitution.below_empty).bind
        fun t1 σ s1 r1 hσ => ?_
      refine leaves_whileExpanding ?_ fun _ _ _ h => h
      exact (hops.substitute s1.expandingOne hσ (r1 (hd.2 body hbody))).bind
        fun _ _ s3 _ h => hops.evaluate s3 h
  · split
    · exact safe_utility hops s _ hid hargs
    · exact .pure s hid

/-! ### The step -/

/-- **Reducing any node is safe.** -/
theorem safe_reduce (hops : ops.Safe) (s : t.Sound) {ty : Ty}
    (hid : t.Has id) (hty : t.Has ty) : Safe t (reduce ops id ty) := by
  have members : ∀ {ms : List TypeId}, t.Has ms → Safe t (ms.mapM ops.evaluate) :=
    fun hms => .mapM s fun m hm _ s' r' => hops.evaluate s' (r' (hms m hm))
  cases ty with
  | union ms => exact (members hty).bind fun _ _ s1 _ h => safe_unionOf s1 h
  | intersection ms => exact (members hty).bind fun _ _ s1 _ h => safe_intersectionOf s1 h
  | reference name args => exact safe_reference hops s hid hty
  | conditional c => exact (settles_conditional inherited_true hops.yielding s hid hty).safe
  | mapped m => exact (settles_mapped inherited_true hops.yielding s hid hty).safe
  | keyOf operand => exact (settles_keyOf inherited_true hops.yielding s hid hty).safe
  | indexed object index => exact safe_indexed hops s hid hty.1 hty.2
  | template spans => exact (settles_template inherited_true hops s hid hty).safe
  | caseMapped change inner =>
    exact (settles_caseMapped inherited_true hops.yielding s change hid hty).safe
  | _ => exact .pure s hid

/-! ### One step -/

/-- **What is remembered is not evaluated again.** -/
theorem step_of_remembered {done : TypeId} (h : t.evaluated[id]? = some done) :
    step ops id t = (done, t) := by
  unfold step
  rw [get_bind, h]
  rfl

theorem step_of_new (h : t.evaluated[id]? = none) :
    step ops id t =
      if needsEvaluation t id && !t.evaluating.contains id then
        guarded id (remembering id (reduce ops id (t.resolve id))) t
      else (id, t) := by
  unfold step
  rw [get_bind, h]
  dsimp only
  split <;> rfl

/-- What needs no evaluation evaluates to itself: it is not remembered. -/
theorem step_of_plain (s : t.Sound) (h : needsEvaluation t id = false) :
    step ops id t = (id, t) := by
  cases hmemo : t.evaluated[id]? with
  | some v =>
    rw [(s.evaluated hmemo).2] at h
    cases h
  | none =>
    rw [step_of_new hmemo, h]
    rfl

theorem step_of_needs (hmiss : t.evaluated[id]? = none)
    (hneeds : needsEvaluation t id = true) (hopen : id ∉ t.evaluating) :
    step ops id t = guarded id (remembering id (reduce ops id (t.resolve id))) t := by
  have hcontains : t.evaluating.contains id = false := by simpa using hopen
  rw [step_of_new hmiss, hneeds, hcontains]
  rfl

theorem safe_step (hops : ops.Safe) (s : t.Sound) (hid : t.Has id) : Safe t (step ops id) := by
  unfold step
  refine .read rfl ?_
  split
  · next done hd => exact .pure s (s.evaluated hd).1
  · next hmiss =>
    split
    · next h =>
      rw [Bool.and_eq_true, Bool.not_eq_true', contains_eq_mem, decide_eq_false_iff_not] at h
      refine leaves_guarded _ _ s (fun _ r _ => r hid) fun hu hd => ?_
      refine leaves_remembering s.deeper h.1 hmiss h.2
        (safe_reduce hops s.deeper.opening hid (s.below_resolve id)) fun untripped => ?_
      -- The result is stored by this very evaluation.
      obtain ⟨n, hn⟩ := hops.layer
      have run : step ops id t =
          ((remembering id (reduce ops id (t.resolve id)) t.deeper).1,
            (remembering id (reduce ops id (t.resolve id)) t.deeper).2.shallower) := by
        rw [step_of_needs (t := t) hmiss h.1 h.2, guarded_eq, enter_of_lt hu hd]
      refine ⟨n, t, _, s, hmiss, (hn id t ?_).trans run, ⟨prefix_refl _, rfl⟩, h.1, h.2,
        untripped, fun h => h⟩
      rw [run]
      exact untripped
    · exact .pure s hid

section New

variable {id : TypeId} (hmiss : t.evaluated[id]? = none) (hneeds : needsEvaluation t id = true)
  (hopen : id ∉ t.evaluating) (untripped : (step ops id t).2.Untripped)

include hmiss hneeds hopen untripped

/-- A type that is not remembered is reduced, and its result is stored, unless the guard trips. -/
theorem step_reduces :
    let r := reduce ops id (t.resolve id) (t.deeper.opening id)
    t.depth < t.limits.maxDepth ∧ r.2.Untripped ∧
      step ops id t = (r.1, (r.2.closing.storing id r.1).shallower) := by
  intro r
  rw [step_of_needs hmiss hneeds hopen] at untripped ⊢
  obtain ⟨hdepth, hpass⟩ := guarded_of_untripped _ _ untripped
  rw [hpass] at untripped ⊢
  have hu : (remembering id (reduce ops id (t.resolve id)) t.deeper).2.Untripped := untripped
  rw [remembering_eq] at hu ⊢
  split at hu
  · next h => exact absurd h (Untripped.not_isSome hu)
  · next h =>
    rw [if_neg h]
    exact ⟨hdepth, Option.not_isSome_iff_eq_none.1 h, rfl⟩

/-- **A type that is not remembered is reduced, and its result is remembered.** -/
theorem step_remembers : t.depth < t.limits.maxDepth ∧
    (step ops id t).1 = (reduce ops id (t.resolve id) (t.deeper.opening id)).1 ∧
    (step ops id t).2.evaluated[id]? = some (step ops id t).1 := by
  obtain ⟨hdepth, -, run⟩ := step_reduces hmiss hneeds hopen untripped
  rw [run]
  exact ⟨hdepth, rfl, Std.HashMap.getElem?_insert_self⟩

end New

/-- **Evaluation from rest is recalled**: its result is remembered, or there was nothing
to evaluate. -/
theorem recalls_step {ops' : Operations} (hops : ops.Safe) (s : t.Sound)
    (hid : t.Has id) (rest : t.evaluating = []) : Recalls t (step ops id) (step ops' id) := by
  have safe : Leaves Runs t (step ops id) _ := safe_step hops s hid
  refine ⟨safe.sound, safe.related, safe.post, fun t' p => ?_⟩
  have agree := (safe.related.precedes p).agree s
  cases hneeds : needsEvaluation t id with
  | false =>
    rw [step_of_plain s hneeds]
    exact step_of_plain p.sound ((agree.needsEvaluation hid).trans hneeds)
  | true =>
    cases hmemo : t.evaluated[id]? with
    | some done =>
      rw [step_of_remembered hmemo] at p ⊢
      exact step_of_remembered (p.remembered hmemo)
    | none =>
      obtain ⟨-, -, hmemo'⟩ := step_remembers hmemo hneeds (rest ▸ not_mem_nil) p.started
      exact step_of_remembered (p.remembered hmemo')

end Reduction

/-! ### Promises -/

namespace Promise

variable {ops : Operations} {t : TypeTable}

theorem below_content (s : t.Sound) {id : TypeId} (h : t.Has id) : t.Has (content t id) := by
  unfold content
  split
  · next inner hi => exact s.below_node hi
  · exact h

section

variable (hops : ops.Safe) (s : t.Sound)
include hops s

theorem safe_step {id : TypeId} (hid : t.Has id) : Safe t (step ops id) := by
  refine Guarding.guarded s hid ?_
  refine (hops.evaluate s.deeper hid).bind fun t1 evaluated s1 r1 he => .read rfl ?_
  have hid := r1.below (a := id) hid
  split
  · next inner hi => exact hops.awaited s1 (s1.below_node hi)
  · next ms hms =>
    refine (Tabled.Keeps.mapM s1 fun m hm t2 s2 r2 =>
      hops.awaited s2 (r2.below (s1.below_node hms m hm))).bind fun t2 unwrapped s2 r2 h => ?_
    split
    · exact .pure s2 (r2 hid)
    · exact safe_unionOf s2 h
  · exact .pure s1 hid

theorem safe_unwrapOnce {id : TypeId} (hid : t.Has id) : Safe t (unwrapOnce ops id) := by
  unfold unwrapOnce
  refine (hops.evaluate s hid).bind fun t1 evaluated s1 r1 he => .read rfl ?_
  split
  · next inner hi => exact .pure s1 (s1.below_node hi)
  · next ms hms =>
    dsimp only
    split
    · exact .pure s1 (r1 hid)
    · exact safe_unionOf s1 (Bounded.Below.map fun m hm =>
        below_content s1 (s1.below_node hms m hm))
  · exact .pure s1 (r1 hid)

theorem safe_wrapResult {body : TypeId} (h : t.Has body) : Safe t (wrapResult ops body) :=
  (safe_unwrapOnce hops s h).bind fun _ _ s1 _ h => safe_promiseOf s1 h

theorem safe_declaredResult? {declared : TypeId}
    (h : t.Has declared) : Safe t (declaredResult? ops declared) := by
  unfold declaredResult?
  refine (hops.evaluate s h).bind fun t1 evaluated s1 _ he => .read rfl ?_
  split
  · next inner hi => exact .pure s1 (below_some.2 (s1.below_node hi))
  · exact .pure s1 (below_some.2 s1.below_any)
  · exact .pure s1 below_none

end

end Promise

end GradualTyping
