/-
# Reduction gives normal forms

Over operations of which evaluation gives normal forms (`Operations.Normalizes`),
reducing a node gives a normal form or leaves the type as it is, waiting for a type
parameter (`Settles`), as normal forms are inherited (`inherited_normal`).  The utilities
that descend into a union have an answer, since the members of a normal union are no
unions (`answers_within`).

The types that are read off a node, `IsAccess`, are the exception.

Everything is said of runs in which the guard does not trip.
-/

import GradualTyping.Proofs.NormalForms.Strict

namespace GradualTyping

open TypeTable

/-- A type is a normal form, unless the guard has tripped. -/
abbrev NormalUntripped (t : TypeTable) (id : TypeId) : Prop := t.Untripped → t.Normal id

/-- An operation that gives a normal form, unless the guard trips. -/
abbrev Normally (t : TypeTable) (c : TableM TypeId) : Prop := Yields NormalUntripped t c

/-- From a table on, evaluation gives normal forms and leaves them as they are. -/
structure Operations.Normalizes (ops : Operations) (t : TypeTable) : Prop
    extends ops.Yielding NormalUntripped t where
  fixed : ∀ {t' : TypeTable} {id : TypeId}, t'.Sound → t.Runs t' → Below t'.size id →
    t'.Normal id → Keeps Runs t' (ops.evaluate id) fun t'' r => t''.Untripped → r = id

theorem Operations.Normalizes.later {ops : Operations} {t t' : TypeTable} (h : ops.Normalizes t)
    (r : t.Runs t') : ops.Normalizes t' :=
  { h.toYielding.later r with
    fixed := fun s' r' => h.fixed s' (r.trans r') }

variable {ops : Operations} {t t' : TypeTable} {id : TypeId}

/-! ### Nodes, unions and intersections -/

/-- What reduction builds is in normal form. -/
theorem inherited_normal : Inherited NormalUntripped where
  runs s r hid h hu := (h (r.untripped hu)).runs s hid r
  head h _ := .head h
  delayed hnode hdelays h hu := .rebuilt (.caseMapped hnode hdelays) fun _ hm =>
    List.mem_singleton.1 hm ▸ h hu
  union s hu h untripped := hu.normal s fun x hx => h x hx untripped
  member h hm hu := (h hu).unionMembers _ hm

theorem normally_intersectionOf (s : t.Sound) {ms : List TypeId} (hms : t.Has ms)
    (h : ∀ m ∈ ms, NormalUntripped t m) : Normally t (intersectionOf ms) := by
  rcases untripped_or with ht | hu
  · -- Nothing has to be known after the guard has tripped.
    have safe : Leaves Runs t (intersectionOf ms) _ := safe_intersectionOf s hms
    exact ⟨safe.sound, safe.related, safe.post, fun hu =>
      absurd ht (safe.related.untripped hu).not_isSome⟩
  · exact Tabled.Keeps.mono (leaves_intersectionOf_normal s hms fun m hm => h m hm hu)
      fun _ _ _ _ hr => ⟨hr.1, fun _ => hr.2⟩

/-- An operation that has an answer, and a normal form, unless the guard trips. -/
abbrev Answers (t : TypeTable) (c : OptionT TableM TypeId) : Prop :=
  Keeps Runs t c.run fun t' o => Below t'.size o ∧ (t'.Untripped → ∃ r, o = some r ∧ t'.Normal r)

section Answers

variable {α : Type}

theorem answers_lift {c : TableM TypeId} (h : Normally t c) :
    Answers t (liftM c : OptionT TableM TypeId) := by
  have h : Leaves Runs t c _ := h
  exact ⟨h.sound, h.related, below_some.2 h.post.1, fun hu => ⟨_, rfl, h.post.2 hu⟩⟩

theorem answers_bind {c : TableM α} {k : α → OptionT TableM TypeId} {Q : TypeTable → α → Prop}
    (h : Keeps Runs t c Q) (hk : ∀ t1 a, t1.Sound → t.Runs t1 → Q t1 a → Answers t1 (k a)) :
    Answers t (liftM c >>= k) := by
  show Leaves Runs t (c >>= fun a => (k a).run) _
  exact Tabled.Keeps.bind h hk

/-- Go past a step that only reads the table. -/
theorem answers_read {c : TableM α} {k : α → OptionT TableM TypeId} (hc : (c t).2 = t)
    (hk : Answers t (k (c t).1)) : Answers t (liftM c >>= k) := by
  show Leaves Runs t (c >>= fun a => (k a).run) _
  exact Tabled.Keeps.read hc hk

/-- With the guard tripped it is enough to be safe. -/
theorem answers_of_untripped {c : OptionT TableM TypeId} (safe : Safe t c)
    (h : t.Untripped → Answers t c) : Answers t c := by
  rcases untripped_or with ht | ht
  · have safe : Leaves Runs t c.run _ := safe
    exact ⟨safe.sound, safe.related, safe.post, fun hu =>
      absurd ht (safe.related.untripped hu).not_isSome⟩
  · exact h ht

theorem answers_mapM {xs : List α} {f : α → OptionT TableM TypeId} (s : t.Sound)
    (h : ∀ x ∈ xs, ∀ t', t'.Sound → t.Runs t' → Answers t' (f x)) :
    Keeps Runs t (xs.mapM f).run fun t' o => t'.Has o ∧
      (t'.Untripped → ∃ rs, o = some rs ∧ ∀ r ∈ rs, t'.Normal r) := by
  induction xs generalizing t with
  | nil => exact .pure s ⟨below_some.2 below_nil, fun _ => ⟨[], rfl, fun _ h => nomatch h⟩⟩
  | cons x xs ih =>
    rw [List.mapM_cons, OptionT.run_bind]
    refine (h x (.head _) t s (.refl t)).bind fun t1 o s1 r1 ho => ?_
    cases o with
    | none => exact .pure s1 ⟨below_none, fun hu => nomatch (ho.2 hu).choose_spec.1⟩
    | some r =>
      have hr := below_some.1 ho.1
      show Keeps Runs t1 (OptionT.run (xs.mapM f >>= fun rs => pure (r :: rs))) _
      rw [OptionT.run_bind]
      refine (ih s1 fun y hy t' s' r' => h y (.tail _ hy) t' s' (r1.trans r')).bind
        fun t2 o s2 r2 hrs => ?_
      cases o with
      | none => exact .pure s2 ⟨below_none, fun hu => nomatch (hrs.2 hu).choose_spec.1⟩
      | some rs =>
        refine .pure s2 ⟨below_some.2 (below_cons.2 ⟨r2 hr, below_some.1 hrs.1⟩), fun hu => ?_⟩
        obtain ⟨_, hrest, hnormals⟩ := hrs.2 hu
        obtain ⟨_, hfirst, hnormal⟩ := ho.2 (r2.untripped hu)
        obtain rfl := Option.some.inj hrest
        obtain rfl := Option.some.inj hfirst
        exact ⟨_, rfl, List.forall_mem_cons.2 ⟨hnormal.runs s1 hr r2, hnormals⟩⟩

end Answers

namespace Reduction

section Descent

variable {d : Descent TypeId}

/-- A descent into the members of unions that builds its answers. -/
structure Descent.Building (d : Descent TypeId) : Prop where
  parts : d.parts = Ty.alternatives
  yields : ∀ {P}, Inherited P → ∀ {t evaluated node answers}, t.Sound →
    Below t.size evaluated ∧ P t evaluated → Below t.size node →
    (Below t.size answers ∧ ∀ r ∈ answers, P t r) → Yields P t (d.answer evaluated node answers)

/-- There is an answer for a type if there is one for the parts of its normal form. -/
theorem answers_within_succ {Q : TypeTable → TypeId → Prop} (hd : d.Building) {fuel : Nat}
    (he : Keeps Runs t (ops.evaluate id) Q)
    (hQ : ∀ t1 r, Q t1 r → t1.Has r ∧ (t1.Untripped → t1.Normal r))
    (hparts : ∀ t1 r, t1.Sound → t.Runs t1 → Q t1 r → ∀ part ∈ (t1.resolve r).alternatives,
      ∀ t2, t2.Sound → t1.Runs t2 → Answers t2 (d.within ops fuel part)) :
    Answers t (d.within ops (fuel + 1) id) := by
  refine answers_bind he fun t1 r s1 r1 hr => answers_read rfl ?_
  obtain ⟨hbelow, hnormal⟩ := hQ t1 r hr
  have hnode : t1.Has (t1.resolve r) := s1.below_node rfl
  show Keeps Runs t1 (OptionT.run ((d.parts (t1.resolve r)).mapM (d.within ops fuel) >>= fun rs =>
    liftM (d.answer r (t1.resolve r) rs))) _
  rw [OptionT.run_bind, hd.parts]
  refine (answers_mapM s1 (hparts t1 r s1 r1 hr)).bind fun t2 o s2 r2 ho => ?_
  cases o with
  | none => exact .pure s2 ⟨below_none, fun hu => nomatch (ho.2 hu).choose_spec.1⟩
  | some rs =>
    refine answers_lift (hd.yields inherited_normal s2
      ⟨r2 hbelow, inherited_normal.runs s1 r2 hbelow hnormal⟩ (r2 hnode)
      ⟨below_some.1 ho.1, fun r hr hu => ?_⟩)
    obtain ⟨_, heq, hnormals⟩ := ho.2 hu
    exact hnormals r (Option.some.inj heq ▸ hr)

/-- There is an answer for a normal form that is no union. -/
theorem answers_within_plain (hd : d.Building) (hops : ops.Normalizes t) {fuel : Nat}
    (s : t.Sound) (hid : t.Has id) (hnormal : t.Untripped → t.Normal id)
    (hplain : (t.resolve id).alternatives = []) : Answers t (d.within ops (fuel + 1) id) := by
  have safe : ∀ fuel {t id}, t.Sound → t.Has id → Safe t (d.within ops fuel id) :=
    fun fuel _ _ s hid => RepeatsAs.safe (repeats_within hops.toSafe.repeats
      (fun h => hd.parts ▸ below_alternatives h)
      (fun s he hn ha => .of_safe (hd.yields inherited_true s ⟨he, trivial⟩ hn
        ⟨ha, fun _ _ => trivial⟩).safe) s hid)
  refine answers_of_untripped (safe _ s hid) fun hu => ?_
  have fixed : Leaves Runs t (ops.evaluate id) _ := hops.fixed s (.refl t) hid (hnormal hu)
  have normal : Leaves Runs t (ops.evaluate id) _ := hops.yields s (.refl t) hid
  refine answers_within_succ hd (normal.and fixed) (fun _ _ h => h.1)
    fun t1 r s1 r1 hr part hpart t2 s2 r2 => ?_
  refine answers_of_untripped (safe _ s2 (r2 (below_alternatives (s1.below_node rfl) part hpart)))
    fun hu => ?_
  rw [hr.2 (r2.untripped hu), r1.resolve hid, hplain] at hpart
  cases hpart

/-- Two levels are enough: the members of a normal union are no unions. -/
theorem answers_within (hd : d.Building) (hops : ops.Normalizes t) (fuel : Nat) (s : t.Sound)
    (hid : t.Has id) : Answers t (d.within ops (fuel + 2) id) := by
  refine answers_within_succ hd (hops.yields s (.refl t) hid) (fun _ _ h => h)
    fun t1 r s1 r1 hr m hm t2 s2 r2 => ?_
  have hbelow := below_alternatives (s1.below_node rfl) m hm
  obtain ⟨ms, hms⟩ : ∃ ms, t1.resolve r = .union ms := by
    cases hnode : t1.resolve r <;> simp_all [Ty.alternatives]
  rw [hms] at hm
  refine answers_within_plain hd (hops.later (r1.trans r2)) s2 (r2 hbelow)
    (inherited_normal.runs s1 r2 hbelow fun hu => (hr.2 hu).of_union hms m hm) ?_
  have hmember : m ∈ t1.unionMembers r := by rwa [TypeTable.unionMembers, hms]
  have hplain := (s1.unionMembers_plain hmember).1
  rw [r2.resolve hbelow]
  cases hnode : t1.resolve m with
  | union parts => rw [hnode] at hplain; cases hplain
  | _ => rfl

theorem normally_descent (hd : d.Building) (hops : ops.Normalizes t) (s : t.Sound)
    {fallback : TypeId} (hf : t.Has fallback) (hid : t.Has id) :
    Normally t (d.run ops fallback id) := by
  refine Tabled.Keeps.bind (answers_within hd hops _ s hid) fun t1 o s1 r1 ho => ?_
  refine .pure s1 ⟨ho.1.getD (r1 hf), fun hu => ?_⟩
  obtain ⟨r, rfl, hr⟩ := ho.2 hu
  exact hr

end Descent

theorem building_modifying {readonly optional : Option Bool} :
    (modifying readonly optional).Building :=
  ⟨rfl, fun hP _ _ _ _ s he hn ha => yields_modifying hP s he hn ha⟩

theorem building_taking (kind : CallKind) : (taking kind .parameters).Building :=
  ⟨rfl, fun hP _ _ _ _ s _ hn ha => yields_taking hP kind s
    (fun _ hf => hP.tupleOf s (Bounded.Below.map hf.2.1) hf.2.2.1) hn ha⟩

theorem settles_utility (hops : ops.Normalizes t) (s : t.Sound) {u : Utility} {args : List TypeId}
    (hu : u ∉ [Utility.returnType, .instanceType, .awaited]) (hid : t.Has id)
    (hargs : t.Has args) : Settles NormalUntripped t id (utility ops id u args) := by
  unfold utility
  refine (Tabled.Keeps.anyM s fun _ _ _ s' _ => safe_isOpen s').bind fun t1 waits s1 r1 _ => ?_
  split
  · exact settles_self s1 (r1 hid)
  have first := (r1 (hargs.getElem? 0)).getD s1.below_unknown
  have second := (r1 (hargs.getElem? 1)).getD s1.below_unknown
  have hops := hops.later r1
  dsimp only
  split
  iterate 3 exact (normally_descent building_modifying hops s1 first first).settles
  iterate 2 exact (yields_pick inherited_normal hops.toYielding s1 first second).settles
  · exact (yields_record inherited_normal hops.toSafe s1 first second).settles
  iterate 2 exact (yields_filterMembers inherited_normal hops.toYielding s1 first second).settles
  · exact (yields_dropNullish inherited_normal hops.toYielding s1 first).settles
  iterate 2 exact (normally_descent (building_taking _) hops s1 s1.below_never first).settles
  iterate 3 exact absurd (by decide) hu
  · exact Yields.settles ((safe_caseMapped s1 _ first).bind fun _ _ s2 r2 h => hops.yields s2 r2 h)

end Reduction

end GradualTyping
