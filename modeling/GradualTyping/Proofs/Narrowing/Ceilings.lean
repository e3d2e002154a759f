/-
# Types that stay below a ceiling

Tests of a value and joins of paths lead from a declared type to types whose alternatives
each stand under an alternative of the declared one: the same type, a literal of it, an
object with more fields, or an intersection with it.  `TypeTable.Inside` says so of a type
and its ceiling.  It is kept by joins (`IsUnion.inside`), and what is inside a plain ceiling
is a subtype of it (`Inside.isSubtype`).

A ceiling is plain if evaluation changes none of its alternatives and none of them is an
intersection beside others: comparison does not look for an intersection among the members
of a union.
-/

import GradualTyping.Proofs.Comparison.Alternatives
import GradualTyping.Proofs.Narrowing.Edges

namespace GradualTyping

open TypeTable List Reduction

/-- An object without open fields, and one that has all its fields. -/
structure ObjectShape.Extends (more less : ObjectShape) : Prop where
  closed : less.index = none
  fields : ∀ p ∈ less.properties, more.property? p.name = some p

theorem ObjectShape.Extends.trans {a b c : ObjectShape} (h : a.Extends b) (h' : b.Extends c) :
    a.Extends c :=
  ⟨h'.closed, fun p hp => h.fields p (mem_of_searchName (h'.fields p hp))⟩

namespace TypeTable

variable {t t' : TypeTable} {m d D type u : TypeId} {xs : List TypeId}

/-- An alternative that stands under another. -/
inductive Under (t : TypeTable) : (m d : TypeId) → Prop
  | same {m : TypeId} : Under t m m
  | literal {m d : TypeId} {l : Literal} : t.resolve m = .literal l →
      t.resolve d = .primitive l.base → Under t m d
  | object {m d : TypeId} {more less : ObjectShape} : t.resolve m = .object more →
      t.resolve d = .object less → more.Extends less → Under t m d
  | part {m d : TypeId} {ms : List TypeId} : t.resolve m = .intersection ms → d ∈ ms → Under t m d

/-- A type without alternatives to choose from. -/
def IsTop (t : TypeTable) (type : TypeId) : Prop := t.resolve type = .any ∨ t.resolve type = .unknown

/-- An alternative that evaluation leaves alone and that stands under one of a ceiling. -/
def HasAbove (t : TypeTable) (D m : TypeId) : Prop :=
  needsEvaluation t m = false ∧ ∃ d ∈ t.unionMembers D, t.Under m d

/-- Every alternative of a type stands under one of the ceiling. -/
def Inside (t : TypeTable) (D type : TypeId) : Prop :=
  t.IsTop D ∨ ∀ m ∈ t.unionMembers type, t.HasAbove D m

/-- Evaluation changes no alternative of a ceiling, and of several alternatives none is an
intersection. -/
structure Plain (t : TypeTable) (D : TypeId) : Prop where
  still : t.Still D
  meetless : (t.resolve D).isUnion = true → ∀ d ∈ t.unionMembers D, ∀ ms,
    t.resolve d ≠ .intersection ms

/-! ### Later tables -/

theorem Under.grows (h : t.Under m d) (g : t.Grows t') (hm : t.Has m)
    (hd : t.Has d) : t'.Under m d := by
  cases h with
  | same => exact .same
  | literal hl hp => exact .literal ((g.resolve hm).trans hl) ((g.resolve hd).trans hp)
  | object ho hl hx => exact .object ((g.resolve hm).trans ho) ((g.resolve hd).trans hl) hx
  | part hms hmem => exact .part ((g.resolve hm).trans hms) hmem

theorem HasAbove.grows (h : t.HasAbove D m) (s : t.Sound) (g : t.Grows t') (hm : t.Has m)
    (hD : t.Has D) : t'.HasAbove D m := by
  obtain ⟨plain, d, hd, under⟩ := h
  refine ⟨((s.agreeBelow g).needsEvaluation hm).trans plain, d, ?_,
    under.grows g hm (s.below_unionMembers hD d hd)⟩
  rwa [(s.agreeBelow g).unionMembers hD]

theorem Inside.grows (h : t.Inside D type) (s : t.Sound) (g : t.Grows t') (hD : t.Has D)
    (htype : t.Has type) : t'.Inside D type := by
  rcases h with top | inside
  · exact .inl (by rwa [IsTop, g.resolve hD])
  · refine .inr fun m hm => ?_
    rw [(s.agreeBelow g).unionMembers htype] at hm
    exact (inside m hm).grows s g (s.below_unionMembers htype m hm) hD

theorem Plain.of_grows (h : t'.Plain D) (s : t.Sound) (g : t.Grows t') (hD : t.Has D) :
    t.Plain D where
  still := h.still.of_grows s hD g
  meetless union d hd ms := by
    rw [← g.resolve (s.below_unionMembers hD d hd)]
    refine h.meetless ?_ d ?_ ms
    · rwa [g.resolve hD]
    · rwa [(s.agreeBelow g).unionMembers hD]

theorem Plain.grows (h : t.Plain D) (s : t.Sound) (g : t.Grows t') (hD : t.Has D) :
    t'.Plain D where
  still := h.still.grows s hD g
  meetless union d hd ms := by
    rw [(s.agreeBelow g).unionMembers hD] at hd
    rw [g.resolve hD] at union
    rw [g.resolve (s.below_unionMembers hD d hd)]
    exact h.meetless union d hd ms

/-! ### Joins -/

theorem Plain.inside (h : t.Plain D) : t.Inside D D :=
  .inr fun m hm => ⟨h.still m hm, m, hm, .same⟩

theorem HasAbove.inside (h : t.HasAbove D m) (s : t.Sound) : t.Inside D m := by
  refine .inr fun k hk => ?_
  unfold TypeTable.unionMembers at hk
  split at hk
  · next ms hms =>
    -- a union stands under no alternative
    obtain ⟨-, d, hd, under⟩ := h
    cases under with
    | same =>
      have plain := (s.unionMembers_plain hd).1
      rw [hms] at plain
      cases plain
    | literal hl => rw [hms] at hl; cases hl
    | object ho => rw [hms] at ho; cases ho
    | part hp => rw [hms] at hp; cases hp
  · cases hk
  · exact mem_singleton.1 hk ▸ h

/-- No type has both boolean literals for alternatives. -/
theorem Sound.not_both_booleans (s : t.Sound) (ht : .true ∈ t.unionMembers D)
    (hf : .false ∈ t.unionMembers D) : False := by
  unfold TypeTable.unionMembers at ht hf
  cases hnode : t.resolve D with
  | union ms =>
    rw [hnode] at ht hf
    have hc : t.CanonicalUnion ms := s.canonical_node hnode
    exact hc.notBothBooleans ⟨ht, hf⟩
  | never => rw [hnode] at ht; cases ht
  | _ =>
    rw [hnode] at ht hf
    exact absurd ((mem_singleton.1 ht).trans (mem_singleton.1 hf).symm) (by decide)

/-- Both booleans stand under alternatives only where `boolean` does. -/
theorem HasAbove.boolean (s : t.Sound) (htrue : t.HasAbove D .true) (hfalse : t.HasAbove D .false) :
    t.HasAbove D .boolean := by
  have plain : needsEvaluation t .boolean = false :=
    needsEvaluation_of_isHead (by rw [s.resolve_boolean]; rfl)
  have found : ∀ {k l}, t.resolve k = .literal l → l.base = .boolean → t.HasAbove D k →
      k ∈ t.unionMembers D ∨ .boolean ∈ t.unionMembers D := by
    rintro k l hk hl ⟨-, d, hd, under⟩
    cases under with
    | same => exact .inl hd
    | literal hl' hp =>
      obtain rfl := Ty.literal.inj (hk.symm.trans hl')
      rw [hl] at hp
      have same : d = .boolean := s.get?_inj (get?_of_resolve hp nofun)
        (get?_of_resolve s.resolve_boolean nofun)
      exact .inr (same ▸ hd)
    | object ho => rw [hk] at ho; cases ho
    | part hp => rw [hk] at hp; cases hp
  have mem : .boolean ∈ t.unionMembers D := by
    rcases found s.resolve_true rfl htrue with ht | h
    · exact (found s.resolve_false rfl hfalse).elim (fun hf => (s.not_both_booleans ht hf).elim) id
    · exact h
  exact ⟨plain, .boolean, mem, .same⟩

/-- **Joins stay inside.** -/
theorem IsUnion.inside (hu : t.IsUnion xs u) (s : t.Sound) (h : ∀ x ∈ xs, t.Inside D x) :
    t.Inside D u := by
  by_cases top : t.IsTop D
  · exact .inl top
  have each : ∀ m ∈ t.flattenUnion xs, t.HasAbove D m := by
    intro m hm
    obtain ⟨x, hx, hm⟩ := mem_flatMap.1 hm
    exact (h x hx).resolve_left top m hm
  refine .inr fun m hm => ?_
  rw [hu.unionMembers s] at hm
  rcases mem_of_mem_canonicalMembers hm with hm | ⟨rfl, ht, hf⟩
  · exact each m hm
  · exact .boolean s (each _ ht) (each _ hf)

theorem inside_unionOf (s : t.Sound) (hxs : t.Has xs) (hD : t.Has D)
    (h : ∀ x ∈ xs, t.Inside D x) : Keeps Runs t (unionOf xs) fun t' u => t'.Inside D u := by
  have made : Leaves Runs t (unionOf xs) _ := safe_unionOf s hxs
  refine ⟨made.sound, made.related, ?_⟩
  exact (s.isUnion_unionOf hxs (.refl _)).inside made.sound fun x hx =>
    (h x hx).grows s made.related hD (hxs x hx)

/-! ### What is inside is a subtype -/

section Comparison

open Subtyping

variable {a b : TypeId}

theorem allM_of_reads {α : Type} {xs : List α} {f : α → TableM Bool}
    (h : ∀ x ∈ xs, f x t = (true, t)) : xs.allM f t = (true, t) := by
  induction xs with
  | nil => rfl
  | cons x xs ih =>
    exact (bind_of_eq (h x (.head _))).trans (ih fun y hy => h y (.tail _ hy))

/-- Types that evaluation leaves alone are compared by the rule for their nodes. -/
theorem clauseOver_of_plain {R : TypeId → TypeId → Bool}
    (ha : Reduction.needsEvaluation t a = false) (hb : Reduction.needsEvaluation t b = false) :
    clauseOver t R a b = structuralOver t R a b :=
  clause_of_plain (needs_of_plain ha) (needs_of_plain hb)

open Classical in
/-- Two types that evaluation leaves alone are comparable by the rule for their nodes. -/
theorem Comparable.of_plain (F : t.Resting) (ha : t.Has a)
    (hb : t.Has b) (plaina : Reduction.needsEvaluation t a = false)
    (plainb : Reduction.needsEvaluation t b = false) (generic : comparesGeneric t a b = false)
    (h : structuralOver t (fun x y => decide (t.Comparable x y)) a b = (true, t)) :
    t.Comparable a b :=
  .of_clause F ha hb generic (by rw [clauseOver_of_plain plaina plainb, h])

theorem not_generic_left (h : ∀ f, t.resolve a ≠ .function f) : comparesGeneric t a b = false := by
  unfold comparesGeneric
  split
  · next f _ hf _ => exact absurd hf (h f)
  · rfl

theorem not_generic_right (h : ∀ f, t.resolve b ≠ .function f) : comparesGeneric t a b = false := by
  unfold comparesGeneric
  split
  · next f _ hf => exact absurd hf (h f)
  · rfl

open Classical in
/-- An object with more fields is a subtype. -/
theorem objects_of_extends {more less : ObjectShape} (h : more.Extends less) (hless : t.Has less) :
    objects (fun x y => (pure (decide (t.Comparable x y)) : TableM Bool)) more less t = (true, t) := by
  have field : ∀ covariant, ∀ p ∈ less.properties,
      fieldFits (fun x y => (pure (decide (t.Comparable x y)) : TableM Bool)) covariant more p t =
        (true, t) := by
    intro covariant p hp
    have same : decide (t.Comparable p.type p.type) = true := decide_eq_true (.refl (hless.1 p hp))
    unfold fieldFits
    rw [h.fields p hp]
    dsimp only
    rw [if_neg (by cases p.optional <;> simp)]
    split
    · rw [same]; rfl
    · rw [bothWays, if_pos rfl]; rfl
  have limits : (liftM (getLimits : TableM Limits) : TableM Limits) t = (t.limits, t) := rfl
  unfold objects
  rw [bind_of_eq limits, bind_of_eq (allM_of_reads (field _)), h.closed]
  rfl

open Classical in
/-- What stands under an alternative is a subtype of it. -/
theorem Under.comparable (F : t.Resting) (h : t.Under m d) (hm : t.Has m)
    (hd : t.Has d) (plainm : Reduction.needsEvaluation t m = false)
    (plaind : Reduction.needsEvaluation t d = false) : t.Comparable m d := by
  cases h with
  | same => exact .refl hm
  | literal hl hp =>
    refine .of_plain F hm hd plainm plaind (not_generic_left (by simp [hl])) ?_
    unfold structuralOver
    rw [hl, hp]
    show (_ == _, t) = _
    rw [beq_self_eq_true]
  | object hmore hless extended =>
    refine .of_plain F hm hd plainm plaind (not_generic_left (by simp [hmore])) ?_
    unfold structuralOver
    rw [hmore, hless]
    exact objects_of_extends extended (F.sound.below_node hless)
  | part hms hmem =>
    refine .of_plain F hm hd plainm plaind (not_generic_left (by simp [hms])) ?_
    unfold structuralOver
    rw [hms]
    show List.anyM (fun x => (pure (decide (t.Comparable x d)) : TableM Bool)) _ t = _
    exact anyM_pure_of_mem hmem (decide_eq_true (.refl hd))

open Classical in
/-- A type is below a union that has a member above it, unless it is an intersection. -/
theorem Comparable.of_member {ms : List TypeId} (F : t.Resting) (hD : t.resolve D = .union ms)
    (plainD : Reduction.needsEvaluation t D = false) (plainm : Reduction.needsEvaluation t m = false)
    (hunion : (t.resolve m).isUnion = false) (hmeet : ∀ xs, t.resolve m ≠ .intersection xs)
    (hd : d ∈ ms) (h : t.Comparable m d) : t.Comparable m D := by
  refine .of_plain F h.below.1 (below_of_get? (get?_of_resolve hD (by simp))) plainm plainD
    (not_generic_right (by simp [hD])) ?_
  have found : ms.anyM (fun k => (pure (decide (t.Comparable m k)) : TableM Bool)) t = (true, t) :=
    anyM_pure_of_mem hd (decide_eq_true h)
  unfold structuralOver
  rw [hD]
  cases hnode : t.resolve m with
  | union xs => rw [hnode] at hunion; cases hunion
  | intersection xs => exact absurd hnode (hmeet xs)
  | param p => exact bind_of_eq found
  | _ => exact found

open Classical in
/-- **What is inside a plain ceiling is comparable with it.** -/
theorem Inside.comparable (F : t.Resting) (plain : t.Plain D) (hD : t.Has D)
    (htype : t.Has type) (h : t.Inside D type) : t.Comparable type D := by
  rcases h with top | inside
  · exact .of_settled htype hD (settled_iff.2 (.inr (.inl top)))
  have members := F.sound.below_unionMembers htype
  have each : ∀ m ∈ t.unionMembers type, t.Comparable m D := by
    intro m hm
    obtain ⟨plainm, d, hd, under⟩ := inside m hm
    have hd' := F.sound.below_unionMembers hD d hd
    have below := under.comparable F (members m hm) hd' plainm (plain.still d hd)
    cases hnode : t.resolve D with
    | union ms =>
      have hmem : d ∈ ms := by rwa [TypeTable.unionMembers, hnode] at hd
      have meetless := plain.meetless (by rw [hnode]; rfl)
      have direct : ∀ {k}, k ∈ t.unionMembers D → t.Comparable k D := fun {k} hk => by
        have hk' : k ∈ ms := by rwa [TypeTable.unionMembers, hnode] at hk
        exact .of_member F hnode plain.still.whole (plain.still k hk) (F.sound.unionMembers_plain hk).1
          (meetless k hk) hk' (.refl (F.sound.below_unionMembers hD k hk))
      cases hm' : t.resolve m with
      | intersection xs =>
        -- an intersection is split: one of its members is among those of the ceiling
        cases under with
        | same => exact absurd hm' (meetless m hd xs)
        | part hms hmem' =>
          refine .of_plain F (members m hm) hD plainm plain.still.whole
            (not_generic_left (by simp [hm'])) ?_
          unfold structuralOver
          rw [hms]
          show List.anyM (fun x => (pure (decide (t.Comparable x D)) : TableM Bool)) _ t = _
          exact anyM_pure_of_mem hmem' (decide_eq_true (direct hd))
        | literal hl => rw [hm'] at hl; cases hl
        | object ho => rw [hm'] at ho; cases ho
      | _ =>
        exact .of_member F hnode plain.still.whole plainm (F.sound.unionMembers_plain hm).1
          (by simp [hm']) hmem below
    | never => rw [TypeTable.unionMembers, hnode] at hd; cases hd
    | _ =>
      rw [TypeTable.unionMembers, hnode] at hd
      exact mem_singleton.1 hd ▸ below
  cases hnode : t.resolve type with
  | union ms =>
    have still : t.Still type := fun m hm => (inside m hm).1
    refine .of_plain F htype hD still.whole plain.still.whole (not_generic_left (by simp [hnode])) ?_
    rw [structuralOver_union hnode]
    rw [TypeTable.unionMembers, hnode] at each
    rw [all_eq_true.2 fun m hm => decide_eq_true (each m hm)]
  | never => exact .of_settled htype hD (settled_iff.2 (.inr (.inr (.inr hnode))))
  | _ => exact each type (by rw [TypeTable.unionMembers, hnode]; exact .head _)

/-- **Comparison finds what is inside a plain ceiling to be a subtype of it**, unless the guard
trips. -/
theorem Inside.isSubtype (s : t.Sound) (rest : t.evaluating = []) (plain : t.Plain D)
    (hD : t.Has D) (htype : t.Has type) (h : t.Inside D type)
    (untripped : (GradualTyping.isSubtype type D t).2.Untripped) :
    (GradualTyping.isSubtype type D t).1 = true := by
  have run : Leaves Runs t (GradualTyping.isSubtype type D) _ := safe_isSubtype s htype hD
  have F : (GradualTyping.isSubtype type D t).2.Resting :=
    ⟨run.sound, run.related.evaluating.trans rest, untripped⟩
  have g := run.related
  have below := (h.grows s g hD htype).comparable F (plain.grows s g hD) (g hD) (g htype)
  have affirms : Affirms (GradualTyping.isSubtype type D t).2 t (t.operations.isSubtype [] type D) :=
    affirms_of_comparable F below s (atRest_operations rest) htype hD []
  exact Leaves.post affirms (.refl F.sound F.untripped)

end Comparison

end TypeTable

end GradualTyping
