/-
# The occurrences that a substitution replaces

A type occurs in another if it is the type or occurs in one of its parts; the own
parameters of a function and the parameter of a mapped type are no parts.

What becomes of a type under a substitution is found by one walk over its parts with a
memo.  `Replaces` says what a relation between types and what becomes of them needs to
hold of such a walk (`Replaces.run`), and two relations do: where the keys that occur are
parameters that are replaced by themselves every type stays (`replaces_same`), because a
node is found again (`Sound.nodeOf_resolve`), and where no conditional distributes no key
is left (`replaces_all`), because a node of parts without a key has none
(`keeps_nodeOf_avoids`).  The last holds for intersections by the
steps that make them (`MeetStep.avoids`).
-/

import GradualTyping.Proofs.Reachable

namespace GradualTyping

open TypeTable List Reduction Operations Substitution

variable {spans : List TemplateSpan}

/-! ### The parts of a node -/

section Parts

variable {α : Type} {part : α → TypeId} {put : α → TypeId → α}

theorem zipWith_map_self (h : ∀ x, put x (part x) = x) (xs : List α) (more : List TypeId) :
    xs.zipWith put (xs.map part ++ more) = xs := by
  induction xs with
  | nil => exact zipWith_nil_left
  | cons x xs ih => rw [map_cons, cons_append, zipWith_cons_cons, h, ih]

theorem map_zipWith (h : ∀ x id, part (put x id) = id) {xs : List α} {ids : List TypeId}
    (hlen : xs.length ≤ ids.length) : (xs.zipWith put ids).map part = ids.take xs.length := by
  induction xs generalizing ids with
  | nil => rfl
  | cons x xs ih =>
    cases ids with
    | nil => cases hlen
    | cons id ids =>
      rw [zipWith_cons_cons, map_cons, h, ih (Nat.le_of_succ_le_succ hlen),
        length_cons, take_succ_cons]

theorem toList_map_headD {o : Option α} {l : List α} (h : o.toList.length ≤ l.length) :
    (o.map l.headD).toList = l.take o.toList.length := by
  cases o with
  | none => rfl
  | some => cases l with
    | nil => cases h
    | cons => rfl

end Parts

theorem fillHoles_parts : fillHoles spans (Ty.template spans).parts = spans := by
  induction spans with
  | nil => rfl
  | cons span spans ih => cases span <;> exact congrArg _ ih

theorem parts_fillHoles {types : List TypeId}
    (h : types.length = (Ty.template spans).parts.length) :
    (Ty.template (fillHoles spans types)).parts = types := by
  induction spans generalizing types with
  | nil => exact (eq_nil_of_length_eq_zero h).symm
  | cons span spans ih =>
    cases span with
    | text => exact ih h
    | hole => cases types with
      | nil => cases h
      | cons type types => exact congrArg (type :: ·) (ih (Nat.succ.inj h))

theorem Ty.withParts_parts (ty : Ty) : ty.withParts ty.parts = ty := by
  cases ty with
  | object o =>
    obtain ⟨ps, index⟩ := o
    cases index <;> simp [Ty.withParts, Ty.parts, zipWith_map_self, zipWith_map_right]
  | tuple shape =>
    obtain ⟨es, rest⟩ := shape
    cases rest <;>
      simp [Ty.withParts, Ty.parts, TupleShape.types, zipWith_map_self, zipWith_map_right]
  | function f =>
    obtain ⟨typeParams, params, rest, result, kind, predicate⟩ := f
    cases rest <;> cases predicate <;>
      simp [Ty.withParts, Ty.parts, Signature.parts, Signature.withParts, zipWith_map_self]
  | template spans => exact congrArg Ty.template fillHoles_parts
  | _ => rfl

theorem Ty.parts_withParts {ty : Ty} {types : List TypeId} (h : types.length = ty.parts.length) :
    (ty.withParts types).parts = types := by
  have two {n : Nat} {o : Option TypeId} (h : types.length = n + o.toList.length) :
      types.take n ++ (o.map (types.drop n).headD).toList = types := by
    rw [toList_map_headD (by rw [length_drop]; omega),
      take_of_length_le (l := types.drop n) (by rw [length_drop]; omega),
      take_append_drop]
  cases ty with
  | object o =>
    rw [Ty.parts, length_append, length_map] at h
    rw [Ty.withParts, Ty.parts, map_zipWith (fun _ _ => rfl) (by omega), two h]
  | tuple shape =>
    rw [Ty.parts, TupleShape.types, length_append, length_map] at h
    rw [Ty.withParts, Ty.parts, TupleShape.types, map_zipWith (fun _ _ => rfl) (by omega), two h]
  | function f =>
    obtain ⟨typeParams, params, rest, result, kind, predicate⟩ := f
    simp only [Ty.parts, Signature.parts, length_append, length_map,
      length_singleton] at h
    simp only [Ty.withParts, Ty.parts, Signature.withParts, Signature.parts]
    rw [map_zipWith (fun _ _ => rfl) (by omega), append_assoc, append_assoc]
    have hlen : (types.drop params.length).length =
        rest.toList.length + 1 + (predicate.map (·.type)).toList.length := by
      rw [length_drop]
      omega
    refine Eq.trans ?_ (take_append_drop params.length types)
    generalize types.drop params.length = behind at hlen ⊢
    cases rest <;> cases predicate <;>
      rcases behind with _ | ⟨_, _ | ⟨_, _ | ⟨_, _ | _⟩⟩⟩ <;> first | rfl | simp at hlen
  | union | intersection | reference => rfl
  | conditional =>
    rcases types with _ | ⟨_, _ | ⟨_, _ | ⟨_, _ | ⟨_, _ | _⟩⟩⟩⟩ <;>
      first | rfl | simp [Ty.parts] at h
  | mapped | indexed =>
    rcases types with _ | ⟨_, _ | ⟨_, _ | _⟩⟩ <;> first | rfl | simp [Ty.parts] at h
  | array | keyOf | promise | caseMapped =>
    rcases types with _ | ⟨_, _ | _⟩ <;> first | rfl | simp [Ty.parts] at h
  | template spans => exact parts_fillHoles h
  | _ => exact (eq_nil_of_length_eq_zero h).symm

/-! ### Occurrences -/

namespace TypeTable

variable {t t' : TypeTable} {σ : Substitution} {id m : TypeId}

/-- A type occurs in another if it is the type or occurs in one of its parts. -/
inductive Occurs (t : TypeTable) (key : TypeId) : TypeId → Prop
  | here : Occurs t key key
  | part {whole part : TypeId} : part ∈ (t.resolve whole).parts → Occurs t key part →
      Occurs t key whole

/-- No key of a substitution occurs in a type. -/
def Avoids (t : TypeTable) (σ : Substitution) (id : TypeId) : Prop :=
  ∀ key, σ.contains key = true → ¬ t.Occurs key id

theorem Sound.below_part (s : t.Sound) (hm : m ∈ (t.resolve id).parts) : t.Has m :=
  below_iff_ids.1 (s.below_resolve id) m (Ty.parts_subset_ids _ hm)

theorem Grows.occurs_iff (g : t.Grows t') (s : t.Sound) {key : TypeId} (hid : t.Has id) :
    t'.Occurs key id ↔ t.Occurs key id := by
  constructor
  · intro h
    induction h with
    | here => exact .here
    | part hm _ ih =>
      rw [g.resolve hid] at hm
      exact .part hm (ih (s.below_part hm))
  · intro h
    induction h with
    | here => exact .here
    | part hm _ ih => exact .part ((g.resolve hid).symm ▸ hm) (ih (s.below_part hm))

theorem Grows.avoids_iff (g : t.Grows t') (s : t.Sound) (hid : t.Has id) :
    t'.Avoids σ id ↔ t.Avoids σ id :=
  forall₂_congr fun _ _ => not_congr (g.occurs_iff s hid)

theorem avoids_iff :
    t.Avoids σ id ↔ σ.get? id = none ∧ ∀ m ∈ (t.resolve id).parts, t.Avoids σ m := by
  refine ⟨fun h => ⟨?_, fun m hm key hkey ho => h key hkey (.part hm ho)⟩,
    fun ⟨hid, h⟩ key hkey ho => ?_⟩
  · by_contra hne
    exact h id (Option.isSome_iff_ne_none.2 hne) .here
  · cases ho with
    | here => rw [Substitution.contains, hid] at hkey; cases hkey
    | part hm ho => exact h _ hm key hkey ho

end TypeTable

/-! ### Nodes that are made again -/

theorem CanonicalSpans.mergeSpans (h : CanonicalSpans spans) : mergeSpans spans = spans := by
  obtain ⟨empty, adjacent, -⟩ := h
  induction spans with
  | nil => rfl
  | cons span spans ih =>
    have ih := ih (fun h => empty (.tail _ h)) fun a b h => adjacent a b
      (h.trans (suffix_cons span spans).isInfix)
    cases span with
    | hole h => rw [GradualTyping.mergeSpans, ih]
    | text s =>
      have hs : s.isEmpty = false := by
        by_contra hs
        rw [Bool.not_eq_false, String.isEmpty_iff] at hs
        exact empty (hs ▸ .head _)
      rw [GradualTyping.mergeSpans, ih]
      split
      · next r rest _ => exact absurd ⟨[], rest, rfl⟩ (adjacent s r)
      · rw [if_neg (by rw [hs]; exact Bool.false_ne_true)]

theorem templateOf_of_hole (merged : mergeSpans spans = spans)
    {x : TypeId} (hx : x ∈ (Ty.template spans).parts) :
    templateOf spans = intern (.template spans) := by
  rw [templateOf, merged]
  split
  · cases hx
  · cases hx
  · rfl

/-- **A node of the table is found again.** -/
theorem TypeTable.Sound.nodeOf_resolve {t : TypeTable} (s : t.Sound) {id : TypeId}
    (hid : t.Has id) : nodeOf (t.resolve id) t = (id, t) := by
  have made {ty : Ty} (hty : t.resolve id = ty) : intern ty t = (id, t) :=
    insert_of_lookup (s.lookup_iff.2 (hty ▸ get?_of_below hid))
  cases hty : t.resolve id with
  | object o =>
    rw [nodeOf, objectOf, sortProperties_of_namesIncrease (s.canonical_node hty)]
    exact made hty
  | union ms => exact (s.unionOf_canonical (s.canonical_node hty)).trans (made hty)
  | intersection ms => exact (s.intersectionOf_canonical (s.canonical_node hty)).trans (made hty)
  | template spans =>
    have canonical : CanonicalSpans spans := s.canonical_node hty
    obtain ⟨x, hx⟩ := canonical.someHole
    rw [nodeOf, templateOf_of_hole canonical.mergeSpans
      (mem_filterMap.2 ⟨_, hx, rfl⟩)]
    exact made hty
  | promise inner =>
    have canonical : ∀ i, t.resolve inner ≠ .promise i := s.canonical_node hty
    have read : GradualTyping.resolve inner t = (t.resolve inner, t) := rfl
    rw [nodeOf, promiseOf, bind_of_eq read]
    cases hi : t.resolve inner with
    | promise i => exact absurd hi (canonical i)
    | _ => exact made hty
  | _ => exact made hty

/-! ### Nodes without a key -/

namespace TypeTable

variable {t t' F : TypeTable} {σ : Substitution} {id : TypeId} {ms : List TypeId}

/-- The keys of a substitution are type parameters. -/
def Params (t : TypeTable) (σ : Substitution) : Prop :=
  ∀ key, σ.contains key = true → ∃ p, t.resolve key = .param p

theorem Params.grows (h : t.Params σ) (g : t.Grows t') : t'.Params σ := by
  intro key hkey
  obtain ⟨p, hp⟩ := h key hkey
  exact ⟨p, (g.resolve (below_of_get? (get?_of_resolve hp nofun))).trans hp⟩

theorem Params.avoids (params : t.Params σ) {ty : Ty} (hid : t.resolve id = ty)
    (h : ∀ m ∈ ty.parts, t.Avoids σ m) (hty : ty.isParam = false) : t.Avoids σ id := by
  refine avoids_iff.2 ⟨?_, hid ▸ h⟩
  by_contra hne
  obtain ⟨p, hp⟩ := params id (Option.isSome_iff_ne_none.2 hne)
  rw [← hid, hp] at hty
  cases hty

theorem Params.avoids_fixed (params : t.Params σ) (s : t.Sound) {i : Nat} {ty : Ty}
    (h : TypeTable.fixed[i]? = some ty) (hparts : ty.parts = []) (hty : ty.isParam = false) :
    t.Avoids σ ⟨i⟩ :=
  params.avoids (resolve_of_get? (s.get?_fixed h))
    (hparts ▸ fun _ hm => absurd hm not_mem_nil) hty

theorem Avoids.members (h : t.Avoids σ id)
    (hms : t.resolve id = .union ms ∨ t.resolve id = .intersection ms) :
    ∀ m ∈ ms, t.Avoids σ m := by
  intro m hm
  refine (avoids_iff.1 h).2 m ?_
  rcases hms with hms | hms <;> rwa [hms]

theorem IsUnion.avoids (s : t.Sound) (params : t.Params σ) {u : TypeId} (hu : t.IsUnion ms u)
    (h : ∀ m ∈ ms, t.Avoids σ m) : t.Avoids σ u := by
  have members : ∀ m ∈ t.canonicalMembers ms, t.Avoids σ m := by
    intro m hm
    rcases mem_of_mem_canonicalMembers hm with hm | ⟨rfl, -, -⟩
    · obtain ⟨x, hx, hmx⟩ := mem_flatMap.1 hm
      unfold TypeTable.unionMembers at hmx
      split at hmx
      · next hms => exact (h x hx).members (.inl hms) m hmx
      · cases hmx
      · exact mem_singleton.1 hmx ▸ h x hx
    · exact params.avoids_fixed s (i := 5) rfl rfl rfl
  rcases hu with ⟨-, rfl⟩ | hone | hunion
  · exact params.avoids_fixed s (i := 2) rfl rfl rfl
  · exact members u (hone ▸ .head _)
  · exact params.avoids hunion members rfl

theorem keeps_intersectionOf_avoids (s : t.Sound) (params : t.Params σ) (hms : t.Has ms) :
    Keeps Runs t (intersectionOf ms) fun t' v => Passes (fun t => t.Avoids σ) t' ms v := by
  have fields {t' : TypeTable} {o : ObjectShape} :
      o.Fields (t'.Avoids σ) ↔ ∀ m ∈ (Ty.object o).parts, t'.Avoids σ m := by
    simp only [ObjectShape.Fields, Ty.parts, forall_mem_append, forall_mem_map,
      Option.mem_toList]
  refine keeps_intersectionOf (lasting_passes fun s g hid => g.avoids_iff s hid) (fun h => h.2.1)
    (fun r' s' hms' => ⟨hms', s'.below_never, fun _ => ?_⟩) ?_ s hms
  · exact (params.grows r').avoids_fixed s' (i := 2) rfl rfl rfl
  · intro t1 t2 ms v r1 s1 hms r2 s2 hv step
    have params := params.grows (r1.trans r2).toGrows
    refine ⟨r2 hms, hv, fun h => ?_⟩
    exact step.passes s1 r2 hms (params.avoids_fixed s2 (i := 2) rfl rfl rfl)
      (params.avoids_fixed s2 (i := 0) rfl rfl rfl) (params.avoids_fixed s2 (i := 1) rfl rfl rfl)
      (fun h node => h.members node)
      (fun h node => fields.2 fun m hm => (avoids_iff.1 h).2 m (node ▸ hm))
      (fun _ _ node h => params.avoids node (fields.1 h) rfl) (fun h => h.avoids s2 params)
      (fun node h => params.avoids node h rfl) (fun h => h.2.2)
      (fun _ _ _ hx hy h => h.2.2 (forall_mem_cons.2 ⟨hx, forall_mem_singleton.2 hy⟩)) h

theorem parts_mergeSpans (spans : List TemplateSpan) :
    (Ty.template (mergeSpans spans)).parts = (Ty.template spans).parts := by
  fun_induction mergeSpans spans with
  | case1 => rfl
  | case2 h _ ih => exact congrArg (h :: ·) ih
  | case3 _ _ _ _ hr ih => exact (congrArg (Ty.parts ∘ Ty.template) hr).symm.trans ih
  | case4 _ _ _ _ ih | case5 _ _ _ _ ih => exact ih

/-- **A node of parts without a key has none.** -/
theorem keeps_nodeOf_avoids (s : t.Sound) (params : t.Params σ) {ty : Ty} (hty : t.Has ty)
    (plain : ty.isParam = false ∧ ty.isVar = false) (h : ∀ m ∈ ty.parts, t.Avoids σ m) :
    Keeps Runs t (nodeOf ty) fun t' u => t'.Avoids σ u := by
  have interned {ty : Ty} (hty : t.Has ty) (canonical : t.Canonical ty)
      (plain : ty.isParam = false ∧ ty.isVar = false) (h : ∀ m ∈ ty.parts, t.Avoids σ m) :
      Keeps Runs t (intern ty) fun t' u => t'.Avoids σ u := by
    refine (keeps_intern s hty canonical plain.2).mono fun t' u _ r' hu => ?_
    refine (params.grows r').avoids (resolve_of_get? hu) (fun m hm => ?_) plain.1
    exact (r'.avoids_iff s (below_iff_ids.1 hty m (ty.parts_subset_ids hm))).2 (h m hm)
  cases ty with
  | object o =>
    refine interned ⟨below_sortProperties hty.1, hty.2⟩ namesIncrease_sortProperties ⟨rfl, rfl⟩ ?_
    simp only [Ty.parts, forall_mem_append, forall_mem_map] at h ⊢
    exact ⟨fun p hp => h.1 p (mem_of_mem_sortProperties hp), h.2⟩
  | union ms =>
    have safe : Leaves Runs t (unionOf ms) _ := safe_unionOf s hty
    refine ⟨safe.sound, safe.related, (s.isUnion_unionOf hty (.refl _)).avoids safe.sound
      (params.grows safe.related) fun m hm => ?_⟩
    exact (safe.related.avoids_iff s (hty m hm)).2 (h m hm)
  | intersection ms =>
    refine (keeps_intersectionOf_avoids s params hty).mono fun t' u _ r' hu => hu.2.2 fun m hm => ?_
    exact (r'.avoids_iff s (hty m hm)).2 (h m hm)
  | template spans =>
    have text (x : String) :
        Keeps Runs t (intern (.literal (.string x))) fun t' u => t'.Avoids σ u :=
      interned trivial trivial ⟨rfl, rfl⟩ fun _ hm => absurd hm not_mem_nil
    rw [nodeOf, templateOf]
    split
    · exact text _
    · exact text _
    · next hnil htext =>
      exact interned (below_mergeSpans hty) (canonicalSpans_mergeSpans hnil htext) ⟨rfl, rfl⟩
        (parts_mergeSpans spans ▸ h)
  | promise inner =>
    have node : (GradualTyping.resolve inner t).1 = t.resolve inner := rfl
    refine Tabled.Keeps.read rfl ?_
    rw [node]
    split
    · exact .pure s (h inner (.head _))
    · next hi => exact interned hty hi ⟨rfl, rfl⟩ h
  | _ => exact interned hty trivial plain h

end TypeTable

/-! ### Types under a substitution -/

namespace Substitution

variable {α β : Type} {t t0 : TypeTable} {σ : Substitution} {id : TypeId}
  {I : TypeTable → Prop} {E : TypeTable → TypeId → TypeId → Prop} {P : TypeId → Prop}

/-- A relation between types and what becomes of them, for types with the property `P` of a table
`t0`, while the tables have the property `I`. -/
structure Replaces (t0 : TypeTable) (σ : Substitution) (I : TypeTable → Prop)
    (E : TypeTable → TypeId → TypeId → Prop) (P : TypeId → Prop) : Prop where
  below {id : TypeId} : P id → Below t0.size id
  parts {id m : TypeId} : P id → m ∈ (t0.resolve id).parts → P m
  steady {t : TypeTable} {id : TypeId} {c : Conditional} {ops : Operations} : P id → t.Sound →
    I t → t0.resolve id = .conditional c → ops.Idle → distributes? ops σ c t = (none, t)
  /-- Tables with the property `I` have grown from `t0`, and `I` is about their nodes only. -/
  grows {t : TypeTable} : I t → t0.Grows t
  rest {t t' : TypeTable} : I t → t'.types = t.types → t'.limits = t.limits → I t'
  lasts {t t' : TypeTable} {k v : TypeId} : t.Sound → t.Grows t' → (t'.Untripped → t.Untripped) →
    E t k v → E t' k v
  /-- Where the guard trips a type stays. -/
  tripped {t : TypeTable} {id : TypeId} : P id → I t → t.depthError.isSome → E t id id
  key {t : TypeTable} {id v : TypeId} : P id → I t → σ.get? id = some v → E t id v
  leaf {t : TypeTable} {id : TypeId} : P id → I t → σ.get? id = none → (t0.resolve id).parts = [] →
    E t id id
  /-- A node is made again of what becomes of its parts. -/
  node {t : TypeTable} {id : TypeId} {us : List TypeId} : P id → t.Sound → I t →
    (t0.resolve id).parts ≠ [] → List.Forall₂ (E t) (t0.resolve id).parts us →
    Keeps Runs t (nodeOf ((t0.resolve id).withParts us)) fun t' u => I t' ∧ E t' id u

/-- A triple for a memo of related types. -/
def Carries (I : TypeTable → Prop) (E : TypeTable → TypeId → TypeId → Prop) (t : TypeTable)
    (c : ApplyM α) (Q : TypeTable → α → Prop) : Prop :=
  ∀ memo : SubstitutionMemo, (∀ k v : TypeId, memo[k]? = some v → E t k v) →
    Leaves Runs t (c.run memo) fun t' p =>
      I t' ∧ Q t' p.1 ∧ ∀ k v : TypeId, p.2[k]? = some v → E t' k v

namespace Carries

variable {a : α} {c : ApplyM α} {f : α → ApplyM β} {Q : TypeTable → α → Prop}
  {R : TypeTable → β → Prop}

theorem pure (s : t.Sound) (i : I t) (h : Q t a) : Carries I E t (Pure.pure a) Q :=
  fun _ hmemo => ⟨s, .refl t, i, h, hmemo⟩

theorem bind (h : Carries I E t c Q)
    (k : ∀ t' a, t'.Sound → I t' → t.Runs t' → Q t' a → Carries I E t' (f a) R) :
    Carries I E t (c >>= f) R := by
  intro memo hmemo
  obtain ⟨s1, r1, i1, q1, hmemo1⟩ := h memo hmemo
  obtain ⟨s2, r2, post⟩ := k _ _ s1 i1 r1 q1 _ hmemo1
  exact ⟨s2, r1.trans r2, post⟩

theorem memo {f : SubstitutionMemo → ApplyM β} (h : ∀ memo : SubstitutionMemo,
    (∀ k v : TypeId, memo[k]? = some v → E t k v) → Carries I E t (f memo) R) :
    Carries I E t (MonadStateOf.get >>= f) R :=
  fun memo hmemo => h memo hmemo memo hmemo

end Carries

namespace Replaces

variable (h : Replaces t0 σ I E P)
include h

theorem lift {c : TableM α} {Q : TypeTable → α → Prop} (s : t.Sound)
    (hc : Keeps Runs t c fun t' a => I t' ∧ Q t' a) : Carries I E t (liftM c) Q :=
  fun _ hmemo => ⟨hc.sound, hc.related, hc.post.1, hc.post.2, fun k v hk =>
    h.lasts s hc.related.toGrows hc.related.untripped (hmemo k v hk)⟩

theorem mapM {ids : List TypeId} {f : TypeId → ApplyM TypeId} (s : t.Sound) (i : I t)
    (hf : ∀ m ∈ ids, ∀ t', t'.Sound → I t' → t.Runs t' → Carries I E t' (f m) (E · m)) :
    Carries I E t (ids.mapM f) fun t' us => List.Forall₂ (E t') ids us := by
  induction ids generalizing t with
  | nil => exact .pure s i .nil
  | cons m ids ih =>
    rw [mapM_cons]
    refine (hf m (.head _) t s i (.refl t)).bind fun t1 u s1 i1 r1 hu => ?_
    refine (ih s1 i1 fun m hm t' s' i' r' => hf m (.tail _ hm) t' s' i' (r1.trans r')).bind
      fun t2 us s2 i2 r2 hus => .pure s2 i2 (.cons ?_ hus)
    exact h.lasts s1 r2 r2.untripped hu

/-- Behind the guard the result is entered into the memo. -/
theorem guarded {c : ApplyM TypeId} (s : t.Sound) (i : I t) (hid : P id)
    (hc : t.depth < t.limits.maxDepth → Carries I E t.deeper c (E · id)) :
    Carries I E t (GradualTyping.guarded id do
      let result ← c
      modifyThe SubstitutionMemo (·.insert id result)
      return result) (E · id) := by
  intro memo hmemo
  rw [guarded_run]
  refine leaves_guarded _ _ s (fun t' r' ⟨types, tripped⟩ => ?_) fun _ hd => ?_
  · have i' := h.rest i types r'.limits
    exact ⟨i', h.tripped hid i' tripped, fun k v hk =>
      h.lasts s r' r'.untripped (hmemo k v hk)⟩
  · -- neither the level of the guard nor the memo is part of what is related
    obtain ⟨s1, r1, i1, hu, hmemo1⟩ := hc hd memo fun k v hk =>
      h.lasts s ⟨prefix_refl _, rfl⟩ (fun h => h) (hmemo k v hk)
    have up {k v : TypeId} (hv : E (c.run memo t.deeper).2 k v) :
        E (c.run memo t.deeper).2.shallower k v :=
      h.lasts s1 ⟨prefix_refl _, rfl⟩ (fun h => h) hv
    refine ⟨s1, r1, h.rest i1 rfl rfl, up hu, fun k v hk => ?_⟩
    have hk : ((c.run memo t.deeper).1.2.insert id (c.run memo t.deeper).1.1)[k]? = some v := hk
    rw [Std.HashMap.getElem?_insert] at hk
    split at hk
    · next same => exact Option.some.inj hk ▸ eq_of_beq same ▸ up hu
    · exact up (hmemo1 k v hk)

theorem step {ops : Operations} (idle : ops.Idle) (s : t.Sound) (i : I t) (hid : P id)
    (hparts : t.depth < t.limits.maxDepth → ∀ m ∈ (t0.resolve id).parts, ∀ t', t'.Sound → I t' →
      t.deeper.Runs t' → Carries I E t' (ops.substituteIn σ m) (E · m)) :
    Carries I E t (step ops σ id) (E · id) := by
  have node : t.resolve id = t0.resolve id := (h.grows i).resolve (h.below hid)
  have i' : I t.deeper := h.rest i rfl rfl
  unfold Substitution.step
  split
  · next v hv => exact .pure s i (h.key hid i hv)
  next absent =>
  refine .memo fun memo hmemo => ?_
  split
  · next done hdone => exact .pure s i (hmemo id done hdone)
  refine h.guarded s i hid fun hd => ?_
  have whole : Carries I E t.deeper (rebuild (ops.substituteIn σ) id (t0.resolve id)) (E · id) := by
    unfold rebuild
    split
    · next none => exact .pure s.deeper i' (h.leaf hid i' absent (isEmpty_iff.1 none))
    · next some =>
      refine .bind (h.mapM s.deeper i' (hparts hd)) fun t1 us s1 i1 r1 hus => ?_
      exact h.lift s1 (h.node hid s1 i1 (mt isEmpty_iff.2 some) hus)
  have read : Keeps Runs t.deeper (GradualTyping.resolve id) fun t' ty =>
      I t' ∧ t' = t.deeper ∧ ty = t0.resolve id :=
    ⟨s.deeper, .refl _, i', rfl, node⟩
  show Carries I E t.deeper (liftM (GradualTyping.resolve id) >>= applyNode ops σ id) (E · id)
  refine (h.lift s.deeper read).bind ?_
  rintro _ _ s' i' r' ⟨rfl, rfl⟩
  unfold applyNode
  split
  · next c hc =>
    have none := h.steady hid s' i' hc idle
    have kept : Keeps Runs t.deeper (distributes? ops σ c) fun t' r =>
        I t' ∧ t' = t.deeper ∧ r = Option.none :=
      ⟨none ▸ s', none ▸ .refl _, none ▸ ⟨i', rfl, rfl⟩⟩
    refine (h.lift s' kept).bind ?_
    rintro _ _ - - - ⟨rfl, rfl⟩
    exact hc ▸ whole
  · exact whole

/-- **Types are related to what becomes of them**, at any depth. -/
theorem run (n : Nat) (s : t.Sound) (i : I t) (enough : t.limits.maxDepth ≤ t.depth + n)
    (hid : P id) : Carries I E t ((withLevels n).substituteIn σ id) (E · id) := by
  induction n generalizing t id with
  | zero => exact h.step (fun _ _ => rfl) s i hid fun hd => absurd enough (by omega)
  | succ n ih =>
    refine h.step (idle_withLevels n) s i hid fun hd m hm t' s' i' r' =>
      ih s' i' ?_ (h.parts hid hm)
    rw [r'.limits, r'.depth]
    show t.limits.maxDepth ≤ t.depth + 1 + n
    omega

theorem substitute (n : Nat) (s : t0.Sound) (i : I t0) (enough : t0.limits.maxDepth ≤ t0.depth + n)
    (hid : P id) (nonempty : ¬ σ.isEmpty) :
    Keeps Runs t0 ((withLevels n).substitute σ id) fun t' u => I t' ∧ E t' id u := by
  have run := h.run n s i enough hid {} fun k v hk => by simp at hk
  rw [Operations.substitute, if_neg nonempty]
  exact ⟨run.sound, run.related, run.post.1, run.post.2.1⟩

end Replaces

/-- The keys of a substitution that occur in a type are type parameters that it replaces by
themselves. -/
def Fixes (t : TypeTable) (σ : Substitution) (id : TypeId) : Prop :=
  ∀ k v, t.Occurs k id → σ.get? k = some v → v = k ∧ ∃ p, t.resolve k = .param p

/-- A parameter that is replaced by itself is no union, so conditionals do not distribute. -/
theorem distributes?_of_param {c : Conditional} {ops : Operations} (idle : ops.Idle) (s : t.Sound)
    (h : ∀ v, σ.get? c.check = some v → v = c.check ∧ ∃ p, t.resolve c.check = .param p) :
    distributes? ops σ c t = (none, t) := by
  unfold distributes?
  split
  · cases hv : σ.get? c.check with
    | none => rfl
    | some v =>
      obtain ⟨rfl, p, node⟩ := h v hv
      have plain : needsEvaluation t c.check = false := by
        rw [needsEvaluation, node]
        rfl
      have read : resolve c.check t = (.param p, t) := congrArg (·, t) node
      exact (bind_of_eq (idle s plain)).trans (bind_of_eq read)
  · rfl

/-- Where the keys that occur are replaced by themselves nothing changes. -/
theorem replaces_same (s : t.Sound) : Replaces t σ
    (fun t' => t'.types = t.types ∧ t'.limits = t.limits) (fun _ k v => k = v)
    fun id => t.Has id ∧ Fixes t σ id where
  below h := h.1
  parts h hm := ⟨s.below_part hm, fun k v ho => h.2 k v (.part hm ho)⟩
  steady {t1 id c ops} h s1 i hc idle := by
    have hcheck : c.check ∈ (t.resolve id).parts := hc ▸ .head _
    have g : t.Grows t1 := ⟨i.1 ▸ prefix_refl _, i.2⟩
    refine distributes?_of_param idle s1 fun v hv => ?_
    rw [g.resolve (s.below_part hcheck)]
    exact h.2 _ v (.part hcheck .here) hv
  grows i := ⟨i.1 ▸ prefix_refl _, i.2⟩
  rest i ht hl := ⟨ht.trans i.1, hl.trans i.2⟩
  lasts _ _ _ e := e
  tripped _ _ _ := rfl
  key h _ hv := (h.2 _ _ .here hv).1.symm
  leaf _ _ _ _ := rfl
  node := by
    rintro t1 id us ⟨hid, -⟩ s1 i - hus
    have g : t.Grows t1 := ⟨i.1 ▸ prefix_refl _, i.2⟩
    have made := s1.nodeOf_resolve (g hid)
    rw [forall₂_eq_eq_eq] at hus
    rw [← hus, Ty.withParts_parts, ← g.resolve hid]
    exact ⟨made ▸ s1, made ▸ .refl t1, made ▸ ⟨i, rfl⟩⟩

theorem keeps_substitute_same {n : Nat} (s : t.Sound) (enough : t.limits.maxDepth ≤ t.depth + n)
    (hid : t.Has id) (fixes : Fixes t σ id) :
    Keeps Runs t ((withLevels n).substitute σ id) fun t' u =>
      t'.types = t.types ∧ u = id := by
  by_cases empty : σ.isEmpty
  · rw [Operations.substitute, if_pos empty]
    exact .pure s ⟨rfl, rfl⟩
  · exact ((replaces_same s).substitute n s ⟨rfl, rfl⟩ enough ⟨hid, fixes⟩ empty).mono
      fun _ _ _ _ h => ⟨h.1.1, h.2.symm⟩

/-- A substitution of type parameters by types in which no key occurs. -/
structure Closing (σ : Substitution) (t : TypeTable) : Prop where
  params : t.Params σ
  values : ∀ k v, σ.get? k = some v → Below t.size v ∧ t.Avoids σ v

/-- The conditionals that occur in a type do not distribute. -/
def Steady (t : TypeTable) (id : TypeId) : Prop :=
  ∀ m c, t.Occurs m id → t.resolve m = .conditional c → c.distributive = false

/-- A relation that holds unless the guard has tripped. -/
theorem replaces_untripped (s : t.Sound) (below : ∀ {id}, P id → t.Has id)
    (parts : ∀ {id m}, P id → m ∈ (t.resolve id).parts → P m)
    (steady : ∀ {t1 id c ops}, P id → t1.Sound → t.Grows t1 → t.resolve id = .conditional c →
      ops.Idle → distributes? ops σ c t1 = (none, t1))
    (lasts : ∀ {t t' k v}, t.Sound → t.Grows t' → t.Has v → E t k v → E t' k v)
    (key : ∀ {id v}, P id → σ.get? id = some v → t.Has v ∧ E t id v)
    (leaf : ∀ {id}, P id → σ.get? id = none → (t.resolve id).parts = [] → E t id id)
    (node : ∀ {t1 : TypeTable} {id us}, P id → t1.Sound → t.Grows t1 → (t.resolve id).parts ≠ [] →
      t1.Has ((t.resolve id).withParts us) → List.Forall₂ (E t1) (t.resolve id).parts us →
      E (nodeOf ((t.resolve id).withParts us) t1).2 id (nodeOf ((t.resolve id).withParts us) t1).1) :
    Replaces t σ t.Grows (fun t' k v => t'.Has v ∧ (t'.Untripped → E t' k v)) P where
  below := below
  parts := parts
  steady := steady
  grows i := i
  rest i ht hl := i.trans ⟨ht ▸ prefix_refl _, hl⟩
  lasts s g untripped h := ⟨g h.1, fun h' => lasts s g h.1 (h.2 (untripped h'))⟩
  tripped h i tripped := ⟨i.below (below h), fun h => absurd tripped h.not_isSome⟩
  key h i hv := ⟨i.below (key h hv).1, fun _ => lasts s i (key h hv).1 (key h hv).2⟩
  leaf h i absent hparts := ⟨i.below (below h), fun _ => lasts s i (below h) (leaf h absent hparts)⟩
  node := by
    intro t1 id us hid s1 g hparts hus
    have hty := below_withParts (g (s.below_resolve id))
      ((forall₂_and_left (p := (t1.Has ·)) us _).1 hus.flip).1
    have made : Leaves Runs t1 _ _ := (stable_nodeOf s1 hty
      (plain_withParts (mt isEmpty_iff.1 hparts)).2).safe
    refine ⟨made.sound, made.related, g.trans made.related, made.post, fun hu => ?_⟩
    exact node hid s1 g hparts hty (hus.imp fun _ _ h => h.2 (made.related.untripped hu))

/-- In a type without distributive conditionals all keys are replaced. -/
theorem replaces_all (s : t.Sound) (closing : Closing σ t) : Replaces t σ t.Grows
    (fun t' _ v => t'.Has v ∧ (t'.Untripped → t'.Avoids σ v)) fun id => t.Has id ∧ Steady t id :=
  replaces_untripped s (E := fun t' _ v => t'.Avoids σ v) (·.1)
    (fun h hm => ⟨s.below_part hm, fun m c ho => h.2 m c (.part hm ho)⟩)
    (fun h _ _ hc _ => by
      rw [distributes?, if_neg (by rw [h.2 _ _ .here hc]; exact Bool.false_ne_true)]
      rfl)
    (fun s g hv h => (g.avoids_iff s hv).2 h) (fun _ hv => closing.values _ _ hv)
    (fun _ absent hparts =>
      avoids_iff.2 ⟨absent, hparts ▸ fun _ hm => absurd hm not_mem_nil⟩)
    fun {t1 id us} _ s1 g hparts hty hus => by
      refine (keeps_nodeOf_avoids s1 (closing.params.grows g) hty
        (plain_withParts (mt isEmpty_iff.1 hparts)) fun m hm => ?_).post
      rw [Ty.parts_withParts hus.length_eq.symm] at hm
      exact ((forall₂_and_left (R := fun _ _ => True) us _).1
        (hus.flip.imp fun _ _ h => ⟨h, trivial⟩)).1 m hm

end Substitution

namespace TypeTable

open Substitution

variable {t : TypeTable} {σ : Substitution} {id : TypeId}

/-- **A substitution changes exactly the occurrences of its keys.**  A type in which no key
occurs is the answer itself and no type is made, whether or not the guard trips.  If the keys
are type parameters that do not occur in their replacements, and no conditional that occurs in
the type distributes, then no key occurs in the answer, unless the guard trips. -/
theorem Reachable.substitute_occurrences (h : t.Reachable) (hid : Below t.size id) :
    (t.Avoids σ id → (substitute σ id t).1 = id ∧ (substitute σ id t).2.types = t.types) ∧
    (Closing σ t → Steady t id → (substitute σ id t).2.Untripped →
      (substitute σ id t).2.Avoids σ (substitute σ id t).1) := by
  have enough : t.limits.maxDepth ≤ t.depth + (t.limits.maxDepth - t.depth) := by omega
  constructor
  · intro avoids
    have fixes : Fixes t σ id := fun k v ho hv =>
      absurd ho (avoids k (Option.isSome_of_eq_some hv))
    exact (keeps_substitute_same h.sound enough hid fixes).post.symm
  · intro closing steady untripped
    by_cases empty : σ.isEmpty
    · intro key hkey
      rw [Substitution.contains, Substitution.get?, isEmpty_iff.1 empty] at hkey
      cases hkey
    · exact ((replaces_all h.sound closing).substitute _ h.sound (.refl t) enough ⟨hid, steady⟩
        empty).post.2.2 untripped

/-- With `T := string`, `number` stays, and `T` does not occur in what replaces `T[]`. -/
theorem substitute_occurrences_array :
    let p := intern (.param { name := "T", scope := 0 }) (withLimits {})
    let a := arrayOf p.1 p.2
    let σ := ofList [(p.1, .string)]
    (substitute σ .number a.2).1 = .number ∧
      (substitute σ a.1 a.2).2.Avoids σ (substitute σ a.1 a.2).1 := by
  intro p a σ
  have untripped : (substitute σ a.1 a.2).2.Untripped := by
    subst σ a p
    cbv
  have hparam : Below (withLimits {}).size (Ty.param { name := "T", scope := 0 }) :=
    ⟨below_none, below_none⟩
  have made := keeps_intern (sound_withLimits {}) hparam trivial rfl
  have reached : p.2.Reachable := (Reachable.start {}).step (.param _) hparam
  have hp : Below p.2.size p.1 := below_of_get? made.post
  have reachable : a.2.Reachable := reached.step (.array p.1) hp
  have array : Keeps Runs p.2 (intern (.array p.1)) fun t' id => t'.get? id = _ :=
    keeps_intern reached.sound hp trivial rfl
  have param : a.2.resolve p.1 = _ :=
    (array.related.resolve hp).trans (resolve_of_get? made.post)
  have hget : a.2.get? a.1 = some (.array p.1) := array.post
  have node := resolve_of_get? hget
  have entry {k v : TypeId} (hk : σ.get? k = some v) : k = p.1 ∧ v = .string := by
    obtain ⟨e, he, rfl⟩ := Option.map_eq_some_iff.1 hk
    obtain rfl := mem_singleton.1 (mem_of_find?_eq_some he)
    have same := find?_some he
    exact ⟨(eq_of_beq same).symm, rfl⟩
  have params : a.2.Params σ := by
    intro k hk
    obtain ⟨v, hv⟩ := Option.isSome_iff_exists.1 hk
    exact ⟨_, (entry hv).1 ▸ param⟩
  have s := reachable.sound
  clear_value a σ
  refine ⟨((reachable.substitute_occurrences (s.below_fixed rfl)).1
    (params.avoids_fixed s (i := 4) rfl rfl rfl)).1, (reachable.substitute_occurrences
      (below_of_get? hget)).2 ⟨params, fun k v hk => ?_⟩ (fun m c ho hc => ?_) untripped⟩
  · rw [(entry hk).2]
    exact ⟨s.below_fixed rfl, params.avoids_fixed s (i := 3) rfl rfl rfl⟩
  · cases ho with
    | here => cases node.symm.trans hc
    | part hm ho =>
      rw [node] at hm
      obtain rfl := mem_singleton.1 hm
      cases ho with
      | here => cases param.symm.trans hc
      | part hm => exact absurd (param ▸ hm) not_mem_nil

end TypeTable

end GradualTyping
