/-
# Sound tables

A table is *sound* when its nodes and its index are inverse to each other, the
fixed types stand first, every node holds earlier types only and is in canonical
form, the aliases and the remembered results of evaluation hold types of the
table, and no variable is numbered beyond those that were made.

What an operation does to a table is one of two relations: it *grows* it (`Grows`:
new nodes are added at the end), and an operation that compares, evaluates or
substitutes moreover *runs* on it (`Runs`: the aliases stay, the recursion guard is
left as it was found, unless it has tripped, and what is remembered stays
remembered).
-/

import GradualTyping.Operations.Layers
import GradualTyping.Proofs.Canonical

namespace GradualTyping

open List Reduction

instance : Bounded Alias :=
  ⟨fun n a => Below n a.params ∧ Below n a.body, fun h => .imp (Bounded.mono h) (Bounded.mono h)⟩

/-- Whether a type is a variable of an inference. -/
def Ty.isVar : Ty → Bool
  | .var _ => true
  | _ => false

namespace TypeTable

variable {id k v : TypeId} {ty : Ty}

/-- The nodes of a table are kept and new ones are added after them. -/
structure Grows (t t' : TypeTable) : Prop where
  types : t.types.toList <+: t'.types.toList
  limits : t'.limits = t.limits

/-- Nodes and index are inverse to each other. -/
def Indexed (t : TypeTable) : Prop :=
  ∀ id ty, t.lookup? ty = some id ↔ t.get? id = some ty

structure Sound (t : TypeTable) : Prop where
  indexed : t.Indexed
  fixed : fixed <+: t.types.toList
  earlier : ∀ {id : TypeId} {ty : Ty}, t.get? id = some ty → Below id.index ty
  canonical : ∀ {id : TypeId} {ty : Ty}, t.get? id = some ty → t.Canonical ty
  aliases : ∀ {name : String} {a : Alias}, t.alias? name = some a → Below t.size a
  /-- Only what evaluation can change is remembered. -/
  evaluated : ∀ {k v : TypeId}, t.evaluated[k]? = some v →
    Below t.size v ∧ needsEvaluation t k = true
  numbered : ∀ {id : TypeId} {n : Nat}, t.get? id = some (.var n) → n < t.nextVariable

/-- A result that evaluation gave on an earlier sound table, on which it was new. -/
def Recorded (t : TypeTable) (k v : TypeId) : Prop :=
  ∃ n s s', s.Sound ∧ s.evaluated[k]? = none ∧ (Operations.withLevels n).evaluate k s = (v, s') ∧
    s'.Grows t

/-- A result that evaluation gave on an earlier sound table, on which it was new and not under
way, without tripping the guard; what was remembered then still is. -/
def Stored (t : TypeTable) (k v : TypeId) : Prop :=
  ∃ n s s', s.Sound ∧ s.evaluated[k]? = none ∧ (Operations.withLevels n).evaluate k s = (v, s') ∧
    s'.Grows t ∧ needsEvaluation s k = true ∧ k ∉ s.evaluating ∧ s'.depthError = none ∧
    ∀ {k v : TypeId}, s'.evaluated[k]? = some v → t.evaluated[k]? = some v

/-- What every operation leaves: the brackets are closed, nothing is forgotten, and only
evaluation adds to the memory. -/
structure Continues (t t' : TypeTable) : Prop extends Grows t t' where
  depth : t'.depth = t.depth
  evaluating : t'.evaluating = t.evaluating
  expanding : t'.expanding = t.expanding
  remembered : ∀ {k v : TypeId}, t.evaluated[k]? = some v → t'.evaluated[k]? = some v
  stored : ∀ {k v : TypeId}, t'.evaluated[k]? = some v →
    t.evaluated[k]? = some v ∨ t'.Stored k v

/-- What an operation on types leaves of the rest of the table. -/
structure Runs (t t' : TypeTable) : Prop extends Continues t t' where
  aliases : t'.aliases = t.aliases
  /-- A type under evaluation is remembered by its own evaluation only. -/
  pending : ∀ k ∈ t.evaluating, t'.evaluated[k]? = t.evaluated[k]?
  tripped : t.depthError.isSome → t'.depthError = t.depthError
  /-- Nothing is remembered once the guard has tripped. -/
  stuck : t.depthError.isSome → t'.evaluated = t.evaluated

/-! ### Growth -/

variable {t t' t'' : TypeTable}

theorem Grows.refl (t : TypeTable) : t.Grows t := ⟨prefix_refl _, rfl⟩

theorem Grows.trans (g : t.Grows t') (g' : t'.Grows t'') : t.Grows t'' :=
  ⟨g.types.trans g'.types, g'.limits.trans g.limits⟩

theorem Grows.size_le (g : t.Grows t') : t.size ≤ t'.size := by
  simpa [TypeTable.size] using g.types.length_le

theorem Grows.below {α : Type} [Bounded α] {a : α} (g : t.Grows t') (h : t.Has a) : t'.Has a :=
  Bounded.mono g.size_le h

theorem Grows.get? (g : t.Grows t') (h : t.get? id = some ty) : t'.get? id = some ty := by
  obtain ⟨rest, hr⟩ := g.types
  rw [TypeTable.get?, ← Array.getElem?_toList] at h ⊢
  rw [← hr, List.getElem?_append_left (List.getElem?_eq_some_iff.1 h).1, h]

theorem get?_of_below (h : t.Has id) : t.get? id = some (t.resolve id) := by
  rw [resolve, TypeTable.get?, Array.getElem?_eq_getElem h, Option.getD_some]

theorem below_of_get? (h : t.get? id = some ty) : t.Has id :=
  (Array.getElem?_eq_some_iff.1 h).1

theorem resolve_of_get? (h : t.get? id = some ty) : t.resolve id = ty := by
  rw [resolve, h, Option.getD_some]

theorem Grows.resolve (g : t.Grows t') (h : t.Has id) : t'.resolve id = t.resolve id :=
  resolve_of_get? (g.get? (get?_of_below h))

theorem get?_of_resolve (h : t.resolve id = ty) (hne : ty ≠ .never) : t.get? id = some ty := by
  cases hg : t.get? id with
  | none =>
    rw [TypeTable.resolve, hg, Option.getD_none] at h
    exact absurd h.symm hne
  | some ty' => rw [← h, resolve_of_get? hg]

theorem Stored.recorded (h : t.Stored k v) : t.Recorded k v := by
  obtain ⟨n, s, s', hs, hmiss, hrun, g, -⟩ := h
  exact ⟨n, s, s', hs, hmiss, hrun, g⟩

/-- A stored result stays one while the table grows and remembers. -/
theorem Stored.keep {k v : TypeId} (h : t.Stored k v) (g : t.Grows t')
    (memory : ∀ {k v : TypeId}, t.evaluated[k]? = some v → t'.evaluated[k]? = some v) :
    t'.Stored k v := by
  obtain ⟨n, s, s', hs, hmiss, hrun, g', hneeds, hopen, hu, memory'⟩ := h
  exact ⟨n, s, s', hs, hmiss, hrun, g'.trans g, hneeds, hopen, hu, fun hk => memory (memory' hk)⟩

theorem Continues.refl (t : TypeTable) : t.Continues t := ⟨Grows.refl t, rfl, rfl, rfl, id, .inl⟩

theorem Continues.trans (c : t.Continues t') (c' : t'.Continues t'') : t.Continues t'' where
  toGrows := c.toGrows.trans c'.toGrows
  depth := c'.depth.trans c.depth
  evaluating := c'.evaluating.trans c.evaluating
  expanding := c'.expanding.trans c.expanding
  remembered h := c'.remembered (c.remembered h)
  stored h := by
    rcases c'.stored h with h | h
    · exact (c.stored h).imp_right (·.keep c'.toGrows c'.remembered)
    · exact .inr h

theorem Runs.refl (t : TypeTable) : t.Runs t :=
  ⟨Continues.refl t, rfl, fun _ _ => rfl, fun _ => rfl, fun _ => rfl⟩

theorem Runs.trans (r : t.Runs t') (r' : t'.Runs t'') : t.Runs t'' where
  toContinues := r.toContinues.trans r'.toContinues
  aliases := r'.aliases.trans r.aliases
  pending k hk := (r'.pending k (r.evaluating ▸ hk)).trans (r.pending k hk)
  tripped h := (r'.tripped (r.tripped h ▸ h)).trans (r.tripped h)
  stuck h := (r'.stuck (r.tripped h ▸ h)).trans (r.stuck h)

/-! A later table has what an earlier one has: growth is applied to such facts. -/

instance : CoeFun (t.Grows t') fun _ => ∀ {α : Type} [Bounded α] {a : α}, t.Has a → t'.Has a :=
  ⟨fun g => g.below⟩

instance : CoeFun (t.Continues t') fun _ => ∀ {α : Type} [Bounded α] {a : α}, t.Has a → t'.Has a :=
  ⟨fun g => g.toGrows.below⟩

instance : CoeFun (t.Runs t') fun _ => ∀ {α : Type} [Bounded α] {a : α}, t.Has a → t'.Has a :=
  ⟨fun r => r.toGrows.below⟩

instance : Coe (t.Continues t') (t.Grows t') := ⟨(·.toGrows)⟩

instance : Coe (t.Runs t') (t.Grows t') := ⟨(·.toGrows)⟩

instance : Coe (t.Runs t') (t.Continues t') := ⟨(·.toContinues)⟩

/-! ### What a sound table gives -/

section

variable (s : t.Sound)
include s

/-- The types of a node stand in the table. -/
theorem Sound.below_resolve (id : TypeId) : t.Has (t.resolve id) := by
  cases h : t.get? id with
  | none =>
    rw [TypeTable.resolve, h]
    exact trivial
  | some ty =>
    rw [resolve_of_get? h]
    exact Bounded.mono (Nat.le_of_lt (below_of_get? h)) (s.earlier h)

theorem Sound.below_node (h : t.resolve id = ty) : t.Has ty :=
  h ▸ s.below_resolve id

theorem Sound.canonical_node (h : t.resolve id = ty) : t.Canonical ty := by
  cases hg : t.get? id with
  | none =>
    rw [TypeTable.resolve, hg] at h
    exact h ▸ trivial
  | some ty' => exact h ▸ resolve_of_get? hg ▸ s.canonical hg

theorem Sound.lookup_iff : t.lookup? ty = some id ↔ t.get? id = some ty :=
  s.indexed id ty

/-- Equal nodes have equal positions. -/
theorem Sound.get?_inj {a b : TypeId} (ha : t.get? a = some ty) (hb : t.get? b = some ty) : a = b :=
  Option.some.inj ((s.lookup_iff.2 ha).symm.trans (s.lookup_iff.2 hb))

theorem Sound.get?_fixed {i : Nat} (h : TypeTable.fixed[i]? = some ty) : t.get? ⟨i⟩ = some ty := by
  obtain ⟨rest, hr⟩ := s.fixed
  rw [TypeTable.get?, ← Array.getElem?_toList, ← hr,
    List.getElem?_append_left (List.getElem?_eq_some_iff.1 h).1, h]

theorem Sound.below_fixed (h : Nat.blt id.index 13 = true) : t.Has id :=
  Nat.lt_of_lt_of_le (Nat.le_of_ble_eq_true h) (by simpa [TypeTable.fixed, TypeTable.size] using s.fixed.length_le)

theorem Sound.below_any : t.Has TypeId.any := s.below_fixed rfl

theorem Sound.below_unknown : t.Has TypeId.unknown := s.below_fixed rfl

theorem Sound.below_never : t.Has TypeId.never := s.below_fixed rfl

theorem Sound.below_undefined : t.Has TypeId.undefined :=
  s.below_fixed rfl

theorem Sound.below_primitive (p : Primitive) : t.Has p.id :=
  s.below_fixed (by cases p <;> rfl)

/-- A fixed node other than `never` stands at its position only. -/
theorem Sound.eq_fixed {i : Nat} (h : t.resolve id = ty)
    (hi : TypeTable.fixed[i]? = some ty) (hne : ty ≠ .never) : id = ⟨i⟩ :=
  s.get?_inj (get?_of_resolve h hne) (s.get?_fixed hi)

theorem Sound.eq_any (h : t.resolve id = .any) : id = .any :=
  s.eq_fixed (i := 0) h rfl nofun

theorem Sound.eq_unknown (h : t.resolve id = .unknown) : id = .unknown :=
  s.eq_fixed (i := 1) h rfl nofun

theorem Sound.eq_never (hid : t.Has id) (h : t.resolve id = .never) : id = .never :=
  s.get?_inj (h ▸ get?_of_below hid) (s.get?_fixed (i := 2) rfl)

theorem Sound.agreeBelow (g : t.Grows t') : AgreeBelow t.size t t' :=
  ⟨fun {id} _ => s.below_resolve id, g.resolve, g.limits⟩

end

theorem AgreeBelow.isReducible {n : Nat} (h : AgreeBelow n t t') (hid : Below n id) :
    t'.isReducible id = t.isReducible id := by
  rw [TypeTable.isReducible, h.resolve hid]
  rfl

theorem AgreeBelow.needsEvaluation {n : Nat} (h : AgreeBelow n t t')
    (hid : Below n id) : needsEvaluation t' id = needsEvaluation t id := by
  have members : ∀ ms : List TypeId, Below n ms → ms.any t'.isReducible = ms.any t.isReducible := by
    intro ms hms
    induction ms with
    | nil => rfl
    | cons m ms ih =>
      simp only [any_cons, h.isReducible (below_cons.1 hms).1, ih (below_cons.1 hms).2]
  have hnode := h.closed hid
  rw [Reduction.needsEvaluation, Reduction.needsEvaluation, h.resolve hid]
  revert hnode
  cases t.resolve id with
  | union ms | intersection ms => exact fun hms => members ms hms
  | _ => exact fun _ => rfl

/-- A type that evaluation can change stands in the table. -/
theorem below_of_needsEvaluation (h : needsEvaluation t id = true) : t.Has id := by
  cases hg : t.get? id with
  | none =>
    rw [needsEvaluation, TypeTable.resolve, hg] at h
    exact absurd h Bool.false_ne_true
  | some ty => exact below_of_get? hg

/-! ### Adding a node -/

theorem insert_of_lookup (h : t.lookup? ty = some id) : t.insert ty = (id, t) := by
  rw [insert, h]

theorem insert_of_new (h : t.lookup? ty = none) :
    t.insert ty =
      (⟨t.size⟩, { t with types := t.types.push ty, ids := t.ids.insert ty ⟨t.size⟩ }) := by
  rw [insert, h]
  rfl

theorem Indexed.lookup?_eq_none (hi : t.Indexed) (h : ty ∉ t.types.toList) :
    t.lookup? ty = none := by
  refine Option.eq_none_iff_forall_ne_some.2 fun id hid => h ?_
  have hget := (hi id ty).1 hid
  rw [TypeTable.get?, ← Array.getElem?_toList] at hget
  exact mem_of_getElem? hget

theorem runs_insert (t : TypeTable) (ty : Ty) : t.Runs (t.insert ty).2 := by
  cases h : t.lookup? ty with
  | some id => exact insert_of_lookup h ▸ Runs.refl t
  | none =>
    rw [insert_of_new h]
    refine ⟨⟨⟨?_, rfl⟩, rfl, rfl, rfl, id, .inl⟩, rfl, fun _ _ => rfl, fun _ => rfl, fun _ => rfl⟩
    simp

/-- Adding a node changes the nodes and the index only. -/
theorem insert_frame (t : TypeTable) (ty : Ty) :
    (t.insert ty).2 = { t with types := (t.insert ty).2.types, ids := (t.insert ty).2.ids } := by
  rw [insert]
  split <;> rfl

/-- The position that `insert` gives holds the node. -/
theorem Indexed.get?_insert (hi : t.Indexed) : (t.insert ty).2.get? (t.insert ty).1 = some ty := by
  cases h : t.lookup? ty with
  | some id =>
    rw [insert_of_lookup h]
    exact (hi id ty).1 h
  | none =>
    rw [insert_of_new h]
    simp [TypeTable.get?, TypeTable.size]

private theorem get?_push {ty' : Ty} {ids : Std.HashMap Ty TypeId} :
    ({ t with types := t.types.push ty, ids := ids } : TypeTable).get? id = some ty' ↔
      (id.index = t.size ∧ ty = ty') ∨ t.get? id = some ty' := by
  simp only [TypeTable.get?, TypeTable.size, Array.getElem?_push]
  split
  · next h =>
    have hnone : t.types[id.index]? = none := by simp [h]
    simp [h]
  · next h => simp [h]

theorem Indexed.insert (hi : t.Indexed) (ty : Ty) : (t.insert ty).2.Indexed := by
  cases h : t.lookup? ty with
  | some id => exact insert_of_lookup h ▸ hi
  | none =>
    rw [insert_of_new h]
    intro id ty'
    rw [get?_push, ← hi id ty', TypeTable.lookup?, Std.HashMap.getElem?_insert]
    by_cases he : ty = ty'
    · subst he
      have hnone : t.ids[ty]? = none := h
      rw [TypeTable.lookup?, hnone]
      cases id
      simp [eq_comm]
    · simp [he, TypeTable.lookup?]

/-- **A new node in canonical form, with its types in the table, keeps a table
sound.** -/
theorem Sound.insert (s : t.Sound) (hb : t.Has ty) (hc : t.Canonical ty)
    (hv : ∀ n, ty = .var n → n < t.nextVariable) : (t.insert ty).2.Sound := by
  cases h : t.lookup? ty with
  | some id => exact insert_of_lookup h ▸ s
  | none =>
    have g := (runs_insert t ty).toGrows
    rw [insert_of_new h] at g ⊢
    have agree := s.agreeBelow g
    refine ⟨?_, s.fixed.trans g.types, ?_, ?_, fun ha => g (s.aliases ha), ?_, fun hg => ?_⟩
    · have hi := s.indexed.insert ty
      rwa [insert_of_new h] at hi
    · intro id ty' hg
      rcases get?_push.1 hg with ⟨hi, rfl⟩ | hg
      · exact hi ▸ hb
      · exact s.earlier hg
    · intro id ty' hg
      rcases get?_push.1 hg with ⟨-, rfl⟩ | hg
      · exact hc.congr agree hb
      · exact (s.canonical hg).congr agree (resolve_of_get? hg ▸ s.below_resolve id)
    · intro k v hk
      obtain ⟨hv, hn⟩ := s.evaluated hk
      exact ⟨g hv, (agree.needsEvaluation (below_of_needsEvaluation hn)).trans hn⟩
    · exact (get?_push.1 hg).elim (fun h => hv _ h.2) s.numbered

/-! ### Changing the rest of a table -/

/-- **A table with the same nodes is sound when its aliases and its memory are.** -/
theorem Sound.of_nodes (s : t.Sound) (htypes : t'.types = t.types) (hids : t'.ids = t.ids)
    (hlimits : t'.limits = t.limits) (hvars : t.nextVariable ≤ t'.nextVariable)
    (haliases : ∀ {name a}, t'.alias? name = some a → t.Has a)
    (hevaluated : ∀ {k v : TypeId}, t'.evaluated[k]? = some v →
      t.Has v ∧ needsEvaluation t k = true) : t'.Sound := by
  have g : t.Grows t' := ⟨htypes ▸ prefix_refl _, hlimits⟩
  have agree := s.agreeBelow g
  have hget : ∀ id, t'.get? id = t.get? id := fun id => by rw [TypeTable.get?, htypes]; rfl
  refine ⟨?_, htypes ▸ s.fixed, ?_, ?_, fun h => g (haliases h), ?_,
    fun h => Nat.lt_of_lt_of_le (s.numbered (hget _ ▸ h)) hvars⟩
  · intro id ty
    rw [hget, TypeTable.lookup?, hids]
    exact s.lookup_iff
  · intro id ty h
    exact s.earlier (hget id ▸ h)
  · intro id ty h
    rw [hget] at h
    exact (s.canonical h).congr agree (resolve_of_get? h ▸ s.below_resolve id)
  · intro k v h
    obtain ⟨hv, hn⟩ := hevaluated h
    exact ⟨g hv, (agree.needsEvaluation (below_of_needsEvaluation hn)).trans hn⟩

/-- The state of the guard does not matter. -/
theorem Sound.of_rest (s : t.Sound) (htypes : t'.types = t.types) (hids : t'.ids = t.ids)
    (hlimits : t'.limits = t.limits) (haliases : t'.aliases = t.aliases)
    (hevaluated : t'.evaluated = t.evaluated)
    (hvars : t.nextVariable ≤ t'.nextVariable := by exact Nat.le_refl _) : t'.Sound := by
  refine s.of_nodes htypes hids hlimits hvars ?_ (hevaluated ▸ s.evaluated)
  intro name a h
  rw [alias?, haliases] at h
  exact s.aliases h

theorem Sound.remember (s : t.Sound) {k v : TypeId} (hv : t.Has v)
    (hk : needsEvaluation t k = true) :
    ({ t with evaluated := t.evaluated.insert k v } : TypeTable).Sound := by
  refine s.of_nodes rfl rfl rfl (Nat.le_refl _) s.aliases fun {k' v'} h => ?_
  rw [Std.HashMap.getElem?_insert] at h
  split at h
  · next he =>
    rw [← Option.some.inj h, ← eq_of_beq he]
    exact ⟨hv, hk⟩
  · exact s.evaluated h

theorem Sound.setAlias (s : t.Sound) {name : String} {a : Alias} (ha : t.Has a) :
    ({ t with aliases := t.aliases.insert name a } : TypeTable).Sound := by
  refine s.of_nodes rfl rfl rfl (Nat.le_refl _) (fun {name' a'} h => ?_) s.evaluated
  rw [alias?, Std.HashMap.getElem?_insert] at h
  split at h
  · exact Option.some.inj h ▸ ha
  · exact s.aliases h

/-! ### The first table -/

/-- Nodes that are new and distinct are added in order. -/
theorem types_insertAll {tys : List Ty} (hi : t.Indexed) (hnew : ∀ ty ∈ tys, ty ∉ t.types.toList)
    (hdistinct : tys.Nodup) :
    (tys.foldl (fun t ty => (t.insert ty).2) t).types.toList = t.types.toList ++ tys := by
  induction tys generalizing t with
  | nil => simp
  | cons ty tys ih =>
    obtain ⟨hty, htys⟩ := nodup_cons.1 hdistinct
    have hmiss : t.lookup? ty = none := hi.lookup?_eq_none (hnew ty (.head _))
    have htypes : (t.insert ty).2.types.toList = t.types.toList ++ [ty] := by
      rw [insert_of_new hmiss]
      simp
    rw [foldl_cons, ih (hi.insert ty) ?_ htys, htypes, append_assoc,
      singleton_append]
    intro ty' hty' hmem
    rw [htypes, mem_append, mem_singleton] at hmem
    rcases hmem with hmem | rfl
    · exact hnew ty' (.tail _ hty') hmem
    · exact hty hty'

private theorem insertAll_frame (tys : List Ty) (t : TypeTable) (hi : t.Indexed) :
    let t' := tys.foldl (fun t ty => (t.insert ty).2) t
    t'.Indexed ∧ t' = { t with types := t'.types, ids := t'.ids } := by
  induction tys generalizing t with
  | nil => exact ⟨hi, rfl⟩
  | cons ty tys ih =>
    obtain ⟨hi', h'⟩ := ih _ (hi.insert ty)
    refine ⟨hi', ?_⟩
    rw [foldl_cons, h', insert_frame]

private theorem indexed_empty (limits : Limits) : ({ limits := limits } : TypeTable).Indexed := by
  intro id ty
  simp [lookup?, TypeTable.get?]

theorem types_withLimits (limits : Limits) :
    (withLimits limits).types.toList = TypeTable.fixed := by
  have hdistinct : TypeTable.fixed.Nodup := by decide
  rw [withLimits, types_insertAll (indexed_empty limits) (fun _ _ h => nomatch h) hdistinct]
  rfl

/-- The first table holds the fixed types and nothing else. -/
theorem withLimits_eq (limits : Limits) :
    withLimits limits =
      { limits := limits, types := TypeTable.fixed.toArray, ids := (withLimits limits).ids } := by
  have htypes : (withLimits limits).types = TypeTable.fixed.toArray := by
    rw [← types_withLimits limits]
  have h := (insertAll_frame TypeTable.fixed _ (indexed_empty limits)).2
  rw [← htypes]
  exact h

theorem sound_withLimits (limits : Limits) : (withLimits limits).Sound := by
  have hindexed : (withLimits limits).Indexed :=
    (insertAll_frame TypeTable.fixed _ (indexed_empty limits)).1
  have haliases : (withLimits limits).aliases = {} := by rw [withLimits_eq]
  have hevaluated : (withLimits limits).evaluated = {} := by rw [withLimits_eq]
  -- A fixed node holds no types, so there is nothing to check about them.
  have plain : ∀ {id ty}, (withLimits limits).get? id = some ty →
      ∀ n, Below n ty ∧ (withLimits limits).Canonical ty ∧ ty.isVar = false := by
    intro id ty h n
    rw [TypeTable.get?, ← Array.getElem?_toList, types_withLimits] at h
    have hty := mem_of_getElem? h
    simp only [TypeTable.fixed, mem_cons, not_mem_nil, or_false] at hty
    rcases hty with rfl | rfl | rfl | rfl | rfl | rfl | rfl | rfl | rfl | rfl | rfl | rfl | rfl <;>
      exact ⟨trivial, trivial, rfl⟩
  refine ⟨hindexed, types_withLimits limits ▸ prefix_refl _, fun h => (plain h _).1,
    fun h => (plain h 0).2.1, fun {name a} ha => ?_, fun {k v} hk => ?_, fun h => ?_⟩
  · rw [TypeTable.alias?, haliases] at ha
    simp at ha
  · rw [hevaluated] at hk
    simp at hk
  · cases (plain h 0).2.2

end TypeTable

end GradualTyping
