/-
# What a later table recalls

An operation that makes nodes, or whose results are remembered, gives the same
answer again on every later table, and then changes nothing: the nodes are found
where they were made.  `Recalls t c c'` is the triple of an operation `c` on `t`
whose answer `c'` gives on every table that what `c` leaves precedes.

The order `Precedes` asks no more of the later table than that it holds the nodes,
the aliases and the memory of the earlier one, and that the recursion guard has
not tripped.
-/

import GradualTyping.Proofs.Sound.Unions

namespace GradualTyping

namespace TypeTable

variable {ms : List TypeId}

/-- The later table holds what the earlier one held. -/
structure Precedes (t t' : TypeTable) : Prop extends Grows t t' where
  sound : t'.Sound
  aliases : t'.aliases = t.aliases
  remembered : ∀ {k v : TypeId}, t.evaluated[k]? = some v → t'.evaluated[k]? = some v
  started : t.Untripped
  untripped : t'.Untripped

variable {n : Nat} {t t' t'' : TypeTable}

theorem Precedes.refl (s : t.Sound) (h : t.Untripped) : t.Precedes t :=
  ⟨.refl t, s, rfl, id, h, h⟩

/-- What precedes the table that an operation leaves precedes it from the start. -/
theorem Runs.precedes (r : t.Runs t') (p : t'.Precedes t'') : t.Precedes t'' where
  toGrows := r.toGrows.trans p.toGrows
  sound := p.sound
  aliases := p.aliases.trans r.aliases
  remembered h := p.remembered (r.remembered h)
  started := r.untripped p.started
  untripped := p.untripped

theorem Precedes.agree (p : t.Precedes t') (s : t.Sound) : AgreeBelow t.size t t' :=
  s.agreeBelow p.toGrows

/-! ### The members of a union -/

theorem AgreeBelow.unionMembers (h : AgreeBelow n t t') {id : TypeId} (hid : Below n id) :
    t'.unionMembers id = t.unionMembers id := by
  rw [TypeTable.unionMembers, h.resolve hid]
  rfl

theorem AgreeBelow.flattenUnion (h : AgreeBelow n t t') (hms : Below n ms) :
    t'.flattenUnion ms = t.flattenUnion ms := by
  rw [TypeTable.flattenUnion, TypeTable.flattenUnion, List.flatMap_def, List.flatMap_def,
    List.map_congr_left fun m hm => h.unionMembers (hms m hm)]

theorem AgreeBelow.dropCovered (h : AgreeBelow n t t') (hms : Below n ms) :
    t'.dropCovered ms = t.dropCovered ms := by
  have present : ∀ {f f' : TypeId → Option Primitive} (l : List TypeId), (∀ m ∈ l, f' m = f m) →
      l.filterMap f' = l.filterMap f := by
    intro f f' l hl
    induction l with
    | nil => rfl
    | cons m l ih =>
      simp only [List.filterMap_cons, hl m (.head _), ih fun x hx => hl x (.tail _ hx)]
  unfold TypeTable.dropCovered
  dsimp only
  rw [present ms fun m hm => by rw [h.resolve (hms m hm)]]
  rw [List.filter_congr fun m hm => by rw [h.resolve (hms m hm)]]

theorem AgreeBelow.collapse (h : AgreeBelow n t t') (hms : Below n ms) :
    t'.collapse ms = t.collapse ms := by
  have loop : ∀ (l kept : List TypeId), Below n l → Below n kept →
      l.foldl (fun kept m =>
          if t'.hasShape m && kept.any (t'.identical · m) then kept else m :: kept) kept =
        l.foldl (fun kept m =>
          if t.hasShape m && kept.any (t.identical · m) then kept else m :: kept) kept := by
    intro l
    induction l with
    | nil => exact fun _ _ _ => rfl
    | cons m l ih =>
      intro kept hl hkept
      obtain ⟨hm, hl⟩ := below_cons.1 hl
      have shape : t'.hasShape m = t.hasShape m := by
        rw [TypeTable.hasShape, h.resolve hm]
        rfl
      have seen : kept.any (t'.identical · m) = kept.any (t.identical · m) := by
        rw [Bool.eq_iff_iff, List.any_eq_true, List.any_eq_true]
        exact exists_congr fun k => and_congr_right fun hk => by rw [h.identical (hkept k hk) hm]
      simp only [List.foldl_cons, shape, seen]
      refine ih _ hl ?_
      split
      · exact hkept
      · exact below_cons.2 ⟨hm, hkept⟩
  exact congrArg List.reverse (loop ms [] hms below_nil)

/-- The canonical members of types depend on the nodes of these types only. -/
theorem Sound.canonicalMembers_congr (s : t.Sound) (h : AgreeBelow t.size t t')
    (hms : t.Has ms) : t'.canonicalMembers ms = t.canonicalMembers ms := by
  have flat : t.Has (joinBooleans (sortIds (t.flattenUnion ms))) := by
    intro m hm
    rcases mem_joinBooleans hm with rfl | hm
    · exact s.below_fixed rfl
    · obtain ⟨id, hid, hmem⟩ := List.mem_flatMap.1 (mem_sortIds.1 hm)
      exact s.below_unionMembers (hms id hid) m hmem
  unfold canonicalMembers
  simp only [h.flattenUnion hms, h.dropCovered flat]
  rw [h.collapse fun m hm => flat m ((dropCovered_sublist t _).subset hm)]

end TypeTable

open TypeTable List

/-- An operation whose answer satisfies `Q` and is given again by another one on every later
table. -/
abbrev RecallsAs {α : Type} (Q : TypeTable → α → Prop) (t : TypeTable) (c c' : TableM α) : Prop :=
  Keeps Runs t c fun t1 a => Q t1 a ∧ ∀ t', t1.Precedes t' → c' t' = (a, t')

/-- An operation whose answer another one gives again on every later table. -/
abbrev Recalls {α : Type} [Bounded α] (t : TypeTable) (c c' : TableM α) : Prop :=
  RecallsAs (fun t1 a => Below t1.size a) t c c'

/-- An operation that gives its answer again on every later table. -/
abbrev Stable {α : Type} [Bounded α] (t : TypeTable) (c : TableM α) : Prop := Recalls t c c

namespace RecallsAs

variable {α β : Type} {Q : TypeTable → α → Prop} {R : TypeTable → β → Prop} {t : TypeTable}
  {c c' : TableM α} {f f' : α → TableM β}

theorem pure {a : α} (s : t.Sound) (h : Q t a) : RecallsAs Q t (Pure.pure a) (Pure.pure a) :=
  Tabled.Keeps.pure s ⟨h, fun _ _ => rfl⟩

theorem bind (h : RecallsAs Q t c c')
    (k : ∀ t1 a, t1.Sound → t.Runs t1 → Q t1 a → RecallsAs R t1 (f a) (f' a)) :
    RecallsAs R t (c >>= f) (c' >>= f') := by
  refine Tabled.Keeps.bind h fun t1 a s1 r1 ha => ?_
  refine (k t1 a s1 r1 ha.1).mono fun t2 b s2 r2 hb => ⟨hb.1, fun t' p => ?_⟩
  rw [bind_of_eq (ha.2 t' (r2.precedes p))]
  exact hb.2 t' p

/-- Go past a step that reads the same on every later table. -/
theorem read {γ : Type} {c : TableM γ} {f f' : γ → TableM β} (hc : ∀ t', (c t').2 = t')
    (same : ∀ t', t.Precedes t' → (c t').1 = (c t).1)
    (k : RecallsAs R t (f (c t).1) (f' (c t).1)) : RecallsAs R t (c >>= f) (c >>= f') := by
  refine Tabled.Keeps.read (hc t) (Tabled.Keeps.mono k fun t1 b s1 r1 hb => ⟨hb.1, fun t' p => ?_⟩)
  show f' (c t').1 (c t').2 = _
  rw [hc t', same t' (r1.precedes p)]
  exact hb.2 t' p

/-- Go past a reading of the table that decides the same on every later table. -/
theorem get {f f' : TypeTable → TableM β} (same : ∀ t', t.Precedes t' → f' t' = f' t)
    (k : RecallsAs R t (f t) (f' t)) :
    RecallsAs R t (MonadState.get >>= f) (MonadState.get >>= f') := by
  refine Tabled.Keeps.read rfl (Tabled.Keeps.mono k fun t1 b s1 r1 hb => ⟨hb.1, fun t' p => ?_⟩)
  rw [get_bind, same t' (r1.precedes p)]
  exact hb.2 t' p

end RecallsAs

namespace Recalls

variable {α β : Type} [Bounded α] [Bounded β] {t : TypeTable} {c c' : TableM α}
  {f f' : α → TableM β}

theorem safe (h : Recalls t c c') : Safe t c := h.mono fun _ _ _ _ hq => hq.1

theorem map {g : α → β} (h : Recalls t c c') (hg : ∀ n a, Below n a → Below n (g a)) :
    Recalls t (g <$> c) (g <$> c') := by
  rw [← bind_pure_comp, ← bind_pure_comp]
  exact h.bind fun t1 a s1 _ ha => .pure s1 (hg t1.size a ha)

end Recalls

/-! ### Doing the same -/

/-- Two operations that do the same on a table; their answer satisfies `Q` and is given again on
every later table. -/
abbrev MatchesAs {α : Type} (Q : TypeTable → α → Prop) (t : TypeTable) (c c' : TableM α) : Prop :=
  RecallsAs Q t c c' ∧ c t = c' t

namespace MatchesAs

variable {α β : Type} {Q : TypeTable → α → Prop} {R : TypeTable → β → Prop} {t : TypeTable}
  {c c' : TableM α} {f f' : α → TableM β}

theorem self (h : RecallsAs Q t c c) : MatchesAs Q t c c := ⟨h, rfl⟩

theorem pure {a : α} (s : t.Sound) (h : Q t a) : MatchesAs Q t (Pure.pure a) (Pure.pure a) :=
  self (.pure s h)

theorem mono {R : TypeTable → α → Prop} (h : MatchesAs Q t c c')
    (imp : ∀ t' a, t'.Sound → t.Runs t' → Q t' a → R t' a) : MatchesAs R t c c' :=
  ⟨h.1.mono fun t' a s' r' hq => ⟨imp t' a s' r' hq.1, hq.2⟩, h.2⟩

theorem bind (h : MatchesAs Q t c c')
    (k : ∀ t1 a, t1.Sound → t.Runs t1 → Q t1 a → MatchesAs R t1 (f a) (f' a)) :
    MatchesAs R t (c >>= f) (c' >>= f') := by
  refine ⟨h.1.bind fun t1 a s1 r1 ha => (k t1 a s1 r1 ha).1, ?_⟩
  have first : Leaves Runs t c _ := h.1
  show f (c t).1 (c t).2 = f' (c' t).1 (c' t).2
  rw [← h.2]
  exact (k _ _ first.sound first.related first.post.1).2

theorem get {f f' : TypeTable → TableM β} (same : ∀ t', t.Precedes t' → f' t' = f' t)
    (k : MatchesAs R t (f t) (f' t)) :
    MatchesAs R t (MonadState.get >>= f) (MonadState.get >>= f') :=
  ⟨.get same k.1, k.2⟩

/-- The answers of a loop and the elements it runs over correspond. -/
theorem mapM_rel {xs : List α} {g g' : α → TableM β} {S : TypeTable → α → β → Prop} (s : t.Sound)
    (later : ∀ {t' t'' x b}, t'.Sound → t'.Runs t'' → S t' x b → S t'' x b)
    (h : ∀ x ∈ xs, ∀ t', t'.Sound → t.Runs t' → MatchesAs (fun t'' => S t'' x) t' (g x) (g' x)) :
    MatchesAs (fun t' bs => (∀ x ∈ xs, ∃ b ∈ bs, S t' x b) ∧ ∀ b ∈ bs, ∃ x ∈ xs, S t' x b) t
      (xs.mapM g) (xs.mapM g') := by
  induction xs generalizing t with
  | nil => exact pure s ⟨fun _ hx => (nomatch hx), fun _ hb => nomatch hb⟩
  | cons x xs ih =>
    rw [mapM_cons, mapM_cons]
    refine bind (h x (.head _) t s (.refl t)) fun t1 b s1 r1 hb => ?_
    refine bind (ih s1 fun y hy t' s' r' => h y (.tail _ hy) t' s' (r1.trans r'))
      fun t2 bs s2 r2 hbs => pure s2 ⟨forall_mem_cons.2 ⟨?_, fun y hy => ?_⟩,
        forall_mem_cons.2 ⟨?_, fun b' hb' => ?_⟩⟩
    · exact ⟨b, .head _, later s1 r2 hb⟩
    · obtain ⟨b', hb', hs⟩ := hbs.1 y hy
      exact ⟨b', .tail _ hb', hs⟩
    · exact ⟨x, .head _, later s1 r2 hb⟩
    · obtain ⟨y, hy, hs⟩ := hbs.2 b' hb'
      exact ⟨y, .tail _ hy, hs⟩

end MatchesAs

end GradualTyping
