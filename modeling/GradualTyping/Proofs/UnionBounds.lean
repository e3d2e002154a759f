/-
# The union of types bounds them

The union of a list of types is meant to be their least upper bound in comparison.
It is one where comparison takes a source apart without loss
(`Reachable.unionOf_bounds`).  There are four reasons for which it may fail, and the
theorem excludes each.

* An intersection on the left is split before the members of a union on the right
  are tried, so an intersection is not found among the members of its own union
  (`intersection_not_below_union`).
* References to an alias whose parameters have declared variances are compared by
  their arguments, and a union of them by what they stand for.
* `true` and `false` together become `boolean`, which is not looked for in parts.
* Of types with one shape, the union keeps the first.
-/

import GradualTyping.Proofs.Comparison.Alternatives

namespace GradualTyping

open TypeTable Subtyping Relation List

namespace TypeTable

variable {t : TypeTable} {xs : List TypeId} {m : TypeId}
variable {ms : List TypeId}

/-! ### The members of a union -/

/-- A literal and its primitive. -/
def CoversLiteral (t : TypeTable) (p m : TypeId) : Prop :=
  ∃ l, t.resolve m = .literal l ∧ t.resolve p = .primitive l.base

/-- No two alternatives of a list have one shape. -/
def DistinctShapes (t : TypeTable) (xs : List TypeId) : Prop :=
  ∀ a ∈ t.flattenUnion xs, ∀ b ∈ t.flattenUnion xs, t.identical a b = true → a = b

theorem DistinctShapes.congr {t' : TypeTable} (h : t.DistinctShapes xs) (s : t.Sound)
    (agree : AgreeBelow t.size t t') (hxs : t.Has xs) : t'.DistinctShapes xs := by
  have below : ∀ a ∈ t.flattenUnion xs, t.Has a := by
    intro a ha
    obtain ⟨x, hx, hax⟩ := mem_flatMap.1 ha
    exact s.below_unionMembers (hxs x hx) a hax
  intro a ha b hb same
  rw [agree.flattenUnion hxs] at ha hb
  exact h a ha b hb (agree.identical (below a ha) (below b hb) ▸ same)

theorem Sound.exists_joinBooleans (s : t.Sound) (h : m ∈ ms) :
    ∃ k ∈ joinBooleans ms, k = m ∨ t.CoversLiteral k m := by
  unfold joinBooleans
  split
  · have joined : TypeId.boolean ∈
        sortIds (ms.filter (fun m => m ≠ .true ∧ m ≠ .false) ++ [.boolean]) :=
      mem_sortIds.2 (mem_append_right _ (.head _))
    by_cases htrue : m = .true
    · subst htrue
      exact ⟨.boolean, joined, .inr ⟨.boolean true, resolve_of_get? (s.get?_fixed (i := 11) rfl),
        s.resolve_boolean⟩⟩
    by_cases hfalse : m = .false
    · subst hfalse
      exact ⟨.boolean, joined, .inr ⟨.boolean false, resolve_of_get? (s.get?_fixed (i := 12) rfl),
        s.resolve_boolean⟩⟩
    · refine ⟨m, mem_sortIds.2 (mem_append_left _ (mem_filter.2 ⟨h, ?_⟩)), .inl rfl⟩
      exact decide_eq_true ⟨htrue, hfalse⟩
  · exact ⟨m, h, .inl rfl⟩

theorem exists_dropCovered (h : m ∈ ms) : ∃ k ∈ t.dropCovered ms, k = m ∨ t.CoversLiteral k m := by
  unfold dropCovered
  extract_lets present
  split
  · exact ⟨m, h, .inl rfl⟩
  by_cases covered : ∃ l, t.resolve m = .literal l ∧ l.base ∈ present
  · obtain ⟨l, hl, hbase⟩ := covered
    obtain ⟨p, hp, hres⟩ := mem_filterMap.1 hbase
    have hres : t.resolve p = .primitive l.base := by
      split at hres
      · next q hq => rw [hq, Option.some.inj hres]
      · cases hres
    refine ⟨p, mem_filter.2 ⟨hp, ?_⟩, .inr ⟨l, hl, hres⟩⟩
    rw [hres]
  · refine ⟨m, mem_filter.2 ⟨h, ?_⟩, .inl rfl⟩
    split
    · next l hl => exact decide_eq_true fun hbase => covered ⟨l, hl, hbase⟩
    · rfl

/-- **Every alternative is a member or covered by one**: by `any`, by `unknown`, or as a literal
by its primitive. -/
theorem Sound.exists_canonicalMember (s : t.Sound) (distinct : t.DistinctShapes xs)
    (h : m ∈ t.flattenUnion xs) : ∃ k ∈ t.canonicalMembers xs,
      k = m ∨ k = .any ∨ k = .unknown ∨ t.CoversLiteral k m := by
  unfold canonicalMembers
  dsimp only
  split
  · exact ⟨.any, .head _, .inr (.inl rfl)⟩
  split
  · exact ⟨.unknown, .head _, .inr (.inr (.inl rfl))⟩
  obtain ⟨j, hj, hjm⟩ := s.exists_joinBooleans (mem_sortIds.2 h)
  obtain ⟨d, hd, hdj⟩ := exists_dropCovered (t := t) hj
  obtain ⟨k, hk, hkd⟩ := exists_mem_collapse (t := t) hd
  -- Only types of one shape collapse, and those are alternatives of the list.
  have origin : ∀ {x}, x ∈ t.dropCovered (joinBooleans (sortIds (t.flattenUnion xs))) →
      t.hasShape x = true → x ∈ t.flattenUnion xs := by
    intro x hx hshape
    rcases mem_joinBooleans ((dropCovered_sublist t _).subset hx) with rfl | hx
    · rw [hasShape, s.resolve_boolean] at hshape
      cases hshape
    · exact mem_sortIds.1 hx
  have hkd : k = d := by
    rcases hkd with rfl | hi
    · rfl
    by_cases heq : k = d
    · exact heq
    · refine distinct k (origin ((collapse_sublist t _).subset hk) ?_) d
        (origin hd (hasShape_of_identical heq hi)) hi
      exact hasShape_of_identical (Ne.symm heq) (identical_comm t ▸ hi)
  subst hkd
  refine ⟨k, hk, ?_⟩
  rcases hdj with rfl | ⟨l, hl, hp⟩
  · exact hjm.imp_right fun h => .inr (.inr h)
  · rcases hjm with rfl | ⟨l', hl', hp'⟩
    · exact .inr (.inr (.inr ⟨l, hl, hp⟩))
    · rw [hl] at hp'
      cases hp'

/-! ### Every type of the list is below the union -/

/-- A literal is below its primitive. -/
theorem CoversLiteral.comparable {p : TypeId} (F : t.Resting) (unvaried : t.Unvaried)
    (h : t.CoversLiteral p m) : t.Comparable m p := by
  obtain ⟨l, hm, hp⟩ := h
  have generic : comparesGeneric t m p = false := by
    rw [comparesGeneric, hm]
  refine .of_rule F unvaried (below_of_get? (get?_of_resolve hm (by simp)))
    (below_of_get? (get?_of_resolve hp (by simp))) generic
    (stays_of_plain (by rw [hm]; rfl) (by simp [hm]))
    (stays_of_plain (by rw [hp]; rfl) (by simp [hp])) ?_
  unfold structuralOver
  rw [hm, hp]
  show (l.base == l.base, t) = _
  rw [beq_self_eq_true]

open Classical in
/-- A literal is below a union with a member above it. -/
theorem Comparable.literal_union (F : t.Resting) (unvaried : t.Unvaried) {l : Literal}
    {u k : TypeId} (hm : t.resolve m = .literal l)
    (hu : t.resolve u = .union ms) (hk : k ∈ ms) (h : t.Comparable m k) : t.Comparable m u := by
  have generic : comparesGeneric t m u = false := by
    rw [comparesGeneric, hm]
  have stays : t.Stays m := stays_of_plain (by rw [hm]; rfl) (by simp [hm])
  refine .of_rule F unvaried h.below.1 (below_of_get? (get?_of_resolve hu (by simp))) generic stays
    (stays_of_union hu) ?_
  unfold structuralOver
  rw [hm, hu]
  show (ms.anyM fun k => (pure (decide (t.Comparable m k)) : TableM Bool)) t = _
  exact anyM_pure_of_mem hk (decide_eq_true h)

variable {u x sup : TypeId}

/-- An alternative of the list fits the union. -/
theorem IsUnion.fits_alternative (F : t.Resting) (unvaried : t.Unvaried) (hu : t.IsUnion xs u)
    (hub : t.Has u) (distinct : t.DistinctShapes xs) (hxs : t.Has xs)
    (h : m ∈ t.flattenUnion xs) : t.Fits m u := by
  have hm : t.Has m := by
    obtain ⟨x, hx, hmx⟩ := mem_flatMap.1 h
    exact F.sound.below_unionMembers (hxs x hx) m hmx
  obtain ⟨k, hk, cover⟩ := F.sound.exists_canonicalMember distinct h
  have place : k = u ∨ ∃ ms, t.resolve u = .union ms ∧ k ∈ ms := by
    rcases hu with ⟨hnil, -⟩ | hone | hunion
    · rw [hnil] at hk
      cases hk
    · rw [hone] at hk
      exact .inl (mem_singleton.1 hk)
    · exact .inr ⟨_, hunion, hk⟩
  -- `any` and `unknown` stand alone.
  have top : t.resolve k = .any ∨ t.resolve k = .unknown → t.Fits m u := by
    intro hnode
    rcases place with rfl | ⟨ms, hms, hk⟩
    · exact .known (.of_settled hm hub (settled_iff.2 (.inr (.inl hnode))))
    · have canonical : t.CanonicalUnion ms := F.sound.canonical_node hms
      rcases hnode with hnode | hnode
      · exact absurd hnode (canonical.notAny k hk)
      · exact absurd hnode (canonical.notUnknown k hk)
  rcases cover with rfl | rfl | rfl | hcover
  · rcases place with rfl | ⟨ms, hms, hk⟩
    · exact .alternative .refl
    · exact .alternative (.single (.inr ⟨ms, hms, hk⟩))
  · exact top (.inl (resolve_of_get? (F.sound.get?_fixed (i := 0) rfl)))
  · exact top (.inr (resolve_of_get? (F.sound.get?_fixed (i := 1) rfl)))
  · have below := hcover.comparable F unvaried
    rcases place with rfl | ⟨ms, hms, hk⟩
    · exact .known below
    · obtain ⟨l, hl, -⟩ := hcover
      exact .known (below.literal_union F unvaried hl hms hk)

/-- A type of the list fits the union. -/
theorem IsUnion.fits_of_mem (F : t.Resting) (unvaried : t.Unvaried) (hu : t.IsUnion xs u)
    (hub : t.Has u) (distinct : t.DistinctShapes xs) (hxs : t.Has xs) (hx : x ∈ xs) :
    t.Fits x u := by
  have alternative : ∀ m ∈ t.unionMembers x, t.Fits m u := fun m hm =>
    hu.fits_alternative F unvaried hub distinct hxs (mem_flatMap.2 ⟨x, hx, hm⟩)
  unfold TypeTable.unionMembers at alternative
  split at alternative
  · next ms hms => exact .union hms alternative
  · next hnever =>
    exact .known (.of_settled (hxs x hx) hub (settled_iff.2 (.inr (.inr (.inr hnever)))))
  · exact alternative x (.head _)

/-! ### The union is below what the types of the list are below -/

/-- The union fits what each type of the list is comparable with, and `boolean` is if it joins
`true` and `false`. -/
theorem IsUnion.fits_bound (F : t.Resting) (hu : t.IsUnion xs u) (hub : t.Has u)
    (hsup : t.Has sup) (h : ∀ x ∈ xs, t.Comparable x sup)
    (joined : .true ∈ t.flattenUnion xs → .false ∈ t.flattenUnion xs → t.Comparable .boolean sup) :
    t.Fits u sup := by
  have members : ∀ m ∈ t.canonicalMembers xs, t.Fits m sup := by
    intro m hm
    rcases mem_of_mem_canonicalMembers hm with hm | ⟨rfl, htrue, hfalse⟩
    · obtain ⟨x, hx, hmx⟩ := mem_flatMap.1 hm
      unfold TypeTable.unionMembers at hmx
      split at hmx
      · next ms hms => exact .member hms hmx (h x hx)
      · cases hmx
      · exact mem_singleton.1 hmx ▸ .known (h x hx)
    · exact .known (joined htrue hfalse)
  rcases hu with ⟨-, rfl⟩ | hone | hunion
  · exact .known (.of_settled hub hsup (settled_iff.2 (.inr (.inr (.inr
      (resolve_of_get? (F.sound.get?_fixed (i := 2) rfl)))))))
  · exact members u (hone ▸ .head _)
  · exact .union hunion members

/-- A type that is neither replaced nor split is its only alternative. -/
theorem MeetFree.of_node (hty : (t.resolve m).isReducible = false)
    (hunion : ∀ ms, t.resolve m ≠ .union ms) (hmeet : ∀ ms, t.resolve m ≠ .intersection ms) :
    t.MeetFree m := by
  intro c ms hc hms
  rcases ReflTransGen.cases_head hc with rfl | ⟨d, red | ⟨ms', hms', -⟩, -⟩
  · exact absurd hms (hmeet ms)
  · exact absurd rfl (red.plain_ne hty hmeet)
  · exact absurd hms' (hunion ms')

/-- No alternative of the union stays an intersection if none of the types of the list does. -/
theorem IsUnion.meetFree (F : t.Resting) (hu : t.IsUnion xs u) (h : ∀ x ∈ xs, t.MeetFree x) :
    t.MeetFree u := by
  have members : ∀ m ∈ t.canonicalMembers xs, t.MeetFree m := by
    intro m hm
    rcases mem_of_mem_canonicalMembers hm with hm | ⟨rfl, -, -⟩
    · obtain ⟨x, hx, hmx⟩ := mem_flatMap.1 hm
      unfold TypeTable.unionMembers at hmx
      split at hmx
      · next ms hms => exact (h x hx).part (.inr ⟨ms, hms, hmx⟩)
      · cases hmx
      · exact mem_singleton.1 hmx ▸ h x hx
    · have hnode := F.sound.resolve_boolean
      exact .of_node (by rw [hnode]; rfl) (by rw [hnode]; nofun) (by rw [hnode]; nofun)
  rcases hu with ⟨-, rfl⟩ | hone | hunion
  · have hnode : t.resolve .never = .never := resolve_of_get? (F.sound.get?_fixed (i := 2) rfl)
    exact .of_node (by rw [hnode]; rfl) (by rw [hnode]; nofun) (by rw [hnode]; nofun)
  · exact members u (hone ▸ .head _)
  · intro c ms hc hms
    rcases ReflTransGen.cases_head hc with rfl | ⟨d, red | ⟨ms', hms', hd⟩, hc⟩
    · rw [hunion] at hms
      cases hms
    · exact absurd (stays_of_union hunion) red.not_stays
    · rw [hunion] at hms'
      cases hms'
      exact members d hd c ms hc hms

end TypeTable

/-! ### Least upper bounds -/

section Bounds

variable {t final : TypeTable} {a b : TypeId} {holds : Bool}

/-- The table that a comparison leaves is at rest, if the guard has not tripped. -/
theorem TypeTable.Reachable.resting (h : t.Reachable) (ha : t.Has a) (hb : t.Has b)
    (run : isSubtype a b t = (holds, final)) (untripped : final.Untripped) :
    t.Runs final ∧ final.Resting := by
  obtain ⟨s, r, -⟩ := (safe_isSubtype h.sound ha hb : Leaves Runs t (isSubtype a b) _).ends run
  exact ⟨r, s, r.evaluating.trans h.quiescent.evaluating, untripped⟩

/-- A comparison holds if its sides fit on the table that it leaves. -/
theorem TypeTable.Reachable.holds_of_fits (h : t.Reachable) (ha : t.Has a)
    (hb : t.Has b) (run : isSubtype a b t = (holds, final)) (untripped : final.Untripped)
    (unvaried : final.Unvaried) (fits : final.Fits a b) (free : final.MeetFree a) :
    holds = true := by
  obtain ⟨-, F⟩ := h.resting ha hb run untripped
  have affirms : Affirms final t (t.operations.isSubtype [] a b) :=
    affirms_of_fits F unvaried fits free h.sound (atRest_operations h.quiescent.evaluating) ha hb []
  exact (Leaves.ends affirms run).2.2 (.refl F.sound F.untripped)

end Bounds

/-- **The union of types bounds them.**  Let `u` be the union made of a list of types on an
earlier table, where no alias declares the variance of its parameters.

A type of the list is below `u`, if no two alternatives of the list have one shape.  And `u` is
below every type that all types of the list were found to be below, and also `boolean` if it joins
`true` and `false` in `u`.  Both are found by comparison unless the guard trips or a type of the
list has an alternative that stays an intersection. -/
theorem TypeTable.Reachable.unionOf_bounds {t₀ t : TypeTable} (h₀ : t₀.Reachable)
    (h : t.Reachable) {xs : List TypeId} (hxs : Below t₀.size xs)
    (made : (unionOf xs t₀).2.Grows t) (unvaried : t.Unvaried) {u : TypeId}
    (hu : (unionOf xs t₀).1 = u) :
    (t.DistinctShapes xs → ∀ x ∈ xs, ∀ holds final, isSubtype x u t = (holds, final) →
      final.Untripped → final.MeetFree x → holds = true) ∧
    (∀ sup, Below t.size sup → (∀ x ∈ xs, Affirmed t x sup) →
      (.true ∈ t.flattenUnion xs → .false ∈ t.flattenUnion xs → Affirmed t .boolean sup) →
      ∀ holds final, isSubtype u sup t = (holds, final) →
        final.Untripped → (∀ x ∈ xs, final.MeetFree x) → holds = true) := by
  have made₀ : Leaves Runs t₀ (unionOf xs) _ := safe_unionOf h₀.sound hxs
  have hub : t.Has u := hu ▸ made.below made₀.post
  have hxs' : t.Has xs := made.below (made₀.related.below hxs)
  -- The union stays the union of the list on every table that a comparison leaves.
  have later : ∀ {final : TypeTable}, t.Runs final → final.IsUnion xs u := fun r =>
    hu ▸ h₀.sound.isUnion_unionOf hxs (made.trans r)
  have agree : ∀ {final : TypeTable}, t.Runs final → AgreeBelow t.size t final := fun r =>
    h.sound.agreeBelow r
  constructor
  · intro distinct x hx holds final run untripped free
    obtain ⟨r, F⟩ := h.resting (hxs' x hx) hub run untripped
    refine h.holds_of_fits (hxs' x hx) hub run untripped (unvaried.runs h.sound r) ?_ free
    exact (later r).fits_of_mem F (unvaried.runs h.sound r) (r hub)
      (distinct.congr h.sound (agree r) hxs') (r hxs') hx
  · intro sup hsup affirmed joined holds final run untripped free
    obtain ⟨r, F⟩ := h.resting hub hsup run untripped
    refine h.holds_of_fits hub hsup run untripped (unvaried.runs h.sound r) ?_
      ((later r).meetFree F free)
    refine (later r).fits_bound F (r hub) (r hsup)
      (fun x hx => ((affirmed x hx).runs r F).comparable F) ?_
    rw [(agree r).flattenUnion hxs']
    exact fun htrue hfalse => ((joined htrue hfalse).runs r F).comparable F

set_option maxRecDepth 20000 in
theorem unionOf_bounds_null_true :
    let sup := unionOf [.boolean, .null] (withLimits {})
    let u := unionOf [.null, .true] sup.2
    u.2.Reachable ∧ (∀ x ∈ [TypeId.null, .true], Affirmed u.2 x sup.1) ∧
      (∀ x ∈ [TypeId.null, .true], (isSubtype x u.1 u.2).1 = true) ∧
      (isSubtype u.1 sup.1 u.2).1 = true := by
  intro sup u
  have nodes : sup.1 = ⟨13⟩ ∧ u.1 = ⟨14⟩ ∧ u.2 =
      { ids := u.2.ids,
        types := List.toArray (fixed ++ [.union [.boolean, .null], .union [.null, .true]]) } := by
    subst u sup
    cbv
  obtain ⟨hsup, hu, table⟩ := nodes
  have below {t : TypeTable} (s : t.Sound) {xs : List TypeId} (h : ∀ x ∈ xs, x.index < 13) :
      t.Has xs := fun x hx => s.below_fixed (Nat.ble_eq_true_of_le (h x hx))
  have rsup : sup.2.Reachable := (Reachable.start {}).step (.union _)
    (below (sound_withLimits {}) (by decide))
  have hxs : Below sup.2.size [TypeId.null, .true] := below rsup.sound (by decide)
  have ru : u.2.Reachable := rsup.step (.union _) hxs
  have s := ru.sound
  have hxs' : Below u.2.size [TypeId.null, .true] := below s (by decide)
  have hub : Below u.2.size u.1 := (safe_unionOf rsup.sound hxs).post
  have hsup' : Below u.2.size sup.1 := by rw [hsup, table]; exact (by decide : 13 < 15)
  have unvaried : u.2.Unvaried := by
    intro name definition hname
    rw [table, show TypeTable.alias? _ name = none from Std.HashMap.getElem?_empty] at hname
    cases hname
  have mem : ∀ x ∈ [TypeId.null, .true], x = .null ∨ x = .true := by decide
  have affirmed : ∀ x ∈ [TypeId.null, .true], Affirmed u.2 x sup.1 := by
    intro x hx
    have run : isSubtype x sup.1 u.2 = (true, u.2) := by
      rcases mem x hx with rfl | rfl <;> (subst u sup; cbv)
    have plainly : ComparesPlainly u.2 x sup.1 := by
      rw [hsup, table]
      rcases mem x hx with rfl | rfl <;> exact ⟨true, _, rfl⟩
    refine ⟨u.2, s, ru.quiescent.evaluating, hxs' x hx, hsup', plainly, by rw [run], ?_⟩
    rw [run]
    exact .refl s (by rw [table]; rfl)
  -- Neither type is replaced or split.
  have free : ∀ {t : TypeTable}, t.Sound → ∀ x ∈ [TypeId.null, .true], t.MeetFree x := by
    intro t s x hx
    have hnull : t.resolve .null = .primitive .null := resolve_of_get? (s.get?_fixed (i := 6) rfl)
    have htrue : t.resolve .true = .literal (.boolean true) :=
      resolve_of_get? (s.get?_fixed (i := 11) rfl)
    rcases mem x hx with rfl | rfl
    · exact .of_node (by rw [hnull]; rfl) (by simp [hnull]) (by simp [hnull])
    · exact .of_node (by rw [htrue]; rfl) (by simp [htrue]) (by simp [htrue])
  have bounds := rsup.unionOf_bounds ru hxs (.refl _) unvaried rfl
  refine ⟨ru, affirmed, fun x hx => ?_, ?_⟩
  · refine bounds.1 ?_ x hx _ _ rfl ?_ (free (safe_isSubtype s (hxs' x hx) hub).sound x hx)
    · rw [table]
      unfold DistinctShapes
      decide +kernel +zetaReduce
    · rw [hu, table]
      revert x
      unfold Untripped
      decide +kernel +zetaReduce
  · refine bounds.2 sup.1 hsup' affirmed ?_ _ _ rfl ?_ (free (safe_isSubtype s hub hsup').sound)
    · rw [table]
      exact fun _ hfalse => absurd hfalse (by decide +kernel +zetaReduce)
    · rw [hu, hsup, table]
      unfold Untripped
      decide +kernel +zetaReduce

set_option maxRecDepth 20000 in
/-- An intersection of type parameters is not below its union with `null`: neither parameter is. -/
theorem intersection_not_below_union :
    let a := intern (.param { name := "T", scope := 1 }) (withLimits {})
    let b := intern (.param { name := "U", scope := 1 }) a.2
    let i := intersectionOf [a.1, b.1] b.2
    let u := unionOf [.null, i.1] i.2
    u.2.Reachable ∧ (isSubtype i.1 u.1 u.2).1 = false ∧ (isSubtype i.1 u.1 u.2).2.Untripped := by
  intro a b i u
  have nodes : (a.1.index < b.2.size ∧ b.1.index < b.2.size ∧ i.1.index < i.2.size) ∧ i.1 = ⟨15⟩ ∧
      u = (⟨16⟩, {
        ids := u.2.ids,
        types := List.toArray (fixed ++ [.param { name := "T", scope := 1 },
          .param { name := "U", scope := 1 }, .intersection [⟨13⟩, ⟨14⟩], .union [.null, ⟨15⟩]]) }) := by
    subst u i b a
    unfold intersectionOf
    cbv
  obtain ⟨⟨ha, hb, hi⟩, intersection, table⟩ := nodes
  have rb : b.2.Reachable := ((Reachable.start {}).step (.param _) ⟨below_none, below_none⟩).step
    (.param _) ⟨below_none, below_none⟩
  have ri : i.2.Reachable := rb.step (.intersection _)
    (below_pair.2 ⟨ha, hb⟩)
  have hnull : Below i.2.size TypeId.null := ri.sound.below_fixed rfl
  refine ⟨ri.step (.union _) (below_pair.2 ⟨hnull, hi⟩), ?_⟩
  rw [intersection, table]
  show _ = _ ∧ _ = _
  decide +kernel +zetaReduce

/-- **An intersection is not the greatest lower bound**: one of three type parameters is below each
of two of them, and not below the intersection of the two. -/
theorem intersection_not_greatest :
    fresh? (do
      let a ← intern (.param { name := "T", scope := 0 })
      let b ← intern (.param { name := "U", scope := 1 })
      let all ← intersectionOf [a, b, ← intern (.param { name := "V", scope := 2 })]
      return [← isSubtype all a, ← isSubtype all b, ← isSubtype all (← intersectionOf [a, b])]) =
    some [true, true, false] := by
  cbv

end GradualTyping
