/-
# Joins are pointwise unions

Where paths join, an environment is made from theirs.  The fold over the paths looks at two
environments at a time: one that is not reached adds nothing, a variable that only one of them
binds keeps its type, and equal types stay.  All of this is the union of the types of each variable
over the paths that are reached (`TypeEnv.JoinOf`), for by the laws of unions it does not matter that
it is made step by step.
-/

import GradualTyping.Proofs.Narrowing.Edges

namespace GradualTyping

open TypeTable List TypeEnv

namespace TypeTable

variable {t t' : TypeTable} {u v : TypeId} {xs ys : List TypeId}

/-! ### Unions of lists that are made piece by piece -/

theorem IsUnion.of_members (h : t.IsUnion xs u)
    (same : t.canonicalMembers ys = t.canonicalMembers xs) : t.IsUnion ys u := by
  unfold IsUnion
  rw [same]
  exact h

/-- A type is the union of itself alone. -/
theorem Sound.isUnion_self (s : t.Sound) (hu : t.Has u) : t.IsUnion [u] u := by
  have flat : t.flattenUnion [u] = t.unionMembers u := flatMap_singleton ..
  cases hnode : t.resolve u with
  | union ms =>
    have canonical : t.CanonicalUnion ms := s.canonical_node hnode
    rw [TypeTable.unionMembers, hnode] at flat
    have members : t.canonicalMembers [u] = t.canonicalMembers ms :=
      canonicalMembers_ext fun m => by rw [flat, canonical.flattenUnion]
    exact .inr (.inr (by rw [members, s.canonicalMembers_self canonical, hnode]))
  | never =>
    rw [TypeTable.unionMembers, hnode] at flat
    refine .inl ⟨eq_nil_iff_forall_not_mem.2 fun m hm => ?_, s.eq_never hu hnode⟩
    rcases mem_of_mem_canonicalMembers hm with h | ⟨-, h, -⟩ <;> exact absurd (flat ▸ h) not_mem_nil
  | _ =>
    rw [TypeTable.unionMembers, hnode] at flat
    have sorted : sortIds [u] = [u] := sortIds_of_increasing (pairwise_singleton ..)
    have joined : joinBooleans [u] = [u] := if_neg fun both => absurd
      ((mem_singleton.1 both.1).trans (mem_singleton.1 both.2).symm) (by decide)
    have covered : t.dropCovered [u] = [u] := by simp [dropCovered, hnode]
    refine .inr (.inl ?_)
    rw [canonicalMembers, flat]
    dsimp only
    rw [sorted, joined, covered]
    split
    · next hany => rw [mem_singleton.1 hany]
    split
    · next hunknown => rw [mem_singleton.1 hunknown]
    · simp [collapse]

/-- A union that is there is found again. -/
theorem IsUnion.unionOf_eq (h : t.IsUnion xs u) (s : t.Sound) : unionOf xs t = (u, t) := by
  unfold unionOf
  rw [get_bind]
  rcases h with ⟨hnone, rfl⟩ | hone | hnode
  · rw [hnone]
    rfl
  · rw [hone]
    rfl
  · have several := (show t.CanonicalUnion _ from s.canonical_node hnode).several
    have made : intern (.union (t.canonicalMembers xs)) t = (u, t) :=
      insert_of_lookup (s.lookup_iff.2 (get?_of_resolve hnode nofun))
    generalize t.canonicalMembers xs = ms at several made
    rcases ms with _ | ⟨a, _ | ⟨b, rest⟩⟩
    · exact absurd several (by decide)
    · exact absurd several (by simp)
    · exact made

end TypeTable

/-! ### Joining two environments -/

namespace TypeEnv

variable {t : TypeTable} {env a b : TypeEnv}
variable {envs : List TypeEnv}

/-- Where two paths join, a variable has the union of its types. -/
theorem keeps_joinTypes (s : t.Sound) {mine : Option TypeId} {theirs : TypeId}
    (hmine : t.Has mine) (htheirs : t.Has theirs) :
    Keeps Runs t (joinTypes mine theirs) fun t' u =>
      t'.Has u ∧ t'.IsUnion (mine.toList ++ [theirs]) u := by
  unfold joinTypes
  split
  · exact .pure s ⟨htheirs, s.isUnion_self htheirs⟩
  · next l =>
    split
    · next same =>
      exact .pure s ⟨htheirs, (s.isUnion_self htheirs).of_members (canonicalMembers_of_mem (by simp [same]))⟩
    · have pair : t.Has [l, theirs] :=
        below_pair.2 ⟨below_some.1 hmine, htheirs⟩
      have made : Leaves Runs t (unionOf [l, theirs]) _ := safe_unionOf s pair
      exact ⟨made.sound, made.related, made.post, s.isUnion_unionOf pair (.refl _)⟩

/-- **Two environments are joined variable by variable.** -/
theorem keeps_merge (s : t.Sound) (ha : t.Has a) (hb : t.Has b) (ordered : a.Ordered)
    (ordered' : b.Ordered) (reachable : a.reachable = true) (reachable' : b.reachable = true) :
    Keeps Runs t (merge a b) fun t' env => t'.Has env ∧ env.Ordered ∧
      env.reachable = true ∧ ∀ x, match b.get? x with
        | none => env.get? x = a.get? x
        | some theirs => ∃ u, env.get? x = some u ∧
          t'.IsUnion ((a.get? x).toList ++ [theirs]) u := by
  unfold merge
  rw [reachable, reachable']
  have loop : ∀ (bindings : List (String × TypeId)) (merged : TypeEnv) (t : TypeTable), t.Sound →
      t.Has a → t.Has merged → merged.Ordered → merged.reachable = true →
      t.Has bindings → bindings.Pairwise (·.1 < ·.1) →
      Keeps Runs t (bindings.foldlM (fun merged p => do
        return merged.insert p.1 (← joinTypes (a.get? p.1) p.2)) merged) fun t' env =>
          t'.Has env ∧ env.Ordered ∧ env.reachable = true ∧ ∀ x, match bindings.lookup x with
            | none => env.get? x = merged.get? x
            | some theirs => ∃ u, env.get? x = some u ∧
              t'.IsUnion ((a.get? x).toList ++ [theirs]) u := by
    intro bindings
    induction bindings with
    | nil => exact fun merged t s _ hm om rm _ _ => .pure s ⟨hm, om, rm, fun _ => rfl⟩
    | cons p bindings ih =>
      intro merged t s ha hm om rm hbs ordered
      obtain ⟨hp, hbs⟩ := below_cons.1 hbs
      obtain ⟨first, ordered⟩ := pairwise_cons.1 ordered
      have mine := below_get? ha p.1
      rw [foldlM_cons, bind_assoc]
      refine Tabled.Keeps.bind (keeps_joinTypes s mine hp.2) fun t1 u s1 r1 ⟨hu, isUnion⟩ => ?_
      rw [pure_bind]
      refine (ih _ t1 s1 (r1 ha) (below_insert (r1 hm) hu) (om.insert ..) rm
        (r1 hbs) ordered).mono fun t2 env s2 r2 ⟨henv, oenv, renv, all⟩ =>
          ⟨henv, oenv, renv, fun x => ?_⟩
      have rest := all x
      rw [lookup_binding]
      by_cases same : x = p.1
      · -- the names increase, so that this one does not come again
        have absent : bindings.lookup x = none := lookup_eq_none_iff.2 fun q hq =>
          bne_iff_ne.2 fun h => String.lt_irrefl _ (h ▸ same ▸ first q hq)
        rw [absent, get?_insert, if_pos same] at rest
        have both : t1.Has ((a.get? p.1).toList ++ [p.2]) := below_append.2
          ⟨fun l hl => r1 mine l (Option.mem_toList.1 hl), below_singleton.2 (r1 hp.2)⟩
        rw [if_pos same]
        exact ⟨u, rest, same ▸ isUnion.grows s1 both hu r2⟩
      · rw [if_neg same]
        rwa [get?_insert, if_neg same] at rest
  exact loop b.bindings a t s ha ha ordered reachable hb ordered'

/-! ### Joining any number of environments -/

/-- The types of a variable on the paths that get to a join. -/
def typesAt (envs : List TypeEnv) (x : String) : List TypeId :=
  (envs.filter (·.reachable)).filterMap (·.get? x)

/-- A variable is bound where it has types, to their union. -/
def Gathers (t : TypeTable) (types : List TypeId) : Option TypeId → Prop
  | none => types = []
  | some u => types ≠ [] ∧ t.IsUnion types u

/-- The environment of some paths: it is reached if one of the paths is, and has for each
variable the union of its types. -/
structure JoinOf (t : TypeTable) (envs : List TypeEnv) (env : TypeEnv) : Prop where
  below : Below t.size env
  ordered : env.Ordered
  reachable : env.reachable = envs.any (·.reachable)
  types : ∀ x, Gathers t (typesAt envs x) (env.get? x)

theorem typesAt_concat (envs : List TypeEnv) (env : TypeEnv) (x : String) :
    typesAt (envs ++ [env]) x =
      typesAt envs x ++ if env.reachable then (env.get? x).toList else [] := by
  unfold typesAt
  rw [filter_append, filterMap_append]
  congr 1
  cases h : env.reachable with
  | false => simp [h]
  | true => cases hx : env.get? x <;> simp [h, hx]

theorem below_typesAt {n : Nat} (h : Below n envs) {x : String} : Below n (typesAt envs x) := by
  intro type htype
  obtain ⟨env, henv, hx⟩ := mem_filterMap.1 htype
  exact below_get? (h env (mem_filter.1 henv).1) x type hx

theorem typesAt_ne_nil {x : String} :
    typesAt envs x ≠ [] ↔ ∃ env ∈ envs, env.reachable = true ∧ (env.get? x).isSome := by
  simp [typesAt, filterMap_eq_nil_iff, Option.isSome_iff_ne_none]

theorem Gathers.grows {t' : TypeTable} {types : List TypeId} {o : Option TypeId}
    (h : Gathers t types o) (s : t.Sound) (g : t.Grows t') (htypes : t.Has types)
    (ho : t.Has o) : Gathers t' types o := by
  cases o with
  | none => exact h
  | some u => exact ⟨h.1, h.2.grows s htypes (below_some.1 ho) g⟩

theorem JoinOf.grows {t' : TypeTable} (h : JoinOf t envs env) (s : t.Sound)
    (g : t.Grows t') (henvs : t.Has envs) : JoinOf t' envs env :=
  ⟨g h.below, h.ordered, h.reachable, fun x =>
    (h.types x).grows s g (below_typesAt henvs) (below_get? h.below x)⟩

/-- **One more path.** -/
theorem JoinOf.merge (h : JoinOf t envs a) (s : t.Sound)
    (henvs : t.Has envs) (hb : t.Has b) (ordered : b.Ordered) :
    Keeps Runs t (merge a b) fun t' env => JoinOf t' (envs ++ [b]) env := by
  have any : (envs ++ [b]).any (·.reachable) = (a.reachable || b.reachable) := by
    rw [any_append, h.reachable]
    simp
  cases hb' : b.reachable with
  | false =>
    unfold TypeEnv.merge
    rw [hb']
    refine .pure s ⟨h.below, h.ordered, by rw [any, hb', Bool.or_false], fun x => ?_⟩
    rw [typesAt_concat, hb', if_neg Bool.false_ne_true, append_nil]
    exact h.types x
  | true =>
    have concat : ∀ x, typesAt (envs ++ [b]) x = typesAt envs x ++ (b.get? x).toList := fun x => by
      rw [typesAt_concat, hb', if_pos rfl]
    rw [hb', Bool.or_true] at any
    cases ha' : a.reachable with
    | false =>
      have none (x : String) : typesAt envs x = [] := by
        rw [typesAt, filter_eq_nil_iff.2 (any_eq_false.1 (h.reachable ▸ ha'))]
        rfl
      unfold TypeEnv.merge
      rw [ha', hb']
      refine .pure s ⟨hb, ordered, by rw [any, hb'], fun x => ?_⟩
      rw [concat, none]
      cases hx : b.get? x with
      | none => rfl
      | some u => exact ⟨cons_ne_nil u [], s.isUnion_self (below_get? hb x u hx)⟩
    | true =>
      refine (keeps_merge s h.below hb h.ordered ordered ha' hb').mono
        fun t1 env s1 r1 ⟨below, ordered, reachable, all⟩ =>
          ⟨below, ordered, by rw [any, reachable], fun x => ?_⟩
      have mine := (h.types x).grows s r1.toGrows (below_typesAt henvs) (below_get? h.below x)
      have here := all x
      rw [concat]
      cases hx : b.get? x with
      | none =>
        rw [hx] at here
        rw [here]
        exact (append_nil _).symm ▸ mine
      | some theirs =>
        rw [hx] at here
        obtain ⟨u, hu, isUnion⟩ := here
        rw [hu]
        refine ⟨append_ne_nil_of_right_ne_nil _ (cons_ne_nil theirs []), ?_⟩
        cases hmine : a.get? x with
        | none =>
          rw [hmine] at mine isUnion
          rw [show typesAt envs x = [] from mine]
          exact isUnion
        | some l =>
          rw [hmine] at mine isUnion
          exact isUnion.of_members (mine.2.canonicalMembers_regroup s1).symm

theorem keeps_join (s : t.Sound) (henvs : t.Has envs) (ordered : ∀ env ∈ envs, env.Ordered) :
    Keeps Runs t (join envs) fun t' env => JoinOf t' envs env := by
  have loop : ∀ (rest done : List TypeEnv) (env : TypeEnv) (t : TypeTable), t.Sound →
      t.Has (done ++ rest) → (∀ env ∈ rest, env.Ordered) → JoinOf t done env →
      Keeps Runs t (rest.foldlM merge env) fun t' env => JoinOf t' (done ++ rest) env := by
    intro rest
    induction rest with
    | nil => exact fun done env t s _ _ h => .pure s ((append_nil done).symm ▸ h)
    | cons b rest ih =>
      intro done env t s below ordered h
      obtain ⟨hdone, hrest⟩ := below_append.1 below
      rw [foldlM_cons]
      refine (h.merge s hdone (hrest b (.head _)) (ordered b (.head _))).bind fun t1 env s1 r1 h1 => ?_
      have := ih (done ++ [b]) env t1 s1 (by rw [append_assoc]; exact r1 below)
        (fun env henv => ordered env (.tail _ henv)) h1
      rwa [append_assoc] at this
  exact loop envs [] unreachable t s henvs ordered ⟨below_nil, .nil, rfl, fun _ => rfl⟩

theorem Ordered.mem_iff (h : env.Ordered) {p : String × TypeId} :
    p ∈ env.bindings ↔ env.get? p.1 = some p.2 :=
  ⟨h.get?_of_mem, fun hp => by
    obtain ⟨l, r, hl, -⟩ := lookup_eq_some_iff.1 hp
    rw [hl]
    simp⟩

/-- An environment in order is known by the types of the variables. -/
theorem Ordered.ext (ha : a.Ordered) (hb : b.Ordered) (reachable : a.reachable = b.reachable)
    (h : ∀ x, a.get? x = b.get? x) : a = b := by
  have irrefl : Std.Irrefl fun p q : String × TypeId => p.1 < q.1 := ⟨fun p => String.lt_irrefl p.1⟩
  have antisymm : Std.Antisymm fun p q : String × TypeId => p.1 < q.1 :=
    ⟨fun p q h h' => absurd (String.lt_trans h h') (String.lt_irrefl p.1)⟩
  have bindings : a.bindings = b.bindings := List.Pairwise.eq_of_mem_iff ha hb fun p => by
    rw [ha.mem_iff, hb.mem_iff, h]
  obtain ⟨⟩ := a
  obtain ⟨⟩ := b
  cases bindings
  cases reachable
  rfl

/-- The environment of some paths is one, in whatever order they are taken. -/
theorem JoinOf.unique {envs' : List TypeEnv} (s : t.Sound) (h : JoinOf t envs a)
    (h' : JoinOf t envs' b) (perm : envs'.Perm envs) : b = a := by
  refine h'.ordered.ext h.ordered ?_ fun x => ?_
  · rw [h.reachable, h'.reachable, perm.any_eq]
  have types : (typesAt envs' x).Perm (typesAt envs x) := (perm.filter _).filterMap _
  have ta := h.types x
  have tb := h'.types x
  cases ha : a.get? x with
  | none =>
    rw [ha] at ta
    cases hb : b.get? x with
    | none => rfl
    | some v =>
      rw [hb] at tb
      exact absurd (perm_nil.1 (ta ▸ types)) tb.1
  | some u =>
    rw [ha] at ta
    cases hb : b.get? x with
    | none =>
      rw [hb] at tb
      exact absurd (nil_perm.1 (tb ▸ types)) ta.1
    | some v =>
      rw [hb] at tb
      refine congrArg some (s.eq_of_unionMembers (below_get? h'.below x v hb) (below_get? h.below x u ha) ?_)
      rw [ta.2.unionMembers s, tb.2.unionMembers s]
      exact canonicalMembers_of_mem fun _ => types.mem_iff

end TypeEnv

/-- **Joins are pointwise unions over the paths that get there.**  The join is reached if one of
the environments is; it binds the variables that some of the reached ones bind, each to the union
of its types in those; and joined in any other order, now or later, the environments give the same
one. -/
theorem TypeTable.Reachable.join_pointwise {t : TypeTable} (h : t.Reachable) {envs : List TypeEnv}
    (henvs : Below t.size envs) (ordered : ∀ env ∈ envs, env.Ordered) :
    let joined := join envs t
    (joined.1.reachable = true ↔ ∃ env ∈ envs, env.reachable = true) ∧
    (∀ x, (joined.1.get? x).isSome ↔ ∃ env ∈ envs, env.reachable = true ∧ (env.get? x).isSome) ∧
    (∀ x u, joined.1.get? x = some u →
      unionOf (typesAt envs x) joined.2 = (u, joined.2)) ∧
    ∀ t' envs', joined.2.Leads t' → envs'.Perm envs → (join envs' t').1 = joined.1 := by
  intro joined
  have whole : Leaves Runs t (join envs) _ := keeps_join h.sound henvs ordered
  obtain ⟨s, r, join⟩ := whole
  refine ⟨by rw [join.reachable, any_eq_true], fun x => ?_, fun x u hu => ?_,
    fun t' envs' leads perm => ?_⟩
  · rw [← typesAt_ne_nil]
    have types := join.types x
    cases hx : joined.1.get? x with
    | none =>
      rw [hx] at types
      exact iff_of_false Bool.false_ne_true fun some => some types
    | some u =>
      rw [hx] at types
      simpa using types.1
  · have types := join.types x
    rw [hu] at types
    exact types.2.unionOf_eq s
  · have r' : joined.2.Reachable := .step (.join envs) h henvs
    have g := (leads.continues r').toGrows
    have s' := (leads.reachable r').sound
    have below' : t'.Has envs' := fun env henv =>
      g (r (henvs env (perm.mem_iff.1 henv)))
    have again : Leaves Runs t' (TypeEnv.join envs') _ := TypeEnv.keeps_join s' below'
      fun env henv => ordered env (perm.mem_iff.1 henv)
    exact (TypeEnv.JoinOf.unique again.sound ((join.grows s g (r henvs)).grows s'
      again.related (g (r henvs))) again.post perm)

/-- A variable that is `boolean` on one path and `null` on another, with one that is not taken. -/
theorem join_pointwise_nullable :
    let t := withLimits {}
    let envs := [ofList [("x", .boolean)], .unreachable, ofList [("x", .null)]]
    let joined := join envs t
    t.Reachable ∧ t.Has envs ∧ (∀ env ∈ envs, env.Ordered) ∧
      joined.1.reachable = true ∧ (joined.1.get? "x").isSome ∧
      (∀ u, joined.1.get? "x" = some u → unionOf [.boolean, .null] joined.2 = (u, joined.2)) ∧
      (join envs.reverse joined.2).1 = joined.1 := by
  intro t envs joined
  have reachable : t.Reachable := .start {}
  have s := reachable.sound
  have bound : ∀ type : TypeId, type.index < 13 → t.Has (ofList [("x", type)]) :=
    fun type htype => below_singleton.2 ⟨trivial, s.below_fixed (Nat.ble_eq_true_of_le htype)⟩
  have below : t.Has envs := below_cons.2 ⟨bound _ (by decide), below_cons.2 ⟨below_nil,
    below_singleton.2 (bound _ (by decide))⟩⟩
  have ordered : ∀ env ∈ envs, env.Ordered := forall_mem_cons.2 ⟨ordered_ofList _,
    forall_mem_cons.2 ⟨.nil, forall_mem_singleton.2 (ordered_ofList _)⟩⟩
  obtain ⟨reached, binds, union, again⟩ := reachable.join_pointwise below ordered
  exact ⟨reachable, below, ordered, reached.2 ⟨_, .head _, rfl⟩, (binds "x").2 ⟨_, .head _, rfl, rfl⟩,
    union "x", again _ _ .refl envs.reverse_perm⟩

end GradualTyping
