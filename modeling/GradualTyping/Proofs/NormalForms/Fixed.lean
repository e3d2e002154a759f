/-
# Normal forms evaluate to themselves

Reducing a union, an intersection or a delayed case change gives the type itself as
soon as its parts evaluate to themselves (`reduce_fixed`).  That is used twice.

What the memory has for a normal form is the type itself (`Normal.recalled`): the
result was found from the results for the parts, which are remembered with it.
Therefore evaluation gives a normal form back at every level (`Normal.evaluate`),
also when the recursion guard trips on the way.
-/

import GradualTyping.Proofs.NormalForms.Basic

namespace GradualTyping

open TypeTable Reduction Operations

namespace Reduction

variable {ops : Operations} {t : TypeTable} {id : TypeId}

/-- **The result of a step is remembered**, or it is the type itself. -/
theorem step_result (untripped : (step ops id t).2.Untripped) :
    (step ops id t).1 = id ∨ (step ops id t).2.evaluated[id]? = some (step ops id t).1 := by
  cases hmemo : t.evaluated[id]? with
  | some done =>
    rw [step_of_remembered hmemo]
    exact .inr hmemo
  | none =>
    by_cases h : needsEvaluation t id = true ∧ id ∉ t.evaluating
    · exact .inr (step_remembers hmemo h.1 h.2 untripped).2.2
    · rw [step_of_new hmemo, if_neg (by simpa using h)]
      exact .inl rfl

/-- Evaluating a list whose members are found to evaluate to themselves; what is known of an
evaluation may depend on the table that is left in the end. -/
theorem mapM_fixed (hops : ops.Safe) (s : t.Sound) {ms : List TypeId} (hms : t.Has ms)
    (h : ∀ m ∈ ms, ∀ t', t'.Sound → t.Runs t' →
      (ops.evaluate m t').2.Runs (ms.mapM ops.evaluate t).2 → (ops.evaluate m t').1 = m) :
    (ms.mapM ops.evaluate t).1 = ms := by
  induction ms generalizing t with
  | nil => rfl
  | cons m ms ih =>
    obtain ⟨hm, hms⟩ := below_cons.1 hms
    have first : Leaves Runs t (ops.evaluate m) _ := hops.evaluate s hm
    have others : Leaves Runs (ops.evaluate m t).2 (ms.mapM ops.evaluate) _ :=
      Tabled.Keeps.mapM first.sound fun x hx _ s' r' =>
        hops.evaluate s' ((first.related.trans r').below (hms x hx))
    have run : ((m :: ms).mapM ops.evaluate) t =
        ((ops.evaluate m t).1 :: (ms.mapM ops.evaluate (ops.evaluate m t).2).1,
          (ms.mapM ops.evaluate (ops.evaluate m t).2).2) := by
      rw [List.mapM_cons]
      rfl
    rw [run] at h ⊢
    have hrest := ih first.sound (first.related.below hms) fun x hx t' s' r' =>
      h x (.tail _ hx) t' s' (first.related.trans r')
    rw [hrest, h m (.head _) t s (.refl t) others.related]

end Reduction

namespace TypeTable

variable {t : TypeTable} {id : TypeId} {ms : List TypeId}

theorem Sound.unionOf_node (s : t.Sound) (h : t.resolve id = .union ms) :
    unionOf ms t = (id, t) := by
  have hget := get?_of_resolve h (by simp)
  rw [s.unionOf_canonical (s.canonical hget), insert_of_lookup ((s.indexed _ _).2 hget)]

theorem Sound.intersectionOf_node (s : t.Sound) (h : t.resolve id = .intersection ms) :
    intersectionOf ms t = (id, t) := by
  have hget := get?_of_resolve h (by simp)
  rw [s.intersectionOf_canonical (s.canonical hget), insert_of_lookup ((s.indexed _ _).2 hget)]

end TypeTable

namespace Reduction

variable {ops : Operations} {t : TypeTable} {id : TypeId}

theorem changeCase_delayed {change : CaseChange} {inner : TypeId}
    (h : (t.resolve inner).delaysCase = true) : changeCase ops id change inner inner t = (id, t) := by
  have read : ∀ f : Ty → TableM TypeId, (resolve inner >>= f) t = f (t.resolve inner) t := fun _ => rfl
  unfold changeCase
  rw [read]
  generalize t.resolve inner = ty at h
  split
  case h_6 =>
    rw [if_pos rfl]
    rfl
  all_goals cases h

/-- **A type is rebuilt as it was** if its parts are found to evaluate to themselves. -/
theorem reduce_rebuilds (hops : ops.Safe) (s : t.Sound) (hid : t.Has id)
    {parts : List TypeId} (hparts : t.Rebuilds id parts)
    (h : ∀ m ∈ parts, ∀ t', t'.Sound → t.Runs t' →
      (ops.evaluate m t').2.Runs (reduce ops id (t.resolve id) t).2 → (ops.evaluate m t').1 = m) :
    (reduce ops id (t.resolve id) t).1 = id := by
  have hbelow := hparts.below s
  have members : Leaves Runs t (parts.mapM ops.evaluate) _ := Tabled.Keeps.mapM s
    fun m hm _ s' r' => hops.evaluate s' (r' (hbelow m hm))
  have node := members.related.resolve hid
  cases hparts with
  | union hms =>
    have run : reduce ops id (t.resolve id) t =
        unionOf (parts.mapM ops.evaluate t).1 (parts.mapM ops.evaluate t).2 := by
      rw [hms]
      rfl
    have made : Leaves Runs _ (unionOf (parts.mapM ops.evaluate t).1) _ :=
      safe_unionOf members.sound members.post
    rw [run] at h ⊢
    rw [mapM_fixed hops s hbelow fun m hm t' s' r' r'' => h m hm t' s' r' (r''.trans made.related),
      members.sound.unionOf_node (node.trans hms)]
  | intersection hms =>
    have run : reduce ops id (t.resolve id) t =
        intersectionOf (parts.mapM ops.evaluate t).1 (parts.mapM ops.evaluate t).2 := by
      rw [hms]
      rfl
    have made : Leaves Runs _ (intersectionOf (parts.mapM ops.evaluate t).1) _ :=
      safe_intersectionOf members.sound members.post
    rw [run] at h ⊢
    rw [mapM_fixed hops s hbelow fun m hm t' s' r' r'' => h m hm t' s' r' (r''.trans made.related),
      members.sound.intersectionOf_node (node.trans hms)]
  | @caseMapped change inner hnode hdelays =>
    have hinner := (below_cons.1 hbelow).1
    have run : reduce ops id (t.resolve id) t =
        changeCase ops id change inner (ops.evaluate inner t).1 (ops.evaluate inner t).2 := by
      rw [hnode]
      rfl
    have first : Leaves Runs t (ops.evaluate inner) _ := hops.evaluate s hinner
    have changed : Leaves Runs _ (changeCase ops id change inner (ops.evaluate inner t).1) _ :=
      (settles_changeCase inherited_true hops.yielding first.sound change (first.related.below hid)
        ⟨first.post, trivial⟩).safe
    rw [run] at h ⊢
    rw [h inner (.head _) t s (.refl t) changed.related,
      changeCase_delayed ((congrArg Ty.delaysCase (first.related.resolve hinner)).trans hdelays)]

theorem needsEvaluation_of_isHead (h : (t.resolve id).isHead = true) :
    needsEvaluation t id = false := by
  unfold needsEvaluation
  cases hnode : t.resolve id <;> simp_all [Ty.isHead, Ty.isReducible]

end Reduction

/-! ### The memory -/

/-- Safe operations of which evaluation remembers what it gives. -/
structure Operations.Recalling (ops : Operations) : Prop extends ops.Safe where
  result : ∀ {id t}, (ops.evaluate id t).2.Untripped → (ops.evaluate id t).1 = id ∨
    (ops.evaluate id t).2.evaluated[id]? = some (ops.evaluate id t).1

theorem Operations.recalling_withLevels (n : Nat) : (withLevels n).Recalling where
  toSafe := safe_withLevels n
  result := by cases n <;> exact step_result

/-- Evaluation at a level is a step over operations that remember. -/
theorem Operations.evaluate_eq (n : Nat) : ∃ deeper : Operations, deeper.Recalling ∧
    (withLevels n).evaluate = step deeper := by
  cases n with
  | zero => exact ⟨inert, ⟨safe_inert, fun _ => .inl rfl⟩, rfl⟩
  | succ n => exact ⟨withLevels n, recalling_withLevels n, rfl⟩

namespace TypeTable

variable {t : TypeTable} {id v : TypeId}

/-- **What the memory has for a normal form is the type itself.** -/
theorem Normal.recalled (h : t.Normal id) (s : t.Sound) (f : t.Faithful)
    (hv : t.evaluated[id]? = some v) : v = id := by
  induction h generalizing v with
  | head h =>
    have hneeds := (s.evaluated hv).2
    rw [needsEvaluation_of_isHead h] at hneeds
    cases hneeds
  | kept _ _ hmem => exact Option.some.inj (hv.symm.trans hmem)
  | @rebuilt id parts hparts _ ih =>
    obtain ⟨n, a, b, sa, hmiss, hrun, g, hneeds, hopen, untripped, memory⟩ := f hv
    obtain ⟨deeper, recalling, hstep⟩ := evaluate_eq n
    rw [hstep] at hrun
    have hid := below_of_needsEvaluation hneeds
    have safe : Leaves Runs a (step deeper id) _ :=
      safe_step recalling.toSafe sa hid
    have reduced : Leaves Runs (a.deeper.opening id) _ _ :=
      safe_reduce recalling.toSafe sa.deeper.opening hid (sa.below_resolve id)
    have hu : (step deeper id a).2.Untripped := by rw [hrun]; exact untripped
    obtain ⟨-, hend, hreduced⟩ := step_reduces hmiss hneeds hopen hu
    obtain ⟨rfl, rfl⟩ := Prod.mk.inj (hreduced.symm.trans hrun)
    have hparts : (a.deeper.opening id).Rebuilds id parts :=
      have same : a.Grows (a.deeper.opening id) := ⟨List.prefix_refl _, rfl⟩
      (same.rebuilds sa hid).2 (((safe.related.toGrows.trans (hrun ▸ g)).rebuilds sa hid).1 hparts)
    refine reduce_rebuilds recalling.toSafe sa.deeper.opening hid hparts ?_
    intro m hm t' s' r' r''
    refine (recalling.result (r''.untripped hend)).elim (fun h => h) fun hw => ?_
    -- The result for a part is remembered with the result for the whole.
    have hw := r''.remembered hw
    have hfresh := (reduced.related.pending id (.head _)).trans hmiss
    refine ih m hm (memory ?_)
    rw [← hw]
    refine Std.HashMap.getElem?_insert.trans (if_neg fun heq => ?_)
    obtain rfl := eq_of_beq heq
    cases hfresh.symm.trans hw

/-- One level up, if the operations give normal forms back. -/
theorem Normal.step {ops : Operations} (hops : ops.Safe)
    (fixed : ∀ {t : TypeTable} {m : TypeId}, t.Sound → t.Faithful → t.Has m → t.Normal m →
      (ops.evaluate m t).1 = m) (h : t.Normal id) (s : t.Sound) (f : t.Faithful) (hid : t.Has id) :
    (step ops id t).1 = id := by
  cases hmemo : t.evaluated[id]? with
  | some v =>
    rw [step_of_remembered hmemo]
    exact h.recalled s f hmemo
  | none =>
    by_cases hnew : needsEvaluation t id = true ∧ id ∉ t.evaluating
    · rw [step_of_needs hmemo hnew.1 hnew.2, guarded_eq]
      rcases untripped_or with hu | hu
      · rw [enter_of_tripped hu]
      by_cases hd : t.limits.maxDepth ≤ t.depth
      · rw [enter_of_limit hu hd]
      rw [enter_of_lt hu (Nat.not_le.1 hd)]
      show (remembering id (reduce ops id (t.resolve id)) t.deeper).1 = id
      have reduced : (reduce ops id (t.resolve id) (t.deeper.opening id)).1 = id := by
        have same : t.Grows (t.deeper.opening id) := ⟨List.prefix_refl _, rfl⟩
        have faithful : (t.deeper.opening id).Faithful := fun hv => (f hv).keep same fun h => h
        cases h with
        | head h =>
          rw [needsEvaluation_of_isHead h] at hnew
          exact absurd hnew.1 Bool.false_ne_true
        | kept _ _ hmem => cases hmemo.symm.trans hmem
        | rebuilt hparts hnormal =>
          refine reduce_rebuilds hops s.deeper.opening hid
            ((same.rebuilds s hid).2 hparts) ?_
          intro m hm t' s' r' _
          have hbelow := hparts.below s m hm
          refine fixed s' (faithful.continues r'.toContinues) (r' hbelow) ?_
          exact (hnormal m hm).keep s hbelow (same.trans r') r'.aliases r'.remembered
      rw [remembering_eq]
      split <;> exact reduced
    · rw [step_of_new hmemo, if_neg (by simpa using hnew)]

/-- **A normal form evaluates to itself**, at every level. -/
theorem Normal.evaluate (n : Nat) (h : t.Normal id) (s : t.Sound) (f : t.Faithful)
    (hid : t.Has id) : ((withLevels n).evaluate id t).1 = id := by
  induction n generalizing t id with
  | zero => exact h.step safe_inert (fun _ _ _ _ => rfl) s f hid
  | succ n ih =>
    exact h.step (safe_withLevels n) (fun s f hm h => ih h s f hm) s f hid

end TypeTable

end GradualTyping
