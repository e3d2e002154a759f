/-
# Substitution is safe

What the guarded operations promise each other is `Operations.Safe`: on a sound
table and types of the table each of them is safe.  The modules from here on prove
of every operation that it is safe if the operations one level deeper are;
`GradualTyping.Proofs.Sound.Layers` ties the levels.

The operations that comparison asks for also give the same again when they are run again
on a later table at the same depth, if those one level deeper do (`Operations.Repeats`).
Matching a pattern and awaiting are left out, since only evaluation asks for them, and what
evaluation gives is remembered.

The first is substitution, which rebuilds every kind of node.  Each way to make a node is
recalled, and two runs have the same memo.
-/

import GradualTyping.Proofs.Repetition.Basic

namespace GradualTyping

open TypeTable List Operations

/-! ### Substitutions and what the other operations keep -/

instance : Bounded Substitution := ⟨fun n s => Below n s.entries, Bounded.mono⟩

instance : Bounded SubstitutionMemo :=
  ⟨fun n memo => ∀ k v : TypeId, memo[k]? = some v → Below n v,
    fun h hm k v hk => Bounded.mono h (hm k v hk)⟩

instance : Bounded Binding :=
  ⟨fun n b => Below n b.placeholder ∧ Below n b.covariant ∧ Below n b.contravariant,
    fun h => .imp (Bounded.mono h) (.imp (Bounded.mono h) (Bounded.mono h))⟩

instance : Bounded InferenceVar :=
  ⟨fun n v => (Below n v.param ∧ Below n v.var) ∧ (Below n v.bound ∧ Below n v.fallback) ∧
      Below n v.covariant ∧ Below n v.contravariant,
    fun h => .imp (.imp (Bounded.mono h) (Bounded.mono h))
      (.imp (.imp (Bounded.mono h) (Bounded.mono h)) (.imp (Bounded.mono h) (Bounded.mono h)))⟩

instance : Bounded RowCapture :=
  ⟨fun n r => Below n r.var ∧ Below n r.fields, fun h => .imp (Bounded.mono h) (Bounded.mono h)⟩

instance : Bounded Inference :=
  ⟨fun n i => Below n i.vars ∧ Below n i.rows, fun h => .imp (Bounded.mono h) (Bounded.mono h)⟩

/-- The guarded operations are safe on types of a sound table. -/
structure Operations.Safe (ops : Operations) : Prop where
  /-- Unless the guard trips, they are the operations below some level. -/
  layer : ∃ n, ∀ id t, (Reduction.step ops id t).2.Untripped →
    (withLevels n).evaluate id t = Reduction.step ops id t
  evaluate : ∀ {t : TypeTable} {id : TypeId}, t.Sound → Below t.size id →
    GradualTyping.Safe t (ops.evaluate id)
  isSubtype : ∀ {t : TypeTable} {sub sup : TypeId} (assumed : Assumptions), t.Sound →
    Below t.size sub → Below t.size sup → GradualTyping.Safe t (ops.isSubtype assumed sub sup)
  substituteIn : ∀ {t : TypeTable} {s : Substitution} {id : TypeId}, t.Sound → Below t.size s →
    Below t.size id → GradualTyping.Safe t (ops.substituteIn s id)
  matchPattern : ∀ {t : TypeTable} {pattern source : TypeId} (contravariant : Bool), t.Sound →
    Below t.size pattern → Below t.size source →
    GradualTyping.Safe t (ops.matchPattern pattern source contravariant)
  inferFrom : ∀ {t : TypeTable} {param arg : TypeId} (contravariant : Bool), t.Sound →
    Below t.size param → Below t.size arg →
    GradualTyping.Safe t (ops.inferFrom param arg contravariant)
  awaited : ∀ {t : TypeTable} {id : TypeId}, t.Sound → Below t.size id →
    GradualTyping.Safe t (ops.awaited id)

namespace Substitution

variable {n : Nat} {σ : Substitution}

theorem below_get? (h : Below n σ) (id : TypeId) : Below n (σ.get? id) := by
  intro v hv
  obtain ⟨e, he, rfl⟩ := Option.map_eq_some_iff.1 hv
  exact (h e (mem_of_find?_eq_some he)).2

theorem below_setEntry {key value : TypeId} {es : List (TypeId × TypeId)} (hk : Below n key)
    (hv : Below n value) (h : Below n es) : Below n (setEntry key value es) := by
  fun_induction setEntry key value es with
  | case1 => exact below_singleton.2 ⟨hk, hv⟩
  | case2 v rest => exact below_cons.2 ⟨⟨hk, hv⟩, (below_cons.1 h).2⟩
  | case3 k v rest _ ih => exact below_cons.2 ⟨(below_cons.1 h).1, ih (below_cons.1 h).2⟩

theorem below_insert (h : Below n σ) {key value : TypeId} (hk : Below n key)
    (hv : Below n value) : Below n (σ.insert key value) :=
  below_setEntry hk hv h

theorem below_empty : Below n ({} : Substitution) := below_nil (α := TypeId × TypeId)

theorem below_ofList {es : List (TypeId × TypeId)} (h : Below n es) : Below n (ofList es) :=
  Bounded.Below.foldl below_empty fun _ hs e he => below_insert hs (h e he).1 (h e he).2

end Substitution

theorem SubstitutionMemo.below_empty {n : Nat} : Below n ({} : SubstitutionMemo) := by
  intro k v h
  simp at h

theorem SubstitutionMemo.below_insert {n : Nat} {memo : SubstitutionMemo} {k v : TypeId}
    (h : Below n memo) (hv : Below n v) : Below n (memo.insert k v) := by
  intro k' v' hk
  rw [Std.HashMap.getElem?_insert] at hk
  split at hk
  · exact Option.some.inj hk ▸ hv
  · exact h k' v' hk

namespace Operations.Safe

variable {ops : Operations} {t : TypeTable}

theorem subtype (h : ops.Safe) (s : t.Sound) {sub sup : TypeId} (hsub : t.Has sub)
    (hsup : t.Has sup) : GradualTyping.Safe t (ops.subtype sub sup) :=
  h.isSubtype [] s hsub hsup

theorem substitute (h : ops.Safe) (s : t.Sound) {σ : Substitution} {id : TypeId}
    (hσ : t.Has σ) (hid : t.Has id) : GradualTyping.Safe t (ops.substitute σ id) := by
  unfold Operations.substitute
  split
  · exact .pure s hid
  · exact ((h.substituteIn s hσ hid).run SubstitutionMemo.below_empty).map fun _ _ _ _ hp => hp.1

end Operations.Safe

instance : Viewed SubstitutionMemo := ⟨id⟩

/-- A type parameter under inference, without its variable. -/
def InferenceVar.bare (v : InferenceVar) : InferenceVar := { v with var := .never }

/-- An inference without its variables, which is all that its operations look at. -/
def Inference.bare (i : Inference) : Inference :=
  { i with vars := i.vars.map .bare, rows := i.rows.map fun r => { r with var := .never } }

instance : Viewed Inference := ⟨Inference.bare⟩

/-- The guarded operations are safe and, if `q`, answer as before when they are run again. -/
structure Operations.Repeats (q : Prop) (ops : Operations) : Prop where
  evaluate : ∀ {t : TypeTable} {id : TypeId}, t.Sound → Below t.size id →
    GradualTyping.Repeats q t (ops.evaluate id)
  isSubtype : ∀ {t : TypeTable} {sub sup : TypeId} (assumed : Assumptions), t.Sound →
    Below t.size sub → Below t.size sup → GradualTyping.Repeats q t (ops.isSubtype assumed sub sup)
  substituteIn : ∀ {t : TypeTable} {s : Substitution} {id : TypeId}, t.Sound → Below t.size s →
    Below t.size id → GradualTyping.Repeats q t (ops.substituteIn s id)
  inferFrom : ∀ {t : TypeTable} {param arg : TypeId} (contravariant : Bool), t.Sound →
    Below t.size param → Below t.size arg →
    GradualTyping.Repeats q t (ops.inferFrom param arg contravariant)

namespace Operations.Repeats

variable {q : Prop} {ops : Operations} {t : TypeTable}

theorem subtype (h : ops.Repeats q) (s : t.Sound) {sub sup : TypeId} (hsub : t.Has sub)
    (hsup : t.Has sup) : GradualTyping.Repeats q t (ops.subtype sub sup) :=
  h.isSubtype [] s hsub hsup

theorem substitute (h : ops.Repeats q) (s : t.Sound) {σ : Substitution} {id : TypeId}
    (hσ : t.Has σ) (hid : t.Has id) : GradualTyping.Repeats q t (ops.substitute σ id) := by
  unfold Operations.substitute
  split
  · exact .pure s hid
  · exact Repeating.run' (h.substituteIn s hσ hid) SubstitutionMemo.below_empty

end Operations.Repeats

theorem Operations.Safe.repeats {ops : Operations} (h : ops.Safe) : ops.Repeats False where
  evaluate s hid := .of_safe (h.evaluate s hid)
  isSubtype assumed s ha hb := .of_safe (h.isSubtype assumed s ha hb)
  substituteIn s hσ hid st _ hst _ := .of_safe (h.substituteIn s hσ hid st hst)
  inferFrom contravariant s hp ha st _ hst _ := .of_safe (h.inferFrom contravariant s hp ha st hst)

/-! ### Rebuilding a node -/

namespace Substitution

variable {q : Prop} {ops : Operations} {t : TypeTable} {apply : TypeId → ApplyM TypeId}
variable {ids : List TypeId} {n : Nat} {id : TypeId} {ty : Ty}
variable {σ : Substitution}

/-- A rebuilding of parts that is safe, and the same again, on later tables too. -/
def RepeatsFrom (q : Prop) (t : TypeTable) (apply : TypeId → ApplyM TypeId) : Prop :=
  ∀ {t' : TypeTable} {id : TypeId}, t'.Sound → t.Runs t' → Below t'.size id → Repeats q t' (apply id)

theorem RepeatsFrom.later {t' : TypeTable} (h : RepeatsFrom q t apply) (r : t.Runs t') :
    RepeatsFrom q t' apply :=
  fun s' r' => h s' (r.trans r')

theorem RepeatsFrom.mapM (h : RepeatsFrom q t apply) (s : t.Sound)
    (hids : t.Has ids) : Repeats q t (ids.mapM apply) :=
  .mapM s fun id hid _ s' r' => h s' r' (r' (hids id hid))

theorem below_headD (h : Below n ids) (hid : Below n id) : Below n (ids.headD id) := by
  cases ids with
  | nil => exact hid
  | cons => exact (below_cons.1 h).1

theorem below_zipWith {α : Type} [Bounded α] {put : α → TypeId → α}
    (hput : ∀ x id, Below n id → Below n (put x id)) {xs : List α}
    (h : Below n ids) : Below n (xs.zipWith put ids) := by
  induction xs generalizing ids with
  | nil => exact below_nil
  | cons x xs ih =>
    cases ids with
    | nil => exact below_nil
    | cons id ids => exact below_cons.2 ⟨hput x id (below_cons.1 h).1, ih (below_cons.1 h).2⟩

theorem below_fillHoles {spans : List TemplateSpan} (h : Below n spans)
    (hids : Below n ids) : Below n (fillHoles spans ids) := by
  fun_induction fillHoles spans ids with
  | case1 _ spans type types ih =>
    exact below_cons.2 ⟨below_hole.2 (below_cons.1 hids).1, ih (below_cons.1 h).2 (below_cons.1 hids).2⟩
  | case2 s spans types ih => exact below_cons.2 ⟨below_text, ih (below_cons.1 h).2 hids⟩
  | case3 => exact h

theorem below_withParts (h : Below n ty) (hids : Below n ids) : Below n (ty.withParts ids) := by
  have drop (k : Nat) : Below n (ids.drop k) := hids.subset (drop_subset _ _)
  have option {o : Option TypeId} (ho : Below n o) {ids : List TypeId} (h : Below n ids) :
      Below n (o.map ids.headD) := by
    cases o with
    | none => exact below_none
    | some id => exact below_some.2 (below_headD h (below_some.1 ho))
  unfold Ty.withParts
  split
  · exact ⟨below_zipWith (by exact fun _ _ h => h) hids, option h.2 (drop _)⟩
  · exact (below_cons.1 hids).1
  · exact ⟨below_zipWith (by exact fun _ _ h => h) hids, option h.2 (drop _)⟩
  · next _ f =>
    have last : Below n ((ids.drop f.params.length).drop f.rest.toList.length) :=
      (drop _).subset (drop_subset _ _)
    refine ⟨h.1, below_zipWith (by exact fun _ _ h => h) hids, option h.2.2.1 (drop _),
      below_headD last h.2.2.2.1, fun p hp => ?_⟩
    obtain ⟨q, hq, rfl⟩ := Option.map_eq_some_iff.1 hp
    exact below_headD (last.subset (tail_sublist _).subset) (h.2.2.2.2 q hq)
  · exact hids
  · exact hids
  · exact hids
  · simp only [below_cons] at hids
    exact ⟨hids.1, hids.2.1, hids.2.2.1, hids.2.2.2.1⟩
  · simp only [below_cons] at hids
    exact ⟨h.1, hids.1, hids.2.1⟩
  · exact (below_cons.1 hids).1
  · exact (below_cons.1 hids).1
  · exact (below_cons.1 hids).1
  · simp only [below_cons] at hids
    exact ⟨hids.1, hids.2.1⟩
  · exact below_fillHoles h hids
  · exact h

/-- A node with parts is not a parameter or a variable, whatever its parts become. -/
theorem plain_withParts (h : ¬ ty.parts.isEmpty) {types : List TypeId} :
    (ty.withParts types).isParam = false ∧ (ty.withParts types).isVar = false := by
  cases ty with
  | param => exact absurd rfl h
  | var => exact absurd rfl h
  | _ => unfold Ty.withParts; split <;> exact ⟨rfl, rfl⟩

theorem stable_nodeOf (s : t.Sound) (h : t.Has ty) (hv : ty.isVar = false) :
    Stable t (nodeOf ty) := by
  cases ty with
  | object o => exact stable_objectOf s h.1 h.2
  | union ms => exact stable_unionOf s h
  | intersection ms => exact stable_intersectionOf s h
  | template spans => exact stable_templateOf s h
  | promise inner => exact stable_promiseOf s h
  | _ => exact stable_intern s h trivial hv

theorem repeats_rebuild (h : RepeatsFrom q t apply) (s : t.Sound)
    (hid : t.Has id) (hty : t.Has ty) : Repeats q t (rebuild apply id ty) := by
  have parts : t.Has ty.parts := fun m hm => below_iff_ids.1 hty m (ty.parts_subset_ids hm)
  unfold rebuild
  split
  · exact .pure s hid
  · next parted => exact .bind (h.mapM s parts) fun t1 ids s1 r1 hids =>
      Repeating.Repeats.of_stable (stable_nodeOf s1 (below_withParts (r1 hty) hids)
        (plain_withParts parted).2)

theorem repeats_distributes? (hops : ops.Repeats q) (s : t.Sound)
    (hσ : t.Has σ) (c : Conditional) : Repeats q t (distributes? ops σ c) := by
  unfold distributes?
  split
  · split
    · next arg harg =>
      refine .bind (hops.evaluate s (below_get? hσ _ arg harg))
        fun t1 evaluated s1 _ he => ?_
      refine .node he ?_
      split
      · exact .pure s1 (below_some.2 below_nil)
      · next ms hms => exact .pure s1 (below_some.2 (s1.below_node hms))
      · exact .pure s1 below_none
    · exact .pure s below_none
  · exact .pure s below_none

/-- **Rebuilding any node gives the same again.** -/
theorem repeats_applyNode (hops : ops.Repeats q) (s : t.Sound)
    (hσ : t.Has σ) (hid : t.Has id) (hty : t.Has ty) : Repeats q t (applyNode ops σ id ty) := by
  have h : RepeatsFrom q t (ops.substituteIn σ) :=
    fun s' r' hid => hops.substituteIn s' (r' hσ) hid
  unfold applyNode
  split
  · next c =>
    refine .bind (.lifted (repeats_distributes? hops s hσ c))
      fun t1 members s1 r1 hmembers => ?_
    split
    · exact .pure s1 (s1.below_fixed rfl)
    · next ms _ =>
      refine .bind (.mapM s1 fun m hm t2 s2 r2 => ?_)
        fun t2 results s2 _ hresults => .of_stable (stable_unionOf s2 hresults)
      have r2' := r1.trans r2
      refine .lifted (hops.substitute s2 (below_insert (r2' hσ) (r2' hty.1) ?_)
        (r2' hid))
      exact r2 (below_some.1 hmembers m hm)
    · exact repeats_rebuild (h.later r1) s1 (r1 hid) (r1 hty)
  · exact repeats_rebuild h s hid hty

/-! ### The memo of a substitution -/

theorem repeats_step (hops : ops.Repeats q) (s : t.Sound)
    (hσ : t.Has σ) (hid : t.Has id) : Repeats q t (step ops σ id) := by
  unfold step
  split
  · next replacement hr => exact .pure s (below_get? hσ id replacement hr)
  · refine Repeating.getThe (fun memo memo' hv => ?_) fun memo hmemo => ?_
    · rw [show memo' = memo from hv]
    split
    · next done hd => exact .pure s (hmemo id done hd)
    · refine Repeating.guarded s hid (Repeating.Repeats.node (t := t.deeper) hid ?_)
      refine .bind (repeats_applyNode hops s.deeper hσ hid (s.deeper.below_resolve id))
        fun t1 result s1 _ hresult => ?_
      refine Repeating.bind (Repeating.modifyThe s1 (fun memo hm =>
        SubstitutionMemo.below_insert hm hresult) fun memo memo' hv => ?_) fun t2 _ s2 r2 _ => ?_
      · rw [show memo' = memo from hv]
      · exact .pure s2 (r2 hresult)

end Substitution

end GradualTyping
