/-
# Rules for comparable types

`TypeTable.Comparable` is the greatest relation closed under the clauses on a table
that comparison leaves.  This module takes it apart and puts it together.

Comparison of two types first replaces the source by what evaluation makes of it,
then the target, and selects a rule by the two nodes when both stay as they are.
On the table that comparison leaves, evaluation only looks into the memory, so
`Reduct` and `Stays` say which of the three it is.  They exclude references that
are compared by declared variances (`TypeTable.Unvaried`), since those are not
replaced at all.

Comparison affirms what is comparable, also where it compares functions with type
parameters on its way (`affirms_of_comparable`).
-/

import GradualTyping.Proofs.Comparison.Coinduction

namespace GradualTyping

open TypeTable List Reduction Operations

namespace TypeTable

/-- A sound table between evaluations, with a guard that has not tripped. -/
structure Resting (t : TypeTable) : Prop where
  sound : t.Sound
  evaluating : t.evaluating = []
  untripped : t.Untripped

/-- No alias with parameters gives each of them a variance. -/
def Unvaried (t : TypeTable) : Prop :=
  ∀ name definition, t.alias? name = some definition → definition.params ≠ [] →
    Subtyping.variances? t definition.params = none

/-- What is remembered of a side that evaluation changes. -/
structure Reduct (t : TypeTable) (a a' : TypeId) : Prop where
  needs : Subtyping.needsEvaluation t a = true
  remembered : t.evaluated[a]? = some a'
  ne : a' ≠ a

/-- A side that evaluation does not change. -/
def Stays (t : TypeTable) (a : TypeId) : Prop :=
  Subtyping.needsEvaluation t a = false ∨ t.evaluated[a]? = some a

/-- Two types that are related by some relation closed under the clauses. -/
def Comparable (t : TypeTable) (a b : TypeId) : Prop := Subtyping.Supported t [] a b

end TypeTable

namespace TypeTable

variable {t : TypeTable} {a a' a'' : TypeId}

theorem Reduct.unique (h : t.Reduct a a') (h' : t.Reduct a a'') : a' = a'' :=
  Option.some.inj (h.remembered.symm.trans h'.remembered)

theorem Reduct.not_stays (h : t.Reduct a a') : ¬ t.Stays a := by
  rintro (plain | same)
  · rw [h.needs] at plain
    cases plain
  · exact h.ne (Option.some.inj (h.remembered.symm.trans same))

/-- A type that is replaced has a node that evaluation replaces, or is an intersection. -/
theorem Reduct.plain_ne (h : t.Reduct a a') {ty : Ty} (hty : ty.isReducible = false)
    (hmeet : ∀ ms, ty ≠ .intersection ms) : t.resolve a ≠ ty := by
  rintro rfl
  have needs := h.needs
  unfold Subtyping.needsEvaluation at needs
  split at needs
  · next ms hms => exact hmeet ms hms
  · rw [hty] at needs
    cases needs

end TypeTable

namespace Subtyping

theorem settled_iff {t : TypeTable} {a b : TypeId} : settled t a b = true ↔
    a = b ∨ (t.resolve b = .any ∨ t.resolve b = .unknown) ∨
      t.resolve a = .any ∨ t.resolve a = .never := by
  rw [settled, Bool.or_eq_true, beq_iff_eq]
  refine or_congr_right ?_
  split <;> simp_all

/-! ### What evaluation makes of a side -/

theorem needs_of_needs {t : TypeTable} {a : TypeId} (h : needsEvaluation t a = true) :
    Reduction.needsEvaluation t a = true := by
  unfold needsEvaluation at h
  unfold Reduction.needsEvaluation
  split at h
  · next ms hms => rw [hms]; exact h
  · next ty hms =>
    split
    · next ms hms' => rw [hms'] at h; cases h
    · next ms hms' => exact absurd hms' (hms ms)
    · exact h

end Subtyping

namespace Subtyping

section Reduced

variable {n : Nat} {t t' : TypeTable} {a a' b : TypeId}

theorem reduced?_of_plain {ops : Operations} (h : needsEvaluation t a = false) :
    reduced? ops a t = (none, t) := by
  show (if needsEvaluation t a = true then _ else _ : TableM (Option TypeId)) t = _
  rw [if_neg (by rw [h]; exact Bool.false_ne_true)]
  rfl

theorem reduced?_of_needs {ops : Operations} (h : needsEvaluation t a = true) :
    reduced? ops a t = (if (ops.evaluate a t).1 = a then none else some (ops.evaluate a t).1,
      (ops.evaluate a t).2) := by
  show (if needsEvaluation t a = true then _ else _ : TableM (Option TypeId)) t = _
  rw [if_pos h]
  rfl

theorem reduced?_of_stays (h : t.Stays a) : reduced? (.withLevels n) a t = (none, t) := by
  obtain ⟨deeper, -, -, hstep⟩ := evaluate_step
  rcases h with h | h
  · exact reduced?_of_plain h
  · cases hn : needsEvaluation t a with
    | false => exact reduced?_of_plain hn
    | true => rw [reduced?_of_needs hn, hstep, step_of_remembered h, if_pos rfl]

theorem reduced?_of_reduct (h : t.Reduct a a') : reduced? (.withLevels n) a t = (some a', t) := by
  obtain ⟨deeper, -, -, hstep⟩ := evaluate_step
  rw [reduced?_of_needs h.needs, hstep, step_of_remembered h.remembered, if_neg h.ne]

/-- What a side was found to be, it is on the table left by looking: a type that was not
remembered is remembered then. -/
theorem reduced?_run (s : t.Sound) (rest : t.evaluating = []) (ha : t.Has a)
    (untripped : (reduced? (.withLevels n) a t).2.Untripped) :
    (∃ a', (reduced? (.withLevels n) a t).1 = some a' ∧
      (reduced? (.withLevels n) a t).2.Reduct a a') ∨
    (reduced? (.withLevels n) a t).1 = none ∧ (reduced? (.withLevels n) a t).2.Stays a := by
  obtain ⟨deeper, safe, -, hstep⟩ := evaluate_step
  cases hn : needsEvaluation t a with
  | false =>
    rw [reduced?_of_plain hn]
    exact .inr ⟨rfl, .inl hn⟩
  | true =>
    rw [reduced?_of_needs hn, hstep] at untripped ⊢
    have run : Leaves Runs t (Reduction.step deeper a) _ := Reduction.safe_step safe s ha
    have remembered : (Reduction.step deeper a t).2.evaluated[a]? =
        some (Reduction.step deeper a t).1 := by
      cases hmemo : t.evaluated[a]? with
      | some done => rw [step_of_remembered hmemo]; exact hmemo
      | none =>
        exact (step_remembers hmemo (needs_of_needs hn) (rest ▸ not_mem_nil)
          untripped).2.2
    have needs : needsEvaluation (Reduction.step deeper a t).2 a = true :=
      ((s.agreeBelow run.related).comparedReduced ha).trans hn
    dsimp only at remembered needs ⊢
    split
    · next h => exact .inr ⟨rfl, .inr (remembered.trans (congrArg some h))⟩
    · next h => exact .inl ⟨_, rfl, needs, remembered, h⟩

/-- Looking at a side from which a run leads back to the same table leaves that table: what was
not remembered would be remembered in the end. -/
theorem reduced?_back (F : t.Resting) (ha : t.Has a) {r : Option TypeId}
    (hr : reduced? (.withLevels n) a t = (r, t')) (back : t'.Runs t) :
    t' = t ∧ ((∃ a', r = some a' ∧ t.Reduct a a') ∨ r = none ∧ t.Stays a) := by
  obtain ⟨deeper, -, -, hstep⟩ := evaluate_step
  have untripped := back.untripped F.untripped
  have same : t' = t := by
    cases hn : needsEvaluation t a with
    | false =>
      rw [reduced?_of_plain hn] at hr
      exact (congrArg Prod.snd hr).symm
    | true =>
      rw [reduced?_of_needs hn, hstep] at hr
      obtain ⟨-, rfl⟩ := Prod.mk.inj hr
      cases hmemo : t.evaluated[a]? with
      | some done => rw [step_of_remembered hmemo]
      | none =>
        have remembered := (Reduction.step_remembers hmemo (needs_of_needs hn)
          (F.evaluating ▸ not_mem_nil) untripped).2.2
        rw [back.remembered remembered] at hmemo
        cases hmemo
  subst same
  have found := reduced?_run (n := n) F.sound F.evaluating ha (by rw [hr]; exact untripped)
  rw [hr] at found
  exact ⟨rfl, found⟩

end Reduced

/-! ### The clause of a pair -/

section Clause

variable {n : Nat} {t : TypeTable} {a b : TypeId}
variable {ask : Ask TableM}

/-- Without declared variances only equal references are decided before they are evaluated. -/
theorem byVariance_of_unvaried (unvaried : t.Unvaried) {x y : Ty}
    (h : ∀ name args, x = .reference name args → y ≠ .reference name args) (ask : Ask TableM) :
    byVariance ask x y t = (none, t) := by
  unfold byVariance
  split
  · next name xs name' ys =>
    split
    · next hname =>
      subst hname
      unfold compareReferences
      split
      · rfl
      next hlen =>
      split
      · next hargs => exact absurd (hargs ▸ rfl) (h name xs rfl)
      next hargs =>
      rw [bind_of_eq (show (liftM (get : TableM TypeTable) : TableM TypeTable) t = (t, t) from rfl)]
      cases hdef : t.alias? name with
      | none => rfl
      | some definition =>
      dsimp only
      split
      · rfl
      next hparams =>
      have hne : definition.params ≠ [] := by
        intro hnil
        have hxs : 0 = xs.length := by rw [hnil] at hparams; exact Decidable.not_not.1 hparams
        have hys : xs.length = ys.length := Decidable.not_not.1 hlen
        exact hargs ((length_eq_zero_iff.1 hxs.symm).trans
          (length_eq_zero_iff.1 (hxs.trans hys).symm).symm)
      rw [unvaried name definition hdef hne]
      rfl
    · rfl
  · rfl

/-- A clause that variances do not decide: the source is replaced, or the target, or the nodes
select a rule. -/
theorem clause_of_undecided {ops : Operations}
    (undecided : byVariance ask (t.resolve a) (t.resolve b) t = (none, t)) :
    clause ops ask a b t = (do
      match ← reduced? ops a with
      | some a' => ask a' b
      | none =>
        match ← reduced? ops b with
        | some b' => ask a b'
        | none => structural ops ask a b (t.resolve a) (t.resolve b) : TableM Bool) t := by
  have read : ∀ c, (liftM (resolve c : TableM Ty) : TableM Ty) t = (t.resolve c, t) := fun _ => rfl
  rw [clause, bind_of_eq (read a), bind_of_eq (read b), bind_of_eq undecided]
  rfl

theorem undecided_of_unvaried (s : t.Sound) (unvaried : t.Unvaried) (hab : a ≠ b) (ask : Ask TableM) :
    byVariance ask (t.resolve a) (t.resolve b) t = (none, t) :=
  byVariance_of_unvaried unvaried (fun _ _ ha hb => hab
    (s.get?_inj (get?_of_resolve ha nofun) (get?_of_resolve hb nofun))) ask

theorem needs_of_plain (h : Reduction.needsEvaluation t a = false) : needsEvaluation t a = false :=
  Bool.eq_false_iff.2 fun e => by rw [needs_of_needs e] at h; cases h

/-- References are evaluated. -/
theorem undecided_of_plain (h : needsEvaluation t a = false ∨ needsEvaluation t b = false) :
    byVariance ask (t.resolve a) (t.resolve b) t = (none, t) := by
  have named : ∀ {c name args}, needsEvaluation t c = false → t.resolve c ≠ .reference name args := by
    intro c name args h hc
    rw [needsEvaluation, hc] at h
    cases h
  cases ha : t.resolve a with
  | reference =>
    cases hb : t.resolve b with
    | reference => exact h.elim (fun h => absurd ha (named h)) fun h => absurd hb (named h)
    | _ => rfl
  | _ => rfl

/-- Types that evaluation leaves alone select a rule by their nodes. -/
theorem clause_of_plain {ops : Operations} (ha : needsEvaluation t a = false)
    (hb : needsEvaluation t b = false) :
    clause ops ask a b t = structural ops ask a b (t.resolve a) (t.resolve b) t := by
  rw [clause_of_undecided (undecided_of_plain (.inl ha)), bind_of_eq (reduced?_of_plain ha)]
  exact bind_of_eq (reduced?_of_plain hb)

/-- The rule for two nodes on a table, with its questions answered by a relation. -/
def structuralOver (t : TypeTable) (R : TypeId → TypeId → Bool) (a b : TypeId) : Bool × TypeTable :=
  (structural t.operations (fun x y => pure (R x y)) a b (t.resolve a) (t.resolve b) : TableM Bool) t

end Clause

end Subtyping

/-! ### Comparable types -/

namespace TypeTable.Comparable

open Subtyping

variable {t : TypeTable} {a a' b b' : TypeId}

theorem below (h : t.Comparable a b) : t.Has a ∧ t.Has b := by
  obtain ⟨S, hab, closed⟩ := h
  exact ⟨(closed a b hab).1, (closed a b hab).2.1⟩

theorem of_settled (ha : t.Has a) (hb : t.Has b) (h : settled t a b = true) : t.Comparable a b :=
  supported_of_holds ha hb (.inl h)

theorem refl (ha : t.Has a) : t.Comparable a a :=
  of_settled ha ha (by rw [settled, beq_self_eq_true, Bool.true_or])

open Classical in
/-- Comparable types are settled or have their clause over comparable types. -/
theorem closed (F : t.Resting) (h : t.Comparable a b) : settled t a b = true ∨
    comparesGeneric t a b = false ∧
      clauseOver t (fun x y => decide (t.Comparable x y)) a b = (true, t) := by
  obtain ⟨S, hab, closed⟩ := h
  obtain ⟨ha, hb, hsettled | hassumed | ⟨hg, hclause⟩⟩ := closed a b hab
  · exact .inl hsettled
  · exact absurd hassumed not_mem_nil
  · refine .inr ⟨hg, clauseOver_mono F.sound F.evaluating F.untripped (fun x y hxy => ?_) ha hb hg
      hclause⟩
    exact decide_eq_true ⟨S, hxy, closed⟩

open Classical in
/-- **Coinduction**: a relation is comparable if each of its pairs is settled or has its clause
over the relation and comparable types. -/
theorem coinduct (F : t.Resting) (R : TypeId → TypeId → Prop)
    (hR : ∀ x y, R x y → t.Has x ∧ t.Has y ∧ (t.Comparable x y ∨
      comparesGeneric t x y = false ∧
        clauseOver t (fun x y => decide (R x y ∨ t.Comparable x y)) x y = (true, t)))
    (h : R a b) : t.Comparable a b := by
  refine ⟨fun x y => decide (R x y ∨ t.Comparable x y), decide_eq_true (.inl h), fun x y hxy => ?_⟩
  have known : t.Comparable x y → t.Has x ∧ t.Has y ∧ (settled t x y = true ∨
      (x, y) ∈ [] ∨ comparesGeneric t x y = false ∧
        clauseOver t (fun x y => decide (R x y ∨ t.Comparable x y)) x y = (true, t)) := by
    intro hxy
    refine ⟨hxy.below.1, hxy.below.2, (hxy.closed F).imp_right fun h => .inr ⟨h.1, ?_⟩⟩
    exact clauseOver_mono F.sound F.evaluating F.untripped
      (fun x y hxy => decide_eq_true (.inr (of_decide_eq_true hxy))) hxy.below.1 hxy.below.2 h.1 h.2
  rcases of_decide_eq_true hxy with hxy | hxy
  · obtain ⟨hx, hy, hxy | hxy⟩ := hR x y hxy
    · exact known hxy
    · exact ⟨hx, hy, .inr (.inr hxy)⟩
  · exact known hxy

open Classical in
/-- **Comparable types by cases**: the source is replaced, or the target is, or a rule for the two
nodes holds. -/
theorem cases (F : t.Resting) (unvaried : t.Unvaried) (h : t.Comparable a b) :
    settled t a b = true ∨ (∃ a', t.Reduct a a' ∧ t.Comparable a' b) ∨
      t.Stays a ∧ ((∃ b', t.Reduct b b' ∧ t.Comparable a b') ∨
        t.Stays b ∧ structuralOver t (fun x y => decide (t.Comparable x y)) a b = (true, t)) := by
  rcases h.closed F with hs | ⟨-, hclause⟩
  · exact .inl hs
  by_cases hab : a = b
  · exact .inl (by rw [hab, settled, beq_self_eq_true, Bool.true_or])
  refine .inr ?_
  rw [clauseOver, clause_of_undecided (undecided_of_unvaried F.sound unvaried hab _)] at hclause
  have safe := safe_operations t
  have ask : SafeAsk fun x y => (pure (decide (t.Comparable x y)) : TableM Bool) :=
    fun s _ _ => .pure s trivial
  have source : Leaves Runs t (reduced? t.operations a) _ := safe_reduced? safe F.sound h.below.1
  -- The run ends in `t` again, so looking at the sides has left `t`.
  cases hr : reduced? t.operations a t with
  | mk r t1 =>
    obtain ⟨s1, r1, -⟩ := source.ends hr
    obtain ⟨r0, t0, hr0, hclause⟩ := (Ending.bind (m := TableM)).1 hclause
    obtain ⟨rfl, rfl⟩ := Prod.mk.inj (hr0.symm.trans hr)
    cases r0 with
    | some a' =>
      obtain ⟨hc, rfl⟩ := (Ending.pure (m := TableM)).1 hclause
      rcases (reduced?_back F h.below.1 hr (.refl _)).2 with ⟨_, hsome, hred⟩ | ⟨hnone, -⟩
      · obtain rfl := Option.some.inj hsome
        exact .inl ⟨a', hred, of_decide_eq_true hc.symm⟩
      · cases hnone
    | none =>
      obtain ⟨r2, t2, hr2, hclause⟩ := (Ending.bind (m := TableM)).1 hclause
      have target : Leaves Runs t0 (reduced? t.operations b) _ :=
        safe_reduced? safe s1 (r1 h.below.2)
      obtain ⟨s2, r12, -⟩ := target.ends hr2
      have back : t2.Runs t := by
        cases r2 with
        | some b' =>
          obtain ⟨-, rfl⟩ := (Ending.pure (m := TableM)).1 hclause
          exact .refl _
        | none =>
          have r := r1.trans r12
          have rule : Leaves Runs t2 (structural t.operations _ a b _ _) _ :=
            (tandem_safe safe ask).structural s2 (r h.below.1) (r h.below.2)
              (r (F.sound.below_resolve a)) (r (F.sound.below_resolve b))
              fun _ _ _ _ => trivial
          exact (rule.ends hclause).2.1
      obtain ⟨rfl, ⟨_, hsome, -⟩ | ⟨-, stays⟩⟩ := reduced?_back F h.below.1 hr (r12.trans back)
      · cases hsome
      refine .inr ⟨stays, ?_⟩
      obtain ⟨rfl, ⟨b', rfl, hred⟩ | ⟨rfl, stays'⟩⟩ := reduced?_back F h.below.2 hr2 back
      · exact .inl ⟨b', hred, of_decide_eq_true (congrArg Prod.fst hclause)⟩
      · exact .inr ⟨stays', hclause⟩

/-! ### Introduction -/

section Clause

variable {R : TypeId → TypeId → Bool}

theorem clauseOver_of_reduct (F : t.Resting) (unvaried : t.Unvaried) (hab : a ≠ b)
    (red : t.Reduct a a') : clauseOver t R a b = (R a' b, t) := by
  have source : reduced? t.operations a t = (some a', t) := reduced?_of_reduct red
  rw [clauseOver, clause_of_undecided (undecided_of_unvaried F.sound unvaried hab _), bind_of_eq source]
  rfl

theorem clauseOver_of_stay (F : t.Resting) (unvaried : t.Unvaried) (hab : a ≠ b)
    (stays : t.Stays a) (stays' : t.Stays b) : clauseOver t R a b = structuralOver t R a b := by
  have source : reduced? t.operations a t = (none, t) := reduced?_of_stays stays
  have target : reduced? t.operations b t = (none, t) := reduced?_of_stays stays'
  rw [clauseOver, clause_of_undecided (undecided_of_unvaried F.sound unvaried hab _), bind_of_eq source]
  dsimp only
  rw [bind_of_eq target]
  rfl

end Clause

theorem not_generic_of_reduct (red : t.Reduct a a') (b : TypeId) :
    comparesGeneric t a b = false := by
  have needs := red.needs
  unfold Subtyping.needsEvaluation at needs
  unfold comparesGeneric
  split
  · next hf _ => rw [hf] at needs; cases needs
  · rfl

open Classical in
/-- A type is comparable with what the types it is replaced by, in any number of steps, are
comparable with. -/
theorem coinduct_reduct (F : t.Resting) (unvaried : t.Unvaried) (R : TypeId → TypeId → Prop)
    (hR : ∀ x y, R x y → t.Has x ∧ t.Has y ∧
      (t.Comparable x y ∨ ∃ x', t.Reduct x x' ∧ R x' y)) (h : R a b) : t.Comparable a b := by
  refine coinduct F R (fun x y hxy => ?_) h
  obtain ⟨hx, hy, known | ⟨x', red, hx'⟩⟩ := hR x y hxy
  · exact ⟨hx, hy, .inl known⟩
  refine ⟨hx, hy, ?_⟩
  by_cases heq : x = y
  · exact .inl (heq ▸ refl hx)
  · refine .inr ⟨not_generic_of_reduct red y, ?_⟩
    rw [clauseOver_of_reduct F unvaried heq red, decide_eq_true (.inl hx')]

theorem of_reduct (F : t.Resting) (unvaried : t.Unvaried) (red : t.Reduct a a')
    (ha : t.Has a) (h : t.Comparable a' b) : t.Comparable a b := by
  refine coinduct_reduct F unvaried (fun x y => x = a ∧ y = b ∨ t.Comparable x y) (fun x y hxy => ?_)
    (.inl ⟨rfl, rfl⟩)
  rcases hxy with ⟨rfl, rfl⟩ | hxy
  · exact ⟨ha, h.below.2, .inr ⟨a', red, .inr h⟩⟩
  · exact ⟨hxy.below.1, hxy.below.2, .inl hxy⟩

open Classical in
/-- Types are comparable by their clause over comparable types. -/
theorem of_clause (F : t.Resting) (ha : t.Has a) (hb : t.Has b)
    (generic : comparesGeneric t a b = false)
    (h : clauseOver t (fun x y => decide (t.Comparable x y)) a b = (true, t)) :
    t.Comparable a b := by
  obtain ⟨R, hR⟩ : ∃ R : TypeId → TypeId → Prop, ∀ x y, R x y ↔ x = a ∧ y = b :=
    ⟨_, fun _ _ => .rfl⟩
  refine coinduct F R (fun x y hxy => ?_) ((hR a b).2 ⟨rfl, rfl⟩)
  obtain ⟨rfl, rfl⟩ := (hR x y).1 hxy
  refine ⟨ha, hb, .inr ⟨generic, ?_⟩⟩
  exact clauseOver_mono F.sound F.evaluating F.untripped
    (fun x y hxy => decide_eq_true (.inr (of_decide_eq_true hxy))) ha hb generic h

open Classical in
/-- Types that stay are comparable by the rule for their nodes. -/
theorem of_rule (F : t.Resting) (unvaried : t.Unvaried) (ha : t.Has a) (hb : t.Has b)
    (generic : comparesGeneric t a b = false) (staysa : t.Stays a) (staysb : t.Stays b)
    (h : structuralOver t (fun x y => decide (t.Comparable x y)) a b = (true, t)) :
    t.Comparable a b := by
  by_cases hab : a = b
  · exact hab ▸ refl ha
  · refine of_clause F ha hb generic ?_
    rw [clauseOver_of_stay F unvaried hab staysa staysb, h]

/-- **The target may be replaced.** -/
theorem reduct_right (F : t.Resting) (unvaried : t.Unvaried) (h : t.Comparable a b)
    (red : t.Reduct b b') : t.Comparable a b' := by
  refine coinduct_reduct F unvaried (fun x y => y = b' ∧ t.Comparable x b) ?_ ⟨rfl, h⟩
  rintro x y ⟨rfl, hx⟩
  have hb' : t.Has y := (F.sound.evaluated red.remembered).1
  refine ⟨hx.below.1, hb', ?_⟩
  rcases hx.cases F unvaried with hs | ⟨x', redx, hx'⟩ | ⟨-, ⟨b1, red1, hx'⟩ | ⟨stays, -⟩⟩
  · rcases settled_iff.1 hs with rfl | hb | hleft
    · exact .inl (of_reduct F unvaried red hx.below.1 (refl hb'))
    · rcases hb with hb | hb
      · exact absurd hb (red.plain_ne rfl nofun)
      · exact absurd hb (red.plain_ne rfl nofun)
    · exact .inl (of_settled hx.below.1 hb' (settled_iff.2 (.inr (.inr hleft))))
  · exact .inr ⟨x', redx, rfl, hx'⟩
  · exact .inl (red1.unique red ▸ hx')
  · exact absurd stays red.not_stays

end TypeTable.Comparable

end GradualTyping
