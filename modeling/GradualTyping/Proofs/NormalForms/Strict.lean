/-
# Strict evaluation

Evaluation does not always look at what it gives.  It hands on a result from the
memory, a type that it takes for evaluated, a type that it meets during its own
evaluation, and the type of a field, an element or a result of a function that it
reads off a node (`Reduces` says when it does none of this).

*Strict* evaluation is the same, and refuses to go on with such a type that is not
in normal form: it trips the recursion guard.  Where it does not refuse, it is
evaluation (`strict_agrees`), and it is as safe (`safe_strict`).
-/

import GradualTyping.Proofs.Balance
import GradualTyping.Proofs.NormalForms.Fixed

namespace GradualTyping

open TypeTable Reduction

/-! ### Runs that agree unless the guard trips -/

/-- The first of two operations is the second wherever that one does not trip the guard. -/
def Lockstep.untripped : Lockstep where
  Rel c c' := ∀ t, (c' t).2.Untripped → t.Untripped ∧ c t = c' t
  pure _ _ h := ⟨h, rfl⟩
  bind {_ _ c c' f f'} hc hf t h := by
    obtain ⟨h1, e2⟩ := hf (c' t).1 (c' t).2 h
    obtain ⟨h0, e1⟩ := hc t h1
    refine ⟨h0, ?_⟩
    show f (c t).1 (c t).2 = f' (c' t).1 (c' t).2
    rw [e1, e2]
  look {_ _} g {_ _} _ h t ht := h (g t) t ht
  intern ty t h := ⟨(idle_insert t ty).depthError.symm.trans h, rfl⟩
  freshVariable t h :=
    ⟨(idle_insert { t with nextVariable := t.nextVariable + 1 } _).depthError.symm.trans h, rfl⟩
  whileExpanding {_} name {c c'} hc t h := by
    obtain ⟨h0, e⟩ := hc (t.expandingOne name) h
    refine ⟨h0, ?_⟩
    show ((c (t.expandingOne name)).1, (c (t.expandingOne name)).2.expandedOne) =
      ((c' (t.expandingOne name)).1, (c' (t.expandingOne name)).2.expandedOne)
    rw [e]

namespace Lockstep

theorem untripped_guarded {α : Type} (tripped : α) {c c' : TableM α} (h : untripped.Rel c c') :
    untripped.Rel (guarded tripped c) (guarded tripped c') := by
  intro t hu
  obtain ⟨hd, e'⟩ := guarded_of_untripped _ _ hu
  rw [e'] at hu
  obtain ⟨h0, e⟩ := h t.deeper hu
  have h0 : t.Untripped := h0
  refine ⟨h0, ?_⟩
  rw [e', guarded_eq, enter_of_lt h0 hd, ← e]

theorem untripped_remembering (id : TypeId) {c c' : TableM TypeId} (h : untripped.Rel c c') :
    untripped.Rel (remembering id c) (remembering id c') := by
  intro t hu
  rw [remembering_eq] at hu
  have hend : (c' (t.opening id)).2.Untripped := by split at hu <;> exact hu
  obtain ⟨h0, e⟩ := h (t.opening id) hend
  refine ⟨h0, ?_⟩
  rw [remembering_eq, remembering_eq, e]

theorem untripped_step {ops ops' : Operations} (J : untripped.Joined ops ops') (id : TypeId) :
    untripped.Rel (step ops id) (step ops' id) := by
  refine untripped.get (fun _ _ _ => rfl) fun t => ?_
  split
  · exact untripped.pure _
  split
  · exact untripped_guarded id (untripped_remembering id J.reduce)
  · exact untripped.pure id

/-- A balanced operation agrees with itself. -/
theorem untripped_of_balance {α : Type} {c : TableM α} (h : Course.balance.Rel c c) :
    untripped.Rel c c :=
  fun t hu => ⟨(h t trivial).2.2.untripped hu, rfl⟩

end Lockstep

/-! ### Refusing -/

/-- Give an answer with the guard tripped. -/
def refuse {α : Type} (a : α) : TableM α := fun t => (a, if t.depthError.isSome then t else t.trip)

theorem refuse_tripped {α : Type} (a : α) {t : TypeTable} : ¬ (refuse a t).2.Untripped := by
  unfold refuse
  dsimp only
  split
  · next h => exact fun hu => hu.not_isSome h
  · exact fun hu => nomatch hu

theorem keeps_refuse {α : Type} {a : α} {t : TypeTable} {Q : TypeTable → α → Prop} (s : t.Sound)
    (h : Q t a) (htrip : Q t.trip a) : Keeps Runs t (refuse a) Q := by
  show Leaves Runs t (refuse a) Q
  by_cases ht : t.depthError.isSome = true
  · have run : refuse a t = (a, t) := by rw [refuse, if_pos ht]
    exact ⟨run ▸ s, run ▸ Runs.refl t, run ▸ h⟩
  · have run : refuse a t = (a, t.trip) := by rw [refuse, if_neg ht]
    exact ⟨run ▸ s.trip, run ▸ runs_trip (Option.not_isSome_iff_eq_none.1 ht), run ▸ htrip⟩

namespace TypeTable

/-- Types whose evaluation reads a type off a node: an access by key, what a function returns
or constructs, what a promise holds. -/
def IsAccess (t : TypeTable) (id : TypeId) : Prop :=
  (∃ object index, t.resolve id = .indexed object index) ∨
    ∃ name args, t.resolve id = .reference name args ∧ t.alias? name = none ∧
      ∃ u ∈ [Utility.returnType, .instanceType, .awaited], Utility.ofName? name = some u

/-- Evaluation of a type builds a new one. -/
def Reduces (t : TypeTable) (id : TypeId) : Prop :=
  t.evaluated[id]? = none ∧ needsEvaluation t id = true ∧ id ∉ t.evaluating ∧
    ¬ t.IsAccess id

end TypeTable

open Classical in
/-- A step of evaluation that refuses to hand on what is not in normal form. -/
noncomputable def Reduction.strictStep (deeper : Operations) (id : TypeId) : TableM TypeId := do
  let t ← get
  let result ← step deeper id
  if t.Reduces id ∨ (← get).Normal result then return result else refuse result

/-- The operations with a number of levels left, of which evaluation is strict. -/
noncomputable def Operations.strict : Nat → Operations
  | 0 => { withLevels 0 with evaluate := strictStep { inert with evaluate := refuse } }
  | n + 1 => { withLevels (n + 1) with evaluate := strictStep (strict n) }

namespace Reduction

variable {ops : Operations} {t : TypeTable} {id : TypeId}

open Classical in
theorem strictStep_eq : strictStep ops id t =
    if t.Reduces id ∨ (step ops id t).2.Normal (step ops id t).1 then step ops id t
    else refuse (step ops id t).1 (step ops id t).2 := by
  show (if t.Reduces id ∨ (step ops id t).2.Normal (step ops id t).1 then _ else _ :
    TableM TypeId) (step ops id t).2 = _
  split <;> rfl

/-- **Where it does not refuse, a strict step is a step**, and hands on normal forms only. -/
theorem strictStep_of_untripped (h : (strictStep ops id t).2.Untripped) :
    strictStep ops id t = step ops id t ∧
      (t.Reduces id ∨ (step ops id t).2.Normal (step ops id t).1) := by
  rw [strictStep_eq] at h ⊢
  split at h
  · next hr =>
    rw [if_pos hr]
    exact ⟨rfl, hr⟩
  · exact absurd h (refuse_tripped _)

theorem safe_strictStep (hops : ops.Safe) (s : t.Sound) (hid : t.Has id) :
    Safe t (strictStep ops id) := by
  refine .read rfl ?_
  refine (safe_step hops s hid).bind fun t1 r s1 _ hr => .read rfl ?_
  split
  · exact .pure s1 hr
  · exact keeps_refuse s1 hr hr

end Reduction

namespace Operations

/-- The operations below the last level refuse everything. -/
theorem joined_refuse : Lockstep.untripped.Joined inert { inert with evaluate := refuse } where
  evaluate _ _ h := absurd h (refuse_tripped _)
  isSubtype _ _ _ _ h := ⟨h, rfl⟩
  substituteIn _ _ _ _ h := ⟨h, rfl⟩
  matchPattern _ _ _ _ _ h := ⟨h, rfl⟩
  inferFrom _ _ _ _ _ h := ⟨h, rfl⟩
  awaited _ _ h := ⟨h, rfl⟩

theorem joined_evaluate {n : Nat} {evaluate : TypeId → TableM TypeId}
    (h : ∀ id, Lockstep.untripped.Rel ((withLevels n).evaluate id) (evaluate id)) :
    Lockstep.untripped.Joined (withLevels n) { withLevels n with evaluate := evaluate } :=
  have J := joined_balance n
  ⟨h, fun as a b => Lockstep.untripped_of_balance (J.isSubtype as a b),
    fun σ id st => Lockstep.untripped_of_balance (J.substituteIn σ id st),
    fun p q b st => Lockstep.untripped_of_balance (J.matchPattern p q b st),
    fun p a b st => Lockstep.untripped_of_balance (J.inferFrom p a b st),
    fun id => Lockstep.untripped_of_balance (J.awaited id)⟩

theorem untripped_strictStep {ops ops' : Operations} (J : Lockstep.untripped.Joined ops ops')
    (id : TypeId) : Lockstep.untripped.Rel (step ops id) (strictStep ops' id) := by
  intro t hu
  have e := (strictStep_of_untripped hu).1
  rw [e] at hu ⊢
  exact Lockstep.untripped_step J id t hu

/-- **Strict operations agree with the operations unless they refuse.** -/
theorem joined_strict {n : Nat} : Lockstep.untripped.Joined (withLevels n) (strict n) := by
  induction n with
  | zero => exact joined_evaluate (untripped_strictStep joined_refuse)
  | succ n ih => exact joined_evaluate (untripped_strictStep ih)

theorem safe_refuse : ({ inert with evaluate := refuse } : Operations).Safe :=
  { safe_inert with
    layer := ⟨0, fun id t h => (Lockstep.untripped_step joined_refuse id t h).2⟩
    evaluate := fun s h => keeps_refuse s h h }

/-- **Strict operations are safe.** -/
theorem safe_strict {n : Nat} : (strict n).Safe := by
  have layer : ∃ k, ∀ id t, (step (strict n) id t).2.Untripped →
      (withLevels k).evaluate id t = step (strict n) id t :=
    ⟨n + 1, fun id t h => (Lockstep.untripped_step joined_strict id t h).2⟩
  induction n with
  | zero =>
    exact { safe_withLevels 0 with
      layer := layer
      evaluate := fun s h => safe_strictStep safe_refuse s h }
  | succ n ih =>
    exact { safe_withLevels (n + 1) with
      layer := layer
      evaluate := fun s h => safe_strictStep (ih ⟨n + 1, fun id t h =>
        (Lockstep.untripped_step joined_strict id t h).2⟩) s h }

end Operations

end GradualTyping
