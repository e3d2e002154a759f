/-
# The members of a type that evaluation leaves alone

Narrowing looks at the normal forms of the members of a type and keeps the members
as they are written.  Of a type none of whose alternatives evaluation changes
(`TypeTable.Still`), the two are the same: narrowing is a filter over the alternatives
of the type, followed by their union (`keepMembers_of_still`).
-/

import GradualTyping.Proofs.Memory

namespace GradualTyping

open TypeTable List Reduction

/-! ### Loops that only read -/

/-- A loop whose steps leave the table alone. -/
theorem mapM_of_reads {α β : Type} {t : TypeTable} {f : α → TableM β} {g : α → β} {xs : List α}
    (h : ∀ x ∈ xs, f x t = (g x, t)) : xs.mapM f t = (xs.map g, t) := by
  induction xs with
  | nil => rfl
  | cons x xs ih =>
    rw [mapM_cons, bind_of_eq (h x (.head _)),
      bind_of_eq (ih fun y hy => h y (.tail _ hy))]
    rfl

theorem filterMapM_of_reads {α β : Type} {t : TypeTable} {f : α → TableM (Option β)}
    {g : α → Option β} {xs : List α} (h : ∀ x ∈ xs, f x t = (g x, t)) :
    xs.filterMapM f t = (xs.filterMap g, t) := by
  induction xs with
  | nil => rfl
  | cons x xs ih =>
    have rest := ih fun y hy => h y (.tail _ hy)
    rw [filterMapM_cons, bind_of_eq (h x (.head _)), filterMap_cons]
    cases g x with
    | none => exact rest
    | some b => exact bind_of_eq rest

namespace TypeTable

variable {t : TypeTable} {type m : TypeId}

/-- Evaluation changes no alternative of a type. -/
def Still (t : TypeTable) (type : TypeId) : Prop :=
  ∀ m ∈ t.unionMembers type, needsEvaluation t m = false

theorem Sound.evaluate_of_plain (s : t.Sound) (h : needsEvaluation t m = false) :
    evaluate m t = (m, t) :=
  Operations.idle_withLevels _ s h

theorem Sound.evaluateNode_of_plain (s : t.Sound) (h : needsEvaluation t m = false) :
    evaluateNode m t = (t.resolve m, t) :=
  bind_of_eq (s.evaluate_of_plain h)

theorem isReducible_of_plain (h : needsEvaluation t m = false) :
    t.isReducible m = false := by
  unfold isReducible
  unfold needsEvaluation at h
  split at h
  · next hty => rw [hty]; rfl
  · next hty => rw [hty]; rfl
  · exact h

theorem Still.whole (h : t.Still type) : needsEvaluation t type = false := by
  cases hty : t.resolve type with
  | union ms =>
    have members : t.unionMembers type = ms := by rw [TypeTable.unionMembers, hty]
    rw [needsEvaluation, hty]
    exact any_eq_false.2 fun m hm =>
      Bool.not_eq_true _ ▸ isReducible_of_plain (h m (members ▸ hm))
  | never => rw [needsEvaluation, hty]; rfl
  | _ =>
    refine h type ?_
    rw [TypeTable.unionMembers, hty]
    exact .head _

theorem Sound.increasing_unionMembers (s : t.Sound) : Increasing (t.unionMembers type) := by
  unfold TypeTable.unionMembers
  split
  · next ms hms => exact (s.canonical_node hms).increasing
  · exact .nil
  · exact pairwise_singleton ..

/-- An alternative is its own only alternative. -/
theorem Sound.unionMembers_alternative (s : t.Sound) (hm : m ∈ t.unionMembers type) :
    t.unionMembers m = [m] := by
  have plain := s.unionMembers_plain hm
  unfold TypeTable.unionMembers
  split
  · next hty => rw [hty] at plain; cases plain.1
  · next hty => exact absurd hty plain.2
  · rfl

/-! ### The alternatives are the members -/

/-- An alternative that evaluation leaves alone is its own only member. -/
theorem Sound.unfoldWithin_alternative (s : t.Sound) (hm : m ∈ t.unionMembers type)
    (h : needsEvaluation t m = false) {fuel : Nat} :
    unfoldWithin (fuel + 1) m t = ([m], t) := by
  have plain := s.unionMembers_plain hm
  have unnamed : t.namedUnion? m = none := by
    have reducible := isReducible_of_plain h
    unfold namedUnion?
    split
    · next hty => rw [isReducible, hty] at reducible; cases reducible
    · rfl
  have own : evaluatedMembers m t = ([m], t) := by
    rw [evaluatedMembers, bind_of_eq (s.evaluateNode_of_plain h)]
    cases hty : t.resolve m with
    | union => rw [hty] at plain; cases plain.1
    | never => exact absurd hty plain.2
    | _ => rfl
  have node : GradualTyping.resolve m t = (t.resolve m, t) := rfl
  rw [unfoldWithin, bind_of_eq node]
  cases hty : t.resolve m with
  | union => rw [hty] at plain; cases plain.1
  | never => exact absurd hty plain.2
  | _ =>
    dsimp only
    rw [get_bind, unnamed]
    exact own

section

variable (s : t.Sound) (h : t.Still type)
include s h

theorem Sound.unfoldWithin_of_still (fuel : Nat) :
    unfoldWithin (fuel + 2) type t = (t.unionMembers type, t) := by
  have node : GradualTyping.resolve type t = (t.resolve type, t) := rfl
  cases hty : t.resolve type with
  | union ms =>
    have members : t.unionMembers type = ms := by rw [TypeTable.unionMembers, hty]
    have each : ms.mapM (unfoldWithin (fuel + 1)) t = (ms.map fun m => [m], t) :=
      mapM_of_reads fun m hm => s.unfoldWithin_alternative (members ▸ hm) (h m (members ▸ hm))
    rw [unfoldWithin, bind_of_eq node, hty]
    refine (bind_of_eq each).trans ?_
    rw [members, ← flatMap_def, flatMap_singleton']
    rfl
  | never =>
    rw [unfoldWithin, bind_of_eq node, TypeTable.unionMembers, hty]
    rfl
  | _ =>
    have alone : t.unionMembers type = [type] := by rw [TypeTable.unionMembers, hty]
    have hmem : type ∈ t.unionMembers type := alone ▸ .head _
    rw [s.unfoldWithin_alternative hmem (h type hmem), alone]

theorem Sound.namedMembers_of_still : namedMembers type t = (t.unionMembers type, t) := by
  have limits : getLimits t = (t.limits, t) := rfl
  rw [namedMembers, bind_of_eq limits]
  refine (bind_of_eq (s.unfoldWithin_of_still h _)).trans (Prod.ext ?_ rfl)
  exact dropRepeats_of_increasing s.increasing_unionMembers

/-- **The members are the alternatives**, and each is its own normal form. -/
theorem Sound.memberForms_of_still :
    memberForms type t = ((t.unionMembers type).map fun m => (m, m), t) := by
  rw [memberForms, bind_of_eq (s.namedMembers_of_still h)]
  exact mapM_of_reads fun m hm => bind_of_eq (s.evaluate_of_plain (h m hm))

/-- **Narrowing filters the alternatives.** -/
theorem Sound.keepMembers_of_still (keep : TypeId → TableM (Option TypeId)) :
    keepMembers type keep t = ((t.unionMembers type).filterMapM keep >>= unionOf) t := by
  have loop : ∀ {f : TypeId × TypeId → TableM (Option TypeId)} (ms : List TypeId),
      (∀ m, f (m, m) = keep m) → (ms.map fun m => (m, m)).filterMapM f = ms.filterMapM keep := by
    intro f ms hf
    induction ms with
    | nil => rfl
    | cons m ms ih => rw [map_cons, filterMapM_cons, filterMapM_cons, hf, ih]
  rw [keepMembers, bind_of_eq (s.memberForms_of_still h), loop]
  intro m
  have same : (Option.map fun k => if k = m then m else k) = id := by
    refine funext fun o => ?_
    cases o with
    | none => rfl
    | some k => simp only [Option.map_some, id]; grind
  dsimp only
  rw [same]
  exact bind_pure (keep m)

theorem Sound.isTop_of_still :
    isTop type t = (decide (t.resolve type = .any ∨ t.resolve type = .unknown), t) := by
  rw [isTop, bind_of_eq (s.evaluateNode_of_plain h.whole)]
  cases t.resolve type <;> rfl

end

end TypeTable

end GradualTyping
