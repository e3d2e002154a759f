/-
# Comparison gives the same again

A rule of comparison run a second time asks the same questions: what it reads of the
table is there on every later one, and a function with type parameters is adapted by
an inference that solves the parameters alike.  So answering as before is a relation
between two runs that every connective of the rules respects (`tandem_repeats`), and
by induction on the levels it holds of the guarded operations at every depth
(`Operations.repeats_withLevels`).
-/

import GradualTyping.Proofs.Sound.Layers

namespace GradualTyping

open TypeTable Reduction

namespace Subtyping

variable {ops : Operations} {t : TypeTable}

theorem repeats_member? (hops : ops.Repeats True) (s : t.Sound) {id : TypeId} (hid : t.Has id)
    (name : String) : Repeats True t (Members.member? ops id name) :=
  .bind (hops.evaluate s hid) fun _ _ s1 _ he =>
    .of_stable (Members.stable_ofEvaluated? s1 he)

/-! ### The rules -/

/-- Questions that are answered as before. -/
def RepeatsAsk (ask : Ask TableM) : Prop :=
  ∀ {t : TypeTable} {a b : TypeId}, t.Sound → Below t.size a → Below t.size b → Repeats True t (ask a b)

/-- Every connective answers as before when its parts do. -/
theorem tandem_repeats (hops : ops.Repeats True) {ask : Ask TableM} (h : RepeatsAsk ask) :
    Tandem ops ops ask ask (fun _ => True) (fun t c c' => RepeatsAs True id t c c')
      (fun t c c' => RepeatsAs True id t c c') where
  const s _ := .pure s trivial rfl
  atom s ha hb := h s ha hb
  and hc hd := hc.bind fun t1 holds holds' s1 r1 _ same => by
    obtain rfl : holds' = holds := same
    cases holds' with
    | true => exact hd t1 s1 r1
    | false => exact .pure s1 trivial rfl
  both hc hd := hc.bind fun t1 x x' s1 r1 _ same => (hd t1 s1 r1).bind
    fun _ y y' s2 _ _ same' => .pure s2 trivial (by
      rw [show x' = x from same, show y' = y from same'])
  any s hps := Repeating.Repeats.anyM s fun p hp _ s1 r1 =>
    h s1 (r1 (hps p hp).1) (r1 (hps p hp).2)
  read s hc k := .reading hc fun t' g aliases => k t' ⟨s.agreeBelow g, aliases⟩
  run hc k := hc.bind fun t1 a a' s1 r1 ha same => (show a' = a from same) ▸ k t1 a s1 r1 ha
  reduced? s hid := repeats_reduced? hops s hid
  member? s hid := repeats_member? hops s hid _
  anyKey s := .of_stable (stable_anyKey s)
  adapt s hf hg _ := repeats_adapt hops s hf hg

theorem repeats_step (hops : ops.Repeats True) {ask : Assumptions → Ask TableM}
    (h : ∀ assumed, RepeatsAsk (ask assumed)) (s : t.Sound) {assumed : Assumptions}
    {sub sup : TypeId} (hsub : t.Has sub) (hsup : t.Has sup) :
    Repeats True t (step ops ask assumed sub sup) := by
  unfold step
  refine Repeating.Repeats.table (m := TableM) (fun t' g => ?_) ?_
  · rw [settled_congr g hsub hsup]
  split
  · exact Repeating.pure s trivial
  split
  · exact Repeating.pure s trivial
  · exact .guarded s trivial
      ((tandem_repeats hops (h _)).clause s.deeper hsub hsup fun _ _ _ _ => trivial)

end Subtyping

/-! ### The levels -/

namespace Operations

theorem repeats_inert : inert.Repeats True where
  evaluate s h := .pure s h
  isSubtype _ s _ _ := .pure s trivial
  substituteIn s _ h := .pure s h
  inferFrom _ s _ _ := .pure s trivial

theorem repeats_above {deeper : Unit → Operations} (safe : (deeper ()).Safe)
    (h : (deeper ()).Repeats True) : (above deeper).Repeats True where
  evaluate s hid := .of_recalls (safe_step safe s hid) fun _ =>
    recalls_step safe s hid
  isSubtype _ s hsub hsup :=
    Subtyping.repeats_step h (fun _ _ _ _ s' ha hb => h.isSubtype _ s' ha hb) s hsub hsup
  substituteIn s hσ hid := Substitution.repeats_step h s hσ hid
  inferFrom _ s hp ha := Inference.repeats_step h s hp ha

/-- **The guarded operations answer as before at every depth.** -/
theorem repeats_withLevels {n : Nat} : (withLevels n).Repeats True := by
  induction n with
  | zero => exact repeats_above safe_inert repeats_inert
  | succ n ih => exact repeats_above (safe_withLevels n) ih

end Operations

/-- What is done with the operations of a table repeats at the same depth. -/
theorem repeats_getOperations {α : Type} [Bounded α] {t : TypeTable} {c : Operations → TableM α}
    (h : Repeats True t (c t.operations)) : Repeats True t (getOperations >>= c) := by
  refine Tabled.Keeps.read rfl
    (Tabled.Keeps.mono h fun t1 a _ r1 ha => ⟨ha.1, fun _ rest t' p => ?_⟩)
  obtain ⟨a', t'', run, same, carries⟩ := ha.2 trivial rest t' p
  refine ⟨a', t'', ?_, same, carries⟩
  show c (.withLevels (t'.limits.maxDepth - t'.depth)) t' = _
  rw [p.limits, p.depth, r1.limits, r1.depth]
  exact run

theorem repeats_evaluate {t : TypeTable} (s : t.Sound) {id : TypeId} (hid : t.Has id) :
    Repeats True t (evaluate id) :=
  repeats_getOperations (Operations.repeats_withLevels.evaluate s hid)

/-- **Comparing two types again, at the same depth, gives the same answer.** -/
theorem repeats_isSubtype {t : TypeTable} (s : t.Sound) {sub sup : TypeId}
    (hsub : t.Has sub) (hsup : t.Has sup) : Repeats True t (isSubtype sub sup) :=
  repeats_getOperations (Operations.repeats_withLevels.subtype s hsub hsup)

end GradualTyping
